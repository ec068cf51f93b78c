import SdlCompiler.Numeric.Binary64
import SdlCompiler.Numeric.Integer

/-!
# Reading decimal numbers

A decimal number is an optional sign, digits with or without a point among them, and an
optional exponent; or the word `inf`, `infinity` or `nan` in any case. `Binary64.read?` gives
the nearest binary number.
-/

namespace SdlCompiler.Numeric

/-- The number `digits · 10 ^ exponent`. -/
structure Decimal where
  negative : Bool
  digits : Nat
  exponent : Int
deriving DecidableEq, Repr

namespace Decimal

/-- A sign at the front of a text, and the rest. -/
def takeSign : List Char → Bool × List Char
  | '-' :: rest => (true, rest)
  | '+' :: rest => (false, rest)
  | text => (false, text)

/-- An exponent part that runs to the end of the text. -/
def exponentPart? : List Char → Option Int
  | [] => some 0
  | c :: rest =>
    if c = 'e' ∨ c = 'E' then
      let (negative, digits) := takeSign rest
      (digits? digits).map fun n => if negative then -(n : Int) else n
    else none

/-- A decimal number without its sign. -/
def unsigned? (negative : Bool) (text : List Char) : Option Decimal := do
  let whole := text.takeWhile isDigit
  let (fraction, rest) :=
    match text.dropWhile isDigit with
    | '.' :: rest => (rest.takeWhile isDigit, rest.dropWhile isDigit)
    | rest => ([], rest)
  if whole = [] ∧ fraction = [] then none
  let shift ← exponentPart? rest
  return ⟨negative, digitsValue (whole ++ fraction), shift - fraction.length⟩

/-- The nearest binary number. Far outside the range of binary numbers, the count of digits
alone tells that it is zero or infinite. -/
def toBinary64 (d : Decimal) : Binary64 :=
  let top := ((Nat.toDigits 10 d.digits).length : Int) + d.exponent
  if d.digits = 0 ∨ top < -330 then .zero d.negative
  else if 310 < top then .infinity d.negative
  else if 0 ≤ d.exponent then .nearest d.negative (d.digits * Nat.pow 10 d.exponent.toNat) 1
  else .nearest d.negative d.digits (Nat.pow 10 (-d.exponent).toNat)

end Decimal

namespace Binary64

/-- The number that the whole text writes. -/
def read? (text : List Char) : Option Binary64 :=
  let (negative, rest) := Decimal.takeSign text
  let word := String.ofList (rest.map Char.toLower)
  if word = "inf" ∨ word = "infinity" then some (infinity negative)
  else if word = "nan" then some nan
  else (Decimal.unsigned? negative rest).map Decimal.toBinary64

/-- The finite number that the whole text writes. -/
def readFinite? (text : List Char) : Option Binary64 :=
  (read? text).filter isFinite

end Binary64

end SdlCompiler.Numeric
