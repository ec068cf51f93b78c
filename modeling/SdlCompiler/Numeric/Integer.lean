/-!
# Integers of a fixed width in decimal

An optional sign and at least one digit, with a value that the width holds.
-/

namespace SdlCompiler.Numeric

def isDigit (c : Char) : Bool :=
  '0' ≤ c && c ≤ '9'

/-- The number written by the digits, most significant first. -/
def digitsValue (digits : List Char) : Nat :=
  digits.foldl (fun n c => 10 * n + (c.toNat - '0'.toNat)) 0

def digits? (text : List Char) : Option Nat :=
  if text ≠ [] ∧ text.all isDigit then some (digitsValue text) else none

/-- The integer that the whole text writes, of any size. -/
def signed? : List Char → Option Int
  | '-' :: rest => (digits? rest).map fun n => -(n : Int)
  | '+' :: rest => (digits? rest).map Int.ofNat
  | text => (digits? text).map Int.ofNat

def int64? (text : List Char) : Option Int64 := do
  let n ← signed? text
  if Int64.minValue.toInt ≤ n ∧ n ≤ Int64.maxValue.toInt then some (Int64.ofInt n) else none

def int32? (text : List Char) : Option Int32 := do
  let n ← signed? text
  if Int32.minValue.toInt ≤ n ∧ n ≤ Int32.maxValue.toInt then some (Int32.ofInt n) else none

end SdlCompiler.Numeric
