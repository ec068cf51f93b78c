import SdlCompiler.Numeric.Binary64

/-!
# The fewest digits that read back

`shortest` writes a binary number with the fewest significant digits whose decimal value is
nearer to it than to any other binary number; of several such values, the nearest, and the
upper one of two equally near. The digits stand in positional form, without an exponent and
without a point after a whole number.
-/

namespace SdlCompiler.Numeric.Binary64

/-- The significant digits of a number and the place of the point: `0.d₁d₂… · 10 ^ point`. -/
structure Digits where
  digits : List Char
  point : Int
deriving DecidableEq, Repr

/-- The midpoint below the number, in quarters of a unit. The gap below a power of two is half
the gap above it. -/
def lowerEnd (x : Binary64) : Nat :=
  let gap := Nat.pow 2 x.scale
  let below := if x.fraction = 0 ∧ 0 < x.scale then gap else 2 * gap
  4 * x.magnitude - below

/-- The midpoint above the number, in quarters of a unit. -/
def upperEnd (x : Binary64) : Nat :=
  4 * x.magnitude + 2 * Nat.pow 2 x.scale

/-- Whether `num / den` quarters of a unit read back as the number. The midpoints do when the
significand is even. -/
def readsBack (x : Binary64) (num den : Nat) : Bool :=
  if x.significand % 2 = 0 then
    x.lowerEnd * den ≤ num && num ≤ x.upperEnd * den
  else
    decide (x.lowerEnd * den < num) && decide (num < x.upperEnd * den)

/-- The number of digits before the point, negative for zeros after it:
`10 ^ (point - 1) ≤ x < 10 ^ point`. -/
def pointOf (x : Binary64) : Int :=
  let whole := x.magnitude / Nat.pow 2 1074
  if 0 < whole then ((Nat.toDigits 10 whole).length : Int)
  else
    let zeros := (List.range 330).find? fun k => Nat.pow 2 1074 ≤ x.magnitude * Nat.pow 10 (k + 1)
    Int.negOfNat (zeros.getD 0)

/-- The best decimal with `count` significant digits, if it reads back. -/
def withDigits? (x : Binary64) (count : Nat) : Option Nat :=
  let places : Int := count - x.pointOf
  -- One step of the decimal grid is `step / den` quarters of a unit.
  let step := 4 * Nat.pow 2 1074 * Nat.pow 10 (-places).toNat
  let den := Nat.pow 10 places.toNat
  let value := 4 * x.magnitude * den
  let low := value / step
  let high := low + 1
  let lowHolds := x.readsBack (low * step) den
  let highHolds := x.readsBack (high * step) den
  if lowHolds && highHolds then
    if value - low * step < high * step - value then some low else some high
  else if lowHolds then some low
  else if highHolds then some high
  else none

/-- The fewest digits that read back, of a number other than zero. -/
def shortestDigits (x : Binary64) : Digits :=
  match (List.range 17).findSome? fun k => (x.withDigits? (k + 1)).map fun n => (k + 1, n) with
  | some (count, n) =>
    let digits := Nat.toDigits 10 n
    -- Rounding up to a power of ten adds a digit before the point.
    ⟨(digits.reverse.dropWhile (· == '0')).reverse, x.pointOf + (digits.length - count : Int)⟩
  | none => ⟨['0'], 0⟩

/-- Digits in positional form. -/
def Digits.positional (d : Digits) : List Char :=
  let count := d.digits.length
  if d.point ≤ 0 then '0' :: '.' :: (List.replicate (-d.point).toNat '0' ++ d.digits)
  else if (count : Int) ≤ d.point then d.digits ++ List.replicate (d.point.toNat - count) '0'
  else d.digits.take d.point.toNat ++ '.' :: d.digits.drop d.point.toNat

/-- The shortest text that reads back as the number. -/
def shortest (x : Binary64) : List Char :=
  if x.isNaN then "NaN".toList
  else
    let unsigned :=
      if !x.isFinite then "inf".toList
      else if x.magnitude = 0 then ['0']
      else x.shortestDigits.positional
    if x.isNegative then '-' :: unsigned else unsigned

end SdlCompiler.Numeric.Binary64
