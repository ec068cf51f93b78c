import SdlCompiler.Numeric.Binary64

/-!
# Numbers with six decimal places

The exact value, rounded at the sixth place with a half going to the even digit. There is
never an exponent, and a negative zero keeps its sign.
-/

namespace SdlCompiler.Numeric.Binary64

/-- Digits of `n` with zeros before them up to `width` places. -/
def padded (width n : Nat) : List Char :=
  let digits := Nat.toDigits 10 n
  List.replicate (width - digits.length) '0' ++ digits

/-- The magnitude counted in millionths. -/
def millionths (x : Binary64) : Nat :=
  roundDiv (x.magnitude * Nat.pow 10 6) (Nat.pow 2 1074)

def unsignedFixed (x : Binary64) : List Char :=
  Nat.toDigits 10 (x.millionths / Nat.pow 10 6) ++ '.' :: padded 6 (x.millionths % Nat.pow 10 6)

/-- The number with six decimal places. -/
def fixed (x : Binary64) : List Char :=
  if x.isNaN then "NaN".toList
  else
    let unsigned := if x.isFinite then x.unsignedFixed else "inf".toList
    if x.isNegative then '-' :: unsigned else unsigned

end SdlCompiler.Numeric.Binary64
