/-!
# Binary floating point numbers of 64 bits

A number is its bit pattern. A finite one is a whole multiple of `2⁻¹⁰⁷⁴`; `magnitude` is
that multiple without its sign, so that every comparison is one of natural numbers.
-/

namespace SdlCompiler.Numeric

structure Binary64 where
  bits : UInt64
deriving DecidableEq, Repr, Inhabited

/-- The quotient rounded to the nearest natural number, a half to the even one. -/
def roundDiv (num den : Nat) : Nat :=
  let quotient := num / den
  let twice := 2 * (num % den)
  if twice < den then quotient
  else if den < twice then quotient + 1
  else quotient + quotient % 2

namespace Binary64

def isNegative (x : Binary64) : Bool :=
  x.bits.toNat / Nat.pow 2 63 == 1

/-- The exponent field. -/
def exponent (x : Binary64) : Nat :=
  x.bits.toNat / Nat.pow 2 52 % Nat.pow 2 11

/-- The fraction field. -/
def fraction (x : Binary64) : Nat :=
  x.bits.toNat % Nat.pow 2 52

def isFinite (x : Binary64) : Bool :=
  x.exponent != 2047

def isNaN (x : Binary64) : Bool :=
  x.exponent == 2047 && x.fraction != 0

def significand (x : Binary64) : Nat :=
  if x.exponent = 0 then x.fraction else Nat.pow 2 52 + x.fraction

/-- The power of two by which the significand counts in units of `2⁻¹⁰⁷⁴`. -/
def scale (x : Binary64) : Nat :=
  x.exponent - 1

/-- The absolute value of a finite number in units of `2⁻¹⁰⁷⁴`. -/
def magnitude (x : Binary64) : Nat :=
  x.significand * Nat.pow 2 x.scale

/-- The number with this significand and scale. A significand of `2⁵³` counts as `2⁵²` of the
next scale, and past the last scale lies infinity. -/
def ofParts (negative : Bool) (significand scale : Nat) : Binary64 :=
  let unsigned :=
    if significand < Nat.pow 2 52 then significand
    else if scale ≤ 2045 then (scale + 1) * Nat.pow 2 52 + (significand - Nat.pow 2 52)
    else 2047 * Nat.pow 2 52
  ⟨UInt64.ofNat ((if negative then Nat.pow 2 63 else 0) + unsigned)⟩

def zero (negative : Bool) : Binary64 :=
  ofParts negative 0 0

def infinity (negative : Bool) : Binary64 :=
  ofParts negative (Nat.pow 2 52) 2046

def nan : Binary64 :=
  ⟨UInt64.ofNat (2047 * Nat.pow 2 52 + Nat.pow 2 51)⟩

/-- The number nearest to `num / den`, of two equally near the one with even significand. -/
def nearest (negative : Bool) (num den : Nat) : Binary64 :=
  let units := num * Nat.pow 2 1074
  let scale := Nat.log2 (units / den) - 52
  ofParts negative (roundDiv units (den * Nat.pow 2 scale)) scale

end Binary64

end SdlCompiler.Numeric
