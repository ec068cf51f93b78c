/-!
# Variable-length integers

A number below `2 ^ 64` in groups of seven bits, the lowest first. A byte of 128 or more has
another byte after it. There are at most ten bytes, and the tenth holds a single bit.
-/

namespace SdlCompiler.Wire.Varint

/-- A number in at most `more + 1` bytes. -/
def groups : Nat → Nat → List UInt8
  | 0, n => [UInt8.ofNat n]
  | more + 1, n =>
    if n < 128 then [UInt8.ofNat n]
    else UInt8.ofNat (n % 128 + 128) :: groups more (n / 128)

def encode (n : UInt64) : List UInt8 :=
  groups 9 n.toNat

/-- The number at the front of the bytes, in at most `limit` of them, and what follows. -/
def readGroups? : Nat → List UInt8 → Option (Nat × List UInt8)
  | 0, _ => none
  | _ + 1, [] => none
  | more + 1, b :: rest =>
    if b < 128 then
      if more = 0 ∧ 1 < b then none else some (b.toNat, rest)
    else do
      let (high, rest) ← readGroups? more rest
      return (b.toNat % 128 + 128 * high, rest)

def read? (bytes : List UInt8) : Option (UInt64 × List UInt8) := do
  let (n, rest) ← readGroups? 10 bytes
  return (UInt64.ofNat n, rest)

end SdlCompiler.Wire.Varint
