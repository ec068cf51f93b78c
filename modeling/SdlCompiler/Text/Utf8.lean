/-!
# Bytes that should be text

Reads bytes as UTF-8 where not all of them need be. Bytes that begin a character and do not end
it count as one mistake, up to the byte that cannot continue it; any other byte that is no
character is a mistake of its own. Each mistake becomes U+FFFD.
-/

namespace SdlCompiler.Text.Utf8

/-- The number of bytes that have to follow a first byte, with the bounds of the next one. -/
def expected? (first : Nat) : Option (Nat × Nat × Nat) :=
  if first < 0xC2 then none
  else if first ≤ 0xDF then some (1, 0x80, 0xBF)
  else if first = 0xE0 then some (2, 0xA0, 0xBF)
  else if first = 0xED then some (2, 0x80, 0x9F)
  else if first ≤ 0xEF then some (2, 0x80, 0xBF)
  else if first = 0xF0 then some (3, 0x90, 0xBF)
  else if first ≤ 0xF3 then some (3, 0x80, 0xBF)
  else if first = 0xF4 then some (3, 0x80, 0x8F)
  else none

/-- The bits that a first byte gives to a character. -/
def leadingBits (first : Nat) : Nat :=
  if first ≤ 0xDF then first % 32 else if first ≤ 0xEF then first % 16 else first % 8

/-- Reads the bytes that follow in a character whose bits so far are `code`. The result has no
character if one of them does not fit. -/
def follow (count low high code : Nat) (bytes : List UInt8) : Option Char × List UInt8 :=
  match count, bytes with
  | 0, rest => (some (Char.ofNat code), rest)
  | _ + 1, [] => (none, [])
  | count + 1, b :: rest =>
    if low ≤ b.toNat ∧ b.toNat ≤ high then follow count 0x80 0xBF (code * 64 + b.toNat % 64) rest
    else (none, b :: rest)

theorem follow_length_le (count low high code : Nat) (bytes : List UInt8) :
    (follow count low high code bytes).2.length ≤ bytes.length := by
  fun_induction follow count low high code bytes with
  | case1 | case2 | case4 => exact Nat.le_refl _
  | case3 low high code count b rest _ ih => exact Nat.le_succ_of_le ih

/-- The character at a first byte, and the bytes after it. -/
def next (b : UInt8) (rest : List UInt8) : Option Char × List UInt8 :=
  if b.toNat < 0x80 then (some (Char.ofNat b.toNat), rest)
  else
    match expected? b.toNat with
    | none => (none, rest)
    | some (count, low, high) => follow count low high (leadingBits b.toNat) rest

theorem next_length_le (b : UInt8) (rest : List UInt8) :
    (next b rest).2.length ≤ rest.length := by
  unfold next
  split
  · simp
  · split
    · simp
    · apply follow_length_le

def replacement : Char := Char.ofNat 0xFFFD

/-- The text of the bytes, with a replacement for each mistake. -/
def decodeLossy : List UInt8 → List Char
  | [] => []
  | b :: rest =>
    have := next_length_le b rest
    (next b rest).1.getD replacement :: decodeLossy (next b rest).2
termination_by bytes => bytes.length
decreasing_by simp only [List.length_cons]; omega

end SdlCompiler.Text.Utf8
