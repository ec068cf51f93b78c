import Mathlib.Algebra.Order.Group.Nat
import Mathlib.Data.List.Basic
import SdlCompiler.Wire.Message

/-!
# Records read back

What `writeRecords` writes, `readRecords?` reads, as long as the numbers of the records are ones
that a key can hold and no contents are longer than a length can say.
-/

namespace SdlCompiler.Wire

/-! ## Numbers -/

namespace Varint

/-- The last of the bytes holds one bit, and each of those before it seven. -/
theorem readGroups?_groups (more n : Nat) (rest : List UInt8) (fits : n < 2 ^ (7 * more + 1)) :
    readGroups? (more + 1) (groups more n ++ rest) = some (n, rest) := by
  induction more generalizing n with
  | zero =>
    have bit : n = 0 ∨ n = 1 := by omega
    rcases bit with rfl | rfl <;> rfl
  | succ more ih =>
    rw [groups]
    split
    · rename_i low
      have value : (UInt8.ofNat n).toNat = n := by
        rw [UInt8.toNat_ofNat']
        omega
      have last : UInt8.ofNat n < 128 := by
        rw [UInt8.lt_iff_toNat_lt, value]
        exact low
      simp [readGroups?, last, value]
    · -- Seven bits are in this byte, and the others in what follows it.
      rename_i high
      have value : (UInt8.ofNat (n % 128 + 128)).toNat = n % 128 + 128 := by
        rw [UInt8.toNat_ofNat']
        omega
      have continued : ¬UInt8.ofNat (n % 128 + 128) < 128 := by
        rw [UInt8.lt_iff_toNat_lt, value]
        exact Nat.not_lt.2 (Nat.le_add_left _ _)
      have smaller : n / 128 < 2 ^ (7 * more + 1) := by
        apply Nat.div_lt_of_lt_mul
        have exponent : 7 * (more + 1) + 1 = 7 + (7 * more + 1) := by omega
        rwa [exponent, Nat.pow_add] at fits
      rw [List.cons_append, readGroups?, if_neg continued, ih _ smaller]
      simp only [value, Option.bind_eq_bind, Option.bind_some, Option.pure_def, Option.some.injEq,
        Prod.mk.injEq, and_true]
      omega

theorem read?_encode (n : UInt64) (rest : List UInt8) :
    read? (encode n ++ rest) = some (n, rest) := by
  rw [read?, encode, readGroups?_groups 9 n.toNat rest n.toNat_lt]
  simp

theorem encode_ne_nil (n : UInt64) : encode n ≠ [] := by
  unfold encode groups
  split <;> simp

end Varint

theorem readLittleEndian?_littleEndian (count n : Nat) (rest : List UInt8)
    (fits : n < 256 ^ count) :
    readLittleEndian? count (littleEndian count n ++ rest) = some (n, rest) := by
  induction count generalizing n with
  | zero =>
    have zero : n = 0 := by omega
    rw [zero]
    rfl
  | succ count ih =>
    have smaller : n / 256 < 256 ^ count :=
      Nat.div_lt_of_lt_mul (by rwa [← Nat.pow_succ'])
    rw [littleEndian, List.cons_append, readLittleEndian?, ih _ smaller]
    simp only [UInt8.toNat_ofNat', Option.bind_eq_bind, Option.bind_some, Option.pure_def,
      Option.some.injEq, Prod.mk.injEq, and_true]
    omega

/-! ## Records -/

/-- A number that the key of a record can hold. -/
def ValidNumber (number : Nat) : Prop :=
  0 < number ∧ number < 2 ^ 29
deriving Decidable

/-- A record that messages are written with: groups are read, but never written. -/
structure Record.Writable (r : Record) : Prop where
  number : ValidNumber r.number
  payload : ∀ levels, r.payload ≠ .group levels

theorem readKey?_key (number kind : Nat) (rest : List UInt8) (valid : ValidNumber number)
    (kindFits : kind < 8) :
    readKey? (Record.key number kind ++ rest) = some (number, kind, rest) := by
  obtain ⟨positive, bounded⟩ := valid
  have value : (UInt64.ofNat (8 * number + kind)).toNat = 8 * number + kind := by
    rw [UInt64.toNat_ofNat']
    omega
  have inRange : 8 * number + kind < Nat.pow 2 32 ∧ 8 ≤ 8 * number + kind := by
    constructor
    · show 8 * number + kind < 2 ^ 32
      omega
    · omega
  rw [readKey?, Record.key, Varint.read?_encode]
  simp only [Option.bind_eq_bind, Option.bind_some, value, if_pos inRange, Option.some.injEq,
    Prod.mk.injEq, and_true]
  omega

/-- The kind of a payload that is no group, as a key has it. -/
def Payload.kind : Payload → Nat
  | varint _ => 0
  | fixed64 _ => 1
  | bytes _ => 2
  | fixed32 _ => 5
  | group _ => 3

/-- What follows the key of a record. -/
def Payload.body : Payload → List UInt8
  | varint n => Varint.encode n
  | fixed64 n => littleEndian 8 n.toNat
  | bytes contents => Varint.encode (UInt64.ofNat contents.length) ++ contents
  | fixed32 n => littleEndian 4 n.toNat
  | group _ => []

theorem readPayload?_body (payload : Payload) (rest : List UInt8)
    (noGroup : ∀ levels, payload ≠ .group levels) (fits : payload.body.length < 2 ^ 64) :
    readPayload? payload.kind (payload.body ++ rest) = some (payload, rest) := by
  cases payload with
  | varint n => simp [readPayload?, Payload.kind, Payload.body, Varint.read?_encode]
  | fixed64 n =>
    simp [readPayload?, Payload.kind, Payload.body,
      readLittleEndian?_littleEndian 8 n.toNat rest n.toNat_lt]
  | bytes contents =>
    have value : (UInt64.ofNat contents.length).toNat = contents.length := by
      rw [UInt64.toNat_ofNat']
      apply Nat.mod_eq_of_lt
      rw [Payload.body, List.length_append] at fits
      omega
    simp [readPayload?, Payload.kind, Payload.body, Varint.read?_encode, splitBytes?, value,
      -UInt64.toNat_ofNat']
  | fixed32 n =>
    simp [readPayload?, Payload.kind, Payload.body,
      readLittleEndian?_littleEndian 4 n.toNat rest n.toNat_lt]
  | group levels => exact absurd rfl (noGroup levels)

namespace Record

theorem Writable.toBytes_eq {r : Record} (writable : r.Writable) :
    r.toBytes = key r.number r.payload.kind ++ r.payload.body := by
  obtain ⟨number, payload⟩ := r
  cases payload with
  | group levels => exact absurd rfl (writable.payload levels)
  | bytes contents => exact List.append_assoc _ _ _
  | varint n | fixed64 n | fixed32 n => rfl

theorem Writable.kind_mem {r : Record} (writable : r.Writable) :
    r.payload.kind ∈ [0, 1, 2, 5] := by
  obtain ⟨number, payload⟩ := r
  cases payload with
  | group levels => exact absurd rfl (writable.payload levels)
  | varint n | fixed64 n | bytes contents | fixed32 n => simp [Payload.kind]

theorem toBytes_ne_nil (r : Record) : r.toBytes ≠ [] := by
  have key : ∀ kind, Record.key r.number kind ≠ [] := fun _ => Varint.encode_ne_nil _
  unfold toBytes
  split <;> simp [key]

/-- A record in front of others is read first. -/
theorem Writable.readUpTo?_toBytes {r : Record} (writable : r.Writable)
    (fits : r.toBytes.length < 2 ^ 64) (count : Nat) (rest : List UInt8) :
    readUpTo? (count + 1) none (r.toBytes ++ rest) =
      (readUpTo? count none rest).map fun (more, rest) => (r :: more, rest) := by
  have kind := writable.kind_mem
  have nonempty : r.toBytes ++ rest ≠ [] :=
    List.append_ne_nil_of_left_ne_nil r.toBytes_ne_nil rest
  -- Only an empty list is read without a key, and a record has at least the bytes of its key.
  rw [readUpTo?.eq_3 _ _ _ (fun _ => nonempty), writable.toBytes_eq]
  rw [writable.toBytes_eq, List.length_append] at fits
  have key := readKey?_key r.number r.payload.kind (r.payload.body ++ rest) writable.number
    (by simp only [List.mem_cons, List.not_mem_nil, or_false] at kind; omega)
  have body := readPayload?_body r.payload rest writable.payload (by omega)
  have notGroup : r.payload.kind ≠ 4 ∧ r.payload.kind ≠ 3 := by
    simp only [List.mem_cons, List.not_mem_nil, or_false] at kind
    omega
  rw [List.append_assoc, key]
  simp only [Option.bind_eq_bind, Option.bind_some, if_neg notGroup.1, if_neg notGroup.2, body]
  cases readUpTo? count none rest <;> rfl

end Record

/-! ## Lists of records -/

theorem writeRecords_append (rs more : List Record) :
    writeRecords (rs ++ more) = writeRecords rs ++ writeRecords more :=
  List.flatMap_append

theorem length_le_writeRecords (rs : List Record) : rs.length ≤ (writeRecords rs).length := by
  induction rs with
  | nil => exact Nat.zero_le _
  | cons r rs ih =>
    have positive := List.length_pos_iff.2 r.toBytes_ne_nil
    simp only [writeRecords, List.flatMap_cons, List.length_append, List.length_cons] at ih ⊢
    omega

theorem readUpTo?_writeRecords (rs : List Record) (count : Nat) (enough : rs.length ≤ count)
    (writable : ∀ r ∈ rs, r.Writable) (fits : (writeRecords rs).length < 2 ^ 64) :
    readUpTo? count none (writeRecords rs) = some (rs, []) := by
  induction rs generalizing count with
  | nil => cases count <;> rfl
  | cons r rs ih =>
    obtain ⟨count, rfl⟩ : ∃ more, count = more + 1 := Nat.exists_eq_add_one.2 (by
      exact Nat.lt_of_lt_of_le (Nat.succ_pos _) enough)
    simp only [writeRecords, List.flatMap_cons, List.length_append] at fits ih ⊢
    rw [(writable r List.mem_cons_self).readUpTo?_toBytes (by omega),
      ih count (Nat.le_of_succ_le_succ enough)
        (fun r member => writable r (List.mem_cons_of_mem _ member)) (by omega)]
    rfl

theorem readRecords?_writeRecords (rs : List Record) (writable : ∀ r ∈ rs, r.Writable)
    (fits : (writeRecords rs).length < 2 ^ 64) :
    readRecords? (writeRecords rs) = some rs := by
  rw [readRecords?, readUpTo?_writeRecords rs _ (length_le_writeRecords rs) writable fits]
  rfl

end SdlCompiler.Wire
