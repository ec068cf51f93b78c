import Mathlib.Data.List.Basic

/-!
# Texts as bytes

The bytes of an array and of a text, as lists. A character below U+0080 is one byte, and of any
other character no byte is less than 128.
-/

namespace SdlCompiler.Text

/-! ## Arrays of bytes -/

theorem toList_loop_eq (bytes : ByteArray) (i : Nat) (before : List UInt8) :
    ByteArray.toList.loop bytes i before = before.reverse ++ bytes.data.toList.drop i := by
  fun_induction ByteArray.toList.loop bytes i before with
  | case1 i before within ih =>
    have read : bytes.get! i = bytes.data.toList[i] := by
      obtain ⟨data⟩ := bytes
      exact getElem!_pos data i within
    rw [ih, List.reverse_cons, read, List.append_assoc, List.singleton_append,
      ← List.drop_eq_getElem_cons]
  | case2 i before past =>
    rw [List.drop_eq_nil_of_le (Nat.not_lt.1 past), List.append_nil]

theorem toList_eq (bytes : ByteArray) : bytes.toList = bytes.data.toList := by
  rw [ByteArray.toList, toList_loop_eq]
  rfl

theorem getElem?_eq (bytes : ByteArray) (i : Nat) : bytes[i]? = bytes.toList[i]? := by
  rw [toList_eq]
  by_cases within : i < bytes.size
  · rw [getElem?_pos bytes i within, List.getElem?_eq_getElem within]
    rfl
  · rw [getElem?_neg bytes i within, List.getElem?_eq_none (Nat.not_lt.1 within)]

theorem length_toList (bytes : ByteArray) : bytes.toList.length = bytes.size := by
  rw [toList_eq]
  rfl

theorem toList_extract (bytes : ByteArray) (start count : Nat) :
    (bytes.extract start (start + count)).toList = (bytes.toList.drop start).take count := by
  rw [toList_eq, toList_eq, ByteArray.data_extract]
  simp [List.take_drop]

/-! ## Characters -/

/-- The bytes of a text. -/
def bytesOf (text : List Char) : List UInt8 :=
  text.flatMap String.utf8EncodeChar

theorem toList_toUTF8 (text : String) : text.toUTF8.toList = bytesOf text.toList := by
  rw [toList_eq, ← String.ofList_toList (s := text)]
  show (String.ofList text.toList).toByteArray.data.toList = _
  rw [String.toByteArray_ofList, List.utf8Encode, List.data_toByteArray, String.toList_ofList]
  rfl

theorem fromUTF8?_bytesOf (text : List Char) :
    String.fromUTF8? (bytesOf text).toByteArray = some (String.ofList text) := by
  have valid : (bytesOf text).toByteArray.IsValidUTF8 := (String.ofList text).isValidUTF8
  rw [String.fromUTF8?, dif_pos valid]
  rfl

theorem utf8EncodeChar_low {c : Char} (low : c.toNat < 128) :
    String.utf8EncodeChar c = [UInt8.ofNat c.toNat] :=
  if_pos (Nat.le_of_lt_succ low)

/-- The first byte of a character tells that a character starts there. -/
theorem utf8EncodeChar_high {c : Char} (high : 128 ≤ c.toNat) :
    ∃ first rest, String.utf8EncodeChar c = first :: rest ∧ 192 ≤ first.toNat ∧
      ∀ b ∈ rest, 128 ≤ b.toNat := by
  have notLow : ¬c.val.toNat ≤ 127 := Nat.not_le.2 high
  unfold String.utf8EncodeChar
  dsimp only
  rw [if_neg notLow]
  split_ifs
  all_goals
    refine ⟨_, _, rfl, ?_, ?_⟩
    · rw [UInt8.toNat_ofNat']
      omega
    · simp only [List.mem_cons, List.not_mem_nil, or_false, forall_eq_or_imp, forall_eq,
        UInt8.toNat_ofNat']
      omega

theorem le_of_mem_utf8EncodeChar {c : Char} (high : 128 ≤ c.toNat) {b : UInt8}
    (member : b ∈ String.utf8EncodeChar c) : 128 ≤ b.toNat := by
  obtain ⟨first, rest, encoded, firstHigh, restHigh⟩ := utf8EncodeChar_high high
  rw [encoded] at member
  rcases List.mem_cons.1 member with rfl | inRest
  · omega
  · exact restHigh b inRest

/-- A character that is one byte is where its byte is. -/
theorem mem_of_mem_bytesOf {text : List Char} {c : Char} (low : c.toNat < 128)
    (member : UInt8.ofNat c.toNat ∈ bytesOf text) : c ∈ text := by
  obtain ⟨d, inText, inChar⟩ := List.mem_flatMap.1 member
  have sameNat : (UInt8.ofNat c.toNat).toNat = c.toNat := by
    rw [UInt8.toNat_ofNat']
    exact Nat.mod_eq_of_lt (Nat.lt_trans low (by decide))
  by_cases lowToo : d.toNat < 128
  · rw [utf8EncodeChar_low lowToo, List.mem_singleton, ← UInt8.toNat_inj, sameNat,
      UInt8.toNat_ofNat', Nat.mod_eq_of_lt (Nat.lt_trans lowToo (by decide))] at inChar
    rwa [Char.toNat_inj.1 inChar]
  · have high := le_of_mem_utf8EncodeChar (Nat.not_lt.1 lowToo) inChar
    omega

end SdlCompiler.Text
