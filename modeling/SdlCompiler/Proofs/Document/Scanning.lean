import SdlCompiler.Document.IntegerScan
import SdlCompiler.Proofs.Text.Bytes

/-!
# The search for integers, over characters

The pass over the bytes of a text never leaves the text and never cuts a character. It does what
the same pass over the characters of the text does, which is easier to follow.
-/

namespace SdlCompiler.Document.IntegerScan

/-! ## The pass over characters -/

def isLetter (c : Char) : Bool :=
  ('a' ≤ c && c ≤ 'z') || ('A' ≤ c && c ≤ 'Z')

/-- What goes on with a name. -/
def isNameChar (c : Char) : Bool :=
  isLetter c || Numeric.isDigit c || c == '_'

/-- What follows a float's digits, or a malformed number's. -/
def continuesNumberChar (c : Char) : Bool :=
  isLetter c || Numeric.isDigit c || c == '.' || c == '+' || c == '-'

/-- What follows the string whose contents stand at the front. A backslash covers the character
after it, even a quote. -/
def afterQuoted : List Char → List Char
  | [] => []
  | c :: rest =>
    if c = '"' ∨ c = '\n' then rest
    else if c = '\\' then
      match rest with
      | [] => []
      | _ :: rest => afterQuoted rest
    else afterQuoted rest

/-- What follows the block string whose contents stand at the front. -/
def afterBlock : List Char → List Char
  | [] => []
  | '"' :: '"' :: '"' :: rest => rest
  | '\\' :: '"' :: '"' :: '"' :: rest => afterBlock rest
  | _ :: rest => afterBlock rest

/-- What follows the string whose first quote has been read. -/
def afterString : List Char → List Char
  | '"' :: '"' :: rest => afterBlock rest
  | text => afterQuoted text

/-- Whether a number is a float, by what follows its first digits. -/
def isFloatBefore (rest : List Char) : Bool :=
  rest.head?.any fun c => c == '.' || c == 'e' || c == 'E'

theorem afterQuoted_length (text : List Char) : (afterQuoted text).length ≤ text.length := by
  fun_induction afterQuoted text with
  | case1 => exact Nat.le_refl _
  | case2 c rest ends => exact Nat.le_succ _
  | case3 ends => exact Nat.zero_le _
  | case4 ends covered rest ih => exact Nat.le_succ_of_le (Nat.le_succ_of_le ih)
  | case5 c rest ends covers ih => exact Nat.le_succ_of_le ih

theorem afterBlock_length (text : List Char) : (afterBlock text).length ≤ text.length := by
  fun_induction afterBlock text with
  | case1 => exact Nat.le_refl _
  | case2 rest => simp only [List.length_cons]; omega
  | case3 rest ih => simp only [List.length_cons]; omega
  | case4 c rest _ _ ih => exact Nat.le_succ_of_le ih

theorem afterString_length (text : List Char) : (afterString text).length ≤ text.length := by
  unfold afterString
  split
  · exact Nat.le_succ_of_le (Nat.le_succ_of_le (afterBlock_length _))
  · exact afterQuoted_length _

/-- The first integer that 64 bits do not hold. -/
def overflow? : List Char → Option (List Char)
  | [] => none
  | c :: rest =>
    if c = '#' then overflow? (rest.dropWhile (· != '\n'))
    else if c = '"' then overflow? (afterString rest)
    else if isLetter c || c == '_' then overflow? (rest.dropWhile isNameChar)
    else if c == '-' || Numeric.isDigit c then
      let literal := c :: rest.takeWhile Numeric.isDigit
      let after := rest.dropWhile Numeric.isDigit
      if !isFloatBefore after && literal != ['-'] && (Numeric.int64? literal).isNone then
        some literal
      else overflow? (after.dropWhile continuesNumberChar)
    else overflow? rest
termination_by text => text.length
decreasing_by
  · exact Nat.lt_succ_of_le (List.dropWhile_sublist _).length_le
  · exact Nat.lt_succ_of_le (afterString_length rest)
  · exact Nat.lt_succ_of_le (List.dropWhile_sublist _).length_le
  · exact Nat.lt_succ_of_le
      (((List.dropWhile_sublist _).trans (List.dropWhile_sublist _)).length_le)
  · exact Nat.lt_succ_self _

/-! ## Bytes and characters -/

/-- The text from a place on. -/
def At (src : ByteArray) (pos : Nat) (text : List Char) : Prop :=
  src.toList.drop pos = Text.bytesOf text

theorem bytesOf_cons (c : Char) (text : List Char) :
    Text.bytesOf (c :: text) = String.utf8EncodeChar c ++ Text.bytesOf text :=
  List.flatMap_cons

theorem bytesOf_append (text more : List Char) :
    Text.bytesOf (text ++ more) = Text.bytesOf text ++ Text.bytesOf more :=
  List.flatMap_append

theorem drop_of_append {src : ByteArray} {pos : Nat} {bytes more : List UInt8}
    (here : src.toList.drop pos = bytes ++ more) : src.toList.drop (pos + bytes.length) = more := by
  rw [← List.drop_drop, here, List.drop_left]

theorem drop_of_cons {src : ByteArray} {pos : Nat} {b : UInt8} {more : List UInt8}
    (here : src.toList.drop pos = b :: more) : src.toList.drop (pos + 1) = more := by
  rw [← List.drop_drop, here, List.drop_one, List.tail_cons]

theorem lt_size_of_drop {src : ByteArray} {pos : Nat} {b : UInt8} {more : List UInt8}
    (here : src.toList.drop pos = b :: more) : pos < src.size := by
  by_contra outside
  rw [List.drop_eq_nil_of_le (by rw [Text.length_toList]; omega)] at here
  exact absurd here nofun

theorem getElem?_of_drop {src : ByteArray} {pos : Nat} {bytes : List UInt8}
    (here : src.toList.drop pos = bytes) : src[pos]? = bytes.head? := by
  rw [Text.getElem?_eq, ← here, List.head?_drop]

theorem byteAt_of_drop {src : ByteArray} {pos : Nat} {b : UInt8} {more : List UInt8}
    (here : src.toList.drop pos = b :: more) : byteAt src pos = .ok b := by
  rw [byteAt, getElem?_of_drop here]
  rfl

/-- The bytes that are kept are skipped. -/
theorem skipWhile_eq (src : ByteArray) (keep : UInt8 → Bool) (pos : Nat) :
    skipWhile src keep pos = .ok (pos + ((src.toList.drop pos).takeWhile keep).length) := by
  fun_induction skipWhile src keep pos with
  | case1 pos within ih =>
    have inList : pos < src.toList.length := by rwa [Text.length_toList]
    have here := List.drop_eq_getElem_cons inList
    rw [byteAt_of_drop here, here]
    show (if keep src.toList[pos] = true then _ else _) = _
    split
    · rename_i kept
      rw [ih, List.takeWhile_cons_of_pos kept, List.length_cons]
      congr 1
      omega
    · rename_i stopped
      rw [List.takeWhile_cons_of_neg stopped]
      rfl
  | case2 pos outside =>
    rw [List.drop_eq_nil_of_le (by rw [Text.length_toList]; omega)]
    rfl

/-- A test of bytes and a test of characters agree if they do so below 128 and both have the same
answer on everything else. -/
structure Agree (keep : UInt8 → Bool) (keepChar : Char → Bool) (others : Bool) : Prop where
  byte_eq : ∀ {c : Char}, c.toNat < 128 → keep (UInt8.ofNat c.toNat) = keepChar c
  high_eq : ∀ {b : UInt8}, 128 ≤ b.toNat → keep b = others
  char_eq : ∀ {c : Char}, 128 ≤ c.toNat → keepChar c = others

namespace Agree

variable {keep : UInt8 → Bool} {keepChar : Char → Bool} {others : Bool}

/-- All bytes of a character are kept, or the first of them is not. -/
theorem encoded (agree : Agree keep keepChar others) (c : Char) :
    if keepChar c then ∀ b ∈ String.utf8EncodeChar c, keep b = true
    else ∃ first rest, String.utf8EncodeChar c = first :: rest ∧ keep first = false := by
  by_cases low : c.toNat < 128
  · rw [Text.utf8EncodeChar_low low]
    have same := agree.byte_eq low
    split
    · rename_i kept
      simpa [same] using kept
    · rename_i stopped
      exact ⟨_, [], rfl, by rw [same]; simpa using stopped⟩
  · have high : 128 ≤ c.toNat := Nat.not_lt.1 low
    rw [agree.char_eq high]
    split
    · rename_i kept
      intro b member
      rw [← kept]
      exact agree.high_eq (Text.le_of_mem_utf8EncodeChar high member)
    · rename_i stopped
      obtain ⟨first, rest, encoded, firstHigh, -⟩ := Text.utf8EncodeChar_high high
      exact ⟨first, rest, encoded, by rw [agree.high_eq (by omega)]; simpa using stopped⟩

theorem takeWhile_bytesOf (agree : Agree keep keepChar others) (text : List Char) :
    (Text.bytesOf text).takeWhile keep = Text.bytesOf (text.takeWhile keepChar) := by
  induction text with
  | nil => rfl
  | cons c text ih =>
    have encoded := agree.encoded c
    rw [bytesOf_cons]
    split at encoded
    · rename_i kept
      rw [List.takeWhile_append_of_pos encoded, ih, List.takeWhile_cons_of_pos kept, bytesOf_cons]
    · rename_i stopped
      obtain ⟨first, rest, bytes, refused⟩ := encoded
      rw [bytes, List.takeWhile_cons_of_neg stopped, List.cons_append,
        List.takeWhile_cons_of_neg (by simp [refused])]
      rfl

theorem head?_bytesOf (agree : Agree keep keepChar others) (text : List Char) :
    (Text.bytesOf text).head?.any keep = text.head?.any keepChar := by
  cases text with
  | nil => rfl
  | cons c text =>
    obtain ⟨first, rest, bytes⟩ :=
      List.exists_cons_of_ne_nil (String.utf8EncodeChar_ne_nil (c := c))
    have encoded := agree.encoded c
    rw [bytes] at encoded
    rw [bytesOf_cons, bytes, List.cons_append, List.head?_cons, List.head?_cons, Option.any_some,
      Option.any_some]
    split at encoded
    · rename_i kept
      rw [kept, encoded first List.mem_cons_self]
    · rename_i stopped
      obtain ⟨_, _, same, refused⟩ := encoded
      rw [(List.cons.inj same).1, refused]
      simpa using stopped

/-- Skipping bytes skips characters. -/
theorem skipWhile (agree : Agree keep keepChar others) {src : ByteArray} {pos : Nat}
    {text : List Char} (here : At src pos text) :
    ∃ stop, IntegerScan.skipWhile src keep pos = .ok stop ∧
      stop = pos + (Text.bytesOf (text.takeWhile keepChar)).length ∧
      At src stop (text.dropWhile keepChar) := by
  refine ⟨_, skipWhile_eq src keep pos, ?_, ?_⟩
  · rw [here, agree.takeWhile_bytesOf]
  · rw [here, agree.takeWhile_bytesOf]
    apply drop_of_append
    rw [here, ← bytesOf_append, List.takeWhile_append_dropWhile]

end Agree

/-! ## Tests -/

theorem byte_beq {c d : Char} (lowC : c.toNat < 128) (lowD : d.toNat < 128) :
    (UInt8.ofNat c.toNat == byte d) = (c == d) := by
  rw [Bool.eq_iff_iff, beq_iff_eq, beq_iff_eq, ← UInt8.toNat_inj, byte, UInt8.toNat_ofNat',
    UInt8.toNat_ofNat', ← Char.toNat_inj]
  omega

theorem high_beq {b : UInt8} {d : Char} (high : 128 ≤ b.toNat) (low : d.toNat < 128) :
    (b == byte d) = false := by
  rw [beq_eq_false_iff_ne, Ne, ← UInt8.toNat_inj, byte, UInt8.toNat_ofNat']
  omega

theorem ne_of_high {c : Char} (high : 128 ≤ c.toNat) {d : Char} (low : d.toNat < 128) : c ≠ d := by
  rintro rfl
  omega

theorem toNat_byte {c : Char} (low : c.toNat < 128) : (byte c).toNat = c.toNat := by
  rw [byte, UInt8.toNat_ofNat']
  omega

namespace Agree

variable {keep : UInt8 → Bool} {keepChar : Char → Bool} {others : Bool}

/-- Whether a character is a given one. -/
theorem beq (d : Char) (low : d.toNat < 128) : Agree (· == byte d) (· == d) false where
  byte_eq lowC := byte_beq lowC low
  high_eq high := high_beq high low
  char_eq high := beq_false_of_ne (ne_of_high high low)

/-- Whether a character is between two given ones. -/
theorem between (first last : Char) (lowFirst : first.toNat < 128) (lowLast : last.toNat < 128) :
    Agree (fun b => byte first ≤ b && b ≤ byte last) (fun c => first ≤ c && c ≤ last) false where
  byte_eq {c} low := by
    show (byte first ≤ byte c && byte c ≤ byte last) = _
    simp only [UInt8.le_iff_toNat_le, toNat_byte low, toNat_byte lowFirst, toNat_byte lowLast,
      Char.le_def, UInt32.le_iff_toNat_le]
    rfl
  high_eq {b} high := by
    have beyond : ¬b ≤ byte last := by
      rw [UInt8.le_iff_toNat_le, toNat_byte lowLast]
      omega
    rw [decide_eq_false beyond, Bool.and_false]
  char_eq {c} high := by
    have beyond : ¬c ≤ last := by
      rw [Char.le_def, UInt32.le_iff_toNat_le]
      exact Nat.not_le.2 (Nat.lt_of_lt_of_le lowLast high)
    rw [decide_eq_false beyond, Bool.and_false]

theorem or {keep' : UInt8 → Bool} {keepChar' : Char → Bool} (first : Agree keep keepChar false)
    (second : Agree keep' keepChar' false) :
    Agree (fun b => keep b || keep' b) (fun c => keepChar c || keepChar' c) false where
  byte_eq low := by rw [first.byte_eq low, second.byte_eq low]
  high_eq high := by rw [first.high_eq high, second.high_eq high, Bool.or_false]
  char_eq high := by rw [first.char_eq high, second.char_eq high, Bool.or_false]

theorem not (agree : Agree keep keepChar others) :
    Agree (fun b => !keep b) (fun c => !keepChar c) (!others) where
  byte_eq low := by rw [agree.byte_eq low]
  high_eq high := by rw [agree.high_eq high]
  char_eq high := by rw [agree.char_eq high]

end Agree

theorem agree_digit : Agree isDigitByte Numeric.isDigit false :=
  .between '0' '9' (by decide) (by decide)

theorem agree_letter : Agree isLetterByte isLetter false :=
  (Agree.between 'a' 'z' (by decide) (by decide)).or (.between 'A' 'Z' (by decide) (by decide))

theorem agree_name : Agree isNameByte isNameChar false :=
  (agree_letter.or agree_digit).or (.beq '_' (by decide))

theorem agree_continues : Agree continuesNumber continuesNumberChar false :=
  (((agree_letter.or agree_digit).or (.beq '.' (by decide))).or (.beq '+' (by decide))).or
    (.beq '-' (by decide))

theorem agree_float : Agree (fun b => b == byte '.' || b == byte 'e' || b == byte 'E')
    (fun c => c == '.' || c == 'e' || c == 'E') false :=
  ((Agree.beq '.' (by decide)).or (.beq 'e' (by decide))).or (.beq 'E' (by decide))

theorem agree_comment : Agree (· != byte '\n') (· != '\n') true :=
  (Agree.beq '\n' (by decide)).not

/-! ## Single characters -/

theorem At.low {src : ByteArray} {pos : Nat} {c : Char} {text : List Char}
    (here : At src pos (c :: text)) (low : c.toNat < 128) :
    src.toList.drop pos = UInt8.ofNat c.toNat :: Text.bytesOf text ∧ At src (pos + 1) text := by
  have bytes : src.toList.drop pos = [UInt8.ofNat c.toNat] ++ Text.bytesOf text := by
    rw [here, bytesOf_cons, Text.utf8EncodeChar_low low]
  exact ⟨bytes, drop_of_append bytes⟩

theorem At.next {src : ByteArray} {pos : Nat} {c : Char} {text : List Char}
    (here : At src pos (c :: text)) :
    At src (pos + (String.utf8EncodeChar c).length) text :=
  drop_of_append (here.trans (bytesOf_cons c text))

theorem At.nil_of_le {src : ByteArray} {pos stop : Nat} (here : At src pos [])
    (later : pos ≤ stop) : At src stop [] := by
  have short := List.drop_eq_nil_iff.1 here
  exact List.drop_eq_nil_of_le (Nat.le_trans short later)

theorem At.size_le {src : ByteArray} {pos : Nat} (here : At src pos []) : ¬pos < src.size := by
  have short := List.drop_eq_nil_iff.1 here
  rw [Text.length_toList] at short
  omega

theorem take_bytesOf_beq (chars text : List Char) (low : ∀ c ∈ chars, c.toNat < 128) :
    ((Text.bytesOf text).take chars.length == chars.map byte) = chars.isPrefixOf text := by
  induction chars generalizing text with
  | nil => simp
  | cons d chars ih =>
    have lowD := low d List.mem_cons_self
    have later := fun text => ih text fun c member => low c (List.mem_cons_of_mem _ member)
    cases text with
    | nil => rfl
    | cons c text =>
      rw [bytesOf_cons, List.length_cons, List.map_cons, List.isPrefixOf_cons_cons]
      by_cases lowC : c.toNat < 128
      · rw [Text.utf8EncodeChar_low lowC, List.singleton_append, List.take_succ_cons,
          List.cons_beq_cons, later, byte_beq lowC lowD, Bool.beq_comm]
      · obtain ⟨first, rest, encoded, firstHigh, -⟩ :=
          Text.utf8EncodeChar_high (Nat.not_lt.1 lowC)
        have differ : (d == c) = false :=
          beq_false_of_ne (ne_of_high (Nat.not_lt.1 lowC) lowD).symm
        rw [encoded, List.cons_append, List.take_succ_cons, List.cons_beq_cons,
          high_beq (by omega) lowD, differ, Bool.false_and, Bool.false_and]

/-- Whether the text from a place on starts with the given characters. -/
theorem startsWith_at {src : ByteArray} {pos : Nat} {text : List Char} (here : At src pos text)
    (within : pos < src.size) (chars : List Char) (low : chars.all (·.toNat < 128) = true) :
    startsWith src pos (chars.map byte) = .ok (chars.isPrefixOf text) := by
  rw [startsWith, if_pos (Nat.le_of_lt within), Text.toList_extract, here, List.length_map,
    take_bytesOf_beq chars text (by simpa using low)]

/-! ## Strings -/

/-- What goes over one byte above 127 goes over all of them. -/
theorem eq_of_high {γ : Type} {src : ByteArray} {f : Nat → γ}
    (one : ∀ {pos : Nat} {b : UInt8} {more : List UInt8}, src.toList.drop pos = b :: more →
      128 ≤ b.toNat → f pos = f (pos + 1)) (bytes : List UInt8) {pos : Nat} {more : List UInt8}
    (here : src.toList.drop pos = bytes ++ more) (high : ∀ b ∈ bytes, 128 ≤ b.toNat) :
    f pos = f (pos + bytes.length) := by
  induction bytes generalizing pos with
  | nil => rfl
  | cons b bytes ih =>
    obtain ⟨highB, others⟩ := List.forall_mem_cons.1 high
    rw [one here highB, ih (drop_of_cons here) others, List.length_cons]
    congr 1
    omega

/-- No byte of a character above U+007F ends a string. -/
theorem skipQuoted_high {src : ByteArray} (bytes : List UInt8) {pos : Nat} {more : List UInt8}
    (here : src.toList.drop pos = bytes ++ more) (high : ∀ b ∈ bytes, 128 ≤ b.toNat) :
    skipQuoted src pos = skipQuoted src (pos + bytes.length) := by
  refine eq_of_high (fun {pos b more} here highB => ?_) bytes here high
  rw [skipQuoted, if_pos (lt_size_of_drop here), byteAt_of_drop here]
  simp only [bind, Except.bind, high_beq highB (d := '"') (by decide),
    high_beq highB (d := '\n') (by decide), high_beq highB (d := '\\') (by decide)]
  rfl

/-- A character that does not end the string is skipped, whatever it is. -/
theorem skipQuoted_char {src : ByteArray} {pos : Nat} {c : Char} {text : List Char}
    (here : At src pos (c :: text)) (goesOn : ¬(c = '"' ∨ c = '\n')) (plain : c ≠ '\\') :
    skipQuoted src pos = skipQuoted src (pos + (String.utf8EncodeChar c).length) := by
  by_cases low : c.toNat < 128
  · obtain ⟨bytes, -⟩ := here.low low
    rw [not_or] at goesOn
    rw [skipQuoted, if_pos (lt_size_of_drop bytes), byteAt_of_drop bytes,
      Text.utf8EncodeChar_low low]
    simp only [bind, Except.bind, byte_beq low (d := '"') (by decide),
      byte_beq low (d := '\n') (by decide), byte_beq low (d := '\\') (by decide),
      beq_false_of_ne goesOn.1, beq_false_of_ne goesOn.2, beq_false_of_ne plain]
    rfl
  · exact skipQuoted_high _ (here.trans (bytesOf_cons c text)) fun b member =>
      Text.le_of_mem_utf8EncodeChar (Nat.not_lt.1 low) member

/-- A character after a backslash is skipped, even if only its first byte is covered. -/
theorem skipQuoted_covered {src : ByteArray} {pos : Nat} {c : Char} {text : List Char}
    (here : At src pos (c :: text)) :
    skipQuoted src (pos + 1) = skipQuoted src (pos + (String.utf8EncodeChar c).length) := by
  by_cases low : c.toNat < 128
  · rw [Text.utf8EncodeChar_low low]
    rfl
  · obtain ⟨first, rest, encoded, -, restHigh⟩ := Text.utf8EncodeChar_high (Nat.not_lt.1 low)
    have bytes : src.toList.drop pos = [first] ++ (rest ++ Text.bytesOf text) := by
      rw [here, bytesOf_cons, encoded]
      rfl
    have inside : src.toList.drop (pos + 1) = rest ++ Text.bytesOf text := drop_of_append bytes
    rw [skipQuoted_high rest inside restHigh, encoded, List.length_cons]
    congr 1
    omega

theorem skipQuoted_at {src : ByteArray} {pos : Nat} {text : List Char} (here : At src pos text) :
    ∃ stop, skipQuoted src pos = .ok stop ∧ pos < stop ∧ At src stop (afterQuoted text) := by
  fun_induction afterQuoted text generalizing pos with
  | case1 =>
    refine ⟨pos + 1, ?_, Nat.lt_succ_self _, here.nil_of_le (Nat.le_succ _)⟩
    rw [skipQuoted, if_neg here.size_le]
    rfl
  | case2 c rest ends =>
    have low : c.toNat < 128 := by rcases ends with rfl | rfl <;> decide
    obtain ⟨bytes, next⟩ := here.low low
    refine ⟨pos + 1, ?_, Nat.lt_succ_self _, next⟩
    rw [skipQuoted, if_pos (lt_size_of_drop bytes), byteAt_of_drop bytes]
    simp only [bind, Except.bind, byte_beq low (d := '"') (by decide),
      byte_beq low (d := '\n') (by decide)]
    rw [if_pos (by simpa using ends)]
    rfl
  | case3 ends =>
    -- A backslash is the last character, and two bytes are passed for it.
    obtain ⟨bytes, next⟩ := here.low (by decide)
    refine ⟨pos + 2 + 1, ?_, by omega, next.nil_of_le (by omega)⟩
    rw [skipQuoted, if_pos (lt_size_of_drop bytes), byteAt_of_drop bytes]
    show skipQuoted src (pos + 2) = _
    rw [skipQuoted, if_neg (next.nil_of_le (Nat.le_succ _)).size_le]
    rfl
  | case4 ends covered rest ih =>
    obtain ⟨bytes, next⟩ := here.low (by decide)
    obtain ⟨stop, skipped, later, found⟩ := ih next.next
    refine ⟨stop, ?_, by omega, found⟩
    rw [skipQuoted, if_pos (lt_size_of_drop bytes), byteAt_of_drop bytes]
    exact (skipQuoted_covered next).trans skipped
  | case5 c rest goesOn plain ih =>
    obtain ⟨stop, skipped, later, found⟩ := ih here.next
    refine ⟨stop, ?_, by omega, found⟩
    rw [skipQuoted_char here goesOn plain, skipped]

/-- A place inside a character starts no quotes. -/
theorem startsWith_high {src : ByteArray} {pos : Nat} {b : UInt8} {more : List UInt8}
    (here : src.toList.drop pos = b :: more) (high : 128 ≤ b.toNat) {d : Char}
    (low : d.toNat < 128) (bytes : List UInt8) :
    startsWith src pos (byte d :: bytes) = .ok false := by
  rw [startsWith, if_pos (Nat.le_of_lt (lt_size_of_drop here)), Text.toList_extract, here,
    List.length_cons, List.take_succ_cons, List.cons_beq_cons, high_beq high low, Bool.false_and]

theorem skipBlock_high {src : ByteArray} (bytes : List UInt8) {pos : Nat} {more : List UInt8}
    (here : src.toList.drop pos = bytes ++ more) (high : ∀ b ∈ bytes, 128 ≤ b.toNat) :
    skipBlock src pos = skipBlock src (pos + bytes.length) := by
  refine eq_of_high (fun {pos b more} here highB => ?_) bytes here high
  rw [skipBlock, if_pos (lt_size_of_drop here), tripleQuote,
    startsWith_high here highB (by decide), startsWith_high here highB (by decide)]
  rfl

theorem At.lt_size {src : ByteArray} {pos : Nat} {c : Char} {text : List Char}
    (here : At src pos (c :: text)) : pos < src.size := by
  obtain ⟨first, rest, encoded⟩ :=
    List.exists_cons_of_ne_nil (String.utf8EncodeChar_ne_nil (c := c))
  rw [At, bytesOf_cons, encoded] at here
  exact lt_size_of_drop here

/-- What a block string does at a character, by whether quotes start there. -/
theorem skipBlock_cons {src : ByteArray} {pos : Nat} {c : Char} {text : List Char}
    (here : At src pos (c :: text)) :
    skipBlock src pos =
      if ['"', '"', '"'].isPrefixOf (c :: text) then .ok (pos + 3)
      else if ['\\', '"', '"', '"'].isPrefixOf (c :: text) then skipBlock src (pos + 4)
      else skipBlock src (pos + 1) := by
  have quotes : startsWith src pos tripleQuote = _ :=
    startsWith_at here here.lt_size ['"', '"', '"'] (by decide)
  have escape : startsWith src pos (byte '\\' :: tripleQuote) = _ :=
    startsWith_at here here.lt_size ['\\', '"', '"', '"'] (by decide)
  rw [skipBlock, if_pos here.lt_size, quotes, escape]
  rfl

theorem skipBlock_at {src : ByteArray} {pos : Nat} {text : List Char} (here : At src pos text) :
    ∃ stop, skipBlock src pos = .ok stop ∧ pos < stop ∧ At src stop (afterBlock text) := by
  fun_induction afterBlock text generalizing pos with
  | case1 =>
    refine ⟨pos + 3, ?_, by omega, here.nil_of_le (by omega)⟩
    rw [skipBlock, if_neg here.size_le]
    rfl
  | case2 rest =>
    have second := (here.low (by decide)).2
    have third := (second.low (by decide)).2
    refine ⟨pos + 3, ?_, by omega, (third.low (by decide)).2⟩
    rw [skipBlock_cons here]
    rfl
  | case3 rest ih =>
    have first := (here.low (by decide)).2
    have second := (first.low (by decide)).2
    have third := (second.low (by decide)).2
    obtain ⟨stop, skipped, later, found⟩ := ih (third.low (by decide)).2
    refine ⟨stop, ?_, by omega, found⟩
    rw [skipBlock_cons here]
    exact skipped
  | case4 c rest noQuotes noEscape ih =>
    obtain ⟨stop, skipped, later, found⟩ := ih here.next
    refine ⟨stop, ?_, by omega, found⟩
    by_cases low : c.toNat < 128
    · have noClose : ¬['"', '"', '"'].isPrefixOf (c :: rest) = true := by
        rw [List.isPrefixOf_iff_prefix]
        rintro ⟨more, same⟩
        obtain ⟨rfl, rfl⟩ := List.cons.inj same
        exact noQuotes more rfl rfl
      have noCover : ¬['\\', '"', '"', '"'].isPrefixOf (c :: rest) = true := by
        rw [List.isPrefixOf_iff_prefix]
        rintro ⟨more, same⟩
        obtain ⟨rfl, rfl⟩ := List.cons.inj same
        exact noEscape more rfl rfl
      rw [skipBlock_cons here, if_neg noClose, if_neg noCover]
      rwa [Text.utf8EncodeChar_low low] at skipped
    · rw [skipBlock_high _ (here.trans (bytesOf_cons c rest)) fun b member =>
        Text.le_of_mem_utf8EncodeChar (Nat.not_lt.1 low) member, skipped]

/-! ## Numbers -/

/-- A character starts at a place if one stands there or the text ends there. -/
theorem At.isBoundary {src : ByteArray} {pos : Nat} {text : List Char} (here : At src pos text)
    (within : pos ≤ src.size) : isBoundary src pos = true := by
  -- Only a byte inside of a character has `10` for its two highest bits.
  have starts : ∀ n < 256, n < 128 ∨ 192 ≤ n → (UInt8.ofNat n &&& 0xC0 != 0x80) = true := by
    decide +kernel
  rw [IntegerScan.isBoundary, getElem?_of_drop here]
  cases text with
  | nil =>
    have outside := here.size_le
    simp only [Text.bytesOf, List.flatMap_nil, List.head?_nil, beq_iff_eq]
    omega
  | cons c text =>
    obtain ⟨first, rest, encoded, range⟩ : ∃ first rest, String.utf8EncodeChar c = first :: rest ∧
        (first.toNat < 128 ∨ 192 ≤ first.toNat) := by
      by_cases low : c.toNat < 128
      · refine ⟨_, [], Text.utf8EncodeChar_low low, .inl ?_⟩
        rw [UInt8.toNat_ofNat']
        omega
      · obtain ⟨first, rest, encoded, high, -⟩ := Text.utf8EncodeChar_high (Nat.not_lt.1 low)
        exact ⟨first, rest, encoded, .inr high⟩
    rw [bytesOf_cons, encoded]
    have bits := starts first.toNat first.toNat_lt range
    rwa [UInt8.ofNat_toNat] at bits

/-- The text between two places at which characters start. -/
theorem slice_at {src : ByteArray} {pos : Nat} {text more : List Char}
    (here : At src pos (text ++ more)) (within : pos ≤ src.size) :
    slice src pos (pos + (Text.bytesOf text).length) = .ok (String.ofList text) := by
  have bytes : src.toList.drop pos = Text.bytesOf text ++ Text.bytesOf more :=
    here.trans (bytesOf_append text more)
  have stop : At src (pos + (Text.bytesOf text).length) more := drop_of_append bytes
  have stopWithin : pos + (Text.bytesOf text).length ≤ src.size := by
    have count := congrArg List.length bytes
    rw [List.length_drop, List.length_append, Text.length_toList] at count
    omega
  have cut : src.extract pos (pos + (Text.bytesOf text).length) =
      (Text.bytesOf text).toByteArray := by
    apply ByteArray.ext
    apply Array.toList_inj.1
    rw [← Text.toList_eq, Text.toList_extract, bytes, List.take_left, List.data_toByteArray]
  rw [slice, here.isBoundary within, stop.isBoundary stopWithin, cut, Text.fromUTF8?_bytesOf]
  simp

/-- The digits of a number, with a sign or a digit before them, can be cut out as a text: both of
their ends are between characters. -/
theorem slice_number {src : ByteArray} {pos stop : Nat} {c : Char} {rest : List Char}
    (here : At src pos (c :: rest)) (low : c.toNat < 128)
    (count : stop = pos + 1 + (Text.bytesOf (rest.takeWhile Numeric.isDigit)).length) :
    slice src pos stop = .ok (String.ofList (c :: rest.takeWhile Numeric.isDigit)) := by
  have split : c :: rest =
      (c :: rest.takeWhile Numeric.isDigit) ++ rest.dropWhile Numeric.isDigit := by
    rw [List.cons_append, List.takeWhile_append_dropWhile]
  have bytes : stop = pos + (Text.bytesOf (c :: rest.takeWhile Numeric.isDigit)).length := by
    rw [count, bytesOf_cons, Text.utf8EncodeChar_low low, List.length_append,
      List.length_singleton]
    omega
  rw [bytes]
  exact slice_at (split ▸ here) (Nat.le_of_lt here.lt_size)

/-- The place after a number, or the number if it is too large. -/
theorem skipNumber_at {src : ByteArray} {pos : Nat} {c : Char} {rest : List Char}
    (here : At src pos (c :: rest)) (low : c.toNat < 128) :
    if !isFloatBefore (rest.dropWhile Numeric.isDigit) &&
        (c :: rest.takeWhile Numeric.isDigit) != ['-'] &&
        (Numeric.int64? (c :: rest.takeWhile Numeric.isDigit)).isNone then
      skipNumber src pos =
        .error (.outOfRange (String.ofList (c :: rest.takeWhile Numeric.isDigit)))
    else
      ∃ stop, skipNumber src pos = .ok stop ∧ pos < stop ∧
        At src stop ((rest.dropWhile Numeric.isDigit).dropWhile continuesNumberChar) := by
  obtain ⟨bytes, next⟩ := here.low low
  obtain ⟨stop, skipped, stopEq, after⟩ := agree_digit.skipWhile next
  obtain ⟨last, continued, lastEq, found⟩ := agree_continues.skipWhile after
  have literal := slice_number here low stopEq
  have unfolded : skipNumber src pos =
      if !isFloatBefore (rest.dropWhile Numeric.isDigit) &&
          String.ofList (c :: rest.takeWhile Numeric.isDigit) != "-" &&
          (Numeric.int64? (c :: rest.takeWhile Numeric.isDigit)).isNone then
        .error (.outOfRange (String.ofList (c :: rest.takeWhile Numeric.isDigit)))
      else IntegerScan.skipWhile src continuesNumber stop := by
    unfold skipNumber
    rw [skipped]
    simp only [bind, Except.bind]
    rw [literal]
    dsimp only
    rw [getElem?_of_drop after, String.toList_ofList, isFloatBefore,
      ← agree_float.head?_bytesOf (rest.dropWhile Numeric.isDigit)]
    cases (Text.bytesOf (rest.dropWhile Numeric.isDigit)).head? <;> rfl
  have sign : (String.ofList (c :: rest.takeWhile Numeric.isDigit) != "-") =
      ((c :: rest.takeWhile Numeric.isDigit) != ['-']) := by
    rw [Bool.eq_iff_iff, bne_iff_ne, bne_iff_ne]
    exact not_congr String.ofList_inj
  rw [unfolded, sign]
  split
  · rfl
  · exact ⟨last, continued, by omega, found⟩

/-! ## The pass -/

theorem scanFrom_step {src : ByteArray} {pos stop : Nat} (within : pos < src.size)
    (stepped : step src pos = .ok stop) (later : pos < stop) :
    scanFrom src pos = scanFrom src stop := by
  rw [scanFrom, if_pos within, stepped]
  exact if_pos later

theorem scanFrom_high {src : ByteArray} (bytes : List UInt8) {pos : Nat} {more : List UInt8}
    (here : src.toList.drop pos = bytes ++ more) (high : ∀ b ∈ bytes, 128 ≤ b.toNat) :
    scanFrom src pos = scanFrom src (pos + bytes.length) := by
  refine eq_of_high (fun {pos b more} here highB => ?_) bytes here high
  have stepped : step src pos = .ok (pos + 1) := by
    unfold step
    rw [byteAt_of_drop here]
    simp only [bind, Except.bind, high_beq highB (d := '#') (by decide),
      high_beq highB (d := '"') (by decide), high_beq highB (d := '_') (by decide),
      high_beq highB (d := '-') (by decide), agree_letter.high_eq highB,
      agree_digit.high_eq highB]
    rfl
  exact scanFrom_step (lt_size_of_drop here) stepped (Nat.lt_succ_self pos)

/-- What one step does at a character below U+0080. -/
theorem step_low {src : ByteArray} {pos : Nat} {c : Char} {rest : List Char}
    (here : At src pos (c :: rest)) (low : c.toNat < 128) :
    step src pos =
      if c = '#' then skipWhile src (· != byte '\n') (pos + 1)
      else if c = '"' then
        if ['"', '"', '"'].isPrefixOf (c :: rest) then skipBlock src (pos + 3)
        else skipQuoted src (pos + 1)
      else if isLetter c || c == '_' then skipWhile src isNameByte (pos + 1)
      else if c == '-' || Numeric.isDigit c then skipNumber src pos
      else .ok (pos + 1) := by
  obtain ⟨bytes, -⟩ := here.low low
  have quotes : startsWith src pos tripleQuote = _ :=
    startsWith_at here here.lt_size ['"', '"', '"'] (by decide)
  unfold step
  rw [byteAt_of_drop bytes, quotes]
  simp only [bind, Except.bind, byte_beq low (d := '#') (by decide),
    byte_beq low (d := '"') (by decide), byte_beq low (d := '_') (by decide),
    byte_beq low (d := '-') (by decide), agree_letter.byte_eq low, agree_digit.byte_eq low]
  simp only [beq_iff_eq]
  rfl

/-- The outcome of the pass, by what it finds. -/
def outcome : Option (List Char) → Except Stop Unit
  | none => .ok ()
  | some literal => .error (.outOfRange (String.ofList literal))

/-- A string is passed as a whole. -/
theorem step_string {src : ByteArray} {pos : Nat} {rest : List Char}
    (here : At src pos ('"' :: rest)) :
    ∃ stop, step src pos = .ok stop ∧ pos < stop ∧ At src stop (afterString rest) := by
  obtain ⟨-, next⟩ := here.low (by decide)
  have stepped := step_low here (by decide)
  rw [if_neg (by decide), if_pos rfl] at stepped
  unfold afterString
  split
  · rename_i contents
    rw [stepped]
    have second := (next.low (by decide)).2
    obtain ⟨stop, skipped, later, found⟩ := skipBlock_at (second.low (by decide)).2
    exact ⟨stop, skipped, by omega, found⟩
  · rename_i noBlock
    have single : ¬['"', '"', '"'].isPrefixOf ('"' :: rest) = true := by
      rw [List.isPrefixOf_iff_prefix]
      rintro ⟨more, same⟩
      exact noBlock more (List.cons.inj same).2.symm
    rw [stepped, if_neg single]
    obtain ⟨stop, skipped, later, found⟩ := skipQuoted_at next
    exact ⟨stop, skipped, by omega, found⟩

theorem low_of_number {c : Char} (starts : (c == '-' || Numeric.isDigit c) = true) :
    c.toNat < 128 :=
  Nat.not_le.1 fun high => by
    rw [agree_digit.char_eq high, beq_false_of_ne (ne_of_high high (by decide))] at starts
    exact absurd starts (by decide)

theorem scanFrom_at {src : ByteArray} {pos : Nat} {text : List Char} (here : At src pos text) :
    scanFrom src pos = outcome (overflow? text) := by
  -- One step of the pass over the bytes for each step over the characters.
  fun_induction overflow? text generalizing pos with
  | case1 =>
    rw [scanFrom, if_neg here.size_le]
    rfl
  | case2 rest ih =>
    obtain ⟨bytes, next⟩ := here.low (by decide)
    obtain ⟨stop, skipped, stopEq, found⟩ := agree_comment.skipWhile next
    rw [scanFrom_step here.lt_size ((step_low here (by decide)).trans skipped) (by omega)]
    exact ih found
  | case3 rest comment ih =>
    obtain ⟨stop, stepped, later, found⟩ := step_string here
    rw [scanFrom_step here.lt_size stepped later]
    exact ih found
  | case4 c rest comment quote name ih =>
    have low : c.toNat < 128 := Nat.not_le.1 fun high => by
      rw [agree_letter.char_eq high, beq_false_of_ne (ne_of_high high (by decide))] at name
      exact absurd name (by decide)
    obtain ⟨-, next⟩ := here.low low
    obtain ⟨stop, skipped, stopEq, found⟩ := agree_name.skipWhile next
    have stepped : step src pos = .ok stop := by
      rw [step_low here low, if_neg comment, if_neg quote, if_pos name, skipped]
    rw [scanFrom_step here.lt_size stepped (by omega)]
    exact ih found
  | case5 c rest comment quote name starts literal after =>
    rename_i large
    have low := low_of_number starts
    have number := skipNumber_at here low
    rw [if_pos large] at number
    rw [scanFrom, if_pos here.lt_size, step_low here low, if_neg comment, if_neg quote, if_neg name,
      if_pos starts, number]
    rfl
  | case6 c rest comment quote name starts literal after small =>
    rename_i ih
    have low := low_of_number starts
    have number := skipNumber_at here low
    rw [if_neg small] at number
    obtain ⟨stop, skipped, later, found⟩ := number
    have stepped : step src pos = .ok stop := by
      rw [step_low here low, if_neg comment, if_neg quote, if_neg name, if_pos starts, skipped]
    rw [scanFrom_step here.lt_size stepped later]
    exact ih found
  | case7 c rest comment quote name starts ih =>
    rw [← ih here.next]
    by_cases low : c.toNat < 128
    · have stepped : step src pos = .ok (pos + 1) := by
        rw [step_low here low, if_neg comment, if_neg quote, if_neg name, if_neg starts]
      rw [scanFrom_step here.lt_size stepped (Nat.lt_succ_self pos), Text.utf8EncodeChar_low low]
      rfl
    · -- The pass goes through the bytes of such a character one by one.
      exact scanFrom_high _ (here.trans (bytesOf_cons c rest)) fun b member =>
        Text.le_of_mem_utf8EncodeChar (Nat.not_lt.1 low) member

/-- The pass over the bytes of a text finds what the pass over its characters finds. -/
theorem scan_eq (source : String) : scan source = outcome (overflow? source.toList) := by
  apply scanFrom_at
  rw [At, List.drop_zero, Text.toList_toUTF8]

end SdlCompiler.Document.IntegerScan
