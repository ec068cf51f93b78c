import SdlCompiler.Proofs.Document.Scanning

/-!
# The cursor of the search for integers

The pass over the bytes of a text goes on from place to place. Malformed texts may lead its cursor
into a character or beyond the end of the text, by three bytes at most. From every place inside the
text a step moves on and neither reads outside the text nor cuts a character (`step_progress`). So
the pass ends after at most as many steps as there are bytes, and only for an integer does it end
early (`scan_safe`).
-/

namespace SdlCompiler.Document.IntegerScan

variable {src : ByteArray} {pos stop : Nat}

/-! ## Reads -/

theorem exists_drop_eq_cons (within : pos < src.size) :
    ∃ b more, src.toList.drop pos = b :: more :=
  List.exists_cons_of_length_pos (by
    rw [List.length_drop, Text.length_toList]
    exact Nat.sub_pos_of_lt within)

/-- Bytes that stand in the text from a place on end inside the text. -/
theorem add_length_le_of_startsWith {bytes : List UInt8}
    (starts : startsWith src pos bytes = .ok true) : pos + bytes.length ≤ src.size := by
  unfold startsWith at starts
  split at starts
  · next within =>
    have same := beq_iff_eq.1 (Except.ok.inj starts)
    have count := congrArg List.length same
    rw [Text.toList_extract, List.length_take, List.length_drop, Text.length_toList] at count
    omega
  · cases starts

theorem exists_startsWith (within : pos < src.size) (bytes : List UInt8) :
    ∃ answer, startsWith src pos bytes = .ok answer :=
  ⟨_, if_pos (Nat.le_of_lt within)⟩

theorem skipWhile_bounds (src : ByteArray) (keep : UInt8 → Bool) (within : pos ≤ src.size) :
    ∃ stop, skipWhile src keep pos = .ok stop ∧ pos ≤ stop ∧ stop ≤ src.size := by
  refine ⟨_, skipWhile_eq src keep pos, Nat.le_add_right _ _, ?_⟩
  have count := ((src.toList.drop pos).takeWhile_sublist keep).length_le
  rw [List.length_drop, Text.length_toList] at count
  omega

/-- A backslash at the end of the text leads one byte beyond it, and the string ends one byte
later. -/
theorem skipQuoted_bounds (src : ByteArray) (pos : Nat) :
    ∃ stop, skipQuoted src pos = .ok stop ∧ pos < stop ∧ stop ≤ max pos (src.size + 1) + 1 := by
  fun_induction skipQuoted src pos with
  | case1 pos within ihEscaped ih =>
    obtain ⟨b, more, here⟩ := exists_drop_eq_cons within
    rw [byteAt_of_drop here]
    dsimp only [bind, Except.bind]
    split_ifs
    · exact ⟨pos + 1, rfl, by omega, by omega⟩
    · obtain ⟨stop, skipped, later, near⟩ := ihEscaped
      exact ⟨stop, skipped, by omega, by omega⟩
    · obtain ⟨stop, skipped, later, near⟩ := ih
      exact ⟨stop, skipped, by omega, by omega⟩
  | case2 pos past => exact ⟨pos + 1, rfl, by omega, by omega⟩

/-- Quotes that are covered stand inside the text, so only the quotes that should end the string
may be beyond it. -/
theorem skipBlock_bounds (src : ByteArray) (pos : Nat) :
    ∃ stop, skipBlock src pos = .ok stop ∧ pos < stop ∧ stop ≤ max pos src.size + 3 := by
  fun_induction skipBlock src pos with
  | case1 pos within ihEscaped ih =>
    obtain ⟨closes, isClose⟩ := exists_startsWith within tripleQuote
    obtain ⟨covers, isCover⟩ := exists_startsWith within (byte '\\' :: tripleQuote)
    rw [isClose, isCover]
    dsimp only [bind, Except.bind]
    cases closes with
    | true => exact ⟨pos + 3, rfl, by omega, by omega⟩
    | false =>
      cases covers with
      | true =>
        have fits : pos + 4 ≤ src.size := add_length_le_of_startsWith isCover
        obtain ⟨stop, skipped, later, near⟩ := ihEscaped
        exact ⟨stop, skipped, by omega, by omega⟩
      | false =>
        obtain ⟨stop, skipped, later, near⟩ := ih
        exact ⟨stop, skipped, by omega, by omega⟩
  | case2 pos past => exact ⟨pos + 3, rfl, by omega, by omega⟩

/-! ## Cuts -/

/-- No byte of a character above U+007F is less than 128: where such a byte is, a character of one
byte stands. -/
theorem exists_bytesOf_of_low {text : List Char} {b : UInt8} {more : List UInt8}
    (here : (Text.bytesOf text).drop pos = b :: more) (low : b.toNat < 128) :
    ∃ c rest, (Text.bytesOf text).drop pos = Text.bytesOf (c :: rest) ∧ c.toNat < 128 := by
  induction text generalizing pos with
  | nil => simp [Text.bytesOf] at here
  | cons c text ih =>
    rw [bytesOf_cons, List.drop_append] at here ⊢
    by_cases inside : pos < (String.utf8EncodeChar c).length
    · -- The byte is one of `c`, which is its only byte, so that the place is where `c` starts.
      have left : 0 < ((String.utf8EncodeChar c).drop pos).length := by
        rw [List.length_drop]
        exact Nat.sub_pos_of_lt inside
      obtain ⟨first, others, split⟩ := List.exists_cons_of_length_pos left
      rw [split, List.cons_append, List.cons.injEq] at here
      have member : b ∈ String.utf8EncodeChar c := by
        rw [← here.1]
        exact List.mem_of_mem_drop (split ▸ List.mem_cons_self)
      have lowC : c.toNat < 128 := Nat.not_le.1 fun high =>
        Nat.not_lt.2 (Text.le_of_mem_utf8EncodeChar high member) low
      rw [Text.utf8EncodeChar_low lowC, List.length_singleton, Nat.lt_one_iff] at inside
      refine ⟨c, text, ?_, lowC⟩
      rw [inside, bytesOf_cons]
      simp
    · rw [List.drop_eq_nil_of_le (Nat.not_lt.1 inside), List.nil_append] at here ⊢
      exact ih here

/-- A literal is cut out of the text, from one end of a character to another. -/
structure IsCut (src : ByteArray) (start stop : Nat) (literal : String) : Prop where
  later : start < stop
  within : stop ≤ src.size
  starts : isBoundary src start = true
  ends : isBoundary src stop = true
  slice_eq : slice src start stop = .ok literal

theorem boundaries_of_slice {start : Nat} {literal : String}
    (cut : slice src start stop = .ok literal) :
    isBoundary src start = true ∧ isBoundary src stop = true := by
  unfold slice at cut
  split at cut
  · next bounds =>
    simp only [Bool.and_eq_true] at bounds
    exact ⟨bounds.1.2, bounds.2⟩
  · cases cut

/-- The digits of a number can be cut out wherever a number starts. -/
theorem exists_isCut {text : List Char} {b : UInt8} (isText : src.toList = Text.bytesOf text)
    (here : src[pos]? = some b) (number : (b == byte '-' || isDigitByte b) = true) :
    ∃ stop literal, skipWhile src isDigitByte (pos + 1) = .ok stop ∧ IsCut src pos stop literal := by
  have low : b.toNat < 128 := Nat.not_le.1 fun high => by
    rw [high_beq high (by decide), agree_digit.high_eq high] at number
    cases number
  rw [Text.getElem?_eq, isText, ← List.head?_drop, List.head?_eq_some_iff] at here
  obtain ⟨more, here⟩ := here
  obtain ⟨c, rest, found, lowC⟩ := exists_bytesOf_of_low here low
  have isAt : At src pos (c :: rest) := (congrArg (List.drop pos) isText).trans found
  obtain ⟨stop, skipped, stopEq, -⟩ := agree_digit.skipWhile (isAt.low lowC).2
  obtain ⟨_, same, later, within⟩ := skipWhile_bounds src isDigitByte isAt.lt_size
  cases skipped.symm.trans same
  have cut := slice_number isAt lowC stopEq
  obtain ⟨starts, ends⟩ := boundaries_of_slice cut
  exact ⟨stop, _, skipped, later, within, starts, ends, cut⟩

/-! ## Steps -/

/-- What a step from a place leads to: to a later place, which may be a little beyond the end of the
text, or to an integer at the place. -/
inductive Progress (src : ByteArray) (pos : Nat) : Except Stop Nat → Prop
  | moved {next : Nat} : pos < next → next ≤ src.size + 3 → Progress src pos (.ok next)
  | refused {stop : Nat} {literal : String} : IsCut src pos stop literal →
      Progress src pos (.error (.outOfRange literal))

theorem skipNumber_progress {literal : String}
    (skipped : skipWhile src isDigitByte (pos + 1) = .ok stop) (cut : IsCut src pos stop literal) :
    Progress src pos (skipNumber src pos) := by
  obtain ⟨last, continued, after, within⟩ := skipWhile_bounds src continuesNumber cut.within
  unfold skipNumber
  rw [skipped]
  dsimp only [bind, Except.bind]
  rw [cut.slice_eq]
  dsimp only
  split_ifs
  · exact .refused cut
  · rw [continued]
    exact .moved (Nat.lt_of_lt_of_le cut.later after) (by omega)

/-- A step from a place inside the text, be it inside of a character, reads only what is inside the
text and cuts only between characters. -/
theorem step_progress {text : List Char} (isText : src.toList = Text.bytesOf text)
    (within : pos < src.size) : Progress src pos (step src pos) := by
  obtain ⟨b, more, here⟩ := exists_drop_eq_cons within
  unfold step
  rw [byteAt_of_drop here]
  dsimp only [bind, Except.bind]
  split_ifs with comment quote name number
  · obtain ⟨stop, skipped, later, near⟩ := skipWhile_bounds src (· != byte '\n') within
    rw [skipped]
    exact .moved (by omega) (by omega)
  · obtain ⟨isBlock, starts⟩ := exists_startsWith within tripleQuote
    rw [starts]
    cases isBlock with
    | true =>
      have fits : pos + 3 ≤ src.size := add_length_le_of_startsWith starts
      obtain ⟨stop, skipped, later, near⟩ := skipBlock_bounds src (pos + 3)
      show Progress src pos (skipBlock src (pos + 3))
      rw [skipped]
      exact .moved (by omega) (by omega)
    | false =>
      obtain ⟨stop, skipped, later, near⟩ := skipQuoted_bounds src (pos + 1)
      show Progress src pos (skipQuoted src (pos + 1))
      rw [skipped]
      exact .moved (by omega) (by omega)
  · obtain ⟨stop, skipped, later, near⟩ := skipWhile_bounds src isNameByte within
    rw [skipped]
    exact .moved (by omega) (by omega)
  · have first : src[pos]? = some b := getElem?_of_drop here
    obtain ⟨stop, literal, skipped, cut⟩ := exists_isCut isText first number
    exact skipNumber_progress skipped cut
  · exact .moved (Nat.lt_succ_self pos) (by omega)

/-! ## The pass -/

/-- The pass from a place on, as a loop: the places that it comes to, and how it ends. -/
inductive Course (src : ByteArray) : Nat → List Nat → Except Stop Unit → Prop
  | ended {pos : Nat} : src.size ≤ pos → Course src pos [] (.ok ())
  | stopped {pos : Nat} {stop : Stop} : pos < src.size → step src pos = .error stop →
      Course src pos [] (.error stop)
  | moved {pos next : Nat} {places : List Nat} {result : Except Stop Unit} : pos < src.size →
      step src pos = .ok next → Course src next places result →
      Course src pos (next :: places) result

theorem exists_course {text : List Char} (isText : src.toList = Text.bytesOf text) (pos : Nat) :
    ∃ places, Course src pos places (scanFrom src pos) ∧ places.length ≤ src.size - pos := by
  fun_induction scanFrom src pos with
  | case1 pos within stop stepped =>
    exact ⟨[], .stopped within stepped, Nat.zero_le _⟩
  | case2 pos within next stepped later ih =>
    obtain ⟨places, course, count⟩ := ih
    refine ⟨next :: places, .moved within stepped course, ?_⟩
    rw [List.length_cons]
    omega
  | case3 pos within next stepped still =>
    have progress := step_progress isText within
    rw [stepped] at progress
    cases progress with
    | moved later => exact absurd later still
  | case4 pos past => exact ⟨[], .ended (Nat.not_lt.1 past), Nat.zero_le _⟩

/-- Only for an integer does the pass end early. -/
theorem Course.outcome {text : List Char} {places : List Nat} {result : Except Stop Unit}
    (isText : src.toList = Text.bytesOf text) (course : Course src pos places result) :
    result = .ok () ∨ ∃ literal, result = .error (.outOfRange literal) := by
  induction course with
  | ended => exact .inl rfl
  | stopped within stepped =>
    have progress := step_progress isText within
    rw [stepped] at progress
    cases progress with
    | refused => exact .inr ⟨_, rfl⟩
  | moved _ _ _ ih => exact ih

/-- The pass over any text, well-formed or not. From every place inside the text a step moves on, to
a place that is at most three bytes beyond the end, or stops for an integer. What it cuts out where
a number starts is cut between characters. The loop of such steps ends, after at most as many of
them as there are bytes, and never for a read outside the text or a cut inside of a character. -/
theorem scan_safe (source : String) :
    (∀ pos < source.toUTF8.size, Progress source.toUTF8 pos (step source.toUTF8 pos)) ∧
      (∀ pos b, source.toUTF8[pos]? = some b → (b == byte '-' || isDigitByte b) = true →
        ∃ stop literal, skipWhile source.toUTF8 isDigitByte (pos + 1) = .ok stop ∧
          IsCut source.toUTF8 pos stop literal) ∧
      (∃ places, Course source.toUTF8 0 places (scan source) ∧
        places.length ≤ source.toUTF8.size) ∧
      (scan source = .ok () ∨ ∃ literal, scan source = .error (.outOfRange literal)) := by
  have isText := Text.toList_toUTF8 source
  obtain ⟨places, course, count⟩ := exists_course isText 0
  exact ⟨fun pos within => step_progress isText within,
    fun pos b here number => exists_isCut isText here number, ⟨places, course, count⟩,
    course.outcome isText⟩

/-- A number, and a string that does not end and in which a backslash covers half a character. -/
def halfCovered : String :=
  "-7\"\\\u00e9"

theorem scan_safe_halfCovered :
    halfCovered.toUTF8[0]? = some (byte '-') ∧
      (∃ stop literal, skipWhile halfCovered.toUTF8 isDigitByte 1 = .ok stop ∧
        IsCut halfCovered.toUTF8 0 stop literal) ∧
      2 < halfCovered.toUTF8.size ∧
      Progress halfCovered.toUTF8 2 (step halfCovered.toUTF8 2) := by
  have number : halfCovered.toUTF8[0]? = some (byte '-') := by decide +kernel
  have within : 2 < halfCovered.toUTF8.size := by decide +kernel
  obtain ⟨steps, cuts, -⟩ := scan_safe halfCovered
  exact ⟨number, cuts 0 _ number rfl, within, steps 2 within⟩

/-- Quotes that nothing follows lead the cursor three bytes beyond the end of the text. -/
example : (step "\"\"\"".toUTF8 0).toOption = some ("\"\"\"".toUTF8.size + 3) := by
  decide +kernel

end SdlCompiler.Document.IntegerScan
