import SdlCompiler.Proofs.Output.Insertion

/-!
# Insertions at different points

A mark opens with two bytes and closes with one that are nowhere else in it. So marks of different
points do not overlap (`le_of_bracketed`), and a mark does not reach from the end of another one
into the content behind it (`not_infix_inserted`). Of two marks, the one that stands first in the
file therefore stays where it is when content is put in at the other, and what is put in at the
first does not have the other before its old place.
-/

namespace SdlCompiler.Output

open Text (FirstAt)

variable {mark other file before start rest added left right : List UInt8}

/-! ## Marks in brackets -/

/-- A mark that opens with two bytes and closes with one, with neither of these and no line feed in
between. -/
def IsBracketed (mark : List UInt8) : Prop :=
  ∃ body, mark = 64 :: 64 :: (body ++ [41]) ∧ 64 ∉ body ∧ 41 ∉ body ∧ lineFeed ∉ body

theorem IsBracketed.ne_nil (bracketed : IsBracketed mark) : mark ≠ [] := by
  obtain ⟨body, rfl, -⟩ := bracketed
  simp

theorem IsBracketed.unbroken (bracketed : IsBracketed mark) : lineFeed ∉ mark := by
  obtain ⟨body, rfl, -, -, inLine⟩ := bracketed
  have others : lineFeed ≠ 64 ∧ lineFeed ≠ 41 := by decide
  simp [inLine, others]

/-- The byte that closes a mark is its last and nowhere before. -/
theorem IsBracketed.closing (bracketed : IsBracketed mark) :
    ∃ stem, mark = stem ++ [41] ∧ 41 ∉ stem := by
  obtain ⟨body, rfl, -, closedOnce, -⟩ := bracketed
  exact ⟨64 :: 64 :: body, rfl, by simp [closedOnce]⟩

/-- An insertion point that holds none of the characters around it, and no line feed. -/
def IsPlain (insertionPoint : String) : Prop :=
  '@' ∉ insertionPoint.toList ∧ ')' ∉ insertionPoint.toList ∧ '\n' ∉ insertionPoint.toList

instance (insertionPoint : String) : Decidable (IsPlain insertionPoint) :=
  inferInstanceAs (Decidable (_ ∧ _ ∧ _))

theorem marker_isBracketed {insertionPoint : String} (plain : IsPlain insertionPoint) :
    IsBracketed (marker insertionPoint) := by
  obtain ⟨noAt, noParenthesis, noFeed⟩ := plain
  have opening : Text.bytesOf "@@graphqlc_insertion_point(".toList =
      64 :: 64 :: Text.bytesOf "graphqlc_insertion_point(".toList := by decide +kernel
  -- A byte that is a character of its own is in the encoded point only as that character.
  have absent : ∀ {c : Char}, c.toNat < 128 → c ∉ insertionPoint.toList →
      UInt8.ofNat c.toNat ∉ Text.bytesOf "graphqlc_insertion_point(".toList →
      UInt8.ofNat c.toNat ∉ Text.bytesOf "graphqlc_insertion_point(".toList ++
        Text.bytesOf insertionPoint.toList := by
    intro c low notInPoint notInWord member
    rcases List.mem_append.1 member with inWord | inPoint
    · exact notInWord inWord
    · exact notInPoint (Text.mem_of_mem_bytesOf low inPoint)
  refine ⟨_, by rw [marker_eq, opening]; rfl, ?_, ?_, ?_⟩
  · exact absent (c := '@') (by decide) noAt (by decide +kernel)
  · exact absent (c := ')') (by decide) noParenthesis (by decide +kernel)
  · exact absent (c := '\n') (by decide) noFeed (by decide +kernel)

theorem marker_injective : Function.Injective marker := by
  intro point point' same
  unfold marker at same
  rw [Text.toList_eq, Text.toList_eq] at same
  have text : "@@graphqlc_insertion_point(" ++ point ++ ")" =
      "@@graphqlc_insertion_point(" ++ point' ++ ")" :=
    String.toByteArray_inj.1 (ByteArray.ext (Array.toList_inj.1 same))
  have chars := congrArg String.toList text
  exact String.toList_inj.1 (by simpa using chars)

/-! ## Marks that do not overlap -/

/-- One of two marks is not the beginning of the other. -/
theorem eq_of_isPrefix (bracketed : IsBracketed mark) (bracketedToo : IsBracketed other)
    (starts : mark <+: other) : mark = other := by
  obtain ⟨stem, rfl, -⟩ := bracketed.closing
  obtain ⟨stem', rfl, closedOnce⟩ := bracketedToo.closing
  rcases List.prefix_concat_iff.1 starts with same | within
  · exact same
  · exact absurd (within.subset (by simp)) closedOnce

/-- What starts inside a text starts with one of its bytes. -/
theorem mem_of_prefix_drop {b : UInt8} {part : List UInt8} (gap : Nat) (inside : gap < left.length)
    (starts : b :: part <+: (left ++ right).drop gap) : b ∈ left := by
  rw [List.drop_append_of_le_length (Nat.le_of_lt inside), List.drop_eq_getElem_cons inside,
    List.cons_append, List.cons_prefix_cons] at starts
  rw [starts.1]
  exact List.getElem_mem inside

/-- A mark that does not start before another one starts where that one has ended, or later. -/
theorem le_of_bracketed (bracketed : IsBracketed mark) (bracketedToo : IsBracketed other)
    (different : mark ≠ other) {place place' : Nat} (here : mark <+: file.drop place)
    (there : other <+: file.drop place') (later : place ≤ place') :
    place + mark.length ≤ place' := by
  by_contra overlap
  obtain ⟨gap, rfl⟩ := Nat.exists_eq_add_of_le later
  obtain ⟨rest, behind⟩ := here
  rw [← List.drop_drop, ← behind] at there
  by_cases together : gap = 0
  · rw [together, List.drop_zero] at there
    rcases List.prefix_or_prefix_of_prefix there (List.prefix_append mark rest) with first | second
    · exact different (eq_of_isPrefix bracketedToo bracketed first).symm
    · exact different (eq_of_isPrefix bracketed bracketedToo second)
  · -- Behind its first byte, a mark has no two bytes that open one.
    obtain ⟨body, rfl, openedOnce, -⟩ := bracketed
    obtain ⟨body', rfl, -⟩ := bracketedToo
    have openedOnly : 64 ∉ body ++ [41] := by simp [openedOnce]
    rw [List.length_cons, List.length_cons] at overlap
    obtain ⟨gap, rfl⟩ := Nat.exists_eq_succ_of_ne_zero together
    cases gap with
    | zero =>
      obtain ⟨-, second⟩ := List.cons_prefix_cons.1 there
      exact openedOnly (mem_of_prefix_drop 0 (by simp) second)
    | succ gap => exact openedOnly (mem_of_prefix_drop gap (by omega) there)

/-! ## Marks and what is put in -/

/-- Over a byte that a mark has at its end only, the mark does not reach. -/
theorem isInfix_or_isInfix {b : UInt8} (once : b ∉ mark.dropLast)
    (within : mark <:+: left ++ b :: right) : mark <:+: left ++ [b] ∨ mark <:+: right := by
  obtain ⟨ahead, behind, whole⟩ := within
  rcases List.append_eq_append_iff.1 whole with ⟨more, rfl, -⟩ | ⟨part, reached, rest⟩
  · exact .inl ⟨ahead, more ++ [b], by simp⟩
  · cases part with
    | nil => exact .inl ⟨ahead, [b], by rw [reached, List.append_nil]⟩
    | cons c part =>
      obtain ⟨rfl, rfl⟩ := List.cons.inj rest
      -- The byte is the last of the mark, or the mark starts behind it.
      by_cases last : part = []
      · exact .inl ⟨ahead, [], by rw [reached, last, List.append_nil]⟩
      · have notInside : ∀ more, mark ≠ more ++ b :: part := by
          rintro more rfl
          rw [List.dropLast_append_of_ne_nil (List.cons_ne_nil b part),
            List.dropLast_cons_of_ne_nil last] at once
          simp at once
        rcases List.append_eq_append_iff.1 reached with ⟨more, -, tail⟩ | ⟨more, -, tail⟩
        · exact absurd tail (notInside more)
        · cases more with
          | nil => exact absurd tail.symm (notInside [])
          | cons d more =>
            obtain ⟨-, rfl⟩ := List.cons.inj tail
            exact .inr ⟨more, behind, rfl⟩

theorem infix_of_infix_concat {b : UInt8} (absent : b ∉ mark) (within : mark <:+: left ++ [b]) :
    mark <:+: left := by
  rcases List.infix_concat_iff.1 within with ends | inside
  · rcases List.suffix_concat_iff.1 ends with rfl | ⟨stem, rfl, -⟩
    · exact List.nil_infix
    · simp at absent
  · exact inside

/-- What is put in behind a mark does not have another mark, if its parts do not. -/
theorem not_infix_inserted (bracketed : IsBracketed mark) (bracketedToo : IsBracketed other)
    (freeBefore : ¬other <:+: left ++ mark) (freeAdded : ¬other <:+: added)
    (freeAfter : ¬other <:+: right) : ¬other <:+: left ++ mark ++ added ++ lineFeed :: right := by
  obtain ⟨stem, rfl, -⟩ := bracketed.closing
  obtain ⟨stem', rfl, closedOnce⟩ := bracketedToo.closing
  have unbroken := bracketedToo.unbroken
  intro within
  have once : lineFeed ∉ (stem' ++ [41]).dropLast := fun member =>
    unbroken ((List.dropLast_subset _) member)
  rcases isInfix_or_isInfix once within with inside | later
  · have seam : left ++ (stem ++ [41]) ++ added ++ [lineFeed] =
        left ++ stem ++ 41 :: (added ++ [lineFeed]) := by simp
    rw [seam] at inside
    rcases isInfix_or_isInfix (by simpa using closedOnce) inside with reached | inAdded
    · exact freeBefore (by simpa using reached)
    · exact freeAdded (infix_of_infix_concat unbroken inAdded)
  · exact freeAfter later

/-! ## Lines without a mark -/

theorem forall_byteLines_iff (bracketed : IsBracketed mark) :
    (∀ line ∈ byteLines file, ¬mark <:+: line) ↔ ¬mark <:+: file := by
  constructor
  · intro free
    induction file using lines_induction with
    | empty => simpa using bracketed.ne_nil
    | last body inLine nonempty =>
      rw [byteLines_last inLine nonempty] at free
      exact free body List.mem_cons_self
    | line body rest inLine ih =>
      rw [byteLines_line inLine, List.forall_mem_cons] at free
      have once : lineFeed ∉ mark.dropLast := fun member =>
        bracketed.unbroken (List.dropLast_subset mark member)
      exact fun within => (isInfix_or_isInfix once within).elim free.1 (ih free.2)
  · intro free line member within
    have part : line <:+: (byteLines file).flatten := List.infix_of_mem_flatten member
    rw [flatten_byteLines] at part
    exact free (within.trans part)

/-- Before the place where the search stops, the mark does not stand. -/
theorem Spot.free_before (spot : Spot mark before start) : ¬mark <:+: before ++ start := by
  rintro ⟨ahead, behind, whole⟩
  have earlier : ahead.length < before.length + start.length := by
    have lengths := congrArg List.length whole
    have nonempty := List.length_pos_iff.2 spot.nonempty
    simp only [List.length_append] at lengths
    omega
  refine (spot.firstAt []).first ahead.length earlier ?_
  rw [List.append_nil, ← List.append_assoc, ← whole, List.append_assoc, List.append_assoc,
    List.drop_left]
  exact List.prefix_append mark _

theorem EndsLine.of_append (ends : EndsLine (left ++ right)) : EndsLine right := by
  by_cases empty : right = []
  · exact .inl empty
  · rcases ends with nothing | last
    · exact absurd (List.append_eq_nil_iff.1 nothing).2 empty
    · exact .inr (List.getLast?_append_of_ne_nil left empty ▸ last)

/-- Lines end at a line feed, so one that starts in a text starts before its last line. -/
theorem prefix_of_endsLine {part : List UInt8} (ends : EndsLine part) (inLine : lineFeed ∉ start)
    (starts : part <+: before ++ start) : part <+: before := by
  rcases Nat.le_total part.length before.length with short | long
  · exact List.prefix_of_prefix_length_le starts (List.prefix_append _ _) short
  · obtain ⟨more, rfl⟩ := List.prefix_of_prefix_length_le (List.prefix_append _ _) starts long
    rw [List.prefix_append_right_inj] at starts
    by_cases empty : more = []
    · rw [empty, List.append_nil]
    · refine absurd (ends.of_append.resolve_left empty) fun last => ?_
      exact inLine (starts.subset (List.mem_of_getLast? last))

/-- What is put in before a place of another mark only moves the place. -/
theorem Spot.inserted {gap : List UInt8} (bracketed : IsBracketed mark)
    (bracketedToo : IsBracketed other) (spot : Spot other (before ++ gap) start)
    (reaches : left ++ mark <+: before ++ gap ++ start) (free : ¬other <:+: added) :
    Spot other (left ++ mark ++ added ++ lineFeed :: gap) start where
  endsLine := endsLine_line.2 spot.endsLine.of_append
  free := by
    have freeBefore : ¬other <:+: left ++ mark := fun within =>
      spot.free_before (within.trans reaches.isInfix)
    have freeAfter : ¬other <:+: gap := fun within =>
      spot.free_before (within.trans ⟨before, start, rfl⟩)
    exact (forall_byteLines_iff bracketedToo).2
      (not_infix_inserted bracketed bracketedToo freeBefore free freeAfter)
  inLine := spot.inLine
  nonempty := spot.nonempty
  first := spot.first

/-! ## Both orders -/

variable {point point' content content' : String}

/-- Where the first mark of the one point stands before that of the other, the order of the two does
not matter. -/
theorem Spot.inject_swap {before' start' rest' : List UInt8}
    (bracketed : IsBracketed (marker point)) (bracketedToo : IsBracketed (marker point'))
    (different : marker point ≠ marker point') (spot : Spot (marker point) before start)
    (spotToo : Spot (marker point') before' start')
    (same : before ++ (start ++ marker point ++ rest) =
      before' ++ (start' ++ marker point' ++ rest'))
    (first : before.length + start.length ≤ before'.length + start'.length)
    (free : ¬marker point' <:+: content.toUTF8.toList) :
    inject point' content' (inject point content (before ++ (start ++ marker point ++ rest))) =
      inject point content
        (inject point' content' (before ++ (start ++ marker point ++ rest))) := by
  have ended := le_of_bracketed bracketed bracketedToo different (spot.firstAt rest).here
    (same ▸ (spotToo.firstAt rest').here) first
  have reaches : before ++ (start ++ marker point) <+: before' ++ start' := by
    have here : before ++ (start ++ marker point) <+: before ++ (start ++ marker point ++ rest) :=
      ⟨rest, by simp⟩
    have there : before' ++ start' <+: before' ++ (start' ++ marker point' ++ rest') :=
      ⟨marker point' ++ rest', by simp⟩
    refine List.prefix_of_prefix_length_le here (same ▸ there) ?_
    simp only [List.length_append]
    omega
  have inLine : lineFeed ∉ start' := fun broken => spotToo.inLine (List.mem_append_left _ broken)
  obtain ⟨gap, rfl⟩ := prefix_of_endsLine spot.endsLine inLine
    ((List.prefix_append before _).trans reaches)
  have moved : Spot (marker point')
      (before ++ start ++ marker point ++ content.toUTF8.toList ++ lineFeed :: gap) start' :=
    spotToo.inserted bracketed bracketedToo (by simpa using reaches) free
  -- The second mark stands behind the first in the same line, or in a later one.
  rw [List.append_assoc, List.prefix_append_right_inj] at reaches
  obtain ⟨between, reached⟩ := reaches
  have regroup : ∀ more, start ++ marker point ++ (between ++ more) = gap ++ (start' ++ more) := by
    intro more
    rw [← List.append_assoc, reached, List.append_assoc]
  have tail : start ++ marker point ++ rest = gap ++ (start' ++ marker point' ++ rest') := by
    rwa [List.append_assoc before gap, List.append_cancel_left_eq] at same
  let second := marker point' ++
    (content'.toUTF8.toList ++ lineFeed :: (start' ++ marker point' ++ rest'))
  calc
    inject point' content' (inject point content (before ++ (start ++ marker point ++ rest))) =
        inject point' content' (before ++ start ++ marker point ++ content.toUTF8.toList ++
          lineFeed :: gap ++ (start' ++ marker point' ++ rest')) := by
      rw [spot.inject_eq, tail]
      simp
    _ = before ++ start ++ marker point ++ content.toUTF8.toList ++
          lineFeed :: gap ++ (start' ++ second) := by
      rw [moved.inject_eq]
      simp [second]
    _ = inject point content (before ++ (start ++ marker point ++ (between ++ second))) := by
      rw [spot.inject_eq, regroup]
      simp
    _ = inject point content
          (inject point' content' (before ++ (start ++ marker point ++ rest))) := by
      rw [regroup, same, spotToo.inject_eq]
      simp [second]

theorem inject_of_missing (bracketed : IsBracketed (marker point))
    (missing : ¬marker point <:+: file) (content : String) : inject point content file = file :=
  injectLines_free ((forall_byteLines_iff bracketed).2 missing)

theorem exists_spot_of_infix (bracketed : IsBracketed (marker point))
    (within : marker point <:+: file) :
    ∃ before start rest, file = before ++ (start ++ marker point ++ rest) ∧
      Spot (marker point) before start := by
  refine exists_spot (marker_isClosed point) ?_
  by_contra free
  push Not at free
  exact (forall_byteLines_iff bracketed).1 free within

/-- A mark that is missing stays missing. -/
theorem not_infix_inject (bracketed : IsBracketed (marker point))
    (bracketedToo : IsBracketed (marker point')) (missing : ¬marker point <:+: file)
    (free : ¬marker point <:+: content'.toUTF8.toList) :
    ¬marker point <:+: inject point' content' file := by
  by_cases occurs : marker point' <:+: file
  · obtain ⟨before, start, rest, rfl, spot⟩ := exists_spot_of_infix bracketedToo occurs
    have ahead : ¬marker point <:+: before ++ start ++ marker point' := fun within =>
      missing (within.trans ⟨[], rest, by simp⟩)
    have behind : ¬marker point <:+: start ++ marker point' ++ rest := fun within =>
      missing (within.trans ⟨before, [], by simp⟩)
    have inserted := not_infix_inserted bracketedToo bracketed ahead free behind
    rw [spot.inject_eq]
    simpa using inserted
  · rwa [inject_of_missing bracketedToo occurs]

/-- Content put in at two different points, in whatever order, gives the same file, if neither
content has the mark of the other point. -/
theorem inject_comm (different : point ≠ point') (plain : IsPlain point) (plainToo : IsPlain point')
    (free : ¬marker point' <:+: content.toUTF8.toList)
    (freeToo : ¬marker point <:+: content'.toUTF8.toList) (file : List UInt8) :
    inject point' content' (inject point content file) =
      inject point content (inject point' content' file) := by
  have bracketed := marker_isBracketed plain
  have bracketedToo := marker_isBracketed plainToo
  have apart : marker point ≠ marker point' := fun same => different (marker_injective same)
  by_cases here : marker point <:+: file
  · by_cases there : marker point' <:+: file
    · obtain ⟨before, start, rest, whole, spot⟩ := exists_spot_of_infix bracketed here
      obtain ⟨before', start', rest', same, spotToo⟩ := exists_spot_of_infix bracketedToo there
      rcases Nat.le_total (before.length + start.length) (before'.length + start'.length) with
        first | second
      · rw [whole]
        exact spot.inject_swap bracketed bracketedToo apart spotToo (whole ▸ same) first free
      · rw [same]
        exact (spotToo.inject_swap bracketedToo bracketed apart.symm spot (same ▸ whole) second
          freeToo).symm
    · rw [inject_of_missing bracketedToo there,
        inject_of_missing bracketedToo (not_infix_inject bracketedToo bracketed there free)]
  · rw [inject_of_missing bracketed here,
      inject_of_missing bracketed (not_infix_inject bracketed bracketedToo here freeToo)]

/-- Two marks in one line, one of them in the next line again, and contents that have the mark of
their own point or the beginning of the other. -/
theorem inject_comm_line :
    let file := ("x @@graphqlc_insertion_point(b) y @@graphqlc_insertion_point(a) z\n" ++
      "@@graphqlc_insertion_point(b)").toUTF8.toList
    let one := "1 @@graphqlc_insertion_point(a)\n@@graphqlc_insertion_point"
    let two := "@@graphqlc_insertion_point(a 2"
    "a" ≠ "b" ∧ IsPlain "a" ∧ IsPlain "b" ∧ ¬marker "b" <:+: one.toUTF8.toList ∧
      ¬marker "a" <:+: two.toUTF8.toList ∧
      inject "b" two (inject "a" one file) = inject "a" one (inject "b" two file) := by
  intro file one two
  have plain : IsPlain "a" ∧ IsPlain "b" := by decide +kernel
  have free : ¬marker "b" <:+: one.toUTF8.toList := by decide +kernel
  have freeToo : ¬marker "a" <:+: two.toUTF8.toList := by decide +kernel
  exact ⟨by decide, plain.1, plain.2, free, freeToo,
    inject_comm (by decide) plain.1 plain.2 free freeToo file⟩

end SdlCompiler.Output
