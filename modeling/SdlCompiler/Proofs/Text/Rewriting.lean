import Mathlib.Data.List.DropRight
import SdlCompiler.Proofs.Text.BlockString

/-!
# Writing again what was read

What a block string reads as when a text is written as one, and what that is written as. Blank
lines lose their blanks, and a line loses a carriage return at its end. All else is kept, so the
second text is no longer than the first, and just as long only if it is the same.
-/

namespace SdlCompiler.Text

/-! ## Lines -/

/-- The line without a carriage return at its end. -/
def dropReturn : List Char → List Char
  | [] => []
  | ['\r'] => []
  | c :: rest => c :: dropReturn rest

theorem lines_feed {line : List Char} (noFeed : '\n' ∉ line) (rest : List Char) :
    lines (line ++ '\n' :: rest) = dropReturn line :: lines rest := by
  fun_induction dropReturn line with
  | case1 => rfl
  | case2 => rfl
  | case3 c line notReturn ih =>
    simp only [List.mem_cons, not_or] at noFeed
    rw [List.cons_append, lines, ih noFeed.2]
    · rintro rfl
      exact noFeed.1 rfl
    · rintro more rfl next
      cases line with
      | nil => exact notReturn rfl rfl
      | cons d line =>
        cases next
        exact noFeed.2 List.mem_cons_self

theorem lines_last {line : List Char} (noFeed : '\n' ∉ line) (nonempty : line ≠ []) :
    lines line = [line] := by
  induction line with
  | nil => exact absurd rfl nonempty
  | cons c line ih =>
    simp only [List.mem_cons, not_or] at noFeed
    rw [lines]
    · by_cases last : line = []
      · rw [last]
        rfl
      · rw [ih noFeed.2 last]
    · rintro rfl
      exact noFeed.1 rfl
    · rintro more rfl rfl
      exact noFeed.2 List.mem_cons_self

theorem feed_not_mem_lines {text line : List Char} (isLine : line ∈ lines text) : '\n' ∉ line := by
  fun_induction lines text generalizing line with
  | case1 => cases isLine
  | case2 rest ih | case3 rest ih =>
    rcases List.mem_cons.1 isLine with rfl | later
    · exact List.not_mem_nil
    · exact ih later
  | case4 d rest notFeed _ found ih =>
    rw [List.mem_singleton.1 isLine, List.mem_singleton]
    exact fun same => notFeed same.symm
  | case5 d rest notFeed _ first others found ih =>
    rcases List.mem_cons.1 isLine with rfl | later
    · rw [List.mem_cons, not_or]
      exact ⟨fun same => notFeed same.symm, ih (found ▸ List.mem_cons_self)⟩
    · exact ih (found ▸ List.mem_cons_of_mem _ later)

/-- A text whose first character is visible. -/
def StartsVisible (text : List Char) : Prop :=
  ∃ c, text.head? = some c ∧ isBlank c = false

/-- A text whose last character is visible. -/
def EndsVisible (text : List Char) : Prop :=
  ∃ c, text.getLast? = some c ∧ isBlank c = false

theorem StartsVisible.isBlankLine_eq {text : List Char} (starts : StartsVisible text) :
    isBlankLine text = false := by
  obtain ⟨c, first, visible⟩ := starts
  obtain ⟨rest, rfl⟩ := List.head?_eq_some_iff.1 first
  rw [isBlankLine, List.all_cons, visible, Bool.false_and]

theorem EndsVisible.isBlankLine_eq {text : List Char} (ends : EndsVisible text) :
    isBlankLine text = false := by
  obtain ⟨c, last, visible⟩ := ends
  obtain ⟨before, rfl⟩ := List.getLast?_eq_some_iff.1 last
  rw [isBlankLine, List.all_append, List.all_cons, visible, Bool.false_and, Bool.and_false]

theorem EndsVisible.tail {c : Char} {text : List Char} (ends : EndsVisible (c :: text))
    (more : text ≠ [] ∨ isBlank c = true) : EndsVisible text := by
  obtain ⟨last, isLast, visible⟩ := ends
  rw [List.getLast?_cons] at isLast
  cases found : text.getLast? with
  | none =>
    rw [found, Option.getD_none] at isLast
    cases isLast
    rcases more with nonempty | blank
    · exact absurd (List.getLast?_eq_none_iff.1 found) nonempty
    · exact absurd blank (by simp [visible])
  | some d =>
    rw [found, Option.getD_some] at isLast
    cases isLast
    exact ⟨_, found, visible⟩

theorem lines_starts {text : List Char} (starts : StartsVisible text) :
    ∃ line, (lines text).head? = some line ∧ StartsVisible line := by
  obtain ⟨c, first, visible⟩ := starts
  fun_cases lines text with
  | case1 => cases first
  | case2 rest | case3 rest =>
    cases first
    exact absurd visible (by decide)
  | case4 d rest _ _ _ | case5 d rest _ _ _ _ _ =>
    cases first
    exact ⟨_, rfl, c, rfl, visible⟩

theorem lines_ends {text : List Char} (ends : EndsVisible text) :
    ∃ line, (lines text).getLast? = some line ∧ EndsVisible line := by
  fun_induction lines text with
  | case1 =>
    obtain ⟨c, last, -⟩ := ends
    cases last
  | case2 rest ih =>
    obtain ⟨line, last, visible⟩ := ih (ends.tail (.inr (by decide)))
    exact ⟨line, by rw [List.getLast?_cons, last]; rfl, visible⟩
  | case3 rest ih =>
    obtain ⟨line, last, visible⟩ := ih ((ends.tail (.inr (by decide))).tail (.inr (by decide)))
    exact ⟨line, by rw [List.getLast?_cons, last]; rfl, visible⟩
  | case4 c rest _ _ found ih =>
    by_cases last : rest = []
    · rw [last] at ends
      exact ⟨_, rfl, ends⟩
    · obtain ⟨line, absurd, -⟩ := ih (ends.tail (.inl last))
      rw [found] at absurd
      cases absurd
  | case5 c rest _ _ line more found ih =>
    have nonempty : rest ≠ [] := by
      rintro rfl
      cases found
    obtain ⟨last, isLast, visible⟩ := ih (ends.tail (.inl nonempty))
    rw [found, List.getLast?_cons] at isLast
    rw [List.getLast?_cons]
    cases others : more.getLast? with
    | none =>
      rw [others, Option.getD_none] at isLast
      cases isLast
      obtain ⟨d, isEnd, seen⟩ := visible
      exact ⟨c :: line, rfl, d, by rw [List.getLast?_cons, isEnd]; rfl, seen⟩
    | some other =>
      rw [others] at isLast
      cases isLast
      exact ⟨_, rfl, visible⟩

theorem dropReturn_spec (line : List Char) :
    (line.getLast? = some '\r' ∧ line = dropReturn line ++ ['\r']) ∨
      (line.getLast? ≠ some '\r' ∧ dropReturn line = line) := by
  fun_induction dropReturn line with
  | case1 => exact .inr ⟨by simp, rfl⟩
  | case2 => exact .inl ⟨rfl, rfl⟩
  | case3 c line notReturn ih =>
    cases line with
    | nil => exact .inr ⟨fun last => notReturn (by simpa using last) rfl, rfl⟩
    | cons d line =>
      rw [List.getLast?_cons_cons]
      rcases ih with ⟨last, whole⟩ | ⟨last, same⟩
      · exact .inl ⟨last, by rw [List.cons_append, ← whole]⟩
      · exact .inr ⟨last, by rw [same]⟩

theorem EndsVisible.dropReturn_eq {line : List Char} (ends : EndsVisible line) :
    dropReturn line = line := by
  rcases dropReturn_spec line with ⟨last, -⟩ | ⟨-, same⟩
  · obtain ⟨c, isLast, visible⟩ := ends
    rw [isLast] at last
    cases last
    exact absurd visible (by decide)
  · exact same

theorem StartsVisible.dropReturn {line : List Char} (starts : StartsVisible line) :
    StartsVisible (dropReturn line) := by
  obtain ⟨c, first, visible⟩ := starts
  fun_cases Text.dropReturn line with
  | case1 => cases first
  | case2 =>
    cases first
    exact absurd visible (by decide)
  | case3 d rest _ =>
    cases first
    exact ⟨c, rfl, visible⟩

/-- Lines joined and taken apart again. The last one has no line feed behind it. -/
theorem lines_joinLines {ls : List (List Char)} (noFeeds : ∀ line ∈ ls, '\n' ∉ line)
    {last : List Char} (isLast : ls.getLast? = some last) (ends : EndsVisible last) :
    lines (joinLines ls) = ls.map dropReturn := by
  fun_induction joinLines ls with
  | case1 => cases isLast
  | case2 line =>
    obtain rfl : line = last := by simpa using isLast
    have nonempty : line ≠ [] := by
      rintro rfl
      obtain ⟨c, absurd, -⟩ := ends
      cases absurd
    rw [lines_last (noFeeds line List.mem_cons_self) nonempty, List.map_singleton,
      ends.dropReturn_eq]
  | case3 line more nonempty ih =>
    obtain ⟨noFeed, noFeeds⟩ := List.forall_mem_cons.1 noFeeds
    obtain ⟨next, others, rfl⟩ := List.exists_cons_of_ne_nil nonempty
    rw [List.getLast?_cons_cons] at isLast
    rw [lines_feed noFeed, List.map_cons, ih noFeeds isLast]

theorem joinLines_starts {ls : List (List Char)} {first : List Char}
    (isFirst : ls.head? = some first) (starts : StartsVisible first) :
    StartsVisible (joinLines ls) := by
  obtain ⟨c, head, visible⟩ := starts
  obtain ⟨rest, rfl⟩ := List.head?_eq_some_iff.1 head
  fun_cases joinLines ls with
  | case1 => cases isFirst
  | case2 line | case3 line more _ =>
    cases isFirst
    exact ⟨c, rfl, visible⟩

theorem joinLines_ends {ls : List (List Char)} {last : List Char}
    (isLast : ls.getLast? = some last) (ends : EndsVisible last) : EndsVisible (joinLines ls) := by
  fun_induction joinLines ls with
  | case1 => cases isLast
  | case2 line =>
    obtain rfl : line = last := by simpa using isLast
    exact ends
  | case3 line more nonempty ih =>
    obtain ⟨next, others, rfl⟩ := List.exists_cons_of_ne_nil nonempty
    obtain ⟨c, found, visible⟩ := ih isLast
    exact ⟨c, by rw [List.getLast?_append, List.getLast?_cons, found]; rfl, visible⟩

/-! ## Texts in place of others -/

/-- A text in place of another: it is no longer, and the same if it is as long, which it is just in
the case that is named. -/
structure Shrinks (same : Prop) (before after : List Char) : Prop where
  length_le : after.length ≤ before.length
  of_length : after.length = before.length → same
  eq_of : same → after = before

namespace Shrinks

variable {p q : Prop} {before before' after after' : List Char}

theorem refl (text : List Char) : Shrinks True text text :=
  ⟨Nat.le_refl _, fun _ => trivial, fun _ => rfl⟩

theorem trans {between : List Char} (first : Shrinks p before between)
    (second : Shrinks q between after) : Shrinks (p ∧ q) before after := by
  have firstLe := first.length_le
  have secondLe := second.length_le
  refine ⟨by omega, fun same => ⟨first.of_length (by omega), second.of_length (by omega)⟩, ?_⟩
  rintro ⟨sameFirst, sameSecond⟩
  rw [second.eq_of sameSecond, first.eq_of sameFirst]

theorem append (first : Shrinks p before after) (second : Shrinks q before' after') :
    Shrinks (p ∧ q) (before ++ before') (after ++ after') := by
  have firstLe := first.length_le
  have secondLe := second.length_le
  refine ⟨?_, ?_, ?_⟩
  · rw [List.length_append, List.length_append]
    omega
  · intro same
    rw [List.length_append, List.length_append] at same
    exact ⟨first.of_length (by omega), second.of_length (by omega)⟩
  · rintro ⟨sameFirst, sameSecond⟩
    rw [first.eq_of sameFirst, second.eq_of sameSecond]

theorem congr (shrinks : Shrinks p before after) (same : p ↔ q) : Shrinks q before after :=
  ⟨shrinks.length_le, fun equal => same.1 (shrinks.of_length equal),
    fun holds => shrinks.eq_of (same.2 holds)⟩

theorem flatMap {α : Type} {xs : List α} {f g : α → List Char} {p : α → Prop}
    (each : ∀ x ∈ xs, Shrinks (p x) (f x) (g x)) :
    Shrinks (∀ x ∈ xs, p x) (xs.flatMap f) (xs.flatMap g) := by
  induction xs with
  | nil => exact (refl []).congr (by simp)
  | cons x xs ih =>
    obtain ⟨head, tail⟩ := List.forall_mem_cons.1 each
    exact (head.append (ih tail)).congr List.forall_mem_cons.symm

theorem eq_iff (shrinks : Shrinks p before after) : after = before ↔ p :=
  ⟨fun same => shrinks.of_length (congrArg List.length same), shrinks.eq_of⟩

end Shrinks

/-! ## Trimmed texts -/

theorem trimEnd_eq (text : List Char) : trimEnd text = text.rdropWhile isBlank :=
  rfl

theorem StartsVisible.trimStart_eq {text : List Char} (starts : StartsVisible text) :
    trimStart text = text := by
  obtain ⟨c, first, visible⟩ := starts
  obtain ⟨rest, rfl⟩ := List.head?_eq_some_iff.1 first
  exact List.dropWhile_cons_of_neg (by simp [visible])

theorem StartsVisible.takeWhile_eq {text : List Char} (starts : StartsVisible text) :
    text.takeWhile isBlank = [] := by
  obtain ⟨c, first, visible⟩ := starts
  obtain ⟨rest, rfl⟩ := List.head?_eq_some_iff.1 first
  exact List.takeWhile_cons_of_neg (by simp [visible])

theorem EndsVisible.trimEnd_eq {text : List Char} (ends : EndsVisible text) :
    trimEnd text = text := by
  obtain ⟨c, last, visible⟩ := ends
  obtain ⟨before, rfl⟩ := List.getLast?_eq_some_iff.1 last
  rw [Text.trimEnd_eq, List.rdropWhile_concat_neg _ _ _ (by simp [visible])]

theorem trim_eq_self {text : List Char} (starts : StartsVisible text) (ends : EndsVisible text) :
    trim text = text := by
  rw [trim, starts.trimStart_eq, ends.trimEnd_eq]

theorem trim_visible {text : List Char} (nonempty : trim text ≠ []) :
    StartsVisible (trim text) ∧ EndsVisible (trim text) := by
  have whole : trimStart text ≠ [] := by
    intro blank
    rw [trim, blank] at nonempty
    exact nonempty rfl
  constructor
  · obtain ⟨c, rest, found⟩ := List.exists_cons_of_ne_nil nonempty
    obtain ⟨after, same⟩ := List.rdropWhile_prefix isBlank (trimStart text)
    have first := List.head?_dropWhile_not isBlank text
    rw [← trimStart, ← same, ← trimEnd_eq, ← trim, found, List.cons_append, List.head?_cons] at first
    exact ⟨c, by rw [found]; rfl, by simpa using first⟩
  · exact ⟨_, List.getLast?_eq_some_getLast nonempty,
      eq_false_of_ne_true (List.rdropWhile_last_not isBlank (trimStart text) nonempty)⟩

/-- The lines of a trimmed text: the first starts and the last ends with a visible character. -/
theorem lines_trim {text : List Char} (nonempty : trim text ≠ []) :
    (∃ line, (lines (trim text)).head? = some line ∧ StartsVisible line) ∧
      ∃ line, (lines (trim text)).getLast? = some line ∧ EndsVisible line :=
  ⟨lines_starts (trim_visible nonempty).1, lines_ends (trim_visible nonempty).2⟩

/-! ## Bytes -/

theorem byteLength_append (before after : List Char) :
    byteLength (before ++ after) = byteLength before + byteLength after := by
  induction before with
  | nil => exact (Nat.zero_add _).symm
  | cons c before ih => rw [List.cons_append, byteLength, byteLength, ih, Nat.add_assoc]

theorem length_le_byteLength (text : List Char) : text.length ≤ byteLength text := by
  induction text with
  | nil => exact Nat.le_refl 0
  | cons c text ih =>
    have positive := c.utf8Size_pos
    rw [List.length_cons, byteLength]
    omega

theorem dropBytes?_append (before after : List Char) :
    dropBytes? (byteLength before) (before ++ after) = some after := by
  induction before with
  | nil => rw [List.nil_append, byteLength, dropBytes?]
  | cons c before ih =>
    obtain ⟨n, size⟩ : ∃ n, c.utf8Size + byteLength before = n + 1 :=
      Nat.exists_eq_succ_of_ne_zero (Nat.ne_of_gt (Nat.add_pos_left c.utf8Size_pos _))
    rw [byteLength, List.cons_append, size, dropBytes?, ← size, if_pos (Nat.le_add_right _ _),
      Nat.add_sub_cancel_left, ih]

namespace BlockString

open Outcome

/-! ## Escapes -/

theorem escape_append {c : Char} (plain : c ≠ '"') (before after : List Char) :
    escape (before ++ c :: after) = escape before ++ c :: escape after := by
  fun_induction escape before with
  | case1 =>
    rw [List.nil_append, escape]
    · rfl
    · exact fun _ same => absurd same plain
  | case2 rest ih => simp only [List.cons_append, escape, ih]
  | case3 d rest unquoted ih =>
    rw [List.cons_append, escape, ih, List.cons_append]
    rintro more rfl tail
    rcases rest with _ | ⟨d, _ | ⟨e, rest⟩⟩
    · cases tail
      exact plain rfl
    · cases tail
      exact plain rfl
    · cases tail
      exact unquoted rest rfl rfl

/-- Where an escaped text starts with a quote, so does the text. -/
theorem of_escape_quote {text after more : List Char} (plain : after.head? ≠ some '"')
    (starts : escape text ++ after = '"' :: more) :
    ∃ rest, text = '"' :: rest ∧ more = escape rest ++ after := by
  fun_cases escape text with
  | case1 =>
    rw [escape, List.nil_append] at starts
    exact absurd (congrArg List.head? starts) plain
  | case2 rest =>
    rw [escape] at starts
    cases starts
  | case3 c rest unquoted =>
    rw [escape, List.cons_append] at starts
    · cases starts
      exact ⟨rest, rfl, rfl⟩
    · exact unquoted

/-- An escaped text has no triple quote at its front. -/
theorem escape_ne_quotes {text after more : List Char} (plain : after.head? ≠ some '"') :
    escape text ++ after ≠ '"' :: '"' :: '"' :: more := by
  intro starts
  obtain ⟨_, rfl, afterFirst⟩ := of_escape_quote plain starts
  obtain ⟨_, rfl, afterSecond⟩ := of_escape_quote plain afterFirst.symm
  obtain ⟨_, rfl, -⟩ := of_escape_quote plain afterSecond.symm
  rw [escape] at starts
  cases starts

theorem unescape_escape (text : List Char) : unescape (escape text) = text := by
  fun_induction escape text with
  | case1 => rfl
  | case2 rest ih => rw [unescape, ih]
  | case3 c rest unquoted ih =>
    rw [unescape, ih]
    rintro more rfl tail
    rw [← List.append_nil (escape rest)] at tail
    exact escape_ne_quotes (by simp) tail

theorem isBlankLine_escape (line : List Char) : isBlankLine (escape line) = isBlankLine line := by
  fun_induction escape line with
  | case1 => rfl
  | case2 rest ih => rfl
  | case3 c rest _ ih => rw [isBlankLine, isBlankLine, List.all_cons, List.all_cons, ← isBlankLine,
      ← isBlankLine, ih]

theorem startsVisible_escape {line : List Char} (starts : StartsVisible line) :
    StartsVisible (escape line) := by
  obtain ⟨c, first, visible⟩ := starts
  fun_cases escape line with
  | case1 => cases first
  | case2 rest => exact ⟨_, rfl, by decide⟩
  | case3 d rest unquoted =>
    cases first
    exact ⟨c, rfl, visible⟩

theorem getLast?_escape (line : List Char) : (escape line).getLast? = line.getLast? := by
  fun_induction escape line with
  | case1 => rfl
  | case2 rest ih => simp only [List.getLast?_cons, ih, Option.getD_some]
  | case3 c rest _ ih => rw [List.getLast?_cons, List.getLast?_cons, ih]

/-- What is left of a line that is written and read. -/
def rereadLine (line : List Char) : List Char :=
  if isBlankLine line then [] else dropReturn line

/-- A line as it is taken out of the contents, before its indentation is cut. -/
def writtenLine (indent line : List Char) : List Char :=
  if isBlankLine line then [] else indent ++ escape (dropReturn line)

theorem dropReturn_append (before : List Char) {line : List Char} (nonempty : line ≠ []) :
    dropReturn (before ++ line) = before ++ dropReturn line := by
  induction before with
  | nil => rfl
  | cons c before ih =>
    rw [List.cons_append, dropReturn, ih, List.cons_append]
    exact fun _ last => nonempty (List.append_eq_nil_iff.1 last).2

theorem escape_of_return {line : List Char} (whole : line = dropReturn line ++ ['\r']) :
    escape line = escape (dropReturn line) ++ ['\r'] := by
  conv_lhs => rw [whole, escape_append (by decide)]
  rfl

theorem dropReturn_escape (line : List Char) :
    dropReturn (escape line) = escape (dropReturn line) := by
  rcases dropReturn_spec line with ⟨-, whole⟩ | ⟨last, same⟩
  · rw [escape_of_return whole, dropReturn_append _ (by simp)]
    exact List.append_nil _
  · rw [same]
    rcases dropReturn_spec (escape line) with ⟨absurd, -⟩ | ⟨-, kept⟩
    · rw [getLast?_escape] at absurd
      exact (last absurd).elim
    · exact kept

theorem ne_nil_of_visible {line : List Char} (visible : isBlankLine line = false) : line ≠ [] := by
  rintro rfl
  cases visible

theorem feed_not_mem_escape {line : List Char} (noFeed : '\n' ∉ line) : '\n' ∉ escape line := by
  fun_induction escape line with
  | case1 => exact noFeed
  | case2 rest ih | case3 c rest _ ih => simp_all

/-- The lines of the contents, one for each line of the text. -/
theorem lines_writeLine {indent : List Char} (noFeed : '\n' ∉ indent) {ls : List (List Char)}
    (noFeeds : ∀ line ∈ ls, '\n' ∉ line) (rest : List Char) :
    lines (ls.flatMap (writeLine indent) ++ rest) = ls.map (writtenLine indent) ++ lines rest := by
  induction ls with
  | nil => rfl
  | cons line ls ih =>
    obtain ⟨here, noFeeds⟩ := List.forall_mem_cons.1 noFeeds
    rw [List.flatMap_cons, List.map_cons, List.append_assoc, List.cons_append, ← ih noFeeds,
      writeLine, writtenLine]
    split
    · rfl
    · next visible =>
      have nonempty : escape line ≠ [] := by
        apply ne_nil_of_visible
        rw [isBlankLine_escape]
        simpa using visible
      have plain : '\n' ∉ indent ++ escape line := by
        simp [noFeed, feed_not_mem_escape here]
      rw [List.append_assoc _ ['\n'], List.singleton_append, lines_feed plain,
        dropReturn_append indent nonempty, dropReturn_escape]

/-! ## The value of written contents -/

/-- What stands between the triple quotes when a text is written. -/
def contents (indent text : List Char) : List Char :=
  '\n' :: (writeLines indent text ++ indent)

/-- What a text is read as when it has been written. -/
def reread (text : List Char) : List Char :=
  joinLines ((lines (trim text)).map rereadLine)

theorem isBlankLine_dropReturn (line : List Char) :
    isBlankLine (dropReturn line) = isBlankLine line := by
  rcases dropReturn_spec line with ⟨-, whole⟩ | ⟨-, same⟩
  · conv_rhs => rw [whole, isBlankLine, List.all_append]
    exact (Bool.and_true _).symm
  · rw [same]

theorem dropBlankEnd_append {ls rest : List (List Char)} {last : List Char}
    (isLast : ls.getLast? = some last) (visible : isBlankLine last = false)
    (blanks : ∀ line ∈ rest, isBlankLine line = true) : dropBlankEnd (ls ++ rest) = ls := by
  obtain ⟨before, rfl⟩ := List.getLast?_eq_some_iff.1 isLast
  rw [dropBlankEnd, List.reverse_append, List.dropWhile_append_of_pos
    fun line member => blanks line (List.mem_reverse.1 member), List.reverse_append,
    List.reverse_singleton, List.singleton_append, List.dropWhile_cons_of_neg (by simp [visible])]
  simp

section

variable {indent : List Char} (spaces : ∀ c ∈ indent, c = ' ')

include spaces

theorem isBlank_indent : ∀ c ∈ indent, isBlank c = true := by
  intro c member
  rw [spaces c member]
  decide

theorem isBlankLine_writtenLine (line : List Char) :
    isBlankLine (writtenLine indent line) = isBlankLine line := by
  unfold writtenLine
  split
  · next blank => exact blank.symm
  · next visible =>
    have blanks : isBlankLine indent = true := List.all_eq_true.2 (isBlank_indent spaces)
    rw [isBlankLine, List.all_append, ← isBlankLine, ← isBlankLine, blanks, Bool.true_and,
      isBlankLine_escape, isBlankLine_dropReturn]

theorem indentation_writtenLine {line : List Char} (visible : isBlankLine line = false) :
    indentation (writtenLine indent line) =
      some (byteLength indent + byteLength ((escape (dropReturn line)).takeWhile isBlank)) := by
  rw [indentation, isBlankLine_writtenLine spaces, visible, writtenLine, visible]
  simp only [Bool.false_eq_true, if_false]
  rw [List.takeWhile_append_of_pos (isBlank_indent spaces), byteLength_append]

omit spaces in
/-- Cutting the indentation gives back the line that was escaped. -/
theorem cutIndentation_writtenLine (line : List Char) :
    cutIndentation (byteLength indent) (writtenLine indent line) =
      .ok (escape (rereadLine line)) := by
  have cut : dropBytes? (byteLength indent) (writtenLine indent line) =
      some (escape (rereadLine line)) := by
    unfold writtenLine rereadLine
    split
    · cases byteLength indent <;> rfl
    · exact dropBytes?_append _ _
  rw [cutIndentation, cut]

variable {ls rest : List (List Char)} {first : List Char} (isFirst : ls.head? = some first)
  (starts : StartsVisible first) (blanks : ∀ line ∈ rest, isBlankLine line = true)

include isFirst starts blanks

/-- The lines share the indentation that they are written with: the first has no more. -/
theorem commonIndentation_writtenLine :
    commonIndentation (ls.map (writtenLine indent) ++ rest) = byteLength indent := by
  have least : ((ls.map (writtenLine indent) ++ rest).filterMap indentation).min? =
      some (byteLength indent) := by
    refine List.min?_eq_some_iff.2 ⟨List.mem_filterMap.2 ?_, ?_⟩
    · refine ⟨writtenLine indent first,
        List.mem_append_left _ (List.mem_map_of_mem (List.mem_of_mem_head? isFirst)), ?_⟩
      rw [indentation_writtenLine spaces starts.isBlankLine_eq,
        (startsVisible_escape starts.dropReturn).takeWhile_eq]
      rfl
    · intro size member
      obtain ⟨line, present, indented⟩ := List.mem_filterMap.1 member
      rcases List.mem_append.1 present with written | blank
      · obtain ⟨line, -, rfl⟩ := List.mem_map.1 written
        cases visible : isBlankLine line with
        | true =>
          rw [indentation, isBlankLine_writtenLine spaces, visible] at indented
          cases indented
        | false =>
          rw [indentation_writtenLine spaces visible] at indented
          cases indented
          exact Nat.le_add_right _ _
      · rw [indentation, blanks line blank] at indented
        cases indented
  rw [commonIndentation, least]
  rfl

variable {last : List Char} (isLast : ls.getLast? = some last) (ends : EndsVisible last)

include isLast ends

/-- Between blank lines, the written lines are taken as they are. -/
theorem dedent_writtenLine :
    dedent ([] :: (ls.map (writtenLine indent) ++ rest)) =
      .ok (ls.map fun line => escape (rereadLine line)) := by
  have inner : dropBlankEnd ((ls.map (writtenLine indent) ++ rest).dropWhile isBlankLine) =
      ls.map (writtenLine indent) := by
    have lastVisible : isBlankLine (writtenLine indent last) = false := by
      rw [isBlankLine_writtenLine spaces, ends.isBlankLine_eq]
    have firstVisible : isBlankLine (writtenLine indent first) = false := by
      rw [isBlankLine_writtenLine spaces, starts.isBlankLine_eq]
    have mapped : (ls.map (writtenLine indent)).getLast? = some (writtenLine indent last) := by
      rw [List.getLast?_map, isLast]
      rfl
    obtain ⟨more, rfl⟩ := List.head?_eq_some_iff.1 isFirst
    rw [List.map_cons, List.cons_append, List.dropWhile_cons_of_neg (by simp [firstVisible]),
      ← List.cons_append, ← List.map_cons]
    exact dropBlankEnd_append mapped lastVisible blanks
  rw [dedent, if_pos (show isBlankLine [] = true from rfl),
    commonIndentation_writtenLine spaces isFirst starts blanks, inner, mapM_eq_ok,
    List.forall₂_map_left_iff, List.forall₂_map_right_iff, List.forall₂_same]
  exact fun line _ => cutIndentation_writtenLine line

end

/-- The value of written contents. Short ones have none, unless they are blank. -/
theorem value_contents {indent : List Char} (spaces : ∀ c ∈ indent, c = ' ') (text : List Char) :
    value (contents indent text) =
      if trim text ≠ [] ∧ byteLength (contents indent text) < 6 then .error .tooShort
      else .ok (reread text) := by
  have noFeed : '\n' ∉ indent := fun member => absurd (spaces _ member) (by decide)
  have blanks : ∀ line ∈ lines indent, isBlankLine line = true := fun line isLine =>
    List.all_eq_true.2 fun c member => isBlank_indent spaces c (mem_of_mem_lines isLine member)
  have apart : lines (contents indent text) =
      [] :: ((lines (trim text)).map (writtenLine indent) ++ lines indent) :=
    congrArg ([] :: ·) (lines_writeLine noFeed (fun _ => feed_not_mem_lines) indent)
  by_cases empty : trim text = []
  · have blank : (lines (contents indent text)).all isBlankLine = true := by
      rw [apart, empty]
      exact List.all_eq_true.2 (List.forall_mem_cons.2 ⟨rfl, blanks⟩)
    rw [value, if_pos blank, if_neg (by simp [empty]), reread, empty]
    rfl
  · obtain ⟨⟨first, isFirst, starts⟩, last, isLast, ends⟩ := lines_trim empty
    have visible : ¬(lines (contents indent text)).all isBlankLine = true := by
      intro all
      have blank := List.all_eq_true.1 (apart ▸ all) (writtenLine indent first)
        (List.mem_cons_of_mem _ (List.mem_append_left _
          (List.mem_map_of_mem (List.mem_of_mem_head? isFirst))))
      rw [isBlankLine_writtenLine spaces, starts.isBlankLine_eq] at blank
      cases blank
    rw [value, if_neg visible, apart,
      dedent_writtenLine spaces isFirst starts blanks isLast ends]
    by_cases short : byteLength (contents indent text) < 6
    · rw [if_pos short, if_pos ⟨empty, short⟩]
    · rw [if_neg short, if_neg (fun both => short both.2)]
      refine bind_eq_ok.2 ⟨_, rfl, ?_⟩
      have unescaped : ∀ line : List Char, unescape (escape (rereadLine line)) = rereadLine line :=
        fun line => unescape_escape _
      rw [List.map_map, reread]
      simp only [Function.comp_def, unescaped]
      rfl

/-- Between the quotes stands at least the margin, and a character more than a blank line would
take. -/
theorem le_byteLength_contents (indent : List Char) {text : List Char} (nonempty : trim text ≠ []) :
    indent.length + 2 ≤ byteLength (contents indent text) := by
  obtain ⟨⟨first, isFirst, -⟩, -⟩ := lines_trim nonempty
  obtain ⟨others, found⟩ := List.head?_eq_some_iff.1 isFirst
  have written : 0 < (writeLine indent first).length := by
    unfold writeLine
    split <;> simp only [List.length_append, List.length_singleton] <;> omega
  refine Nat.le_trans ?_ (length_le_byteLength _)
  rw [contents, writeLines, found, List.flatMap_cons]
  simp only [List.length_cons, List.length_append]
  omega

/-! ## Writing the value -/

theorem write_eq (indent : List Char) {text : List Char} (nonempty : text ≠ []) :
    write indent text =
      indent ++ '"' :: '"' :: '"' :: (contents indent text ++ ['"', '"', '"', '\n']) := by
  simp [write, nonempty, contents]

/-- A line that is written again as it was. -/
def StableLine (line : List Char) : Prop :=
  isBlankLine line = false → line.getLast? ≠ some '\r'

/-- A text that is written again as it was: it is not made of blanks, and none of its lines ends in
a carriage return. -/
def Stable (text : List Char) : Prop :=
  text = [] ∨ trim text ≠ [] ∧ ∀ line ∈ lines (trim text), StableLine line

instance (line : List Char) : Decidable (StableLine line) :=
  inferInstanceAs (Decidable (_ → _))

instance (text : List Char) : Decidable (Stable text) :=
  inferInstanceAs (Decidable (_ ∨ _ ∧ _))

theorem escape_shrinks (line : List Char) :
    Shrinks (line.getLast? ≠ some '\r') (escape line) (escape (dropReturn line)) := by
  rcases dropReturn_spec line with ⟨last, whole⟩ | ⟨last, same⟩
  · rw [escape_of_return whole]
    exact ⟨by simp, by simp, fun notLast => absurd last notLast⟩
  · rw [same]
    exact (Shrinks.refl _).congr (by simp [last])

/-- A line is read without the carriage return at its end, and loses one more when what is read is
taken apart. -/
theorem escape_shrinks_twice (line : List Char) :
    Shrinks (line.getLast? ≠ some '\r') (escape line) (escape (dropReturn (dropReturn line))) := by
  refine ((escape_shrinks line).trans (escape_shrinks (dropReturn line))).congr ?_
  constructor
  · exact And.left
  · intro last
    rcases dropReturn_spec line with ⟨absurd, -⟩ | ⟨-, same⟩
    · exact (last absurd).elim
    · exact ⟨last, same.symm ▸ last⟩

theorem rereadLine_of_visible {line : List Char} (visible : isBlankLine line = false) :
    rereadLine line = dropReturn line :=
  if_neg (by simp [visible])

theorem writeLine_of_visible {indent line : List Char} (visible : isBlankLine line = false) :
    writeLine indent line = indent ++ escape line ++ ['\n'] :=
  if_neg (by simp [visible])

theorem writeLine_shrinks (indent line : List Char) :
    Shrinks (StableLine line) (writeLine indent line)
      (writeLine indent (dropReturn (rereadLine line))) := by
  cases visible : isBlankLine line with
  | true =>
    have written : writeLine indent line = ['\n'] := if_pos visible
    rw [written, rereadLine, if_pos visible]
    exact (Shrinks.refl ['\n']).congr (by simp [StableLine, visible])
  | false =>
    have visible' : isBlankLine (dropReturn (dropReturn line)) = false := by
      rw [isBlankLine_dropReturn, isBlankLine_dropReturn, visible]
    rw [rereadLine_of_visible visible, writeLine_of_visible visible, writeLine_of_visible visible']
    refine (((Shrinks.refl indent).append (escape_shrinks_twice line)).append
      (Shrinks.refl ['\n'])).congr ?_
    simp [StableLine, visible]

theorem feed_not_mem_rereadLine {line : List Char} (noFeed : '\n' ∉ line) :
    '\n' ∉ rereadLine line := by
  unfold rereadLine
  split
  · exact List.not_mem_nil
  · rcases dropReturn_spec line with ⟨-, whole⟩ | ⟨-, same⟩
    · rw [whole] at noFeed
      exact fun member => noFeed (List.mem_append_left _ member)
    · rwa [same]

/-- The lines of what is read, when it is taken apart again. -/
theorem lines_reread {text : List Char} (nonempty : trim text ≠ []) :
    reread text ≠ [] ∧ lines (trim (reread text)) =
      (lines (trim text)).map fun line => dropReturn (rereadLine line) := by
  obtain ⟨⟨first, isFirst, starts⟩, last, isLast, ends⟩ := lines_trim nonempty
  have isFirst' : ((lines (trim text)).map rereadLine).head? = some (dropReturn first) := by
    rw [List.head?_map, isFirst, Option.map_some, rereadLine_of_visible starts.isBlankLine_eq]
  have isLast' : ((lines (trim text)).map rereadLine).getLast? = some last := by
    rw [List.getLast?_map, isLast, Option.map_some, rereadLine_of_visible ends.isBlankLine_eq,
      ends.dropReturn_eq]
  have starts' : StartsVisible (reread text) := joinLines_starts isFirst' starts.dropReturn
  have ends' : EndsVisible (reread text) := joinLines_ends isLast' ends
  have noFeeds : ∀ line ∈ (lines (trim text)).map rereadLine, '\n' ∉ line :=
    List.forall_mem_map.2 fun line isLine => feed_not_mem_rereadLine (feed_not_mem_lines isLine)
  refine ⟨ne_nil_of_visible starts'.isBlankLine_eq, ?_⟩
  rw [trim_eq_self starts' ends', reread, lines_joinLines noFeeds isLast' ends, List.map_map]
  rfl

/-- What is written, read and written again is no longer than before, and the same just for the
texts that are stable. -/
theorem write_shrinks (indent text : List Char) :
    Shrinks (Stable text) (write indent text) (write indent (reread text)) := by
  by_cases empty : text = []
  · subst empty
    exact (Shrinks.refl []).congr (by simp [Stable])
  by_cases blank : trim text = []
  · -- Nothing is left of blanks, and nothing is written of it.
    have read : reread text = [] := by
      rw [reread, blank]
      rfl
    rw [read, write_eq indent empty]
    refine ⟨Nat.zero_le _, fun same => ?_, ?_⟩
    · simp [write] at same
    · rintro (absurd | ⟨visible, -⟩)
      · exact (empty absurd).elim
      · exact (visible blank).elim
  · obtain ⟨nonempty, apart⟩ := lines_reread blank
    have body : Shrinks (∀ line ∈ lines (trim text), StableLine line) (writeLines indent text)
        (writeLines indent (reread text)) := by
      rw [writeLines, writeLines, apart, List.flatMap_map]
      exact Shrinks.flatMap fun line _ => writeLine_shrinks indent line
    have quotes := Shrinks.refl (indent ++ ['"', '"', '"', '\n'])
    unfold write
    rw [if_neg empty, if_neg nonempty]
    exact ((quotes.append body).append quotes).congr (by simp [Stable, empty, blank])

end BlockString

end SdlCompiler.Text
