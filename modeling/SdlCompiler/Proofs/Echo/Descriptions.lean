import SdlCompiler.Proofs.Document.BlockStrings
import SdlCompiler.Proofs.Echo.Echoed

/-!
# Descriptions as block strings

A description that is written as a block string is read as one, with the value that it had: the same
lines, apart from blanks at the two ends of the description and on lines where nothing else stands.
No quote in it ends the block string early, no backslash is taken for an escape, and lines keep
their indentation, as the first line has none of its own.
-/

namespace SdlCompiler

namespace Text

/-! ## Lines put together again -/

theorem joinLines_cons (line : List Char) {ls : List (List Char)} (more : ls ≠ []) :
    joinLines (line :: ls) = line ++ '\n' :: joinLines ls := by
  cases ls with
  | nil => exact absurd rfl more
  | cons next others => rfl

theorem joinLines_cons_cons (c : Char) (line : List Char) (ls : List (List Char)) :
    joinLines ((c :: line) :: ls) = c :: joinLines (line :: ls) := by
  cases ls <;> rfl

/-- The lines of a text without carriage returns make up the text, if no line feed ends it. -/
theorem joinLines_lines {text : List Char} (noReturn : '\r' ∉ text)
    (ends : text.getLast? ≠ some '\n') : joinLines (lines text) = text := by
  have tail : ∀ (c : Char) (rest : List Char), (c :: rest).getLast? ≠ some '\n' →
      rest.getLast? ≠ some '\n' := by
    rintro c (_ | ⟨d, rest⟩) ends
    · simp
    · rwa [List.getLast?_cons_cons] at ends
  fun_induction lines text with
  | case1 => rfl
  | case2 rest ih =>
    have joined := ih (fun member => noReturn (List.mem_cons_of_mem _ member)) (tail _ rest ends)
    have more : lines rest ≠ [] := by
      intro none
      rw [none] at joined
      rw [← joined] at ends
      exact ends rfl
    rw [joinLines_cons [] more, joined]
    rfl
  | case3 rest ih => exact absurd List.mem_cons_self noReturn
  | case4 c rest _ _ found ih =>
    have joined := ih (fun member => noReturn (List.mem_cons_of_mem _ member)) (tail _ rest ends)
    rw [found] at joined
    rw [← joined]
    rfl
  | case5 c rest _ _ first others found ih =>
    have joined := ih (fun member => noReturn (List.mem_cons_of_mem _ member)) (tail _ rest ends)
    rw [joinLines_cons_cons, ← found, joined]

/-! ## Characters -/

theorem mem_of_mem_trim {text : List Char} {c : Char} (member : c ∈ trim text) : c ∈ text := by
  unfold trim trimEnd trimStart at member
  exact (List.dropWhile_sublist _).mem
    (List.mem_reverse.1 ((List.dropWhile_sublist _).mem (List.mem_reverse.1 member)))

theorem trim_ne_nil {text : List Char} {c : Char} (member : c ∈ text)
    (visible : isBlank c = false) : trim text ≠ [] := by
  intro empty
  unfold trim trimEnd at empty
  rw [List.reverse_eq_nil_iff, List.dropWhile_eq_nil_iff] at empty
  have blank : isBlank c = true := by
    rw [← List.takeWhile_append_dropWhile (p := isBlank) (l := text), List.mem_append] at member
    rcases member with atStart | later
    · exact List.mem_takeWhile_imp atStart
    · exact empty c (List.mem_reverse.2 later)
  rw [visible] at blank
  cases blank

namespace BlockString

theorem mem_of_mem_escape {line : List Char} {c : Char} (member : c ∈ escape line) :
    c = '\\' ∨ c ∈ line := by
  fun_induction escape line with
  | case1 => cases member
  | case2 rest ih =>
    simp only [List.mem_cons] at member ⊢
    tauto
  | case3 d rest _ ih =>
    simp only [List.mem_cons] at member ⊢
    tauto

/-- What stands between the quotes are characters of the text, the indentation, line feeds and
backslashes. -/
theorem mem_of_mem_contents {indent text : List Char} {c : Char}
    (member : c ∈ contents indent text) : c = '\n' ∨ c = '\\' ∨ c ∈ indent ∨ c ∈ text := by
  rcases List.mem_cons.1 member with isFeed | member
  · exact .inl isFeed
  rcases List.mem_append.1 member with written | inIndent
  · obtain ⟨line, isLine, written⟩ := List.mem_flatMap.1 written
    unfold writeLine at written
    split at written
    · exact .inl (List.mem_singleton.1 written)
    · simp only [List.mem_append, List.mem_singleton] at written
      rcases written with (inIndent | escaped) | isFeed
      · exact .inr (.inr (.inl inIndent))
      · rcases mem_of_mem_escape escaped with isBackslash | inLine
        · exact .inr (.inl isBackslash)
        · exact .inr (.inr (.inr (mem_of_mem_trim (mem_of_mem_lines isLine inLine))))
      · exact .inl isFeed
  · exact .inr (.inr (.inl inIndent))

/-- A line without its blanks, if there is nothing else on it. -/
def clearBlank (line : List Char) : List Char :=
  if isBlankLine line then [] else line

/-- Without carriage returns only blank lines change when a text is written and read. -/
theorem reread_eq {text : List Char} (noReturn : '\r' ∉ text) :
    reread text = joinLines ((lines (trim text)).map clearBlank) := by
  unfold reread
  congr 1
  refine List.map_congr_left fun line isLine => ?_
  unfold rereadLine clearBlank
  rcases dropReturn_spec line with ⟨isLast, -⟩ | ⟨-, same⟩
  · have member := mem_of_mem_trim (mem_of_mem_lines isLine (List.mem_of_getLast? isLast))
    exact absurd member noReturn
  · rw [same]

/-- Nothing changes where blank lines are empty. -/
theorem joinLines_clearBlank {text : List Char} (noReturn : '\r' ∉ text)
    (nonempty : trim text ≠ [])
    (empty : ∀ line ∈ lines (trim text), isBlankLine line = true → line = []) :
    joinLines ((lines (trim text)).map clearBlank) = trim text := by
  have unchanged : ∀ line ∈ lines (trim text), clearBlank line = line := by
    intro line isLine
    unfold clearBlank
    split
    · next blank => exact (empty line isLine blank).symm
    · rfl
  have noFeed : (trim text).getLast? ≠ some '\n' := by
    obtain ⟨last, isLast, isVisible⟩ := (trim_visible nonempty).2
    rw [isLast]
    rintro ⟨⟩
    cases isVisible
  rw [List.map_congr_left unchanged, List.map_id']
  exact joinLines_lines (fun isReturn => noReturn (mem_of_mem_trim isReturn)) noFeed

end BlockString

end Text

namespace Echo

open Text Text.BlockString Document.Token

variable {margin description : String}

/-- A description that may stand in a block string, whatever it is written with. -/
theorem all_isBlockChar_contents (spaces : ∀ c ∈ margin.toList, c = ' ')
    (legible : ∀ c ∈ description.toList,
      c = '\t' ∨ c = '\n' ∨ 0x20 ≤ c.toNat ∧ c.toNat ≤ 0xFFFF) :
    (contents margin.toList description.toList).all isBlockChar = true := by
  rw [List.all_eq_true]
  intro c member
  rcases mem_of_mem_contents member with rfl | rfl | inMargin | inText
  · decide
  · decide
  · rw [spaces c inMargin]
    decide
  · rcases legible c inText with rfl | rfl | ⟨low, high⟩
    · decide
    · decide
    · simp [isBlockChar, isLineChar, low, high]

/-- A description without carriage returns is read back where it was written. It is cut out as one
block string, whatever follows, and the value of that is the description, line by line, without the
blanks at its ends and on blank lines. Where there are no such blanks the value is the description
itself. -/
theorem descriptionText_roundtrip (isMargin : margin = "" ∨ margin = indent)
    (legible : ∀ c ∈ description.toList,
      c = '\t' ∨ c = '\n' ∨ 0x20 ≤ c.toNat ∧ c.toNat ≤ 0xFFFF)
    (visible : ∃ c ∈ description.toList, isBlank c = false) :
    let written := (descriptionText margin description).toList
    let raw := contents margin.toList description.toList
    let trimmed := trim description.toList
    let kept := joinLines ((lines trimmed).map clearBlank)
    written = margin.toList ++ '"' :: '"' :: '"' :: (raw ++ ['"', '"', '"', '\n']) ∧
      (∀ rest, lex (written ++ rest) = .block raw :: lex rest) ∧
      (6 ≤ byteLength raw → value raw = .ok kept) ∧
      ((∀ line ∈ lines trimmed, isBlankLine line = true → line = []) → kept = trimmed) := by
  intro written raw trimmed kept
  have spaces : ∀ c ∈ margin.toList, c = ' ' := by
    rcases isMargin with rfl | rfl
    · exact spaces_none
    · exact spaces_indent
  have noReturn : '\r' ∉ description.toList := by
    intro member
    rcases legible _ member with isTab | isFeed | ⟨low, -⟩
    · cases isTab
    · cases isFeed
    · exact absurd low (by decide)
  obtain ⟨c, member, isVisible⟩ := visible
  have nonempty : description.toList ≠ [] := List.ne_nil_of_mem member
  have isWritten : written = write margin.toList description.toList := String.toList_ofList
  refine ⟨?_, fun rest => ?_, fun long => ?_, ?_⟩
  · rw [isWritten, write_eq _ nonempty]
  · have legibleToken : [Document.Token.block raw].all Document.isLegible = true := by
      simpa [Document.isLegible] using all_isBlockChar_contents spaces legible
    rw [isWritten, (Document.readsBefore_write spaces nonempty rest).lexed legibleToken]
    rfl
  · rw [value_contents spaces, if_neg fun short => Nat.not_lt.2 long short.2, reread_eq noReturn]
  · exact joinLines_clearBlank noReturn (trim_ne_nil member isVisible)

/-- Quotes and backslashes in runs, a line that is indented by wide blanks, and a blank line. -/
theorem descriptionText_roundtrip_quotes :
    let description := " say \"\"\"\"\\\"\"\"\\\n\t\n\u3000 \\\\\"\"\"\n\"\"\n"
    let kept := "say \"\"\"\"\\\"\"\"\\\n\n\u3000 \\\\\"\"\"\n\"\""
    let raw := contents indent.toList description.toList
    6 ≤ byteLength raw ∧ lex (descriptionText indent description).toList = [.block raw] ∧
      value raw = .ok kept.toList := by
  intro description kept raw
  have all : description.toList.all fun c =>
      c = '\t' ∨ c = '\n' ∨ 0x20 ≤ c.toNat ∧ c.toNat ≤ 0xFFFF := by decide +kernel
  have legible : ∀ c ∈ description.toList,
      c = '\t' ∨ c = '\n' ∨ 0x20 ≤ c.toNat ∧ c.toNat ≤ 0xFFFF :=
    fun c member => of_decide_eq_true (List.all_eq_true.1 all c member)
  have visible : ∃ c ∈ description.toList, isBlank c = false :=
    ⟨'s', by decide +kernel, by decide +kernel⟩
  have long : 6 ≤ byteLength raw := by decide +kernel
  obtain ⟨-, lexed, valued, -⟩ := descriptionText_roundtrip (.inr rfl) legible visible
  have ended : lex [] = [] := by rw [lex]
  have whole := lexed []
  rw [List.append_nil, ended] at whole
  have isKept : joinLines ((lines (trim description.toList)).map clearBlank) = kept.toList := by
    decide +kernel
  exact ⟨long, whole, (valued long).trans (congrArg Except.ok isKept)⟩

end Echo

end SdlCompiler
