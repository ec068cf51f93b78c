import SdlCompiler.Proofs.Document.Lexing
import SdlCompiler.Proofs.Text.Rewriting

/-!
# Written block strings

A text that is written as a block string is one token, which holds what stands between the quotes,
if that has only characters that a block string may hold. No triple quote inside closes it.
-/

namespace SdlCompiler.Document

open Token IntegerScan Text Text.BlockString

/-- Inside a block string before `rest`, the text is part of the contents or leads to a crash. -/
structure Passes (text rest : List Char) : Prop where
  legible : text.all isBlockChar = true →
    blockBody (text ++ rest) = (blockBody rest).map fun found => (text ++ found.1, found.2)
  illegible : text.all isBlockChar = false → blockBody (text ++ rest) = .error .crash
  scanned : afterBlock (text ++ rest) = afterBlock rest

theorem Passes.empty (rest : List Char) : Passes [] rest := by
  refine ⟨fun _ => ?_, fun absurd => (by cases absurd), rfl⟩
  cases found : blockBody rest <;> simp [Except.map, found]

theorem Passes.append {text more rest : List Char} (first : Passes text (more ++ rest))
    (second : Passes more rest) : Passes (text ++ more) rest := by
  constructor
  · intro legible
    rw [List.all_append, Bool.and_eq_true] at legible
    rw [List.append_assoc, first.legible legible.1, second.legible legible.2]
    cases blockBody rest <;> simp [Except.map]
  · intro illegible
    rw [List.append_assoc]
    cases here : text.all isBlockChar with
    | false => exact first.illegible here
    | true =>
      rw [List.all_append, here, Bool.true_and] at illegible
      rw [first.legible here, second.illegible illegible]
      rfl
  · rw [List.append_assoc, first.scanned, second.scanned]

/-- A character that neither closes the block string nor escapes what follows. -/
theorem passes_char {c : Char} {rest : List Char}
    (closes : ∀ more, c :: rest ≠ '"' :: '"' :: '"' :: more)
    (escapes : ∀ more, c :: rest ≠ '\\' :: '"' :: '"' :: '"' :: more) : Passes [c] rest := by
  have body : blockBody (c :: rest) = if isBlockChar c then
      (blockBody rest).map fun found => (c :: found.1, found.2) else .error .crash := by
    rw [blockBody]
    · rintro more rfl rfl
      exact closes more rfl
    · rintro more rfl rfl
      exact escapes more rfl
  have after : afterBlock (c :: rest) = afterBlock rest := by
    rw [afterBlock]
    · rintro more rfl rfl
      exact closes more rfl
    · rintro more rfl rfl
      exact escapes more rfl
  refine ⟨fun legible => ?_, fun illegible => ?_, after⟩
  · rw [List.singleton_append, body, if_pos (by simpa using legible)]
    rfl
  · rw [List.singleton_append, body, if_neg (by simpa using illegible)]

theorem passes_plain {text : List Char} (plain : ∀ c ∈ text, c ≠ '"' ∧ c ≠ '\\')
    (rest : List Char) : Passes text rest := by
  induction text with
  | nil => exact .empty rest
  | cons c text ih =>
    obtain ⟨⟨noQuote, noEscape⟩, plain⟩ := List.forall_mem_cons.1 plain
    refine @Passes.append [c] text rest (passes_char ?_ ?_) (ih plain)
    · exact fun more same => noQuote (List.cons.inj same).1
    · exact fun more same => noEscape (List.cons.inj same).1

theorem passes_escape (text : List Char) {rest : List Char} (plain : rest.head? ≠ some '"') :
    Passes (escape text) rest := by
  fun_induction escape text with
  | case1 => exact .empty rest
  | case2 text ih =>
    refine @Passes.append ['\\', '"', '"', '"'] (escape text) rest ⟨fun _ => ?_, ?_, rfl⟩ ih
    · show blockBody ('\\' :: '"' :: '"' :: '"' :: (escape text ++ rest)) = _
      rw [blockBody]
      rfl
    · exact fun absurd => (by cases absurd)
  | case3 c text unquoted ih =>
    have escaped : escape (c :: text) = c :: escape text := by
      rw [escape]
      exact unquoted
    refine @Passes.append [c] (escape text) rest (passes_char ?_ ?_) ih
    · intro more same
      rw [← List.cons_append, ← escaped] at same
      exact escape_ne_quotes plain same
    · intro more same
      exact escape_ne_quotes plain (List.cons.inj same).2

section

variable {indent : List Char} (spaces : ∀ c ∈ indent, c = ' ')

include spaces

theorem passes_indent (rest : List Char) : Passes indent rest := by
  refine passes_plain (fun c member => ?_) rest
  rw [spaces c member]
  decide

theorem passes_writeLine (line rest : List Char) : Passes (writeLine indent line) rest := by
  have feed : Passes ['\n'] rest := passes_plain (by simp) rest
  unfold writeLine
  split
  · exact feed
  · exact ((passes_indent spaces _).append (passes_escape line (by simp))).append feed

theorem passes_contents (text rest : List Char) : Passes (contents indent text) rest := by
  have lines : ∀ (ls : List (List Char)) rest, Passes (ls.flatMap (writeLine indent)) rest := by
    intro ls rest
    induction ls with
    | nil => exact .empty rest
    | cons line ls ih =>
      rw [List.flatMap_cons]
      exact (passes_writeLine spaces line _).append ih
  have feed : ∀ rest, Passes ['\n'] rest := passes_plain (by simp)
  exact (feed _).append ((lines _ _).append (passes_indent spaces rest))

/-- The contents of a written text up to the quotes that close them. -/
theorem string_contents (text rest : List Char) :
    string ('"' :: '"' :: (contents indent text ++ '"' :: '"' :: '"' :: rest)) =
        (if (contents indent text).all isBlockChar then (.block (contents indent text), rest)
          else (.crash, [])) ∧
      afterString ('"' :: '"' :: (contents indent text ++ '"' :: '"' :: '"' :: rest)) = rest := by
  have passes := passes_contents spaces text ('"' :: '"' :: '"' :: rest)
  constructor
  · rw [string]
    cases legible : (contents indent text).all isBlockChar with
    | true =>
      rw [passes.legible legible, blockBody, Except.map, List.append_nil]
      rfl
    | false =>
      rw [passes.illegible legible]
      rfl
  · rw [afterString, passes.scanned, afterBlock]

theorem readsBefore_indent (rest : List Char) : ReadsBefore indent rest [] := by
  apply readsBefore_of_legible rfl
  induction indent with
  | nil => exact ⟨rfl, rfl⟩
  | cons c indent ih =>
    obtain ⟨rfl, others⟩ := List.forall_mem_cons.1 spaces
    obtain ⟨lexed, scanned⟩ := lex_break (show isBreak ' ' = true from rfl) (indent ++ rest)
    rw [List.cons_append, lexed, scanned]
    exact ih others

/-- A written text is read as one block string, whatever follows it. -/
theorem readsBefore_write {text : List Char} (nonempty : text ≠ []) (rest : List Char) :
    ReadsBefore (write indent text) rest [.block (contents indent text)] := by
  obtain ⟨read, after⟩ := string_contents spaces text ('\n' :: rest)
  obtain ⟨lexed, scanned⟩ := lex_break (show isBreak '\n' = true from rfl) rest
  have whole : '"' :: '"' :: '"' :: (contents indent text ++ ['"', '"', '"', '\n']) ++ rest =
      '"' :: '"' :: '"' :: (contents indent text ++ '"' :: '"' :: '"' :: '\n' :: rest) := by simp
  rw [write_eq indent nonempty]
  refine (readsBefore_indent spaces _).append ⟨fun legible => ?_, fun illegible => ?_, ?_⟩
  · rw [whole, lex_quote, read, if_pos (by simpa [isLegible] using legible), lexed]
    rfl
  · rw [whole, lex_quote, read, if_neg (by simpa [isLegible] using illegible)]
    exact List.mem_cons_self
  · rw [whole, overflow?, if_neg (by decide), if_pos rfl, after, scanned]

end

end SdlCompiler.Document
