import SdlCompiler.Proofs.Document.Written

/-!
# Locations as a text lists them

The tokens of a text are those of its definitions, one after the other. A directive definition has
exactly the locations that are listed at the end of its tokens, in their order (`parse_pieces`).
-/

namespace SdlCompiler.Document

/-! ## Tokens that rules take -/

namespace Rule

variable {α : Type} {token mark : Token} {cursor after : Cursor}

theorem expect_eq_ok {done : Unit} (ran : expect token cursor = .ok (done, after)) :
    cursor.tokens = token :: after.tokens := by
  obtain ⟨first, middle, taken, ran⟩ := bind_eq_ok ran
  obtain ⟨tokens, -, -⟩ := next_eq_ok taken
  split at ran
  · cases ran
  · next same =>
    cases ran
    rw [tokens, not_not.1 same]

theorem accept_eq_ok {found : Bool} (ran : accept token cursor = .ok (found, after)) :
    cursor.tokens = (if found then [token] else []) ++ after.tokens := by
  rw [accept_eq] at ran
  split at ran
  · next first =>
    obtain ⟨other, middle, taken, ran⟩ := bind_eq_ok ran
    cases ran
    obtain ⟨tokens, -, -⟩ := next_eq_ok taken
    rw [tokens] at first ⊢
    cases first
    rfl
  · cases ran
    rfl

/-- A rule that takes one token, by which its result is written. -/
def Spells (rule : Rule α) (spell : α → Token) : Prop :=
  ∀ cursor a after, rule cursor = .ok (a, after) → cursor.tokens = spell a :: after.tokens

variable {rule : Rule α} {spell : α → Token}

theorem eachAfterUpTo_eq_ok (spells : Spells rule spell) {limit : Nat} {items : List α}
    (ran : eachAfterUpTo mark rule limit cursor = .ok (items, after)) :
    cursor.tokens = (items.flatMap fun a => [mark, spell a]) ++ after.tokens := by
  induction limit generalizing cursor items with
  | zero =>
    cases ran
    rfl
  | succ limit ih =>
    obtain ⟨found, middle, looked, ran⟩ := bind_eq_ok ran
    have tokens := accept_eq_ok looked
    cases found with
    | false =>
      cases ran
      exact tokens
    | true =>
      obtain ⟨first, later, read, ran⟩ := bind_eq_ok ran
      obtain ⟨rest, last, readOn, ran⟩ := bind_eq_ok ran
      cases ran
      rw [tokens, spells _ _ _ read, ih readOn]
      rfl

theorem intersperse_cons (first : Token) (rest : List Token) :
    (first :: rest).intersperse mark = first :: rest.flatMap fun token => [mark, token] := by
  induction rest generalizing first with
  | nil => rfl
  | cons second rest ih =>
    rw [List.intersperse_cons_cons, ih]
    rfl

/-- Items with a mark between them take their tokens with the mark between them. A mark may stand
before the first. -/
theorem separated_eq_ok (spells : Spells rule spell) {items : List α}
    (ran : separated mark rule cursor = .ok (items, after)) :
    ∃ leading, (leading = [] ∨ leading = [mark]) ∧
      cursor.tokens = leading ++ (items.map spell).intersperse mark ++ after.tokens := by
  obtain ⟨found, middle, looked, ran⟩ := bind_eq_ok ran
  obtain ⟨first, later, read, ran⟩ := bind_eq_ok ran
  obtain ⟨rest, last, readOn, ran⟩ := bind_eq_ok ran
  cases ran
  obtain ⟨limit, same, ⟨⟩, readOn⟩ := bind_eq_ok readOn
  refine ⟨if found then [mark] else [], by cases found <;> simp, ?_⟩
  rw [accept_eq_ok looked, spells _ _ _ read, eachAfterUpTo_eq_ok spells readOn, List.map_cons,
    intersperse_cons, List.flatMap_map, List.append_assoc, List.cons_append]

end Rule

/-! ## Directive definitions -/

/-- The tokens of a directive definition, with its locations at the end. -/
def Declares (piece : List Token) (d : DirectiveDefinition) : Prop :=
  ∃ described arguments leading,
    (leading = [] ∨ leading = [Token.punctuator '|']) ∧
    piece = described ++ [.name "directive", .punctuator '@', .name d.name] ++ arguments ++
      (if d.repeatable then [.name "repeatable"] else []) ++ .name "on" :: leading ++
      (d.locations.map Token.name).intersperse (.punctuator '|')

namespace Grammar

open Rule

variable {cursor after : Cursor}

theorem location_spells : Spells location Token.name := by
  intro cursor place after ran
  obtain ⟨word, middle, named, ran⟩ := bind_eq_ok ran
  cases found : Site.ofWord? word with
  | none =>
    rw [found] at ran
    obtain ⟨_, _, -, refused⟩ := bind_eq_ok ran
    cases refused
  | some site =>
    rw [found] at ran
    cases ran
    rw [Site.name_of_ofWord? found]
    exact name_eq_ok named

theorem directiveDefinition_piece {description : Option String} {d : DirectiveDefinition}
    (lexed : cursor.Lexed) (ran : directiveDefinition description cursor = .ok (d, after)) :
    ∃ piece, cursor.tokens = piece ++ after.tokens ∧
      ∀ described, Declares (described ++ .name "directive" :: piece) d := by
  obtain ⟨_, first, opened, ran⟩ := bind_eq_ok ran
  obtain ⟨directiveName, second, named, ran⟩ := bind_eq_ok ran
  obtain ⟨taken, third, read, ran⟩ := bind_eq_ok ran
  obtain ⟨repeatable, fourth, looked, ran⟩ := bind_eq_ok ran
  obtain ⟨_, fifth, listed, ran⟩ := bind_eq_ok ran
  obtain ⟨locations, last, placed, ran⟩ := bind_eq_ok ran
  cases ran
  obtain ⟨-, -, lexedFirst⟩ := (yields_expect _).gives lexed opened
  obtain ⟨-, -, lexedSecond⟩ := yields_name.gives lexedFirst named
  obtain ⟨-, ⟨arguments, tokens, -⟩, -⟩ := yields_arguments.gives lexedSecond read
  obtain ⟨leading, optional, places⟩ := separated_eq_ok location_spells placed
  refine ⟨[.punctuator '@', .name directiveName] ++ arguments ++
    (if repeatable then [.name "repeatable"] else []) ++ .name "on" :: leading ++
    (locations.map Token.name).intersperse (.punctuator '|'), ?_, fun described => ?_⟩
  · rw [expect_eq_ok opened, name_eq_ok named, tokens, accept_eq_ok looked, expect_eq_ok listed,
      places]
    simp
  · exact ⟨described, arguments, leading, optional, by simp⟩

/-- A definition takes its own tokens. -/
theorem definition_piece {definition : Definition} (lexed : cursor.Lexed)
    (ran : Grammar.definition cursor = .ok (definition, after)) :
    ∃ piece, cursor.tokens = piece ++ after.tokens ∧
      ∀ d, definition = .directive d → Declares piece d := by
  cases definition with
  | directive d =>
    -- No other keyword leads to a directive definition.
    obtain ⟨text, middle, read, ran⟩ := bind_eq_ok ran
    obtain ⟨-, ⟨described, tokens, -⟩, lexedMiddle⟩ := yields_description.gives lexed read
    obtain ⟨keyword, later, named, ran⟩ := bind_eq_ok ran
    obtain ⟨-, -, lexedLater⟩ := yields_name.gives lexedMiddle named
    have free := lexed.defect
    have schema : Yields (Definition.schema <$> schemaBlock) fun d => d.directive? = none :=
      yields_schemaBlock.map fun _ _ => rfl
    split at ran
    · obtain ⟨⟨⟩, -⟩ := (schema.unkept free).gives lexedLater ran
    · obtain ⟨⟨-, ⟨⟩⟩, -⟩ := (yields_extension.unkept free).gives lexedLater ran
    · obtain ⟨d, last, read, ran⟩ := bind_eq_ok ran
      cases ran
      obtain ⟨piece, rest, declares⟩ := directiveDefinition_piece lexedLater read
      refine ⟨described ++ .name "directive" :: piece, ?_, fun d same => ?_⟩
      · rw [tokens, name_eq_ok named, rest, List.append_assoc, List.cons_append]
      · cases same
        exact declares described
    · obtain ⟨⟨-, ⟨⟩⟩, -⟩ := (yields_typeDefinition text _).gives lexedLater ran
  | schema | scalar | object | interface | union | enum | input | other =>
    obtain ⟨-, ⟨piece, tokens, -⟩, -⟩ := yields_definition.gives lexed ran
    exact ⟨piece, tokens, fun d same => by cases same⟩

theorem definitionsWithin_pieces {definitions : List Definition} {limit : Nat}
    (lexed : cursor.Lexed) (ran : definitionsWithin limit cursor = .ok (definitions, after)) :
    ∃ pieces : List (List Token), cursor.tokens = pieces.flatten ++ after.tokens ∧
      List.Forall₂ (fun piece definition => ∀ d, definition = .directive d → Declares piece d)
        pieces definitions := by
  induction limit generalizing cursor definitions with
  | zero =>
    cases ran
    exact ⟨[], rfl, .nil⟩
  | succ limit ih =>
    obtain ⟨first, middle, defined, ran⟩ := bind_eq_ok ran
    obtain ⟨-, -, lexedMiddle⟩ := yields_definition.gives lexed defined
    obtain ⟨piece, tokens, declares⟩ := definition_piece lexed defined
    obtain ⟨token, same, ⟨⟩, ran⟩ := bind_eq_ok ran
    split at ran
    · cases ran
      exact ⟨[piece], by rw [tokens, List.flatten_singleton], .cons declares .nil⟩
    · obtain ⟨rest, last, later, ran⟩ := bind_eq_ok ran
      cases ran
      obtain ⟨pieces, others, all⟩ := ih lexedMiddle later
      refine ⟨piece :: pieces, ?_, .cons declares all⟩
      rw [tokens, others, List.flatten_cons, List.append_assoc]

end Grammar

/-- A text that is read is made of the pieces of its definitions. -/
theorem parse_pieces {source : String} {document : Document} (parsed : parse source = .ok document) :
    ∃ pieces : List (List Token), Token.lex source.toList = pieces.flatten ∧
      List.Forall₂ (fun piece definition => ∀ d, definition = .directive d → Declares piece d)
        pieces document := by
  obtain ⟨-, after, read⟩ := parse_eq_ok parsed
  have ended := Grammar.document_tokens (lexed_start source) (Nat.le_refl _) read
  obtain ⟨token, same, ⟨⟩, read⟩ := Rule.bind_eq_ok read
  split at read
  · obtain ⟨_, _, refused, -⟩ := Rule.bind_eq_ok read
    cases refused
  · obtain ⟨limit, same, ⟨⟩, read⟩ := Rule.bind_eq_ok read
    obtain ⟨pieces, tokens, all⟩ := Grammar.definitionsWithin_pieces (lexed_start source) read
    rw [ended, List.append_nil] at tokens
    exact ⟨pieces, tokens, all⟩

end SdlCompiler.Document
