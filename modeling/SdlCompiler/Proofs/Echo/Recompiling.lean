import SdlCompiler.Proofs.Echo.Reading
import SdlCompiler.Proofs.Schema.Soundness

/-!
# Compiling an echo

The text that a file is written as compiles just if its descriptions can be read, and then to the
file as the text says. Without descriptions, that is the same file up to the decimal places of its
floats.
-/

namespace SdlCompiler.Echo

open Document Schema

variable {file : Schema.File}

/-! ## Descriptions that can be read -/

/-- A description that can be read where it is written: between its quotes stand only characters
that a block string may hold, and six bytes at least unless it is blank. -/
def Readable (d : Shown) : Prop :=
  d.2.getD "" = "" ∨
    (descriptionContents d.1 d.2).all Token.isBlockChar = true ∧
      (Text.trim (d.2.getD "").toList = [] ∨ 6 ≤ Text.byteLength (descriptionContents d.1 d.2))

instance (d : Shown) : Decidable (Readable d) :=
  inferInstanceAs (Decidable (_ ∨ _ ∧ (_ ∨ _)))

/-- The token of such a description is legible and has a value. -/
theorem readable_iff {margin : String} (spaces : ∀ c ∈ margin.toList, c = ' ')
    (description : Option String) :
    Readable (margin, description) ↔
      (descriptionTokens margin description).all isLegible = true ∧
        descriptionFlaw margin description = none := by
  unfold Readable descriptionTokens descriptionFlaw
  rw [block_description spaces]
  by_cases blank : description.getD "" = ""
  · simp [blank]
  · by_cases short : Text.trim (description.getD "").toList ≠ [] ∧
        Text.byteLength (descriptionContents margin description) < 6
    · simp [blank, short, isLegible]
    · have long : Text.trim (description.getD "").toList = [] ∨
          6 ≤ Text.byteLength (descriptionContents margin description) := by
        rw [← Nat.not_lt, or_iff_not_imp_left]
        exact fun nonempty less => short ⟨nonempty, less⟩
      simp [blank, short, long, isLegible]

theorem readable_indent (description : Option String) :
    Readable (indent, description) ↔
      (descriptionTokens indent description).all isLegible = true := by
  rw [readable_iff spaces_indent, descriptionFlaw_indent, eq_self_iff_true, and_true]

/-! ## Legible definitions -/

theorem legible_type (t : Schema.TypeRef) : (typeTokens t).all isLegible = true := by
  have mark : ∀ nonNull, (nonNullTokens nonNull).all isLegible = true := by decide
  induction t with
  | named nonNull type => exact mark nonNull
  | list nonNull element ih =>
    simp only [typeTokens, List.all_cons, List.all_append, ih, mark]
    rfl

mutual

theorem legible_value : ∀ v : Schema.Value, (valueTokens v).all isLegible = true
  | .variable _ | .int _ | .float _ | .string _ | .boolean true | .boolean false | .null
  | .enum _ => rfl
  | .list items => by
    simp only [valueTokens, List.all_cons, List.all_append, legible_items items]
    rfl
  | .object fields => by
    simp only [valueTokens, List.all_cons, List.all_append, legible_fields fields]
    rfl

theorem legible_items : ∀ items : List Schema.Value, (itemTokens items).all isLegible = true
  | [] => rfl
  | item :: rest => by
    simp only [itemTokens, List.all_append, legible_value item, legible_items rest, Bool.and_self]

theorem legible_fields :
    ∀ fields : List (String × Schema.Value), (fieldTokens fields).all isLegible = true
  | [] => rfl
  | (_, value) :: rest => by
    simp only [fieldTokens, List.all_cons, List.all_append, legible_value value,
      legible_fields rest]
    rfl

end

theorem legible_flatMap {α : Type} {spell : α → List Token} (xs : List α)
    (each : ∀ x ∈ xs, (spell x).all isLegible = true) :
    (xs.flatMap spell).all isLegible = true := by
  rw [List.all_flatMap, List.all_eq_true]
  exact each

theorem legible_directives (ds : List Schema.Directive) :
    (directivesTokens ds).all isLegible = true := by
  refine legible_flatMap ds fun d _ => ?_
  have entries : (d.arguments.flatMap entryTokens).all isLegible = true :=
    legible_flatMap _ fun entry _ => legible_value entry.2
  unfold directiveTokens
  split
  · rfl
  · simp only [List.all_cons, List.all_append, entries]
    rfl

theorem legible_inputValue (v : Schema.InputValue) :
    (inputValueTokens v).all isLegible = true := by
  have default : (defaultTokens v.default).all isLegible = true := by
    cases v.default with
    | none => rfl
    | some x => exact legible_value x
  simp only [inputValueTokens, List.all_cons, List.all_append, legible_type, default,
    legible_directives]
  rfl

theorem legible_arguments (vs : List Schema.InputValue) :
    (argumentsTokens vs).all isLegible = true := by
  have all := legible_flatMap vs fun v _ => legible_inputValue v
  unfold argumentsTokens
  split
  · rfl
  · simp only [List.all_cons, List.all_append, all]
    rfl

/-- Words with a mark before each. -/
theorem legible_names (mark : Char) (ns : List String) :
    (ns.flatMap fun n => [.punctuator mark, .name n]).all isLegible = true :=
  legible_flatMap ns fun _ _ => rfl

/-! What is inside of a definition is legible if its descriptions are. -/

theorem legible_body {γ : Type} {spell : γ → List Token} {describe : γ → Option String}
    (xs : List γ) (each : ∀ x,
      (spell x).all isLegible = (descriptionTokens indent (describe x)).all isLegible) :
    (bodyTokens spell xs).all isLegible = true ↔
      ∀ d ∈ xs.map fun x => (indent, describe x), Readable d := by
  have items : (bodyTokens spell xs).all isLegible = (xs.flatMap spell).all isLegible := by
    cases xs with
    | nil => rfl
    | cons x xs =>
      rw [bodyTokens, if_neg (by simp), List.all_cons, List.all_append]
      exact (Bool.true_and _).trans (Bool.and_true _)
  simp only [items, List.all_flatMap, each, List.all_eq_true, List.forall_mem_map,
    readable_indent]

/-- Behind a description, all is legible. -/
theorem legible_described (margin : String) (description : Option String) {tokens : List Token}
    (legible : tokens.all isLegible = true) :
    (descriptionTokens margin description ++ tokens).all isLegible =
      (descriptionTokens margin description).all isLegible := by
  rw [List.all_append, legible, Bool.and_true]

theorem legible_fieldDefinition (f : Schema.Field) :
    (fieldDefinitionTokens f).all isLegible =
      (descriptionTokens indent f.description).all isLegible := by
  refine legible_described _ _ ?_
  simp only [List.all_cons, List.all_append, legible_arguments, legible_type, legible_directives]
  rfl

theorem legible_enumValue (v : Schema.EnumValue) :
    (enumValueTokens v).all isLegible = (descriptionTokens indent v.description).all isLegible :=
  legible_described _ _ (legible_directives v.directives)

theorem legible_inputField (v : Schema.InputValue) :
    (inputFieldTokens v).all isLegible = (descriptionTokens indent v.description).all isLegible :=
  legible_described _ _ (legible_inputValue v)

/-! ## Definitions that can be read -/

def Part.IsReadable (part : Part) : Prop :=
  part.tokens.all isLegible = true ∧ part.flaw = none

/-- A definition can be read if its description and those inside of it can be. -/
theorem isReadable_described {description : Option String} {keyword : String}
    {tokens : List Token} {definition : Definition} {inner : List Shown}
    (legible : tokens.all isLegible = true ↔ ∀ d ∈ inner, Readable d) :
    (describedPart description keyword tokens definition).IsReadable ↔
      ∀ d ∈ ("", description) :: inner, Readable d := by
  rw [List.forall_mem_cons, readable_iff spaces_none, ← legible, Part.IsReadable, describedPart]
  simp only [List.all_append, List.all_cons, Bool.and_eq_true]
  constructor
  · rintro ⟨⟨outer, -, inner⟩, flawless⟩
    exact ⟨⟨outer, flawless⟩, inner⟩
  · rintro ⟨⟨outer, flawless⟩, inner⟩
    exact ⟨⟨outer, rfl, inner⟩, flawless⟩

/-- A definition that can be read if its description can be. -/
theorem isReadable_plain {description : Option String} {keyword : String} {tokens : List Token}
    {definition : Definition} (legible : tokens.all isLegible = true) :
    (describedPart description keyword tokens definition).IsReadable ↔
      Readable ("", description) := by
  have alone := @isReadable_described description keyword tokens definition [] (by simp [legible])
  rwa [List.forall_mem_singleton] at alone

theorem isReadable_composite {keyword : String} {definition : Definition}
    (c : Schema.Composite) :
    (describedPart c.description keyword (compositeTokens file c) definition).IsReadable ↔
      ∀ d ∈ c.shown, Readable d := by
  have parents : (implementsTokens (c.implements.map file.interfaceName)).all isLegible = true := by
    cases c.implements.map file.interfaceName with
    | nil => rfl
    | cons n ns => exact legible_names '&' ns
  refine isReadable_described ?_
  rw [← legible_body c.fields legible_fieldDefinition, compositeTokens]
  simp only [List.all_cons, List.all_append, parents, legible_directives]
  rfl

theorem isReadable_enum {definition : Definition} (e : Schema.Enum) :
    (describedPart e.description "enum" (enumTokens e) definition).IsReadable ↔
      ∀ d ∈ e.shown, Readable d := by
  refine isReadable_described ?_
  rw [← legible_body e.values legible_enumValue, enumTokens]
  simp only [List.all_cons, List.all_append, legible_directives]
  rfl

theorem isReadable_inputObject {definition : Definition} (i : Schema.InputObject) :
    (describedPart i.description "input" (inputObjectTokens i) definition).IsReadable ↔
      ∀ d ∈ i.shown, Readable d := by
  refine isReadable_described ?_
  rw [← legible_body i.fields legible_inputField, inputObjectTokens]
  simp only [List.all_cons, List.all_append, legible_directives]
  rfl

theorem isReadable_union {definition : Definition} (u : Schema.Union) :
    (describedPart u.description "union" (unionTokens u) definition).IsReadable ↔
      Readable ("", u.description) := by
  have members : (membersTokens (u.members.map NamedType.name)).all isLegible = true := by
    cases u.members.map NamedType.name with
    | nil => rfl
    | cons n ns => exact legible_names '|' ns
  refine isReadable_plain ?_
  simp only [unionTokens, List.all_cons, List.all_append, members, legible_directives]
  rfl

theorem isReadable_scalar {definition : Definition} (s : Schema.Scalar) :
    (describedPart s.description "scalar" (scalarTokens s) definition).IsReadable ↔
      Readable ("", s.description) :=
  isReadable_plain (legible_directives s.directives)

theorem isReadable_directive {definition : Definition} (d : Schema.DirectiveDefinition) :
    (describedPart d.description "directive" (directiveDefinitionTokens d)
      definition).IsReadable ↔ Readable ("", d.description) := by
  have places : (placesTokens (d.locations.map Location.name)).all isLegible = true := by
    cases d.locations.map Location.name with
    | nil => rfl
    | cons n ns => exact legible_names '|' ns
  refine isReadable_plain ?_
  simp only [directiveDefinitionTokens, List.all_cons, List.all_append, legible_arguments, places]
  cases d.repeatable <;> rfl

theorem isReadable_schema {block : Document.SchemaBlock} {applied : List Schema.Directive}
    {definition : Definition} :
    (describedPart none "schema" (schemaTokens block applied) definition).IsReadable := by
  have roots := legible_flatMap block.roots fun root _ => (rfl : (rootTokens root).all _ = true)
  refine (isReadable_plain ?_).2 (.inl rfl)
  simp only [schemaTokens, List.all_cons, List.all_append, legible_directives, roots]
  rfl

/-- All definitions of a file can be read if all descriptions that are written can be. -/
theorem isReadable_fileParts :
    (∀ part ∈ fileParts file, part.IsReadable) ↔ ∀ d ∈ file.shown, Readable d := by
  simp only [fileParts, Schema.File.shown, List.forall_mem_append, List.forall_mem_map,
    List.forall_mem_flatMap, List.forall_mem_singleton, isReadable_schema, isReadable_composite,
    isReadable_inputObject, isReadable_union, isReadable_directive, isReadable_scalar,
    isReadable_enum]
  tauto

/-! ## Texts that can be read -/

theorem fileParts_ne_nil : fileParts file ≠ [] := by
  simp [fileParts]

/-- A text of legible tokens is cut to its end. -/
theorem lex_of_reads {text : String} {tokens : List Token} (reads : Reads text tokens) :
    IntegerScan.scan text = .ok () ∧
      (tokens.all isLegible = true → Token.lex text.toList = tokens) ∧
      (tokens.all isLegible = false → .crash ∈ Token.lex text.toList) := by
  have ends : Breaks [] := by simp [Breaks]
  obtain ⟨lexed, crashed, scanned⟩ := reads [] ends
  rw [List.append_nil] at lexed crashed
  rw [IntegerScan.overflow?, List.append_nil] at scanned
  refine ⟨?_, fun legible => ?_, crashed⟩
  · rw [IntegerScan.scan_eq, scanned]
    rfl
  · rw [lexed legible, Token.lex, List.append_nil]

/-- The text of a file is read just if its definitions can be, and states the file as it says. -/
theorem parse_eq_ok_iff (sound : file.Sound) {text : String}
    (reads : Reads text ((fileParts file).flatMap Part.tokens)) {document : Document} :
    Document.parse text = .ok document ↔
      (∀ part ∈ fileParts file, part.IsReadable) ∧ file.reread.toDocument = document := by
  obtain ⟨scanned, lexed, crashed⟩ := lex_of_reads reads
  have readable : (∀ part ∈ fileParts file, part.IsReadable) ↔
      ((fileParts file).flatMap Part.tokens).all isLegible = true ∧
        (fileParts file).findSome? Part.flaw = none := by
    simp only [Part.IsReadable, List.all_flatMap, List.all_eq_true, List.findSome?_eq_none_iff,
      forall_and]
  rw [readable]
  cases legible : ((fileParts file).flatMap Part.tokens).all isLegible with
  | false =>
    -- The lexer crashes on such a token, and a text that is read has no crash in it.
    refine iff_of_false (fun parsed => ?_) (by simp)
    have proper := parse_proper parsed _ (crashed legible)
    cases proper
  | true =>
    -- The grammar takes every definition, and a description without a value leaves a defect.
    rw [Document.parse, scanned, lexed legible]
    simp only [document_eq fileParts_ne_nil (isDefinition_fileParts sound), fileParts_toDocument]
    cases (fileParts file).findSome? Part.flaw with
    | none => simp
    | some defect => simp

/-- The text of a file compiles just if its descriptions can be read, and then to the file as the
text says. -/
theorem compile_eq_ok_iff (sound : file.Sound) {text : String}
    (reads : Reads text ((fileParts file).flatMap Part.tokens)) {again : Schema.File} :
    Schema.compile file.name text = .ok again ↔
      (∀ d ∈ file.shown, Readable d) ∧ file.reread = again := by
  have resolved : resolve file.name file.reread.toDocument = .ok file.reread :=
    sound.reread.resolve_toDocument
  simp only [Schema.compile, Outcome.bind_eq_ok, parse_eq_ok_iff sound reads, isReadable_fileParts]
  constructor
  · rintro ⟨_, ⟨readable, rfl⟩, made⟩
    rw [resolved] at made
    exact ⟨readable, Except.ok.inj made⟩
  · rintro ⟨readable, rfl⟩
    exact ⟨_, ⟨readable, rfl⟩, resolved⟩

/-! ## Files without descriptions -/

/-- A text of a file in which no description is written. -/
structure ReadsPlain (file : Schema.File) (text : String) : Prop where
  blank : ∀ d ∈ file.shown, d.2.getD "" = ""
  reads : Reads text ((fileParts file).flatMap Part.tokens)

theorem exists_fileText (sound : file.Sound) (blank : ∀ d ∈ file.descriptions, d.getD "" = "")
    {wire : Wire.File} (converts : Wire.Converts file wire) :
    ∃ text, fileText? wire = some text ∧ ReadsPlain file text := by
  obtain ⟨text, written, reads⟩ := exists_text sound converts
  exact ⟨text, written, fun d shown => blank d.2 (Schema.File.mem_descriptions shown), reads⟩

/-- The text of a file without descriptions parses to the definitions of the echoed file. -/
theorem parse_of_reads (sound : file.Sound) {text : String} (plain : ReadsPlain file text) :
    Document.parse text = .ok file.echoed.toDocument := by
  have readable : ∀ d ∈ file.shown, Readable d := fun d shown => .inl (plain.blank d shown)
  rw [parse_eq_ok_iff sound plain.reads, isReadable_fileParts,
    Schema.File.reread_eq_echoed plain.blank]
  exact ⟨readable, rfl⟩

/-- A file that compiles, with no description in it, has a text that compiles to the file again:
its definitions keep their places, and only floats are rounded to the six places they are
written with. -/
theorem compile_echo {name source : String} (compiled : Schema.compile name source = .ok file)
    (blank : ∀ d ∈ file.descriptions, d = none ∨ d = some "") :
    ∃ wire text, Wire.File.ofSchema file = .ok wire ∧ fileText? wire = some text ∧
      Schema.compile name text = .ok file.echoed := by
  obtain ⟨sound, rfl⟩ := sound_of_compile compiled
  have empty : ∀ d ∈ file.descriptions, d.getD "" = "" := by
    intro d member
    rcases blank d member with rfl | rfl <;> rfl
  obtain ⟨wire, made, converts⟩ := Wire.exists_ofSchema sound
  obtain ⟨text, written, reads⟩ := exists_fileText sound empty converts
  refine ⟨wire, text, made, written, ?_⟩
  rw [Schema.compile, parse_of_reads sound reads]
  exact sound.echoed.resolve_toDocument

def ratesText : String :=
  "\"\" type Query implements Node \x7b rate(n: Int = -1): [Float!] @scaled(by: 0.1234567) \x7d
  interface Node
  directive @scaled(by: Float) on FIELD_DEFINITION"

theorem compile_echo_rates :
    ∃ file, Schema.compile "rates" ratesText = .ok file ∧
      ∃ wire text, Wire.File.ofSchema file = .ok wire ∧ fileText? wire = some text ∧
        Schema.compile "rates" text = .ok file.echoed := by
  have found : (Schema.compile "rates" ratesText).toOption.map Schema.File.descriptions =
      some [some "", none, none, none, none, none] := by
    decide +kernel
  cases compiled : Schema.compile "rates" ratesText with
  | error abort =>
    rw [compiled] at found
    cases found
  | ok file =>
    rw [compiled] at found
    have listed : file.descriptions = [some "", none, none, none, none, none] :=
      Option.some.inj found
    have blank : ∀ d ∈ file.descriptions, d = none ∨ d = some "" := by
      rw [listed]
      decide
    exact ⟨file, rfl, compile_echo compiled blank⟩

end SdlCompiler.Echo
