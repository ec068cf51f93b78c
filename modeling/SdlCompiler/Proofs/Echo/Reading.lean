import SdlCompiler.Proofs.Document.BlockStrings
import SdlCompiler.Proofs.Echo.Tokens
import SdlCompiler.Proofs.Wire.Conversion

/-!
# The text of an echo

The text that a file is written as is cut into the tokens of its definitions. The pieces of the text
are either words, or begin with a blank or a punctuator, so that no word runs into another.
-/

namespace SdlCompiler.Echo

open Document Schema

/-! ## Lists of texts -/

theorem reads_intercalate_marks {separator : String} {marks : List Token}
    (separates : Separates separator marks) {text : String} {part : List Token}
    {texts : List String} {parts : List (List Token)} (first : Reads text part)
    (others : List.Forall₂ Reads texts parts) :
    Reads (separator.intercalate (text :: texts)) (part ++ parts.flatMap (marks ++ ·)) := by
  induction others generalizing text part with
  | nil =>
    rw [String.intercalate_singleton, List.flatMap_nil, List.append_nil]
    exact first
  | cons second _ ih =>
    rw [String.intercalate_cons_cons, String.append_assoc, List.flatMap_cons, List.append_assoc]
    exact first.then (separates.before (ih second))

/-- Texts with nothing but blanks between them. -/
theorem reads_intercalate {separator : String} (separates : Separates separator [])
    {texts : List String} {parts : List (List Token)} (all : List.Forall₂ Reads texts parts) :
    Reads (separator.intercalate texts) parts.flatten := by
  cases all with
  | nil => exact Reads.empty
  | cons first others =>
    have whole := reads_intercalate_marks separates first others
    simpa [List.flatMap_id'] using whole

/-- Names with a mark between them. -/
theorem reads_names {separator : String} {mark : Token} (separates : Separates separator [mark])
    {n : String} {ns : List String} (names : ∀ m ∈ n :: ns, IsName m) :
    Reads (separator.intercalate (n :: ns))
      (.name n :: ns.flatMap fun m => [mark, .name m]) := by
  obtain ⟨first, others⟩ := List.forall_mem_cons.1 names
  have related : List.Forall₂ Reads ns (ns.map fun m => [.name m]) := by
    rw [List.forall₂_map_right_iff, List.forall₂_same]
    exact fun m member => (others m member).reads
  have whole := reads_intercalate_marks separates first.reads related
  rwa [List.flatMap_map] at whole

theorem follows_join {texts : List String} {parts : List (List Token)}
    (all : List.Forall₂ Follows texts parts) : Follows (String.join texts) parts.flatten := by
  induction all with
  | nil => exact Follows.empty
  | cons first _ ih =>
    rw [String.join_cons, List.flatten_cons]
    exact first.then ih

theorem forall₂_map {α β γ : Type} {R : β → γ → Prop} {f : α → β} {g : α → γ} {xs : List α}
    (each : ∀ x ∈ xs, R (f x) (g x)) : List.Forall₂ R (xs.map f) (xs.map g) := by
  rw [List.forall₂_map_left_iff, List.forall₂_map_right_iff, List.forall₂_same]
  exact each

/-- Texts that are each there, and read as given. -/
theorem exists_texts_of_forall₂ {α β : Type} {G : α → β → Prop} {R : String → List Token → Prop}
    {text? : β → Option String} {spell : α → List Token} {xs : List α} {ys : List β}
    (given : List.Forall₂ G xs ys)
    (each : ∀ x ∈ xs, ∀ y, G x y → ∃ text, text? y = some text ∧ R text (spell x)) :
    ∃ texts, ys.mapM text? = some texts ∧ List.Forall₂ R texts (xs.map spell) := by
  induction given with
  | nil => exact ⟨[], rfl, .nil⟩
  | cons first _ ih =>
    obtain ⟨here, others⟩ := List.forall_mem_cons.1 each
    obtain ⟨text, found, reads⟩ := here _ first
    obtain ⟨texts, foundAll, readsAll⟩ := ih others
    refine ⟨text :: texts, ?_, .cons reads readsAll⟩
    rw [List.mapM_cons, found, foundAll]
    rfl

theorem exists_texts {α β : Type} {R : String → List Token → Prop} {convert : α → β}
    {text? : β → Option String} {spell : α → List Token} {xs : List α}
    (each : ∀ x ∈ xs, ∃ text, text? (convert x) = some text ∧ R text (spell x)) :
    ∃ texts, (xs.map convert).mapM text? = some texts ∧
      List.Forall₂ R texts (xs.map spell) := by
  have given : List.Forall₂ (fun x y => y = convert x) xs (xs.map convert) := by
    rw [List.forall₂_map_right_iff, List.forall₂_same]
    exact fun _ _ => rfl
  refine exists_texts_of_forall₂ given ?_
  rintro x member _ rfl
  exact each x member

/-! ## Separators -/

theorem separates_comma : Separates ", " [] :=
  ⟨by decide, by decide, by decide⟩

theorem separates_colon : Separates ": " [.punctuator ':'] :=
  ⟨by decide, by decide, by decide⟩

theorem separates_equals : Separates " = " [.punctuator '='] :=
  ⟨by decide, by decide, by decide⟩

theorem separates_line : Separates "\n" [] :=
  ⟨by decide, by decide, by decide⟩

theorem separates_blank : Separates " " [] :=
  ⟨by decide, by decide, by decide⟩

theorem separates_indent : Separates indent [] :=
  ⟨by decide, by decide, by decide⟩

/-- A text between two breaks, as in brackets. -/
theorem follows_between {opening closing text : String} {before after tokens : List Token}
    (opens : Separates opening before) (reads : Reads text tokens)
    (closes : Separates closing after) :
    Follows (opening ++ text ++ closing) (before ++ (tokens ++ after)) := by
  rw [String.append_assoc]
  exact opens.before (reads.then closes.follows)

/-! ## Types and values -/

theorem exists_typeText {t : Schema.TypeRef} (isName : IsName t.innermost.name) :
    ∃ text, typeText? (.ofSchema t) = some text ∧ Reads text (typeTokens t) := by
  have bang : Separates "!" [.punctuator '!'] := ⟨by decide, by decide, by decide⟩
  induction t with
  | named nonNull type =>
    refine ⟨_, rfl, ?_⟩
    cases nonNull with
    | true => exact isName.reads.then bang.follows
    | false => exact isName.reads
  | list nonNull element ih =>
    obtain ⟨text, found, reads⟩ := ih isName
    have opening : Separates "[" [.punctuator '['] := ⟨by decide, by decide, by decide⟩
    have closing : Separates "]" [.punctuator ']'] := ⟨by decide, by decide, by decide⟩
    have bracketed := (follows_between opening reads closing).reads
    refine ⟨_, by rw [Wire.TypeRef.ofSchema, typeText?, found]; rfl, ?_⟩
    cases nonNull with
    | true =>
      have whole := bracketed.then bang.follows
      simpa [typeTokens, nonNullTokens] using whole
    | false => exact bracketed

theorem itemTexts_eq (items : List Schema.Value) :
    itemTexts (Wire.Value.itemsOfSchema items) =
      items.map fun item => valueText (.ofSchema item) := by
  induction items with
  | nil => rfl
  | cons item rest ih => rw [Wire.Value.itemsOfSchema, itemTexts, ih, List.map_cons]

theorem fieldTexts_eq (fields : List (String × Schema.Value)) :
    fieldTexts (Wire.Value.fieldsOfSchema fields) =
      fields.map fun field => field.1 ++ ": " ++ valueText (.ofSchema field.2) := by
  induction fields with
  | nil => rfl
  | cons field rest ih => rw [Wire.Value.fieldsOfSchema, fieldTexts, ih, List.map_cons]

/-- A name and a value, as an argument or in an object. -/
theorem reads_entry {entry : String × Schema.Value} (isName : IsName entry.1)
    (reads : Reads (valueText (.ofSchema entry.2)) (valueTokens entry.2)) :
    Reads (entry.1 ++ ": " ++ valueText (.ofSchema entry.2)) (entryTokens entry) := by
  rw [String.append_assoc]
  exact isName.reads.then (separates_colon.before reads)

theorem reads_value {v : Schema.Value} (finite : v.Finite) :
    Reads (valueText (.ofSchema v)) (valueTokens v) := by
  induction finite with
  | int n => exact reads_int n
  | float finite => exact reads_fixed finite
  | string basic => exact basic.reads
  | boolean value =>
    cases value with
    | true => exact IsName.reads (by decide)
    | false => exact IsName.reads (by decide)
  | null => exact IsName.reads (by decide)
  | enum isName _ => exact isName.reads
  | @list items _ ih =>
    have opening : Separates "[" [.punctuator '['] := ⟨by decide, by decide, by decide⟩
    have closing : Separates "]" [.punctuator ']'] := ⟨by decide, by decide, by decide⟩
    have inside := reads_intercalate separates_comma (forall₂_map ih)
    rw [valueTokens_list, Wire.Value.ofSchema, valueText, itemTexts_eq]
    exact (follows_between opening inside closing).reads
  | @object fields names _ ih =>
    have opening : Separates "\x7b" [.punctuator '\x7b'] := ⟨by decide, by decide, by decide⟩
    have closing : Separates "\x7d" [.punctuator '\x7d'] := ⟨by decide, by decide, by decide⟩
    have inside := reads_intercalate separates_comma (forall₂_map fun field member =>
      reads_entry (names field member) (ih field member))
    rw [valueTokens_object, Wire.Value.ofSchema, valueText, fieldTexts_eq]
    exact (follows_between opening inside closing).reads

/-! ## Parts of definitions -/

theorem separates_parenthesis : Separates "(" [.punctuator '('] ∧ Separates ")" [.punctuator ')'] :=
  ⟨⟨by decide, by decide, by decide⟩, ⟨by decide, by decide, by decide⟩⟩

theorem follows_directive {d : Schema.Directive} (written : d.Written Value.Finite) :
    Follows (directiveText (.ofSchema d)) (.punctuator '@' :: directiveTokens d) := by
  have sign : Separates " @" [.punctuator '@'] := ⟨by decide, by decide, by decide⟩
  obtain ⟨directiveName, arguments⟩ := d
  show Follows (" @" ++ directiveName ++ _) _
  rw [String.append_assoc]
  cases arguments with
  | nil => exact sign.before (written.name.reads.then Follows.empty)
  | cons a arguments =>
    obtain ⟨opening, closing⟩ := separates_parenthesis
    have entries : List.Forall₂ Reads
        (((a :: arguments).map fun b =>
          (⟨b.1, some (.ofSchema b.2)⟩ : Wire.Argument)).map argumentText)
        ((a :: arguments).map entryTokens) := by
      rw [List.map_map]
      exact forall₂_map fun b member =>
        reads_entry (written.arguments b member).1 (reads_value (written.arguments b member).2)
    have inside := reads_intercalate separates_comma entries
    exact sign.before (written.name.reads.then (follows_between opening inside closing))

theorem follows_directives {ds : List Schema.Directive}
    (written : ∀ d ∈ ds, d.Written Value.Finite) :
    Follows (directivesText (ds.map Wire.Directive.ofSchema)) (directivesTokens ds) := by
  rw [directivesText, List.map_map]
  exact follows_join (forall₂_map fun d member => follows_directive (written d member))

section

variable {file : Schema.File}

theorem exists_inputValueText {v : Schema.InputValue}
    (written : v.Written file.Knows Value.Finite) :
    ∃ text, inputValueText? (.ofSchema v) = some text ∧ Reads text (inputValueTokens v) := by
  obtain ⟨type, typed, readsType⟩ := exists_typeText written.type.refers.isName
  have default : Follows
      (((Wire.InputValue.ofSchema v).default.map fun value => " = " ++ valueText value).getD "")
      (defaultTokens v.default) := by
    show Follows (((v.default.map Wire.Value.ofSchema).map _).getD "") _
    cases isDefault : v.default with
    | none => exact Follows.empty
    | some x => exact separates_equals.before (reads_value (written.default x isDefault))
  refine ⟨_, Option.bind_eq_some_iff.2 ⟨_, typed, rfl⟩, ?_⟩
  simp only [String.append_assoc]
  exact written.name.reads.then (separates_colon.before
    (readsType.then (default.then (follows_directives written.directives))))

theorem exists_argumentsText {vs : List Schema.InputValue}
    (written : ∀ v ∈ vs, v.Written file.Knows Value.Finite) :
    ∃ text, argumentsText? (vs.map Wire.InputValue.ofSchema) = some text ∧
      Follows text (argumentsTokens vs) := by
  obtain ⟨texts, found, all⟩ :=
    exists_texts fun v member => exists_inputValueText (written v member)
  refine ⟨_, Option.bind_eq_some_iff.2 ⟨_, found, rfl⟩, ?_⟩
  cases vs with
  | nil => exact Follows.empty
  | cons v vs =>
    obtain ⟨opening, closing⟩ := separates_parenthesis
    exact follows_between opening (reads_intercalate separates_comma all) closing

/-- A description is read by itself, whatever follows it. -/
theorem readsBefore_description {margin : String} (spaces : ∀ c ∈ margin.toList, c = ' ')
    (description : Option String) (rest : List Char) :
    ReadsBefore (descriptionText margin (Wire.descriptionText description)).toList rest
      (descriptionTokens margin description) := by
  rw [descriptionText, String.toList_ofList, Wire.descriptionText]
  unfold descriptionTokens
  split
  · next blank =>
    rw [blank]
    exact readsBefore_of_legible rfl ⟨rfl, rfl⟩
  · next written =>
    have nonempty : (description.getD "").toList ≠ [] := by simpa using written
    exact readsBefore_write spaces nonempty rest

/-- A description before a definition. -/
theorem reads_described (description : Option String) {text : String} {tokens : List Token}
    (reads : Reads text tokens) :
    Reads (descriptionText "" (Wire.descriptionText description) ++ text)
      (descriptionTokens "" description ++ tokens) := by
  intro rest ends
  rw [String.toList_append]
  exact (readsBefore_description spaces_none description _).append (reads rest ends)

/-- A description before a line. -/
theorem follows_described (description : Option String) {text : String} {tokens : List Token}
    (follows : Follows text tokens) :
    Follows (descriptionText indent (Wire.descriptionText description) ++ text)
      (descriptionTokens indent description ++ tokens) := by
  constructor
  · intro rest ends
    rw [String.toList_append]
    exact (readsBefore_description spaces_indent description _).append (follows.reads rest ends)
  · intro rest ends
    rw [String.toList_append, descriptionText, String.toList_ofList, Text.BlockString.write]
    split
    · exact follows.breaks rest ends
    · intro c first
      cases first
      decide

/-- A line of a body. -/
theorem follows_line {text : String} {tokens : List Token} (reads : Reads text tokens) :
    Follows (indent ++ text ++ "\n") tokens := by
  have line := follows_between separates_indent reads separates_line
  rwa [List.nil_append, List.append_nil] at line

theorem exists_fieldText {f : Schema.Field} (written : f.Written file.Knows Value.Finite) :
    ∃ text, fieldText? (.ofSchema f) = some text ∧ Follows text (fieldDefinitionTokens f) := by
  obtain ⟨arguments, foundArguments, follows⟩ := exists_argumentsText written.arguments
  obtain ⟨type, typed, readsType⟩ := exists_typeText written.type.refers.isName
  refine ⟨_, Option.bind_eq_some_iff.2 ⟨_, foundArguments,
    Option.bind_eq_some_iff.2 ⟨_, rfl, Option.bind_eq_some_iff.2 ⟨_, typed, rfl⟩⟩⟩, ?_⟩
  have line := follows_described f.description (follows_line (written.name.reads.then
    (follows.then (separates_colon.before
      (readsType.then (follows_directives written.directives))))))
  simp only [String.append_assoc] at line ⊢
  exact line

theorem exists_inputFieldText {v : Schema.InputValue}
    (written : v.Written file.Knows Value.Finite) :
    ∃ text, inputFieldText? (.ofSchema v) = some text ∧ Follows text (inputFieldTokens v) := by
  obtain ⟨text, found, reads⟩ := exists_inputValueText written
  refine ⟨_, Option.bind_eq_some_iff.2 ⟨_, found, rfl⟩, ?_⟩
  have line := follows_described v.description (follows_line reads)
  simp only [String.append_assoc] at line ⊢
  exact line

end

theorem follows_enumValue {v : Schema.EnumValue} (written : v.Written Value.Finite) :
    Follows (enumValueText
      { name := v.name, description := Wire.descriptionText v.description,
        directives := v.directives.map Wire.Directive.ofSchema }) (enumValueTokens v) := by
  have line := follows_described v.description
    (follows_line (written.name.reads.then (follows_directives written.directives)))
  rw [enumValueText]
  simp only [String.append_assoc] at line ⊢
  exact line

theorem separates_braces :
    Separates " \x7b\n" [.punctuator '\x7b'] ∧ Separates "\x7d\n" [.punctuator '\x7d'] :=
  ⟨⟨by decide, by decide, by decide⟩, ⟨by decide, by decide, by decide⟩⟩

/-- The lines of a body, each of which is read as an item. -/
theorem follows_body {γ : Type} {spell : γ → List Token} {xs : List γ} {lines : List String}
    (all : List.Forall₂ Follows lines (xs.map spell)) :
    Follows (bodyText lines) (bodyTokens spell xs) := by
  obtain ⟨opening, closing⟩ := separates_braces
  cases xs with
  | nil =>
    cases all
    exact separates_line.follows
  | cons x xs =>
    cases lines with
    | nil => cases all
    | cons line lines => exact follows_between opening (follows_join all).reads closing

/-! ## Definitions -/

/-- A keyword and a separator, in one text, before another text. -/
theorem reads_keyword {opening separator text : String} {marks tokens : List Token}
    (keyword : String) (isName : IsName keyword) (spelled : opening = keyword ++ separator)
    (separates : Separates separator marks) (reads : Reads text tokens) :
    Reads (opening ++ text) (.name keyword :: (marks ++ tokens)) := by
  rw [spelled, String.append_assoc]
  exact isName.reads.then (separates.before reads)

/-- A word between a text and another. -/
theorem follows_word {text : String} {tokens : List Token} (word : String) (isName : IsName word)
    (reads : Reads text tokens) :
    Follows (" " ++ (word ++ " ") ++ text) (.name word :: tokens) := by
  rw [String.append_assoc]
  exact separates_blank.before (reads_keyword word isName rfl separates_blank reads)

theorem follows_implements {interfaces : List Wire.Interface} {ns : List String}
    (same : interfaces.map Wire.Interface.name = ns) (names : ∀ n ∈ ns, IsName n) :
    Follows (implementsText interfaces) (implementsTokens ns) := by
  have mark : Separates " & " [.punctuator '&'] := ⟨by decide, by decide, by decide⟩
  subst same
  cases interfaces with
  | nil => exact Follows.empty
  | cons i interfaces =>
    exact follows_word "implements" (by decide) (reads_names mark names)

theorem exists_compositeText {file : Schema.File} (sound : file.Sound) {c : Schema.Composite}
    (written : c.Written (· < file.interfaces.length) file.Knows Value.Finite)
    {keyword name description : String}
    {implements : List Wire.Interface} {directives : List Wire.Directive}
    {fields : List Wire.Field}
    (gives : Wire.Gives file c name description implements directives fields)
    (isName : IsName keyword) :
    ∃ text, compositeText? keyword name description implements directives fields = some text ∧
      Reads text
        (descriptionTokens "" c.description ++ .name keyword :: compositeTokens file c) := by
  obtain ⟨rfl, rfl, same, rfl, rfl⟩ := gives
  obtain ⟨lines, found, all⟩ := exists_texts fun f member =>
    exists_fieldText (written.fields f member)
  have names : ∀ n ∈ c.implements.map file.interfaceName, IsName n := by
    intro n member
    obtain ⟨index, isParent, rfl⟩ := List.mem_map.1 member
    have found := List.getElem?_eq_getElem (written.implements index isParent)
    rw [Wire.interfaceName_eq found]
    exact (sound.interfaces _ (List.getElem_mem _)).name
  refine ⟨_, Option.bind_eq_some_iff.2 ⟨_, found, rfl⟩, ?_⟩
  have whole := reads_described c.description (reads_keyword keyword isName rfl separates_blank
    (written.name.reads.then ((follows_implements same names).then
      ((follows_directives written.directives).then (follows_body all)))))
  simp only [String.append_assoc] at whole ⊢
  exact whole

theorem exists_inputObjectText {file : Schema.File} {i : Schema.InputObject}
    (written : i.Written file.Knows Value.Finite) :
    ∃ text, inputObjectText? (.ofSchema i) = some text ∧
      Reads text (descriptionTokens "" i.description ++ .name "input" :: inputObjectTokens i) := by
  obtain ⟨lines, found, all⟩ := exists_texts fun v member =>
    exists_inputFieldText (written.fields v member)
  refine ⟨_, Option.bind_eq_some_iff.2 ⟨_, found, rfl⟩, ?_⟩
  have plain := reads_keyword "input" (by decide) (rfl : "input " = _) separates_blank
    (written.name.reads.then ((follows_directives written.directives).then (follows_body all)))
  have whole := reads_described i.description plain
  simp only [← String.append_assoc] at whole ⊢
  exact whole

theorem separates_bar : Separates " | " [.punctuator '|'] :=
  ⟨by decide, by decide, by decide⟩

theorem reads_union {file : Schema.File} {u : Schema.Union}
    (written : u.Written file.Refers Value.Finite) :
    Reads (unionText (.ofSchema u))
      (descriptionTokens "" u.description ++ .name "union" :: unionTokens u) := by
  obtain ⟨unionName, text, applied, members⟩ := u
  have listed : Follows
      (if (members.map fun m => (⟨m.name⟩ : Wire.Name)).isEmpty then ""
        else " = " ++ " | ".intercalate
          ((members.map fun m => (⟨m.name⟩ : Wire.Name)).map Wire.Name.text))
      (membersTokens (members.map NamedType.name)) := by
    cases members with
    | nil => exact Follows.empty
    | cons m members =>
      have names : ∀ n ∈ (m :: members).map NamedType.name, IsName n :=
        List.forall_mem_map.2 fun r member => (written.members r member).isName
      rw [List.map_map]
      exact separates_equals.before (reads_names separates_bar names)
  have plain := reads_keyword "union" (by decide) (rfl : "union " = _) separates_blank
    (written.name.reads.then ((follows_directives written.directives).then
      (listed.then separates_line.follows)))
  have whole := reads_described text plain
  rw [unionText, Wire.Union.ofSchema]
  simp only [List.append_nil, ← String.append_assoc] at whole
  exact whole

theorem reads_scalar {s : Schema.Scalar} (written : s.Written Value.Finite) :
    Reads (scalarText (.ofScalar s))
      (descriptionTokens "" s.description ++ .name "scalar" :: scalarTokens s) := by
  have plain := reads_keyword "scalar" (by decide) (rfl : "scalar " = _) separates_blank
    (written.name.reads.then ((follows_directives written.directives).then separates_line.follows))
  have whole := reads_described s.description plain
  rw [scalarText, Wire.Symbol.ofScalar]
  simp only [List.append_nil, ← String.append_assoc] at whole
  exact whole

theorem reads_enum {e : Schema.Enum} (written : e.Written Value.Finite) :
    Reads (enumText (.ofSchema e))
      (descriptionTokens "" e.description ++ .name "enum" :: enumTokens e) := by
  have lines := forall₂_map fun v member => follows_enumValue (written.values v member)
  have plain := reads_keyword "enum" (by decide) (rfl : "enum " = _) separates_blank
    (written.name.reads.then ((follows_directives written.directives).then (follows_body lines)))
  have whole := reads_described e.description plain
  rw [enumText, Wire.Enum.ofSchema, List.map_map]
  simp only [← String.append_assoc] at whole
  exact whole

theorem isName_location (place : SdlCompiler.Location) : IsName place.name := by
  cases place with
  | executable place => cases place <;> decide
  | typeSystem place => cases place <;> decide

theorem location?_ofSchema (place : SdlCompiler.Location) :
    location? (Wire.Location.ofSchema place) = some place := by
  cases place with
  | executable place => cases place <;> decide
  | typeSystem place => cases place <;> decide

theorem locations_eq (places : List SdlCompiler.Location) :
    (places.map Wire.Location.ofSchema).filterMap location? = places := by
  have same : location? ∘ Wire.Location.ofSchema = some := funext location?_ofSchema
  rw [List.filterMap_map, same, List.filterMap_some]

theorem reads_places {places : List SdlCompiler.Location} (nonempty : places ≠ []) :
    Reads (" | ".intercalate (places.map SdlCompiler.Location.name))
      (placesTokens (places.map SdlCompiler.Location.name)) := by
  cases places with
  | nil => exact absurd rfl nonempty
  | cons place places =>
    have names : ∀ n ∈ (place :: places).map SdlCompiler.Location.name, IsName n :=
      List.forall_mem_map.2 fun p _ => isName_location p
    exact reads_names separates_bar names

theorem exists_directiveDefinitionText {file : Schema.File} {d : Schema.DirectiveDefinition}
    (written : d.Written file.Knows Value.Finite fun _ => True) :
    ∃ text, directiveDefinitionText? (.ofSchema d) = some text ∧
      Reads text (descriptionTokens "" d.description ++
        .name "directive" :: directiveDefinitionTokens d) := by
  have sign : Separates " @" [.punctuator '@'] := ⟨by decide, by decide, by decide⟩
  obtain ⟨arguments, found, follows⟩ := exists_argumentsText written.arguments
  have repeatable : Follows (if d.repeatable then " repeatable" else "")
      (if d.repeatable then [.name "repeatable"] else []) := by
    cases d.repeatable with
    | false => exact Follows.empty
    | true =>
      have isWord : IsName "repeatable" := by decide
      exact separates_blank.before isWord.reads
  have places := follows_word "on" (by decide) (reads_places written.nonempty)
  have whole := reads_described d.description (reads_keyword "directive" (by decide)
    (by decide : "directive @" = _) sign
    (written.name.reads.then
      (follows.then (repeatable.then (places.then separates_line.follows)))))
  refine ⟨_, Option.bind_eq_some_iff.2 ⟨_, found, rfl⟩, ?_⟩
  have same : (Wire.DirectiveDefinition.ofSchema d).locations.filterMap location? = d.locations :=
    locations_eq d.locations
  rw [same]
  simp only [List.append_nil, String.append_assoc] at whole ⊢
  exact whole

theorem follows_root {root : Option Wire.Object} {n? : Option String} (operation : Operation)
    (same : root.map Wire.Object.name = n?) (names : ∀ n ∈ n?, IsName n) :
    Follows (rootText (operationKeyword operation) root)
      (n?.elim [] fun n => rootTokens (operation, n)) := by
  subst same
  cases root with
  | none => exact Follows.empty
  | some object =>
    have isKeyword : IsName (operationKeyword operation) := by cases operation <;> decide
    have isName : IsName object.name := names object.name rfl
    have whole := separates_indent.before (isKeyword.reads.then
      (separates_colon.before (isName.reads.then separates_line.follows)))
    simp only [← String.append_assoc] at whole
    exact whole

theorem schemaDocument_tokens (file : Schema.File) :
    file.schemaDocument.roots.flatMap rootTokens =
      [Operation.query, .mutation, .subscription].flatMap fun operation =>
        ((file.schema.root? operation).map file.objectName).elim []
          fun n => rootTokens (operation, n) := by
  rw [Schema.File.schemaDocument, List.filterMap_eq_flatMap_toList, List.flatMap_assoc]
  congr 1
  funext operation
  cases file.schema.root? operation <;> simp

theorem reads_roots {file : Schema.File} (sound : file.Sound) {roots : Wire.Roots}
    (directives : roots.directives = file.schema.directives.map Wire.Directive.ofSchema)
    (query : roots.query.map Wire.Object.name = file.schema.query.map file.objectName)
    (mutation : roots.mutation.map Wire.Object.name = file.schema.mutation.map file.objectName)
    (subscription : roots.subscription.map Wire.Object.name =
      file.schema.subscription.map file.objectName) :
    Reads (rootsText roots)
      (.name "schema" :: schemaTokens file.schemaDocument file.schema.directives) := by
  have isKeyword : IsName "schema" := by decide
  obtain ⟨opening, closing⟩ := separates_braces
  have names : ∀ operation, ∀ n ∈ (file.schema.root? operation).map file.objectName, IsName n := by
    intro operation n member
    obtain ⟨index, isRoot, rfl⟩ := Option.map_eq_some_iff.1 member
    have found := List.getElem?_eq_getElem (sound.roots operation index isRoot)
    simp only [Schema.File.objectName, Schema.File.nameAt?, found, Option.map_some,
      Option.getD_some]
    exact (sound.objects _ (List.getElem_mem _)).name
  have listed := (follows_root .query query (names .query)).then
    ((follows_root .mutation mutation (names .mutation)).then
      (follows_root .subscription subscription (names .subscription)))
  have whole := isKeyword.reads.then ((follows_directives sound.applied).then
    (opening.before (listed.reads.then closing.follows)))
  rw [rootsText, directives, schemaTokens, schemaDocument_tokens]
  simp only [String.append_assoc, List.append_assoc, List.append_nil, List.flatMap_cons,
    List.flatMap_nil] at whole ⊢
  exact whole

/-! ## Files -/

/-- The definitions are written one by one, in the order of their tokens. -/
theorem exists_blocks {file : Schema.File} (sound : file.Sound) {wire : Wire.File}
    (converts : Wire.Converts file wire) :
    ∃ texts, blocks? wire = some texts ∧
      List.Forall₂ Reads texts ((fileParts file).map Part.tokens) := by
  obtain ⟨roots, isSchema, applied, query, mutation, subscription⟩ := converts.schema
  have object : ∀ c ∈ file.objects, ∀ o, Wire.Gives.Object file c o →
      ∃ text, objectText? o = some text ∧
        Reads text (descriptionTokens "" c.description ++
          .name "type" :: compositeTokens file c) :=
    fun c member _ gives => exists_compositeText sound (sound.objects c member) gives (by decide)
  have interface : ∀ c ∈ file.interfaces, ∀ i, Wire.Gives.Interface file c i →
      ∃ text, interfaceText? i = some text ∧
        Reads text (descriptionTokens "" c.description ++
          .name "interface" :: compositeTokens file c) :=
    fun c member _ gives => exists_compositeText sound (sound.interfaces c member) gives (by decide)
  obtain ⟨objects, foundObjects, readObjects⟩ := exists_texts_of_forall₂ converts.objects object
  obtain ⟨interfaces, foundInterfaces, readInterfaces⟩ :=
    exists_texts_of_forall₂ converts.interfaces interface
  obtain ⟨inputs, foundInputs, readInputs⟩ := exists_texts fun i member =>
    exists_inputObjectText (sound.inputs i member)
  obtain ⟨directives, foundDirectives, readDirectives⟩ := exists_texts fun d member =>
    exists_directiveDefinitionText (sound.directives d member)
  have found : blocks? wire = some ([rootsText roots] ++ objects ++ inputs ++ interfaces ++
      wire.unions.map unionText ++ directives ++ wire.scalars.map scalarText ++
      wire.enums.map enumText) := by
    rw [blocks?, foundObjects, converts.inputs, foundInputs, foundInterfaces,
      converts.directives, foundDirectives, isSchema]
    rfl
  refine ⟨_, found, ?_⟩
  simp only [fileParts, List.map_append, List.map_map]
  refine List.rel_append (List.rel_append (List.rel_append (List.rel_append (List.rel_append
    (List.rel_append (List.rel_append ?_ readObjects) readInputs) readInterfaces) ?_)
    readDirectives) ?_) ?_
  · exact .cons (reads_roots sound applied query mutation subscription) .nil
  · rw [converts.unions, List.map_map]
    exact forall₂_map fun u member => reads_union (sound.unions u member)
  · rw [converts.scalars, List.map_map]
    exact forall₂_map fun s member => reads_scalar (sound.scalars s member)
  · rw [converts.enums, List.map_map]
    exact forall₂_map fun e member => reads_enum (sound.enums e member)

/-- The text of a file is read as the tokens of its definitions. -/
theorem exists_text {file : Schema.File} (sound : file.Sound) {wire : Wire.File}
    (converts : Wire.Converts file wire) :
    ∃ text, fileText? wire = some text ∧ Reads text ((fileParts file).flatMap Part.tokens) := by
  obtain ⟨texts, found, all⟩ := exists_blocks sound converts
  exact ⟨_, Option.bind_eq_some_iff.2 ⟨_, found, rfl⟩, reads_intercalate separates_line all⟩

end SdlCompiler.Echo
