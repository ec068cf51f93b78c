import SdlCompiler.Echo.Sdl
import SdlCompiler.Proofs.Outcome

/-!
# Where descriptions are written

Every definition, field, input field and enum value of a file is written with its description
directly before it, and these stand in the text in the order in which they are written, apart from
each other (`exists_entries`). The descriptions of arguments are not written: a text is the
same whatever they say (`fileText?_clearArguments`).
-/

namespace SdlCompiler

/-! ## Files without descriptions of arguments -/

namespace Wire

def Field.clearArguments (f : Field) : Field :=
  { f with arguments := f.arguments.map fun v => { v with description := "" } }

def Object.clearArguments (o : Object) : Object :=
  { o with fields := o.fields.map Field.clearArguments }

def Interface.clearArguments (i : Interface) : Interface :=
  .mk i.name i.description i.directives (i.fields.map Field.clearArguments) i.implements

def DirectiveDefinition.clearArguments (d : DirectiveDefinition) : DirectiveDefinition :=
  { d with arguments := d.arguments.map fun v => { v with description := "" } }

/-- The file without the descriptions of arguments. -/
def File.clearArguments (file : File) : File :=
  { file with
    objects := file.objects.map Object.clearArguments,
    interfaces := file.interfaces.map Interface.clearArguments,
    directives := file.directives.map DirectiveDefinition.clearArguments }

end Wire

namespace Echo

open Outcome

theorem argumentsText?_clear (vs : List Wire.InputValue) :
    argumentsText? (vs.map fun v => { v with description := "" }) = argumentsText? vs := by
  rw [argumentsText?, argumentsText?, List.mapM_map, List.isEmpty_map]
  rfl

theorem fieldText?_clearArguments (f : Wire.Field) :
    fieldText? f.clearArguments = fieldText? f := by
  simp only [fieldText?, Wire.Field.clearArguments, argumentsText?_clear]

theorem compositeText?_clearArguments (keyword name description : String)
    (implements : List Wire.Interface) (directives : List Wire.Directive)
    (fields : List Wire.Field) :
    compositeText? keyword name description implements directives
        (fields.map Wire.Field.clearArguments) =
      compositeText? keyword name description implements directives fields := by
  have same : fieldText? ∘ Wire.Field.clearArguments = fieldText? :=
    funext fieldText?_clearArguments
  rw [compositeText?, compositeText?, List.mapM_map, same]

/-- The descriptions of arguments are not part of the text. -/
theorem fileText?_clearArguments (file : Wire.File) :
    fileText? file.clearArguments = fileText? file := by
  have objects : objectText? ∘ Wire.Object.clearArguments = objectText? :=
    funext fun _ => compositeText?_clearArguments ..
  have interfaces : interfaceText? ∘ Wire.Interface.clearArguments = interfaceText? :=
    funext fun _ => compositeText?_clearArguments ..
  have directives : directiveDefinitionText? ∘ Wire.DirectiveDefinition.clearArguments =
      directiveDefinitionText? := by
    funext d
    simp only [Function.comp_apply, directiveDefinitionText?,
      Wire.DirectiveDefinition.clearArguments, argumentsText?_clear]
    rfl
  simp only [fileText?, blocks?, Wire.File.clearArguments, List.mapM_map, objects, interfaces,
    directives]

/-! ## Texts in a text -/

/-- Texts that stand in another one, in this order and apart from each other. -/
inductive InOrder : List String → String → Prop
  | none (text : String) : InOrder [] text
  | next (gap piece : String) {rest : String} {pieces : List String} :
      InOrder pieces rest → InOrder (piece :: pieces) (gap ++ piece ++ rest)

namespace InOrder

variable {pieces others : List String} {piece text more : String}

theorem after (inOrder : InOrder pieces text) (before : String) :
    InOrder pieces (before ++ text) := by
  cases inOrder with
  | none => exact .none _
  | next gap piece later =>
    rw [← String.append_assoc, ← String.append_assoc]
    exact .next (before ++ gap) piece later

theorem append (first : InOrder pieces text) (second : InOrder others more) :
    InOrder (pieces ++ others) (text ++ more) := by
  induction first with
  | none text => exact second.after text
  | next gap piece _ ih =>
    rw [String.append_assoc, List.cons_append]
    exact .next gap piece ih

theorem before (inOrder : InOrder pieces text) (after : String) :
    InOrder pieces (text ++ after) := by
  simpa using inOrder.append (.none after)

theorem single (text : String) : InOrder [text] text := by
  simpa using next "" text (.none "")

theorem join (pieces : List String) : InOrder pieces (String.join pieces) := by
  induction pieces with
  | nil => exact .none _
  | cons piece rest ih =>
    rw [String.join_cons]
    exact (single piece).append ih

theorem intercalate (separator : String) (pieces : List String) :
    InOrder pieces (separator.intercalate pieces) := by
  induction pieces with
  | nil => exact .none _
  | cons piece rest ih =>
    by_cases last : rest = []
    · subst last
      rw [String.intercalate_singleton]
      exact single piece
    · rw [String.intercalate_cons_of_ne_nil last]
      exact ((single piece).before separator).append ih

theorem bodyText (lines : List String) : InOrder lines (bodyText lines) := by
  cases lines with
  | nil => exact .none _
  | cons line lines => exact ((join (line :: lines)).after _).before _

theorem drop (inOrder : InOrder (others ++ pieces) text) : InOrder pieces text := by
  induction others generalizing text with
  | nil => exact inOrder
  | cons first others ih =>
    cases inOrder with
    | next gap piece later => exact (ih later).after _

theorem isInfix (inOrder : InOrder pieces text) (member : piece ∈ pieces) :
    piece.toList <:+: text.toList := by
  induction inOrder with
  | none => cases member
  | @next gap first rest others _ ih =>
    simp only [String.toList_append]
    rcases List.mem_cons.1 member with rfl | later
    · exact List.infix_append ..
    · exact (ih later).trans (List.suffix_append ..).isInfix

end InOrder

/-! ## Block strings -/

/-- A line of a block string, with a backslash before each triple quote. A blank line is empty. -/
def blockLine (margin : String) (line : List Char) : String :=
  if Text.isBlankLine line then "\n"
  else margin ++ String.ofList (Text.BlockString.escape line) ++ "\n"

/-- The block string of a description, which has the lines of the description without the blanks at
its ends. -/
def blockString (margin description : String) : String :=
  margin ++ "\"\"\"\n" ++
    String.join ((Text.lines (Text.trim description.toList)).map (blockLine margin)) ++
    margin ++ "\"\"\"\n"

theorem toList_blockLine (margin : String) (line : List Char) :
    (blockLine margin line).toList = Text.BlockString.writeLine margin.toList line := by
  rw [blockLine, Text.BlockString.writeLine]
  split <;> simp

theorem descriptionText_empty (margin : String) : descriptionText margin "" = "" :=
  rfl

theorem descriptionText_eq_blockString (margin : String) {description : String}
    (nonempty : description ≠ "") :
    descriptionText margin description = blockString margin description := by
  have written : description.toList ≠ [] := mt String.toList_eq_nil_iff.1 nonempty
  apply String.toList_injective
  simp [descriptionText, Text.BlockString.write, Text.BlockString.writeLines, written, blockString,
    List.flatMap_map, toList_blockLine]

/-! ## What is described -/

/-- Something in a file that may have a description: the margin that it is written with, its
description, and the text that it would have without one. -/
structure Described where
  margin : String
  description : String
  bare? : Option String

/-- The text is what is described, with its description directly before it. -/
def Described.Stands (d : Described) (text : String) : Prop :=
  ∃ bare, d.bare? = some bare ∧ text = descriptionText d.margin d.description ++ bare

/-- A definition and what is described in it. -/
structure Entry where
  item : Described
  members : List Described := []

/-- The text is the definition with its description before it, and its members stand in it with
theirs. -/
structure Entry.Stands (e : Entry) (text : String) : Prop where
  item : e.item.Stands text
  members : ∃ texts, List.Forall₂ Described.Stands e.members texts ∧ InOrder texts text

/-- What is described has a text that begins with its description. -/
theorem stands_of_split (text? : String → Option String) {margin description text : String}
    (split : text? description = (text? "").map (descriptionText margin description ++ ·))
    (written : text? description = some text) :
    Described.Stands ⟨margin, description, text? ""⟩ text := by
  rw [split] at written
  obtain ⟨bare, isBare, rfl⟩ := Option.map_eq_some_iff.1 written
  exact ⟨bare, isBare, rfl⟩

/-! ## Members -/

def fieldItem (f : Wire.Field) : Described where
  margin := indent
  description := f.description
  bare? := fieldText? { f with description := "" }

def inputFieldItem (v : Wire.InputValue) : Described where
  margin := indent
  description := v.description
  bare? := inputFieldText? { v with description := "" }

def enumValueItem (s : Wire.Symbol) : Described where
  margin := indent
  description := s.description
  bare? := some (enumValueText { s with description := "" })

theorem fieldItem_stands {f : Wire.Field} {text : String} (written : fieldText? f = some text) :
    (fieldItem f).Stands text := by
  refine stands_of_split (fun description => fieldText? { f with description }) ?_ written
  simp only [fieldText?, descriptionText_empty, map_bind, map_pure, String.empty_append,
    String.append_assoc]

theorem inputFieldItem_stands {v : Wire.InputValue} {text : String}
    (written : inputFieldText? v = some text) : (inputFieldItem v).Stands text := by
  refine stands_of_split (fun description => inputFieldText? { v with description }) ?_ written
  simp only [inputFieldText?, inputValueText?, descriptionText_empty, map_bind, map_pure,
    String.empty_append, String.append_assoc]

theorem enumValueItem_stands (s : Wire.Symbol) : (enumValueItem s).Stands (enumValueText s) :=
  stands_of_split (fun description => some (enumValueText { s with description }))
    (by simp [enumValueText, descriptionText_empty, String.append_assoc]) rfl

/-! ## Definitions -/

def objectEntry (o : Wire.Object) : Entry where
  item :=
    { margin := "", description := o.description,
      bare? := objectText? { o with description := "" } }
  members := o.fields.map fieldItem

def interfaceEntry (i : Wire.Interface) : Entry where
  item :=
    { margin := "", description := i.description,
      bare? := interfaceText? (.mk i.name "" i.directives i.fields i.implements) }
  members := i.fields.map fieldItem

def inputEntry (i : Wire.InputObject) : Entry where
  item :=
    { margin := "", description := i.description,
      bare? := inputObjectText? { i with description := "" } }
  members := i.fields.map inputFieldItem

def unionEntry (u : Wire.Union) : Entry where
  item :=
    { margin := "", description := u.description,
      bare? := some (unionText { u with description := "" }) }

def directiveEntry (d : Wire.DirectiveDefinition) : Entry where
  item :=
    { margin := "", description := d.description,
      bare? := directiveDefinitionText? { d with description := "" } }

def scalarEntry (s : Wire.Symbol) : Entry where
  item :=
    { margin := "", description := s.description,
      bare? := some (scalarText { s with description := "" }) }

def enumEntry (e : Wire.Enum) : Entry where
  item :=
    { margin := "", description := e.description,
      bare? := some (enumText { e with description := "" }) }
  members := e.values.map enumValueItem

/-- The definitions of a file, in the order in which they are written. -/
def entries (file : Wire.File) : List Entry :=
  file.objects.map objectEntry ++ file.inputs.map inputEntry ++
    file.interfaces.map interfaceEntry ++ file.unions.map unionEntry ++
    file.directives.map directiveEntry ++ file.scalars.map scalarEntry ++
    file.enums.map enumEntry

/-- What is written one by one stands where its texts do, be it members or definitions. -/
theorem forall₂_stands {α β : Type} {Stands : β → String → Prop} {text? : α → Option String}
    {item : α → β} {xs : List α} {texts : List String}
    (stands : ∀ x text, text? x = some text → Stands (item x) text)
    (written : xs.mapM text? = some texts) :
    List.Forall₂ Stands (xs.map item) texts :=
  List.forall₂_map_left_iff.2 ((mapM_eq_some.1 written).imp stands)

theorem forall₂_stands_map {α β : Type} {Stands : β → String → Prop} {text : α → String}
    {item : α → β} (stands : ∀ x, Stands (item x) (text x)) (xs : List α) :
    List.Forall₂ Stands (xs.map item) (xs.map text) := by
  rw [List.forall₂_map_left_iff, List.forall₂_map_right_iff]
  exact List.forall₂_same.2 fun x _ => stands x

/-- Members that are written stand in the lines of a definition. -/
theorem exists_members {α : Type} {text? : α → Option String} {item : α → Described} {xs : List α}
    {lines : List String} (stands : ∀ x line, text? x = some line → (item x).Stands line)
    (written : xs.mapM text? = some lines) (head : String) :
    ∃ texts, List.Forall₂ Described.Stands (xs.map item) texts ∧
      InOrder texts (head ++ bodyText lines) :=
  ⟨lines, forall₂_stands stands written, (InOrder.bodyText lines).after head⟩

/-- A definition without members. -/
theorem stands_alone {item : Described} {text : String} (stands : item.Stands text) :
    Entry.Stands { item } text :=
  ⟨stands, [], .nil, .none text⟩

theorem compositeText?_stands {keyword name description text : String}
    {implements : List Wire.Interface} {directives : List Wire.Directive}
    {fields : List Wire.Field}
    (written : compositeText? keyword name description implements directives fields =
      some text) :
    Entry.Stands
      { item := ⟨"", description, compositeText? keyword name "" implements directives fields⟩,
        members := fields.map fieldItem } text := by
  constructor
  · refine stands_of_split
      (compositeText? keyword name · implements directives fields) ?_ written
    simp only [compositeText?, descriptionText_empty, map_bind, map_pure, String.empty_append,
      String.append_assoc]
  · obtain ⟨lines, isLines, isText⟩ := Option.bind_eq_some_iff.1 written
    obtain rfl := Option.some.inj isText
    exact exists_members (fun _ _ => fieldItem_stands) isLines _

theorem inputEntry_stands {i : Wire.InputObject} {text : String}
    (written : inputObjectText? i = some text) : (inputEntry i).Stands text := by
  constructor
  · refine stands_of_split (fun description => inputObjectText? { i with description }) ?_ written
    simp only [inputObjectText?, descriptionText_empty, map_bind, map_pure, String.empty_append,
      String.append_assoc]
  · obtain ⟨lines, isLines, isText⟩ := Option.bind_eq_some_iff.1 written
    obtain rfl := Option.some.inj isText
    exact exists_members (fun _ _ => inputFieldItem_stands) isLines _

theorem enumEntry_stands (e : Wire.Enum) : (enumEntry e).Stands (enumText e) := by
  constructor
  · exact stands_of_split (fun description => some (enumText { e with description }))
      (by simp [enumText, descriptionText_empty, String.append_assoc]) rfl
  · exact ⟨e.values.map enumValueText, forall₂_stands_map enumValueItem_stands e.values,
      (InOrder.bodyText _).after _⟩

theorem unionEntry_stands (u : Wire.Union) : (unionEntry u).Stands (unionText u) :=
  stands_alone (stands_of_split (fun description => some (unionText { u with description }))
    (by simp [unionText, descriptionText_empty, String.append_assoc]) rfl)

theorem scalarEntry_stands (s : Wire.Symbol) : (scalarEntry s).Stands (scalarText s) :=
  stands_alone (stands_of_split (fun description => some (scalarText { s with description }))
    (by simp [scalarText, descriptionText_empty, String.append_assoc]) rfl)

theorem directiveEntry_stands {d : Wire.DirectiveDefinition} {text : String}
    (written : directiveDefinitionText? d = some text) : (directiveEntry d).Stands text := by
  refine stands_alone (stands_of_split
    (fun description => directiveDefinitionText? { d with description }) ?_ written)
  simp only [directiveDefinitionText?, descriptionText_empty, map_bind, map_pure,
    String.empty_append, String.append_assoc]

/-! ## Files -/

/-- The definitions of a file stand in its text, in the order in which they are written. -/
theorem exists_entries {file : Wire.File} {text : String} (written : fileText? file = some text) :
    ∃ texts, List.Forall₂ Entry.Stands (entries file) texts ∧ InOrder texts text := by
  obtain ⟨blocks, isBlocks, isText⟩ := Option.bind_eq_some_iff.1 written
  obtain ⟨objects, isObjects, isBlocks⟩ := Option.bind_eq_some_iff.1 isBlocks
  obtain ⟨inputs, isInputs, isBlocks⟩ := Option.bind_eq_some_iff.1 isBlocks
  obtain ⟨interfaces, isInterfaces, isBlocks⟩ := Option.bind_eq_some_iff.1 isBlocks
  obtain ⟨directives, isDirectives, isBlocks⟩ := Option.bind_eq_some_iff.1 isBlocks
  obtain rfl := Option.some.inj isBlocks
  obtain rfl := Option.some.inj isText
  have inOrder := InOrder.intercalate "\n" ((file.schema.map rootsText).toList ++ objects ++
    inputs ++ interfaces ++ file.unions.map unionText ++ directives ++
    file.scalars.map scalarText ++ file.enums.map enumText)
  simp only [List.append_assoc] at inOrder ⊢
  refine ⟨_, ?_, inOrder.drop⟩
  simp only [entries, List.append_assoc]
  refine List.rel_append (forall₂_stands (fun _ _ => compositeText?_stands) isObjects) ?_
  refine List.rel_append (forall₂_stands (fun _ _ => inputEntry_stands) isInputs) ?_
  refine List.rel_append (forall₂_stands (fun _ _ => compositeText?_stands) isInterfaces) ?_
  refine List.rel_append (forall₂_stands_map unionEntry_stands file.unions) ?_
  refine List.rel_append (forall₂_stands (fun _ _ => directiveEntry_stands) isDirectives) ?_
  refine List.rel_append (forall₂_stands_map scalarEntry_stands file.scalars) ?_
  exact forall₂_stands_map enumEntry_stands file.enums

/-- What stands in a definition with its description is part of the text of the definition. -/
theorem Entry.Stands.isInfix {entry : Entry} {text : String}
    (stands : entry.Stands text) {item : Described}
    (member : item ∈ entry.item :: entry.members) :
    ∃ part, item.Stands part ∧ part.toList <:+: text.toList := by
  rcases List.mem_cons.1 member with rfl | inside
  · exact ⟨text, stands.item, List.infix_rfl⟩
  · obtain ⟨texts, each, inOrder⟩ := stands.members
    obtain ⟨part, isPart, standsPart⟩ := exists_of_forall₂ each inside
    exact ⟨part, standsPart, inOrder.isInfix isPart⟩

/-- A file that has a text is written definition by definition, each with its description directly
before it, and the same holds of the fields, input fields and enum values in each. So every
description there that is not blank stands in the text as a block string before what it describes.
Descriptions of arguments are the only ones that do not: the text is that of the file without
them. -/
theorem fileText?_documented {file : Wire.File} {text : String}
    (written : fileText? file = some text) :
    (∃ texts, List.Forall₂ Entry.Stands (entries file) texts ∧ InOrder texts text) ∧
    (∀ entry ∈ entries file, ∀ item ∈ entry.item :: entry.members,
      (∃ c ∈ item.description.toList, Text.isBlank c = false) →
      ∃ bare, item.bare? = some bare ∧
        (blockString item.margin item.description ++ bare).toList <:+: text.toList) ∧
    fileText? file.clearArguments = some text := by
  obtain ⟨texts, each, inOrder⟩ := exists_entries written
  refine ⟨⟨texts, each, inOrder⟩, ?_, (fileText?_clearArguments file).trans written⟩
  rintro entry member item inside ⟨c, isChar, -⟩
  obtain ⟨whole, isWhole, stands⟩ := exists_of_forall₂ each member
  obtain ⟨part, ⟨bare, isBare, rfl⟩, inWhole⟩ := stands.isInfix inside
  have nonempty : item.description ≠ "" := by
    intro empty
    rw [empty] at isChar
    cases isChar
  rw [descriptionText_eq_blockString item.margin nonempty] at inWhole
  exact ⟨bare, isBare, inWhole.trans (inOrder.isInfix isWhole)⟩

/-- An enum that describes two of its values alike, and one with blanks only. -/
theorem fileText?_documented_colors :
    let warm := "A \"\"\"warm\"\"\" one."
    let file : Wire.File :=
      { enums :=
          [{ name := "Color",
             values :=
               [{ name := "RED", description := warm }, { name := "BLUE", description := " " },
                { name := "PINK", description := warm }] }] }
    ∃ text, fileText? file = some text ∧
      ("    \"\"\"\n    A \\\"\"\"warm\\\"\"\" one.\n    \"\"\"\n" ++ "    PINK\n").toList <:+:
        text.toList := by
  intro warm file
  have written : fileText? file = some _ := rfl
  obtain ⟨bare, isBare, stands⟩ := (fileText?_documented written).2.1 _ List.mem_cons_self
    (enumValueItem { name := "PINK", description := warm }) (by simp [enumEntry])
    ⟨'A', by decide, by decide⟩
  obtain rfl : "    PINK\n" = bare := Option.some.inj isBare
  have block : blockString indent warm =
      "    \"\"\"\n    A \\\"\"\"warm\\\"\"\" one.\n    \"\"\"\n" := by
    decide
  exact ⟨_, written, block ▸ stands⟩

def describedArgument : Wire.InputValue :=
  { name := "first", description := "How many books.", type := some (.named false "Int") }

/-- The description of an argument stands nowhere in the text, whatever might follow it. -/
theorem fileText?_undocumented :
    let field : Wire.Field :=
      { name := "books", arguments := [describedArgument], type := some (.named false "Int") }
    let text := "type Query \x7b\n    books(first: Int): Int\n\x7d\n"
    fileText? { objects := [{ name := "Query", fields := [field] }] } = some text ∧
      (∃ c ∈ describedArgument.description.toList, Text.isBlank c = false) ∧
      ∀ margin bare,
        ¬(blockString margin describedArgument.description ++ bare).toList <:+: text.toList := by
  refine ⟨by decide, ⟨'H', by decide, by decide⟩, fun margin bare stands => ?_⟩
  have quote : '"' ∈ (blockString margin describedArgument.description ++ bare).toList := by
    simp [blockString]
  exact absurd (stands.mem quote) (by decide)

end Echo

end SdlCompiler
