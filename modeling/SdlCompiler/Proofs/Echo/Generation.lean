import SdlCompiler.Echo.Generate
import SdlCompiler.Proofs.Wire.Injectivity

/-!
# What the echo generator answers

A file has a text just if no type is missing in its definitions (`fileText?_eq_none`), however deep
in lists it would stand. Types in copies of interfaces and roots do not matter, nor does anything
else that a message may leave out. So the generator fails at the first file of a request that
lacks a type, and writes one file for each if none does. Messages of resolved files lack no type.
-/

namespace SdlCompiler

namespace Wire

/-! ## Types that are not there -/

/-- A type that lacks its kind, or its element, at some depth. -/
inductive TypeRef.Incomplete : TypeRef → Prop
  | unset (nonNull : Bool) : Incomplete (.unset nonNull)
  | untypedList (nonNull : Bool) : Incomplete (.untypedList nonNull)
  | list (nonNull : Bool) {element : TypeRef} :
      Incomplete element → Incomplete (.list nonNull element)

/-- There is no type, or one that lacks something. -/
def Missing (type : Option TypeRef) : Prop :=
  ∀ t, type = some t → t.Incomplete

/-- One of the types is missing. -/
def Lacking (types : List (Option TypeRef)) : Prop :=
  ∃ type ∈ types, Missing type

/-- The types in a field: its own, and those of its arguments. -/
def Field.types (f : Field) : List (Option TypeRef) :=
  f.type :: f.arguments.map InputValue.type

/-- The types in the definitions of a file, in the order in which they are written. -/
def File.types (file : File) : List (Option TypeRef) :=
  (file.objects.flatMap Object.fields).flatMap Field.types ++
    file.inputs.flatMap (fun i => i.fields.map InputValue.type) ++
    (file.interfaces.flatMap Interface.fields).flatMap Field.types ++
    file.directives.flatMap fun d => d.arguments.map InputValue.type

/-- A file of which some definition lacks a type. -/
def File.Untyped (file : File) : Prop :=
  Lacking file.types

theorem lacking_cons {type : Option TypeRef} {others : List (Option TypeRef)} :
    Lacking (type :: others) ↔ Missing type ∨ Lacking others := by
  simp [Lacking]

theorem lacking_append {types others : List (Option TypeRef)} :
    Lacking (types ++ others) ↔ Lacking types ∨ Lacking others := by
  simp only [Lacking, List.mem_append, or_and_right, exists_or]

theorem lacking_map {α : Type} {type : α → Option TypeRef} {xs : List α} :
    Lacking (xs.map type) ↔ ∃ x ∈ xs, Missing (type x) := by
  simp [Lacking]

theorem lacking_flatMap {α : Type} {types : α → List (Option TypeRef)} {xs : List α} :
    Lacking (xs.flatMap types) ↔ ∃ x ∈ xs, Lacking (types x) := by
  constructor
  · rintro ⟨type, member, missing⟩
    obtain ⟨x, isMember, inTypes⟩ := List.mem_flatMap.1 member
    exact ⟨x, isMember, type, inTypes, missing⟩
  · rintro ⟨x, isMember, type, inTypes, missing⟩
    exact ⟨type, List.mem_flatMap.2 ⟨x, isMember, inTypes⟩, missing⟩

theorem not_incomplete_ofSchema (t : Schema.TypeRef) : ¬(TypeRef.ofSchema t).Incomplete := by
  induction t with
  | named nonNull type => rintro ⟨⟩
  | list nonNull element ih =>
    intro incomplete
    cases incomplete with
    | list _ inside => exact ih inside

theorem not_missing_ofSchema (t : Schema.TypeRef) : ¬Missing (some (.ofSchema t)) :=
  fun missing => not_incomplete_ofSchema t (missing _ rfl)

/-- The message of a file has all types. -/
theorem Converts.not_untyped {file : Schema.File} {wire : File} (converts : Converts file wire) :
    ¬wire.Untyped := by
  have inputs : ∀ vs : List Schema.InputValue,
      ∀ type ∈ (vs.map InputValue.ofSchema).map InputValue.type, ¬Missing type := by
    intro vs
    simp only [List.forall_mem_map]
    exact fun v _ => not_missing_ofSchema v.type
  have fields : ∀ fs : List Schema.Field,
      ∀ f ∈ fs.map Field.ofSchema, ∀ type ∈ f.types, ¬Missing type := by
    intro fs
    simp only [List.forall_mem_map]
    exact fun f _ => List.forall_mem_cons.2 ⟨not_missing_ofSchema f.type, inputs f.arguments⟩
  have objects : ∀ o ∈ wire.objects, ∀ f ∈ o.fields, ∀ type ∈ f.types, ¬Missing type := by
    intro o member
    obtain ⟨c, -, gives⟩ := Outcome.exists_of_forall₂ converts.objects.flip member
    rw [gives.fields]
    exact fields c.fields
  have interfaces : ∀ i ∈ wire.interfaces, ∀ f ∈ i.fields, ∀ type ∈ f.types,
      ¬Missing type := by
    intro i member
    obtain ⟨c, -, gives⟩ := Outcome.exists_of_forall₂ converts.interfaces.flip member
    rw [gives.fields]
    exact fields c.fields
  have all : ∀ type ∈ wire.types, ¬Missing type := by
    simp only [File.types, List.forall_mem_append, List.forall_mem_flatMap, converts.inputs,
      converts.directives, List.forall_mem_map (l := file.inputs),
      List.forall_mem_map (l := file.directives)]
    exact ⟨⟨⟨objects, fun i _ => inputs i.fields⟩, interfaces⟩, fun d _ => inputs d.arguments⟩
  rintro ⟨type, member, missing⟩
  exact all type member missing

/-- A resolved file has a message. -/
theorem exists_converts {name : String} {document : Document} {file : Schema.File}
    (success : Schema.resolve name document = .ok file) :
    ∃ wire, File.ofSchema file = .ok wire ∧ Converts file wire := by
  have spec := Schema.resolve_spec name document
  rw [success] at spec
  obtain ⟨-, names, listed, -, -, resolved⟩ := spec
  exact (placed_of_resolved resolved listed).exists_ofSchema

end Wire

namespace Echo

open Outcome

/-! ## What has no text -/

theorem typeText?_eq_none {t : Wire.TypeRef} : typeText? t = none ↔ t.Incomplete := by
  induction t with
  | unset nonNull => exact iff_of_true rfl (.unset nonNull)
  | untypedList nonNull => exact iff_of_true rfl (.untypedList nonNull)
  | named nonNull name => exact iff_of_false (by simp [typeText?]) (by rintro ⟨⟩)
  | list nonNull element ih =>
    rw [typeText?, bind_pure_eq_none, ih]
    refine ⟨.list nonNull, fun incomplete => ?_⟩
    cases incomplete with
    | list _ inside => exact inside

theorem bind_typeText?_eq_none {type : Option Wire.TypeRef} :
    (type >>= typeText?) = none ↔ Wire.Missing type := by
  cases type with
  | none => simp [Wire.Missing]
  | some t => simp [Wire.Missing, typeText?_eq_none]

theorem inputValueText?_eq_none {v : Wire.InputValue} :
    inputValueText? v = none ↔ Wire.Missing v.type := by
  rw [inputValueText?, ← bind_assoc, bind_pure_eq_none, bind_typeText?_eq_none]

theorem argumentsText?_eq_none {vs : List Wire.InputValue} :
    argumentsText? vs = none ↔ Wire.Lacking (vs.map Wire.InputValue.type) := by
  rw [argumentsText?, bind_pure_eq_none, mapM_eq_none, Wire.lacking_map]
  simp only [inputValueText?_eq_none]

theorem fieldText?_eq_none {f : Wire.Field} :
    fieldText? f = none ↔ Wire.Lacking f.types := by
  have typed : ∀ arguments : String, (f.type >>= fun t => typeText? t >>= fun type =>
      pure (descriptionText indent f.description ++ indent ++ f.name ++ arguments ++ ": " ++ type ++
        directivesText f.directives ++ "\n")) = none ↔ Wire.Missing f.type := by
    intro arguments
    rw [← bind_assoc, bind_pure_eq_none, bind_typeText?_eq_none]
  rw [fieldText?, bind_eq_none typed, argumentsText?_eq_none, or_comm, Wire.Field.types,
    Wire.lacking_cons]

/-! ## Definitions and files that have no text -/

theorem compositeText?_eq_none {keyword name description : String}
    {implements : List Wire.Interface} {directives : List Wire.Directive}
    {fields : List Wire.Field} :
    compositeText? keyword name description implements directives fields = none ↔
      Wire.Lacking (fields.flatMap Wire.Field.types) := by
  rw [compositeText?, bind_pure_eq_none, mapM_eq_none, Wire.lacking_flatMap]
  simp only [fieldText?_eq_none]

theorem inputObjectText?_eq_none {i : Wire.InputObject} :
    inputObjectText? i = none ↔
      Wire.Lacking (i.fields.map Wire.InputValue.type) := by
  have field : ∀ v, inputFieldText? v = none ↔ Wire.Missing v.type := by
    intro v
    rw [inputFieldText?, bind_pure_eq_none, inputValueText?_eq_none]
  rw [inputObjectText?, bind_pure_eq_none, mapM_eq_none, Wire.lacking_map]
  simp only [field]

theorem directiveDefinitionText?_eq_none {d : Wire.DirectiveDefinition} :
    directiveDefinitionText? d = none ↔
      Wire.Lacking (d.arguments.map Wire.InputValue.type) := by
  rw [directiveDefinitionText?, bind_pure_eq_none, argumentsText?_eq_none]

/-- A file has no text just if some definition lacks a type. -/
theorem fileText?_eq_none {file : Wire.File} : fileText? file = none ↔ file.Untyped := by
  rw [fileText?, bind_pure_eq_none, blocks?, bind_eq_none fun _ => bind_eq_none fun _ =>
    bind_eq_none fun _ => bind_pure_eq_none]
  simp only [mapM_eq_none, objectText?, interfaceText?, compositeText?_eq_none,
    inputObjectText?_eq_none, directiveDefinitionText?_eq_none, Wire.File.Untyped, Wire.File.types,
    List.flatMap_assoc, Wire.lacking_append, Wire.lacking_flatMap, or_assoc]

/-! ## Requests -/

/-- An edit that writes the text of a file, and nothing else. -/
structure Echoes (file : Wire.File) (edit : Wire.Edit) : Prop where
  named : edit.name ≠ ""
  plain : edit.insertionPoint = ""
  name : edit.name = outputName file.name
  content : fileText? file = some edit.content

theorem outputName_ne_empty (name : String) : outputName name ≠ "" := by
  intro empty
  have short := congrArg String.length empty
  simp [outputName] at short

theorem edit_eq_error {file : Wire.File} (untyped : file.Untyped) :
    edit file = .error (file.name ++ ": a field or argument has no type") := by
  rw [edit, fileText?_eq_none.2 untyped]

theorem exists_edit {file : Wire.File} (typed : ¬file.Untyped) :
    ∃ written, edit file = .ok written ∧ Echoes file written := by
  cases found : fileText? file with
  | none => exact absurd (fileText?_eq_none.1 found) typed
  | some content =>
    exact ⟨_, by rw [edit, found], outputName_ne_empty file.name, rfl, rfl, found⟩

/-- The files of a request that are to be written. -/
def listed (request : Wire.Request) : List Wire.File :=
  request.files.filter fun file => file.name ∈ request.generate

theorem generate_eq (request : Wire.Request) : generate request = (listed request).mapM edit := by
  simp only [generate, listed, List.contains_eq_mem]

/-- Where every file has its types, each is written, in the order of the request. -/
theorem exists_generate {request : Wire.Request} (typed : ∀ file ∈ listed request, ¬file.Untyped) :
    ∃ edits, generate request = .ok edits ∧ List.Forall₂ Echoes (listed request) edits := by
  rw [generate_eq]
  exact exists_mapM_of_forall fun file member => exists_edit (typed file member)

/-- The first file that lacks a type is the one that the error names. -/
theorem generate_eq_error {request : Wire.Request} {before after : List Wire.File}
    {file : Wire.File} (split : listed request = before ++ file :: after)
    (typed : ∀ earlier ∈ before, ¬earlier.Untyped) (untyped : file.Untyped) :
    generate request = .error (file.name ++ ": a field or argument has no type") := by
  rw [generate_eq, split]
  refine mapM_eq_error (fun earlier member => ?_) (edit_eq_error untyped)
  obtain ⟨written, made, -⟩ := exists_edit (typed earlier member)
  exact ⟨written, made⟩

theorem not_untyped_of_generate {request : Wire.Request} {edits : List Wire.Edit}
    (success : generate request = .ok edits) : ∀ file ∈ listed request, ¬file.Untyped := by
  intro file member untyped
  rw [generate_eq] at success
  obtain ⟨written, made⟩ := exists_mapM_eq_ok.1 ⟨edits, success⟩ file member
  rw [edit_eq_error untyped] at made
  cases made

theorem generate_eq_error_iff {request : Wire.Request} :
    (∃ e, generate request = .error e) ↔ ∃ file ∈ listed request, file.Untyped := by
  constructor
  · rintro ⟨e, failed⟩
    by_contra typed
    obtain ⟨edits, success, -⟩ := exists_generate fun file member untyped =>
      typed ⟨file, member, untyped⟩
    rw [failed] at success
    cases success
  · rintro ⟨file, member, untyped⟩
    cases outcome : generate request with
    | error e => exact ⟨e, rfl⟩
    | ok edits => exact absurd untyped (not_untyped_of_generate outcome file member)

/-- All files of such a request are to be written. -/
theorem listed_ofFiles (version : Wire.Version) (parameter : String) (files : List Wire.File) :
    listed (.ofFiles version parameter files) = files := by
  refine List.filter_eq_self.2 fun file member => decide_eq_true ?_
  exact List.mem_map_of_mem member

/-- A request with the messages of resolved files is answered with one edit for each file. -/
theorem exists_generate_ofFiles {files : List Schema.File}
    (resolved : ∀ file ∈ files, ∃ name document, Schema.resolve name document = .ok file)
    (version : Wire.Version) (parameter : String) :
    ∃ wires edits, files.mapM Wire.File.ofSchema = .ok wires ∧
      generate (.ofFiles version parameter wires) = .ok edits ∧ List.Forall₂ Echoes wires edits ∧
      edits.length = files.length := by
  have each : ∀ file ∈ files, ∃ wire, Wire.File.ofSchema file = .ok wire ∧ ¬wire.Untyped := by
    intro file member
    obtain ⟨name, document, success⟩ := resolved file member
    obtain ⟨wire, made, converts⟩ := Wire.exists_converts success
    exact ⟨wire, made, converts.not_untyped⟩
  obtain ⟨wires, made, typed⟩ := exists_mapM_of_forall each
  have all : ∀ wire ∈ listed (.ofFiles version parameter wires), ¬wire.Untyped := by
    rw [listed_ofFiles]
    intro wire member
    obtain ⟨-, -, isTyped⟩ := exists_of_forall₂ typed.flip member
    exact isTyped
  obtain ⟨edits, success, echoes⟩ := exists_generate all
  rw [listed_ofFiles] at echoes
  exact ⟨wires, edits, made, success, echoes, echoes.length_eq.symm.trans typed.length_eq.symm⟩

/-- The generator fails exactly if a file that is to be written lacks a type, and names the first
one that does. Otherwise it writes every such file once, in the order of the request. It does so for
every request that is made of resolved files. -/
theorem generate_outcome :
    (∀ request : Wire.Request,
      ((∃ e, generate request = .error e) ↔ ∃ file ∈ listed request, file.Untyped) ∧
      (∀ before file after, listed request = before ++ file :: after →
        (∀ earlier ∈ before, ¬earlier.Untyped) → file.Untyped →
        generate request = .error (file.name ++ ": a field or argument has no type")) ∧
      ((∀ file ∈ listed request, ¬file.Untyped) →
        ∃ edits, generate request = .ok edits ∧ List.Forall₂ Echoes (listed request) edits)) ∧
    ∀ (version : Wire.Version) (parameter : String) (files : List Schema.File),
      (∀ file ∈ files, ∃ name document, Schema.resolve name document = .ok file) →
      ∃ wires edits, files.mapM Wire.File.ofSchema = .ok wires ∧
        generate (.ofFiles version parameter wires) = .ok edits ∧ List.Forall₂ Echoes wires edits ∧
        edits.length = files.length := by
  refine ⟨fun request => ⟨generate_eq_error_iff, ?_, exists_generate⟩, ?_⟩
  · intro before file after split typed untyped
    exact generate_eq_error split typed untyped
  · intro version parameter files resolved
    exact exists_generate_ofFiles resolved version parameter

/-- A file that has its types. -/
def typedFile : Wire.File :=
  { name := "typed",
    objects :=
      [{ name := "Query", fields := [{ name := "a", type := some (.named false "Int") }] }] }

/-- A file with a list of nothing in an argument. -/
def hollowFile (name : String) : Wire.File :=
  { name, directives :=
      [{ name := "d", arguments := [{ name := "b", type := some (.list true (.unset false)) }] }] }

/-- A file that is not to be written may lack a type, and of the others the first that does is
named. -/
theorem generate_outcome_second :
    generate { generate := ["second", "typed", "third"],
               files := [hollowFile "first", typedFile, hollowFile "second", hollowFile "third"] } =
        .error "second: a field or argument has no type" ∧
      ∃ file wires edits, Schema.resolve "a" [.scalar { name := "Date" }] = .ok file ∧
        [file].mapM Wire.File.ofSchema = .ok wires ∧
        generate (.ofFiles .compiler "" wires) = .ok edits ∧ edits.length = 1 := by
  constructor
  · have typed : ¬typedFile.Untyped := by
      rintro ⟨type, member, missing⟩
      obtain rfl : type = some (.named false "Int") := by
        simpa [typedFile, Wire.File.types, Wire.Field.types] using member
      cases missing _ rfl
    have untyped : (hollowFile "second").Untyped := by
      refine ⟨some (.list true (.unset false)), ?_, ?_⟩
      · simp [hollowFile, Wire.File.types]
      · rintro t ⟨⟩
        exact .list true (.unset false)
    exact (generate_outcome.1 _).2.1 [typedFile] (hollowFile "second") [hollowFile "third"] rfl
      (by simpa using typed) untyped
  · have success : Schema.resolve "a" [.scalar { name := "Date" }] = .ok _ := rfl
    obtain ⟨wires, edits, made, generated, -, length⟩ := generate_outcome.2 .compiler "" [_]
      (by simpa using ⟨_, _, success⟩)
    exact ⟨_, wires, edits, success, made, generated, length⟩

end Echo

end SdlCompiler
