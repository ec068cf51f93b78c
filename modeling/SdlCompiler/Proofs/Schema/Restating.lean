import SdlCompiler.Proofs.Definition
import SdlCompiler.Proofs.Document.Written
import SdlCompiler.Proofs.Numeric.Shortest
import SdlCompiler.Proofs.Schema.Integrity

/-!
# Files stated as documents

A resolved file as a document again: references by the names of what they lead to, and numbers as
texts. A file in which every reference leads to its name is what this document resolves to, with
every definition in its old place.
-/

namespace SdlCompiler.Schema

open Document (IsName Definition)
open Outcome

/-! ## Documents of files -/

def TypeRef.toDocument : TypeRef → Document.TypeExpr
  | .named nonNull type => mark nonNull (.named type.name)
  | .list nonNull element => mark nonNull (.list element.toDocument)
where
  mark (nonNull : Bool) (type : Document.TypeExpr) : Document.TypeExpr :=
    if nonNull then .nonNull type else type

def Value.toDocument : Value → Document.Value :=
  SdlCompiler.Value.map (fun n => toString n.toInt) fun x => String.ofList x.shortest

def InputValue.toDocument : InputValue → Document.InputValue :=
  SdlCompiler.InputValue.map id TypeRef.toDocument Value.toDocument

namespace File

/-- The name of the interface at a place. -/
def interfaceName (file : File) (index : Nat) : String :=
  (file.nameAt? (.interface index)).getD ""

/-- The name of the object at a place. -/
def objectName (file : File) (index : Nat) : String :=
  (file.nameAt? (.object index)).getD ""

/-- The definition of an object or an interface of the file. -/
def compositeDocument (file : File) : Composite → Document.Composite :=
  SdlCompiler.Composite.map id file.interfaceName TypeRef.toDocument Value.toDocument

/-- The roots of the file by their names. -/
def schemaDocument (file : File) : Document.SchemaBlock :=
  { directives := file.schema.directives.map (Directive.map Value.toDocument),
    roots := [Operation.query, .mutation, .subscription].filterMap fun operation =>
      (file.schema.root? operation).map fun index => (operation, file.objectName index) }

/-- The definitions of the file, its schema block first and then kind by kind. -/
def toDocument (file : File) : Document :=
  [.schema file.schemaDocument] ++ file.objects.map (.object ∘ file.compositeDocument) ++
    file.inputs.map (.input ∘ InputObject.map id TypeRef.toDocument Value.toDocument) ++
    file.interfaces.map (.interface ∘ file.compositeDocument) ++
    file.unions.map (.union ∘ Union.map id NamedType.name Value.toDocument) ++
    file.directives.map
      (.directive ∘ DirectiveDefinition.map id TypeRef.toDocument Value.toDocument Location.name) ++
    file.scalars.map (.scalar ∘ Scalar.map id Value.toDocument) ++
    file.enums.map (.enum ∘ Enum.map id Value.toDocument)

end File

/-! ## Values and types resolved again -/

/-- A location has its name to itself. -/
theorem ofName?_name (place : SdlCompiler.Location) :
    SdlCompiler.Location.ofName? place.name = some place := by
  cases place with
  | executable place => cases place <;> decide
  | typeSystem place => cases place <;> decide

section

variable {ι ι' φ φ' ε : Type} {int : ι → Except ε ι'} {float : φ → Except ε φ'}

theorem traverse_list (items : List (SdlCompiler.Value ι φ)) :
    SdlCompiler.Value.traverse int float (.list items) =
      (do return .list (← items.mapM (SdlCompiler.Value.traverse int float))) := by
  have all : ∀ items : List (SdlCompiler.Value ι φ),
      SdlCompiler.Value.traverseItems int float items =
        items.mapM (SdlCompiler.Value.traverse int float) := by
    intro items
    induction items with
    | nil => rfl
    | cons item rest ih => rw [SdlCompiler.Value.traverseItems, ih, List.mapM_cons]
  rw [SdlCompiler.Value.traverse, all]

theorem traverse_object (fields : List (String × SdlCompiler.Value ι φ)) :
    SdlCompiler.Value.traverse int float (.object fields) =
      (do return .object (← fields.mapM fun field => do
        return (field.1, ← field.2.traverse int float))) := by
  have all : ∀ fields : List (String × SdlCompiler.Value ι φ),
      SdlCompiler.Value.traverseFields int float fields =
        fields.mapM fun field => do return (field.1, ← field.2.traverse int float) := by
    intro fields
    induction fields with
    | nil => rfl
    | cons field rest ih =>
      obtain ⟨key, v⟩ := field
      rw [SdlCompiler.Value.traverseFields, ih, List.mapM_cons]
      cases v.traverse int float <;> rfl
  rw [SdlCompiler.Value.traverse, all]

end

/-- Members of a list that are each built from how they are stated. -/
theorem mapM_restated {ε α β : Type} {build : β → Except ε α} {state : α → β} {xs : List α}
    (each : ∀ x ∈ xs, build (state x) = .ok x) : (xs.map state).mapM build = .ok xs := by
  rw [mapM_eq_ok, List.forall₂_map_left_iff, List.forall₂_same]
  exact each

/-- The number of lists around the name. -/
def TypeRef.depth : TypeRef → Nat
  | .named _ _ => 0
  | .list _ element => element.depth + 1

/-- A value without infinite numbers. -/
abbrev Value.Finite (v : Value) : Prop :=
  v.Written fun x => x.isFinite = true

namespace Names

variable {names : Names} {context parent : String}

theorem value_toDocument {v : Value} (finite : v.Finite) :
    value context v.toDocument = .ok v := by
  unfold value Value.toDocument
  induction finite with
  | int n =>
    rw [SdlCompiler.Value.map, SdlCompiler.Value.traverse,
      int_eq_ok.2 (Numeric.int64?_toString n)]
    rfl
  | @float x finite =>
    have read : Numeric.Binary64.readFinite? (String.ofList x.shortest).toList = some x := by
      rw [String.toList_ofList, Numeric.Binary64.readFinite?,
        Numeric.Binary64.read?_shortest finite, Option.filter_some, if_pos finite]
    rw [SdlCompiler.Value.map, SdlCompiler.Value.traverse, float_eq_ok.2 read]
    rfl
  | string | boolean | null | enum => rfl
  | list _ ih =>
    rw [SdlCompiler.Value.map_list, traverse_list, mapM_restated ih]
    rfl
  | object _ _ ih =>
    rw [SdlCompiler.Value.map_object, traverse_object, mapM_restated]
    · rfl
    · intro field member
      rw [ih field member]
      rfl

theorem directive_toDocument {d : Directive} (written : d.Written Value.Finite) :
    directive context (d.map Value.toDocument) = .ok d := by
  refine directive_eq_ok.2 ⟨rfl, mapM_restated fun a member => ?_⟩
  exact argument_eq_ok.2 ⟨rfl, value_toDocument (written.arguments a member).2⟩

theorem directives_toDocument {ds : List Directive} (written : ∀ d ∈ ds, d.Written Value.Finite) :
    directives context (ds.map (Directive.map Value.toDocument)) = .ok ds :=
  mapM_restated fun d member => directive_toDocument (written d member)

/-- The name of a type leads where it led before. -/
def Finds (names : Names) (r : NamedType) : Prop :=
  names.type? r.name = some r.target

theorem typeRef_toDocument {t : TypeRef} (found : names.Finds t.innermost) :
    names.typeRef context t.toDocument = .ok t := by
  induction t with
  | named nonNull type =>
    have named : names.namedType context type.name = .ok type := namedType_eq_ok.2 ⟨rfl, found⟩
    cases nonNull with
    | true =>
      show (do return TypeRef.named true (← names.namedType context type.name)) = _
      rw [named]
      rfl
    | false =>
      show (do return TypeRef.named false (← names.namedType context type.name)) = _
      rw [named]
      rfl
  | list nonNull element ih =>
    cases nonNull with
    | true =>
      show (do return TypeRef.list true (← names.typeRef context element.toDocument)) = _
      rw [ih found]
      rfl
    | false =>
      show (do return TypeRef.list false (← names.typeRef context element.toDocument)) = _
      rw [ih found]
      rfl

/-! ## Definitions resolved again -/

section

variable {T : TypeRef → Prop} (found : ∀ t, T t → names.Finds t.innermost)

include found

theorem inputValue_toDocument {v : InputValue} (written : v.Written T Value.Finite) :
    names.inputValue parent v.toDocument = .ok v := by
  refine inputValue_eq_ok.2 ⟨rfl, rfl, typeRef_toDocument (found _ written.type), ?_,
    directives_toDocument written.directives⟩
  show (v.default.map Value.toDocument).mapM _ = _
  cases default : v.default with
  | none => rfl
  | some x =>
    rw [Option.map_some, Option.mapM_some, value_toDocument (written.default x default)]
    rfl

theorem inputValues_toDocument {vs : List InputValue}
    (written : ∀ v ∈ vs, v.Written T Value.Finite) :
    (vs.map InputValue.toDocument).mapM (names.inputValue parent) = .ok vs :=
  mapM_restated fun v member => inputValue_toDocument found (written v member)

theorem field_toDocument {f : Field} (written : f.Written T Value.Finite) :
    names.field parent (f.map id TypeRef.toDocument Value.toDocument) = .ok f :=
  field_eq_ok.2 ⟨rfl, rfl, directives_toDocument written.directives,
    typeRef_toDocument (found _ written.type), inputValues_toDocument found written.arguments⟩

theorem composite_toDocument {file : File} {R : Nat → Prop} {c : Composite}
    (interfaces : ∀ index, R index →
      names.type? (file.interfaceName index) = some (.interface index))
    (written : c.Written R T Value.Finite) :
    names.composite (file.compositeDocument c) = .ok c := by
  refine composite_eq_ok.2 ⟨rfl, rfl, directives_toDocument written.directives,
    mapM_restated fun index member => ?_, mapM_restated fun f member => ?_⟩
  · exact interfaceIndex_eq_ok.2 (interfaces index (written.implements index member))
  · exact field_toDocument found (written.fields f member)

theorem input_toDocument {i : InputObject} (written : i.Written T Value.Finite) :
    names.input (i.map id TypeRef.toDocument Value.toDocument) = .ok i :=
  input_eq_ok.2 ⟨rfl, rfl, directives_toDocument written.directives,
    inputValues_toDocument found written.fields⟩

theorem directiveDefinition_toDocument {L : Location → Prop} {d : DirectiveDefinition}
    (written : d.Written T Value.Finite L) :
    names.directiveDefinition
      (d.map id TypeRef.toDocument Value.toDocument Location.name) = .ok d := by
  refine directiveDefinition_eq_ok.2 ⟨rfl, rfl, rfl, mapM_restated fun place _ => ?_,
    inputValues_toDocument found written.arguments⟩
  exact location_eq_ok.2 (ofName?_name place)

end

theorem union_toDocument {u : Union} (written : u.Written names.Finds Value.Finite) :
    names.union (u.map id NamedType.name Value.toDocument) = .ok u := by
  refine union_eq_ok.2 ⟨rfl, rfl, mapM_restated fun r member => ?_,
    directives_toDocument written.directives⟩
  exact namedType_eq_ok.2 ⟨rfl, written.members r member⟩

theorem enum_toDocument {e : Enum} (written : e.Written Value.Finite) :
    enum (e.map id Value.toDocument) = .ok e := by
  refine enum_eq_ok.2 ⟨rfl, rfl, mapM_restated fun v member => ?_,
    directives_toDocument written.directives⟩
  exact enumValue_eq_ok.2 ⟨rfl, rfl, directives_toDocument (written.values v member).directives⟩

theorem scalar_toDocument {s : Scalar} (written : s.Written Value.Finite) :
    scalar (s.map id Value.toDocument) = .ok s :=
  scalar_eq_ok.2 ⟨rfl, rfl, directives_toDocument written.directives⟩

/-- Roots are found again by the names of their objects. -/
theorem roots_toDocument {file : File}
    (directed : ∀ d ∈ file.schema.directives, d.Written Value.Finite)
    (objects : ∀ operation index, file.schema.root? operation = some index →
      names.type? (file.objectName index) = some (.object index)) :
    names.roots file.schemaDocument = .ok file.schema := by
  have set : ∀ operation index, file.schema.root? operation = some index →
      names.rootIndex (file.objectName index) = .ok index :=
    fun operation index isRoot => rootIndex_eq_ok.2 (objects operation index isRoot)
  rw [roots, File.schemaDocument, directives_toDocument directed]
  generalize file.objectName = objectName at set
  generalize file.schema = schema at set
  obtain ⟨ds, query, mutation, subscription⟩ := schema
  have first := set .query
  have second := set .mutation
  have third := set .subscription
  simp only [Roots.root?] at first second third
  cases query <;> cases mutation <;> cases subscription <;>
    simp_all [Roots.root?, withRoot, bind, Except.bind, pure, Except.pure]

end Names

/-! ## Files resolved again -/

namespace File

variable {file : File}

theorem toDocument_schemaBlocks : file.toDocument.schemaBlocks = [file.schemaDocument] := by
  simp [Document.schemaBlocks, toDocument, Function.comp_def, Definition.schemaBlock?]

theorem toDocument_objects :
    file.toDocument.objects = file.objects.map file.compositeDocument := by
  simp [Document.objects, toDocument, List.filterMap_cons, Function.comp_def, Definition.object?]

theorem toDocument_interfaces :
    file.toDocument.interfaces = file.interfaces.map file.compositeDocument := by
  simp [Document.interfaces, toDocument, List.filterMap_cons, Function.comp_def,
    Definition.interface?]

theorem toDocument_unions :
    file.toDocument.unions = file.unions.map (Union.map id NamedType.name Value.toDocument) := by
  simp [Document.unions, toDocument, List.filterMap_cons, Function.comp_def, Definition.union?]

theorem toDocument_enums :
    file.toDocument.enums = file.enums.map (Enum.map id Value.toDocument) := by
  simp [Document.enums, toDocument, List.filterMap_cons, Function.comp_def, Definition.enum?]

theorem toDocument_scalars :
    file.toDocument.scalars = file.scalars.map (Scalar.map id Value.toDocument) := by
  simp [Document.scalars, toDocument, List.filterMap_cons, Function.comp_def, Definition.scalar?]

theorem toDocument_inputs :
    file.toDocument.inputs =
      file.inputs.map (InputObject.map id TypeRef.toDocument Value.toDocument) := by
  simp [Document.inputs, toDocument, List.filterMap_cons, Function.comp_def, Definition.input?]

theorem toDocument_directives :
    file.toDocument.directives = file.directives.map
      (DirectiveDefinition.map id TypeRef.toDocument Value.toDocument Location.name) := by
  simp [Document.directives, toDocument, List.filterMap_cons, Function.comp_def,
    Definition.directive?]

/-- A name at a place is the same after a change that keeps names. -/
theorem getElem?_map_name {α β : Type} (xs : List α) (index : Nat) {f : α → β} {g : β → String}
    {h : α → String} (keeps : ∀ x, g (f x) = h x) :
    (xs.map f)[index]?.map g = xs[index]?.map h := by
  rw [List.getElem?_map, Option.map_map]
  exact congrArg (Option.map · xs[index]?) (funext keeps)

/-- The definitions of the document have the places of those of the file. -/
theorem nameIn?_toDocument {target : Target} {n : String} (named : file.nameAt? target = some n)
    (defined : ∀ scalar, target ≠ .builtin scalar) :
    (Entry.type target).nameIn? file.toDocument = some n := by
  rw [← named]
  cases target with
  | builtin scalar => exact absurd rfl (defined scalar)
  | object index =>
    rw [Entry.nameIn?, toDocument_objects]
    exact getElem?_map_name _ _ fun _ => rfl
  | interface index =>
    rw [Entry.nameIn?, toDocument_interfaces]
    exact getElem?_map_name _ _ fun _ => rfl
  | union index =>
    rw [Entry.nameIn?, toDocument_unions]
    exact getElem?_map_name _ _ fun _ => rfl
  | enum index =>
    rw [Entry.nameIn?, toDocument_enums]
    exact getElem?_map_name _ _ fun _ => rfl
  | scalar index =>
    rw [Entry.nameIn?, toDocument_scalars]
    exact getElem?_map_name _ _ fun _ => rfl
  | input index =>
    rw [Entry.nameIn?, toDocument_inputs]
    exact getElem?_map_name _ _ fun _ => rfl

theorem toDocument_names : file.toDocument.names.Perm file.names := by
  refine (names_perm file.toDocument).trans (.of_eq ?_)
  rw [toDocument_objects, toDocument_interfaces, toDocument_unions, toDocument_enums,
    toDocument_scalars, toDocument_inputs, toDocument_directives, File.names]
  simp only [List.map_map]
  rfl

/-- A reference leads to a definition of the name written in it, or to a built-in scalar whose
name no definition has. -/
structure Refers (file : File) (r : NamedType) : Prop where
  isName : IsName r.name
  named : file.nameAt? r.target = some r.name
  builtin : ∀ scalar, r.target = .builtin scalar → r.name ∉ file.names

/-- A type that can be written, with a reference that leads to its name. -/
structure Knows (file : File) (t : TypeRef) : Prop where
  depth : t.depth ≤ 15
  refers : file.Refers t.innermost

/-- A file in which names are given once, references lead where they should, and everything can
be written. -/
structure Sound (file : File) : Prop where
  distinct : file.names.Nodup
  applied : ∀ d ∈ file.schema.directives, d.Written Value.Finite
  roots : ∀ operation index, file.schema.root? operation = some index →
    index < file.objects.length
  objects : ∀ c ∈ file.objects, c.Written (· < file.interfaces.length) file.Knows Value.Finite
  interfaces : ∀ c ∈ file.interfaces,
    c.Written (· < file.interfaces.length) file.Knows Value.Finite
  unions : ∀ u ∈ file.unions, u.Written file.Refers Value.Finite
  enums : ∀ e ∈ file.enums, e.Written Value.Finite
  scalars : ∀ s ∈ file.scalars, s.Written Value.Finite
  inputs : ∀ i ∈ file.inputs, i.Written file.Knows Value.Finite
  directives : ∀ d ∈ file.directives, d.Written file.Knows Value.Finite fun _ => True

namespace Sound

variable {names : Names}

theorem registrable (sound : file.Sound) : Registrable file.toDocument where
  supported kind n member := by
    simp [toDocument] at member
  oneSchema := by
    rw [toDocument_schemaBlocks]
    exact Nat.le_refl 1
  distinct := toDocument_names.nodup_iff.2 sound.distinct

theorem finds (listed : names.Lists file.toDocument) {r : NamedType} (refers : file.Refers r) :
    names.Finds r := by
  refine listed.type?_eq_some.2 ?_
  by_cases isBuiltin : ∃ scalar, r.target = .builtin scalar
  · obtain ⟨scalar, isScalar⟩ := isBuiltin
    have named := refers.named
    rw [isScalar] at named
    refine .inr ⟨scalar, isScalar, Option.some.inj named, ?_⟩
    rw [toDocument_names.mem_iff]
    exact refers.builtin scalar isScalar
  · exact .inl (nameIn?_toDocument refers.named fun scalar is => isBuiltin ⟨scalar, is⟩)

theorem finds_interface (listed : names.Lists file.toDocument) {index : Nat}
    (inside : index < file.interfaces.length) :
    names.type? (file.interfaceName index) = some (.interface index) := by
  have named : file.nameAt? (.interface index) = some (file.interfaceName index) := by
    simp [interfaceName, nameAt?, List.getElem?_eq_getElem inside]
  exact listed.type?_eq_some.2 (.inl (nameIn?_toDocument named (by simp)))

theorem finds_object (listed : names.Lists file.toDocument) {index : Nat}
    (inside : index < file.objects.length) :
    names.type? (file.objectName index) = some (.object index) := by
  have named : file.nameAt? (.object index) = some (file.objectName index) := by
    simp [objectName, nameAt?, List.getElem?_eq_getElem inside]
  exact listed.type?_eq_some.2 (.inl (nameIn?_toDocument named (by simp)))

end Sound

/-- Every definition of the file is built from how the document states it. -/
structure Restated (file : File) (names : Names) : Prop where
  schema : names.roots file.schemaDocument = .ok file.schema
  objects : ∀ c ∈ file.objects, names.composite (file.compositeDocument c) = .ok c
  interfaces : ∀ c ∈ file.interfaces, names.composite (file.compositeDocument c) = .ok c
  unions : ∀ u ∈ file.unions,
    names.union (u.map id NamedType.name Value.toDocument) = .ok u
  enums : ∀ e ∈ file.enums, Names.enum (e.map id Value.toDocument) = .ok e
  scalars : ∀ s ∈ file.scalars, Names.scalar (s.map id Value.toDocument) = .ok s
  inputs : ∀ i ∈ file.inputs,
    names.input (i.map id TypeRef.toDocument Value.toDocument) = .ok i
  directives : ∀ d ∈ file.directives, names.directiveDefinition
    (d.map id TypeRef.toDocument Value.toDocument Location.name) = .ok d

theorem Sound.restated {names : Names} (sound : file.Sound)
    (listed : names.Lists file.toDocument) : file.Restated names := by
  have found : ∀ t, file.Knows t → names.Finds t.innermost := fun t knows =>
    finds listed knows.refers
  have implemented := fun index => @finds_interface _ _ listed index
  constructor
  case schema =>
    exact Names.roots_toDocument sound.applied fun operation index isRoot =>
      finds_object listed (sound.roots operation index isRoot)
  case objects =>
    exact fun c member => Names.composite_toDocument found implemented (sound.objects c member)
  case interfaces =>
    exact fun c member => Names.composite_toDocument found implemented (sound.interfaces c member)
  case unions =>
    intro u member
    obtain ⟨isName, applied, members⟩ := sound.unions u member
    exact Names.union_toDocument
      ⟨isName, applied, fun r present => finds listed (members r present)⟩
  case enums => exact fun e member => Names.enum_toDocument (sound.enums e member)
  case scalars => exact fun s member => Names.scalar_toDocument (sound.scalars s member)
  case inputs => exact fun i member => Names.input_toDocument found (sound.inputs i member)
  case directives =>
    exact fun d member => Names.directiveDefinition_toDocument found (sound.directives d member)

theorem Restated.builds {names : Names} (restated : file.Restated names) :
    ∀ d ∈ file.toDocument, names.Builds d := by
  simp only [toDocument, List.forall_mem_append, List.forall_mem_map, Function.comp_apply,
    List.forall_mem_singleton]
  refine ⟨⟨⟨⟨⟨⟨⟨⟨_, restated.schema⟩, ?_⟩, ?_⟩, ?_⟩, ?_⟩, ?_⟩, ?_⟩, ?_⟩
  · exact fun c member => ⟨c, restated.objects c member⟩
  · exact fun i member => ⟨i, restated.inputs i member⟩
  · exact fun c member => ⟨c, restated.interfaces c member⟩
  · exact fun u member => ⟨u, restated.unions u member⟩
  · exact fun d member => ⟨d, restated.directives d member⟩
  · exact fun s member => ⟨s, restated.scalars s member⟩
  · exact fun e member => ⟨e, restated.enums e member⟩

/-- Building is a function, so definitions that are built from how they are stated are those. -/
theorem eq_of_built {ε δ σ : Type} {build : δ → Except ε σ} {state : σ → δ} {xs slots : List σ}
    (each : ∀ x ∈ xs, build (state x) = .ok x) (built : Built build (xs.map state) slots) :
    slots = xs := by
  have success := mapM_eq_ok.2 built
  rw [mapM_restated each] at success
  exact (Except.ok.inj success).symm

theorem Restated.eq {names : Names} {name : String} {resolved : File}
    (restated : file.Restated names) (sameName : file.name = name)
    (spec : Resolved names name file.toDocument resolved) : resolved = file := by
  have schema := spec.schema
  rw [toDocument_schemaBlocks, List.getLast?_singleton, Option.elim_some, restated.schema] at schema
  obtain ⟨objects, built, added⟩ := spec.objects
  have none : addedObjects file.toDocument = [] := by
    simp [addedObjects, toDocument_schemaBlocks]
  rw [none, List.append_nil] at added
  rw [← added, toDocument_objects] at built
  have interfaces := toDocument_interfaces ▸ spec.interfaces
  have unions := toDocument_unions ▸ spec.unions
  have enums := toDocument_enums ▸ spec.enums
  have scalars := toDocument_scalars ▸ spec.scalars
  have inputs := toDocument_inputs ▸ spec.inputs
  have directives := toDocument_directives ▸ spec.directives
  have sameObjects := eq_of_built restated.objects built
  have sameInterfaces := eq_of_built restated.interfaces interfaces
  have sameUnions := eq_of_built restated.unions unions
  have sameEnums := eq_of_built restated.enums enums
  have sameScalars := eq_of_built restated.scalars scalars
  have sameInputs := eq_of_built restated.inputs inputs
  have sameDirectives := eq_of_built restated.directives directives
  have resolvedName := spec.name
  -- With every part known to be that of the file, the two records are compared field by field.
  cases resolved
  cases file
  simp_all

/-- A sound file is what the document that states it resolves to. -/
theorem Sound.resolve_toDocument (sound : file.Sound) :
    resolve file.name file.toDocument = .ok file := by
  -- Resolution fails only if some definition cannot be built, and gives what they are built to.
  have spec := resolve_spec file.name file.toDocument
  cases outcome : resolve file.name file.toDocument with
  | error abort =>
    rw [outcome] at spec
    refine absurd ⟨sound.registrable, fun names listed => ?_⟩ spec
    refine ⟨(sound.restated listed).builds, fun absent => ?_⟩
    rw [toDocument_schemaBlocks] at absent
    cases absent
  | ok resolved =>
    rw [outcome] at spec
    obtain ⟨-, names, listed, -, -, spec⟩ := spec
    rw [(sound.restated listed).eq rfl spec]

end File

end SdlCompiler.Schema
