import Mathlib.Data.List.Count
import SdlCompiler.Proofs.Schema.Building
import SdlCompiler.Proofs.Schema.Resolution

/-!
# References of a resolved file

Names are given once in a file, and a reference leads to the definition that has the name
written in it. A built-in scalar is meant only where no definition has its name.

The places come from the first pass and the references from the second, so the argument has two
halves: a name is looked up at the place of its definition (`Names.Lists.type?_eq_some`), and a
resolved file has the definitions of its document at their places (`Resolved.nameAt?`).
-/

namespace SdlCompiler.Schema

open Document (Definition)
open Outcome

variable {names : Names} {name : String} {document : Document} {file : File}

/-! ## Names looked up -/

theorem Builtin.ofName?_eq_some {n : String} {scalar : Builtin} :
    Builtin.ofName? n = some scalar ↔ scalar.name = n := by
  constructor
  · intro found
    simpa using List.find?_some found
  · rintro rfl
    cases scalar <;> decide

theorem Names.Lists.type?_eq_some (listed : names.Lists document) {n : String} {target : Target} :
    names.type? n = some target ↔
      (Entry.type target).nameIn? document = some n ∨
        ∃ scalar, target = .builtin scalar ∧ scalar.name = n ∧ n ∉ document.names := by
  rw [← listed.find?, ← listed.find?_eq_none, Names.type?]
  cases names.find? n with
  | none =>
    simp only [Option.map_eq_some_iff, Builtin.ofName?_eq_some, reduceCtorEq, false_or, and_true]
    exact exists_congr fun scalar => ⟨fun ⟨same, is⟩ => ⟨is.symm, same⟩, fun ⟨is, same⟩ =>
      ⟨same, is.symm⟩⟩
  | some entry => cases entry <;> simp

/-- A target other than a built-in scalar is the place of a definition. -/
theorem Names.Lists.nameIn?_of_type? (listed : names.Lists document) {n : String}
    {target : Target} (found : names.type? n = some target)
    (defined : ∀ scalar, target ≠ .builtin scalar) :
    (Entry.type target).nameIn? document = some n := by
  rcases listed.type?_eq_some.mp found with placed | ⟨scalar, isBuiltin, -⟩
  · exact placed
  · exact absurd isBuiltin (defined scalar)

/-! ## Names of a resolved file -/

theorem Built.map_eq {ε δ σ α : Type} {build : δ → Except ε σ} {ds : List δ} {slots : List σ}
    {f : δ → α} {g : σ → α} (built : Built build ds slots)
    (keeps : ∀ d slot, build d = .ok slot → g slot = f d) : slots.map g = ds.map f := by
  induction built with
  | nil => rfl
  | cons head _ ih => simp [keeps _ _ head, ih]

theorem Built.getElem?_map_eq {ε δ σ α : Type} {build : δ → Except ε σ} {ds : List δ}
    {slots : List σ} {f : δ → α} {g : σ → α} (built : Built build ds slots)
    (keeps : ∀ d slot, build d = .ok slot → g slot = f d) (index : Nat) :
    slots[index]?.map g = ds[index]?.map f := by
  rw [← List.getElem?_map, ← List.getElem?_map, built.map_eq keeps]

/-- The names of a document, kind by kind. -/
theorem names_perm (document : Document) :
    document.names.Perm
      (document.objects.map Composite.name ++ document.interfaces.map Composite.name ++
        document.unions.map Union.name ++ document.enums.map Enum.name ++
        document.scalars.map Scalar.name ++ document.inputs.map InputObject.name ++
        document.directives.map DirectiveDefinition.name) := by
  rw [List.perm_iff_count]
  intro n
  induction document with
  | nil => rfl
  | cons definition rest ih =>
    simp only [Document.names, Document.objects, Document.interfaces, Document.unions,
      Document.enums, Document.scalars, Document.inputs, Document.directives,
      List.count_append] at ih ⊢
    cases definition <;>
      simp only [List.filterMap_cons, Definition.name?, Definition.typeName?,
        Definition.object?, Definition.interface?, Definition.union?, Definition.enum?,
        Definition.scalar?, Definition.input?, Definition.directive?, List.map_cons,
        List.count_cons, ih] <;>
      omega

theorem Resolved.names_eq (resolved : Resolved names name document file) :
    file.names =
      document.objects.map Composite.name ++ (addedObjects document).map Composite.name ++
        document.interfaces.map Composite.name ++ document.unions.map Union.name ++
        document.enums.map Enum.name ++ document.scalars.map Scalar.name ++
        document.inputs.map InputObject.name ++
        document.directives.map DirectiveDefinition.name := by
  obtain ⟨objects, built, equal⟩ := resolved.objects
  rw [File.names, equal, List.map_append,
    built.map_eq fun _ _ h => (Names.composite_eq_ok.mp h).1,
    resolved.interfaces.map_eq fun _ _ h => (Names.composite_eq_ok.mp h).1,
    resolved.unions.map_eq fun _ _ h => (Names.union_eq_ok.mp h).1,
    resolved.enums.map_eq fun _ _ h => (Names.enum_eq_ok.mp h).1,
    resolved.scalars.map_eq fun _ _ h => (Names.scalar_eq_ok.mp h).1,
    resolved.inputs.map_eq fun _ _ h => (Names.input_eq_ok.mp h).1,
    resolved.directives.map_eq fun _ _ h => (Names.directiveDefinition_eq_ok.mp h).1]

/-- A resolved file has the names of its document and that of the added object. -/
theorem Resolved.names_perm (resolved : Resolved names name document file) :
    file.names.Perm (document.names ++ (addedObjects document).map Composite.name) := by
  have byKind := Schema.names_perm document
  rw [List.perm_iff_count] at byKind ⊢
  intro n
  have counted := byKind n
  rw [resolved.names_eq]
  simp only [List.count_append] at counted ⊢
  omega

theorem Resolved.names_nodup (resolved : Resolved names name document file)
    (registrable : Registrable document) : file.names.Nodup := by
  rw [resolved.names_perm.nodup_iff, addedObjects]
  split
  · next missing =>
    simpa [List.nodup_append, registrable.distinct] using fun n member (equal : n = "Query") =>
      missing.2 (equal ▸ member)
  · simpa using registrable.distinct

/-- The added object has the name of no built-in scalar. -/
theorem Resolved.builtin_not_mem (resolved : Resolved names name document file) {scalar : Builtin}
    (undefined : scalar.name ∉ document.names) : scalar.name ∉ file.names := by
  rw [resolved.names_perm.mem_iff, List.mem_append, not_or]
  refine ⟨undefined, ?_⟩
  rw [addedObjects]
  split <;> cases scalar <;> decide

/-- The definition at the place of a name has that name. -/
theorem Resolved.nameAt? (resolved : Resolved names name document file) {target : Target}
    {n : String} (placed : (Entry.type target).nameIn? document = some n) :
    file.nameAt? target = some n := by
  cases target with
  | builtin scalar => cases placed
  | object index =>
    obtain ⟨objects, built, equal⟩ := resolved.objects
    have same := built.getElem?_map_eq (fun _ _ h => (Names.composite_eq_ok.mp h).1) index
    obtain ⟨slot, found, rfl⟩ := Option.map_eq_some_iff.mp (same.trans placed)
    have inside := (List.getElem?_eq_some_iff.mp found).1
    rw [File.nameAt?, equal, List.getElem?_append_left inside, found]
    rfl
  | interface index =>
    exact (resolved.interfaces.getElem?_map_eq
      (fun _ _ h => (Names.composite_eq_ok.mp h).1) index).trans placed
  | union index =>
    exact (resolved.unions.getElem?_map_eq
      (fun _ _ h => (Names.union_eq_ok.mp h).1) index).trans placed
  | enum index =>
    exact (resolved.enums.getElem?_map_eq
      (fun _ _ h => (Names.enum_eq_ok.mp h).1) index).trans placed
  | scalar index =>
    exact (resolved.scalars.getElem?_map_eq
      (fun _ _ h => (Names.scalar_eq_ok.mp h).1) index).trans placed
  | input index =>
    exact (resolved.inputs.getElem?_map_eq
      (fun _ _ h => (Names.input_eq_ok.mp h).1) index).trans placed

/-! ## References of a resolved file -/

theorem Names.type?_of_typeRef {context : String} {type : Document.TypeExpr} {t : TypeRef}
    (built : names.typeRef context type = .ok t) :
    names.type? t.innermost.name = some t.innermost.target := by
  fun_induction Names.typeRef names context type generalizing t with
  | case1 n | case3 n =>
    simp only [bind_eq_ok, pure_eq_ok, Names.namedType_eq_ok] at built
    obtain ⟨named, ⟨rfl, found⟩, rfl⟩ := built
    exact found
  | case2 element ih | case4 element ih =>
    simp only [bind_eq_ok, pure_eq_ok] at built
    obtain ⟨inner, success, rfl⟩ := built
    have found := ih success
    exact found
  | case5 => cases built

theorem Names.type?_of_inputValues {parent : String} {values : List Document.InputValue}
    {built : List InputValue} (success : values.mapM (names.inputValue parent) = .ok built)
    {r : NamedType} (member : r ∈ built.map fun v => v.type.innermost) :
    names.type? r.name = some r.target := by
  obtain ⟨w, present, rfl⟩ := List.mem_map.mp member
  obtain ⟨v, -, valueBuilt⟩ := exists_of_forall₂ (mapM_eq_ok.mp success).flip present
  exact type?_of_typeRef (inputValue_eq_ok.mp valueBuilt).2.2.1

theorem Names.type?_of_composite {d : Document.Composite} {c : Composite}
    (built : names.composite d = .ok c) {r : NamedType}
    (member : r ∈ c.fields.flatMap Field.references) : names.type? r.name = some r.target := by
  obtain ⟨g, present, inField⟩ := List.mem_flatMap.mp member
  obtain ⟨-, -, -, -, fieldsBuilt⟩ := composite_eq_ok.mp built
  obtain ⟨f, -, fieldBuilt⟩ := exists_of_forall₂ (mapM_eq_ok.mp fieldsBuilt).flip present
  obtain ⟨-, -, -, typed, argumentsBuilt⟩ := field_eq_ok.mp fieldBuilt
  simp only [Field.references, Field.types, List.map_cons, List.map_map, List.mem_cons] at inField
  rcases inField with rfl | inArguments
  · exact type?_of_typeRef typed
  · exact type?_of_inputValues argumentsBuilt inArguments

/-- Every reference of a resolved file was looked up among the names of its document. -/
theorem Resolved.type?_of_reference (resolved : Resolved names name document file)
    {r : NamedType} (member : r ∈ file.references) : names.type? r.name = some r.target := by
  simp only [File.references, List.mem_append] at member
  rcases member with ((inComposites | inUnions) | inInputs) | inDirectives
  · obtain ⟨c, present, inFields⟩ := List.mem_flatMap.mp inComposites
    rcases List.mem_append.mp present with isObject | isInterface
    · obtain ⟨objects, built, equal⟩ := resolved.objects
      rw [equal, List.mem_append] at isObject
      rcases isObject with isBuilt | isAdded
      · obtain ⟨d, -, success⟩ := exists_of_forall₂ built.flip isBuilt
        exact Names.type?_of_composite success inFields
      · -- The added object has no fields.
        rw [addedObjects] at isAdded
        split at isAdded
        · rw [List.mem_singleton.mp isAdded] at inFields
          cases inFields
        · cases isAdded
    · obtain ⟨d, -, success⟩ := exists_of_forall₂ resolved.interfaces.flip isInterface
      exact Names.type?_of_composite success inFields
  · obtain ⟨u, present, inMembers⟩ := List.mem_flatMap.mp inUnions
    obtain ⟨d, -, success⟩ := exists_of_forall₂ resolved.unions.flip present
    obtain ⟨-, -, membersBuilt, -⟩ := Names.union_eq_ok.mp success
    obtain ⟨n, -, memberBuilt⟩ := exists_of_forall₂ (mapM_eq_ok.mp membersBuilt).flip inMembers
    obtain ⟨rfl, found⟩ := Names.namedType_eq_ok.mp memberBuilt
    exact found
  · obtain ⟨i, present, inFields⟩ := List.mem_flatMap.mp inInputs
    obtain ⟨d, -, success⟩ := exists_of_forall₂ resolved.inputs.flip present
    exact Names.type?_of_inputValues (Names.input_eq_ok.mp success).2.2.2 inFields
  · obtain ⟨e, present, inArguments⟩ := List.mem_flatMap.mp inDirectives
    obtain ⟨d, -, success⟩ := exists_of_forall₂ resolved.directives.flip present
    exact Names.type?_of_inputValues (Names.directiveDefinition_eq_ok.mp success).2.2.2.2
      inArguments

/-- The interfaces of a composite, by their names. -/
theorem Resolved.implements_names (resolved : Resolved names name document file)
    (listed : names.Lists document) {d : Document.Composite} {c : Composite}
    (built : names.composite d = .ok c) :
    c.implements.map (fun index => file.nameAt? (.interface index)) = d.implements.map some := by
  obtain ⟨-, -, -, implemented, -⟩ := Names.composite_eq_ok.mp built
  refine Built.map_eq (mapM_eq_ok.mp implemented) fun n index found => ?_
  exact resolved.nameAt?
    (listed.nameIn?_of_type? (Names.interfaceIndex_eq_ok.mp found) (by simp))

theorem Resolved.nameAt?_added (resolved : Resolved names name document file)
    (absent : document.schemaBlocks = []) (undefined : "Query" ∉ document.names) :
    file.nameAt? (.object document.objects.length) = some "Query" := by
  obtain ⟨objects, built, equal⟩ := resolved.objects
  simp [File.nameAt?, equal, built.length_eq, addedObjects, absent, undefined]

/-- The roots of a resolved file, by their names. -/
theorem Resolved.root_name (resolved : Resolved names name document file)
    (listed : names.Lists document) {operation : Operation} {index : Nat}
    (isRoot : file.schema.root? operation = some index) :
    ∃ n, document.rootName? operation = some n ∧ file.nameAt? (.object index) = some n := by
  have schema := resolved.schema
  rw [Document.rootName?.eq_def]
  cases last : document.schemaBlocks.getLast? with
  | some block =>
    rw [last] at schema
    obtain ⟨n, entry, looked⟩ := Names.lastRoot?_of_root? schema isRoot
    exact ⟨n, entry, resolved.nameAt? (listed.nameIn?_of_type? looked (by simp))⟩
  | none =>
    rw [last, Option.elim_none] at schema
    have absent : document.schemaBlocks = [] := List.getLast?_eq_none_iff.mp last
    -- A root that was found by its name has that name.
    have named : ∀ n, names.implicitRoot? n = .ok (some index) →
        file.nameAt? (.object index) = some n := fun n found =>
      resolved.nameAt? ((listed.find? _ _).mp (Names.implicitRoot?_eq_some.mp found))
    cases operation with
    | query =>
      obtain ⟨found, looked, set⟩ := schema.query
      refine ⟨"Query", rfl, ?_⟩
      rw [Roots.root?, set] at isRoot
      cases found with
      | some place =>
        cases isRoot
        exact named "Query" looked
      | none =>
        cases isRoot
        exact resolved.nameAt?_added absent
          (listed.find?_eq_none.mp (Names.implicitRoot?_eq_none.mp looked))
    | mutation => exact ⟨"Mutation", rfl, named _ (isRoot ▸ schema.mutation)⟩
    | subscription => exact ⟨"Subscription", rfl, named _ (isRoot ▸ schema.subscription)⟩

/-! ## Integrity -/

/-- A file in which every reference leads where the document says. -/
structure Intact (document : Document) (file : File) : Prop where
  /-- No two definitions, of whatever kind, have the same name. -/
  distinct : file.names.Nodup
  /-- A reference to a type leads to a place in the file, and the definition there has the name
  that is written in the reference. -/
  named : ∀ r ∈ file.references, file.nameAt? r.target = some r.name
  /-- A reference is to a built-in scalar only if nothing in the file has that name. -/
  builtin : ∀ r ∈ file.references, ∀ scalar, r.target = .builtin scalar →
    r.name = scalar.name ∧ r.name ∉ file.names
  /-- References to the same name lead to the same place. -/
  shared : ∀ r ∈ file.references, ∀ s ∈ file.references, r.name = s.name → r.target = s.target
  /-- The interfaces of an object are those named in the document, and the added object has
  none. -/
  objectInterfaces : ∀ (index : Nat) (object : Composite), file.objects[index]? = some object →
    object.implements.map (fun place => file.nameAt? (.interface place)) =
      ((document.objects[index]?.map Composite.implements).getD []).map some
  /-- The interfaces of an interface are those named in the document. -/
  interfaceInterfaces : ∀ (index : Nat) (interface : Composite),
    file.interfaces[index]? = some interface →
    interface.implements.map (fun place => file.nameAt? (.interface place)) =
      ((document.interfaces[index]?.map Composite.implements).getD []).map some
  /-- The root of an operation is the object that the document names. -/
  roots : ∀ operation index, file.schema.root? operation = some index →
    ∃ n, document.rootName? operation = some n ∧ file.nameAt? (.object index) = some n

theorem Resolved.object_interfaces (resolved : Resolved names name document file)
    (listed : names.Lists document) {index : Nat} {object : Composite}
    (found : file.objects[index]? = some object) :
    object.implements.map (fun place => file.nameAt? (.interface place)) =
      ((document.objects[index]?.map Composite.implements).getD []).map some := by
  obtain ⟨objects, built, equal⟩ := resolved.objects
  rw [equal] at found
  by_cases inside : index < objects.length
  · rw [List.getElem?_append_left inside] at found
    obtain ⟨d, isDefined, success⟩ := exists_getElem?_of_forall₂ built.flip found
    rw [isDefined]
    exact resolved.implements_names listed success
  · -- Beyond the objects of the document there is at most the added one.
    have beyond : objects.length ≤ index := Nat.le_of_not_lt inside
    rw [List.getElem?_append_right beyond] at found
    have isAdded := List.mem_of_getElem? found
    have undefined : document.objects[index]? = none := by
      rw [List.getElem?_eq_none_iff, built.length_eq]
      exact beyond
    rw [undefined]
    rw [addedObjects] at isAdded
    split at isAdded
    · rw [List.mem_singleton.mp isAdded]
      rfl
    · cases isAdded

/-- A document resolves only to a file in which every reference leads where it should. -/
theorem resolve_intact (resolved : resolve name document = .ok file) : Intact document file := by
  have spec := resolve_spec name document
  rw [resolved] at spec
  obtain ⟨registrable, names, listed, -, -, resolved⟩ := spec
  constructor
  case distinct => exact resolved.names_nodup registrable
  case named =>
    intro r member
    rcases listed.type?_eq_some.mp (resolved.type?_of_reference member) with placed | isBuiltin
    · exact resolved.nameAt? placed
    · obtain ⟨scalar, isScalar, same, -⟩ := isBuiltin
      rw [isScalar, ← same]
      rfl
  case builtin =>
    intro r member scalar isScalar
    have found := resolved.type?_of_reference member
    rw [isScalar] at found
    rcases listed.type?_eq_some.mp found with placed | ⟨_, ⟨⟩, same, undefined⟩
    · cases placed
    · refine ⟨same.symm, ?_⟩
      rw [← same] at undefined ⊢
      exact resolved.builtin_not_mem undefined
  case shared =>
    intro r member s member' same
    have found := resolved.type?_of_reference member
    rw [same, resolved.type?_of_reference member'] at found
    exact (Option.some.inj found).symm
  case objectInterfaces => exact fun index object => resolved.object_interfaces listed
  case interfaceInterfaces =>
    intro index interface found
    obtain ⟨d, isDefined, success⟩ := exists_getElem?_of_forall₂ resolved.interfaces.flip found
    rw [isDefined]
    exact resolved.implements_names listed success
  case roots =>
    intro operation index isRoot
    exact resolved.root_name listed isRoot

/-- An object that refers to itself and to what is defined after it, with a scalar that stands in
for a built-in one and no root of its own. -/
theorem resolve_intact_forward :
    let document : Document :=
      [.object { name := "Post", implements := ["Node"],
                 fields := [{ name := "id", type := .nonNull (.named "ID") },
                            { name := "next", type := .list (.named "Post") },
                            { name := "size", type := .named "Int" }] },
       .interface { name := "Node", implements := ["Node"] }, .scalar { name := "ID" }]
    ∃ file, resolve "post" document = .ok file ∧ Intact document file :=
  ⟨_, rfl, resolve_intact rfl⟩

end SdlCompiler.Schema
