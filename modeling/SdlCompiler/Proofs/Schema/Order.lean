import Mathlib.Data.List.Perm.Basic
import SdlCompiler.Proofs.Schema.Acceptance
import SdlCompiler.Proofs.Schema.Lookup

/-!
# The order of definitions

Documents that have the same definitions in different orders resolve alike. Their files have the
same definitions of each kind, if a place is told by what stands there; and if the definitions of
each kind keep their order, the files are equal.

A name stands for a type of the same kind in both documents (`Names.kind?_eq_of_perm`), and what is
built depends on the order only through the places that names stand for.
-/

namespace SdlCompiler

/-- The name of the root of an operation: what the schema block tells, or without one the usual
name, which for other operations than queries has to be defined. -/
def Document.root? (document : Document) (operation : Operation) : Option String :=
  match document.schemaBlocks.getLast?, operation with
  | some block, _ => lastRoot? block.roots operation
  | none, .query => some "Query"
  | none, .mutation => if "Mutation" ∈ document.names then some "Mutation" else none
  | none, .subscription => if "Subscription" ∈ document.names then some "Subscription" else none

namespace Schema

open Document (Definition)
open Outcome

variable {names names' : Names} {name : String} {document document' : Document} {file file' : File}

/-! ## Kinds of types -/

inductive Kind where
  | object
  | interface
  | union
  | enum
  | scalar
  | input
  | builtin (scalar : Builtin)
deriving DecidableEq, Repr

def Target.kind : Target → Kind
  | .object _ => .object
  | .interface _ => .interface
  | .union _ => .union
  | .enum _ => .enum
  | .scalar _ => .scalar
  | .input _ => .input
  | .builtin known => .builtin known

/-- The kind of the type that a name stands for. -/
def Names.kind? (names : Names) (n : String) : Option Kind :=
  (names.type? n).map Target.kind

theorem Names.exists_type?_iff {n : String} :
    (∃ target, names.type? n = some target) ↔ (names.kind? n).isSome := by
  rw [Names.kind?, Option.isSome_map, Option.isSome_iff_exists]

theorem Names.exists_interface?_iff {n : String} :
    (∃ index, names.type? n = some (.interface index)) ↔ names.kind? n = some .interface := by
  rw [Names.kind?]
  cases names.type? n with
  | none => simp
  | some target => cases target <;> simp [Target.kind]

theorem Names.exists_object?_iff {n : String} :
    (∃ index, names.type? n = some (.object index)) ↔ names.kind? n = some .object := by
  rw [Names.kind?]
  cases names.type? n with
  | none => simp
  | some target => cases target <;> simp [Target.kind]

/-- The names that a document gives to types of a kind. -/
def Kind.namesIn (document : Document) : Kind → List String
  | object => document.objects.map Composite.name
  | interface => document.interfaces.map Composite.name
  | union => document.unions.map Union.name
  | enum => document.enums.map Enum.name
  | scalar => document.scalars.map Scalar.name
  | input => document.inputs.map InputObject.name
  | builtin _ => []

theorem Kind.mem_namesIn {kind : Kind} {n : String} :
    n ∈ kind.namesIn document ↔
      ∃ target : Target, target.kind = kind ∧ (Entry.type target).nameIn? document = some n := by
  constructor
  · intro member
    cases kind with
    | builtin scalar => cases member
    | object =>
      obtain ⟨index, found⟩ := exists_getElem?_map_eq.2 (List.mem_map.1 member)
      exact ⟨.object index, rfl, found⟩
    | interface =>
      obtain ⟨index, found⟩ := exists_getElem?_map_eq.2 (List.mem_map.1 member)
      exact ⟨.interface index, rfl, found⟩
    | union =>
      obtain ⟨index, found⟩ := exists_getElem?_map_eq.2 (List.mem_map.1 member)
      exact ⟨.union index, rfl, found⟩
    | enum =>
      obtain ⟨index, found⟩ := exists_getElem?_map_eq.2 (List.mem_map.1 member)
      exact ⟨.enum index, rfl, found⟩
    | scalar =>
      obtain ⟨index, found⟩ := exists_getElem?_map_eq.2 (List.mem_map.1 member)
      exact ⟨.scalar index, rfl, found⟩
    | input =>
      obtain ⟨index, found⟩ := exists_getElem?_map_eq.2 (List.mem_map.1 member)
      exact ⟨.input index, rfl, found⟩
  · rintro ⟨target, rfl, found⟩
    cases target with
    | builtin scalar => cases found
    | object index | interface index | union index | enum index | scalar index | input index =>
      exact List.mem_map.2 (exists_getElem?_map_eq.1 ⟨index, found⟩)

theorem Kind.mem_namesIn_of_perm (perm : document.Perm document') {kind : Kind} {n : String} :
    n ∈ kind.namesIn document ↔ n ∈ kind.namesIn document' := by
  cases kind with
  | builtin scalar => exact Iff.rfl
  | object | interface | union | enum | scalar | input =>
    exact ((perm.filterMap _).map _).mem_iff

theorem Names.Lists.kind?_eq_some (listed : names.Lists document) {n : String} {kind : Kind} :
    names.kind? n = some kind ↔
      n ∈ kind.namesIn document ∨
        ∃ scalar, kind = .builtin scalar ∧ scalar.name = n ∧ n ∉ document.names := by
  rw [Names.kind?, Option.map_eq_some_iff, Kind.mem_namesIn]
  simp only [listed.type?_eq_some]
  constructor
  · rintro ⟨target, placed | ⟨scalar, rfl, same, undefined⟩, rfl⟩
    · exact .inl ⟨target, rfl, placed⟩
    · exact .inr ⟨scalar, rfl, same, undefined⟩
  · rintro (⟨target, rfl, placed⟩ | ⟨scalar, rfl, same, undefined⟩)
    · exact ⟨target, .inl placed, rfl⟩
    · exact ⟨.builtin scalar, .inr ⟨scalar, rfl, same, undefined⟩, rfl⟩

/-- A name stands for a type of the same kind, whatever the order of the definitions. -/
theorem Names.kind?_eq_of_perm (listed : names.Lists document) (listed' : names'.Lists document')
    (perm : document.Perm document') (n : String) : names.kind? n = names'.kind? n := by
  have sameNames : n ∈ document.names ↔ n ∈ document'.names := (perm.filterMap _).mem_iff
  refine Option.ext fun kind => ?_
  rw [listed.kind?_eq_some, listed'.kind?_eq_some, Kind.mem_namesIn_of_perm perm, sameNames]

/-! ## Success -/

theorem Registrable.of_perm (registrable : Registrable document)
    (perm : document.Perm document') : Registrable document' where
  supported kind n member := registrable.supported kind n (perm.mem_iff.2 member)
  oneSchema := by
    rw [Document.schemaBlocks, ← (perm.filterMap _).length_eq]
    exact registrable.oneSchema
  distinct := (perm.filterMap _).nodup_iff.1 registrable.distinct

/-- What names allow to build depends on the kinds that they stand for. -/
theorem Names.Builds.of_kinds {definition : Definition} (builds : names.Builds definition)
    (same : ∀ n, names.kind? n = names'.kind? n) : names'.Builds definition := by
  rw [Names.builds_iff] at builds ⊢
  obtain ⟨supported, types, members, interfaces, roots, values, locations⟩ := builds
  simp only [Names.Knows, Names.exists_type?_iff, Names.exists_interface?_iff,
    Names.exists_object?_iff, same] at types members interfaces roots
  constructor
  case supported => exact supported
  case types => simpa only [Names.Knows, Names.exists_type?_iff] using types
  case members => simpa only [Names.exists_type?_iff] using members
  case interfaces => simpa only [Names.exists_interface?_iff] using interfaces
  case roots => simpa only [Names.exists_object?_iff] using roots
  case values => exact values
  case locations => exact locations

theorem Names.RootsFound.of_perm (found : names.RootsFound document)
    (listed : names.Lists document) (listed' : names'.Lists document')
    (perm : document.Perm document') : names'.RootsFound document' := by
  have blocks : document.schemaBlocks.Perm document'.schemaBlocks := perm.filterMap _
  have objects : document.objects.Perm document'.objects := perm.filterMap _
  have given : document.names.Perm document'.names := perm.filterMap _
  intro absent n usual
  rw [absent] at blocks
  have isRoot := listed.exists_implicitRoot?.1 (found blocks.eq_nil n usual)
  rw [listed'.exists_implicitRoot?]
  simpa only [given.mem_iff, objects.mem_iff] using isRoot

theorem exists_resolve_of_perm (perm : document.Perm document')
    (resolved : resolve name document = .ok file) :
    ∃ file', resolve name document' = .ok file' := by
  have spec := resolve_spec name document
  rw [resolved] at spec
  obtain ⟨registrable, names, listed, builds, found, -⟩ := spec
  have spec' := resolve_spec name document'
  cases outcome : resolve name document' with
  | ok file' => exact ⟨file', rfl⟩
  | error abort =>
    rw [outcome] at spec'
    refine absurd ⟨registrable.of_perm perm, fun names' listed' => ⟨fun d member => ?_, ?_⟩⟩ spec'
    · exact (builds d (perm.mem_iff.2 member)).of_kinds
        (Names.kind?_eq_of_perm listed listed' perm)
    · exact found.of_perm listed listed' perm

/-! ## Files by name -/

/-- What stands at a place. -/
structure Referent where
  kind : Kind
  name : String
deriving DecidableEq, Repr

def File.referent? (file : File) (target : Target) : Option Referent :=
  (file.nameAt? target).map fun n => ⟨target.kind, n⟩

/-- The parts of a file with each place replaced by what stands there, and all else as it is. -/
def File.byName (file : File) :
    ResolvedView (Option String) (String × Option Referent)
      (Document.TypeExpr × Option Referent) Value Location where
  reference index := file.nameAt? (.interface index)
  member r := (r.name, file.referent? r.target)
  type t := (t.toDocument, file.referent? t.innermost.target)
  value := id
  location := id

/-- The parts of a document by the kinds that its names stand for. -/
def byKind (kind? : String → Option Kind) :
    WrittenView (Option String) (String × Option Referent)
      (Document.TypeExpr × Option Referent) Value Location where
  reference := some
  member n := (n, (kind? n).map fun kind => ⟨kind, n⟩)
  type t := (t, (kind? t.innermost).map fun kind => ⟨kind, t.innermost⟩)
  value := readValue
  location := readLocation

theorem Resolved.referent?_eq (resolved : Resolved names name document file)
    (listed : names.Lists document) {n : String} {target : Target}
    (found : names.type? n = some target) :
    file.referent? target = (names.kind? n).map fun kind => ⟨kind, n⟩ := by
  rw [File.referent?, resolved.nameAt?_of_type? listed found, Names.kind?, found]
  rfl

theorem Resolved.preserves_byKind (resolved : Resolved names name document file)
    (listed : names.Lists document) : names.Preserves (byKind names.kind?) file.byName where
  text := rfl
  reference n index found := resolved.nameAt?_of_type? listed found
  member n target found := congrArg (n, ·) (resolved.referent?_eq listed found)
  type context t u built := by
    have innermost : u.innermost.name = t.innermost := (Names.typeRef_shape built).1
    have found := Names.type?_of_typeRef built
    rw [innermost] at found
    show (u.toDocument, file.referent? u.innermost.target) = _
    rw [Names.toDocument_of_typeRef built, resolved.referent?_eq listed found]
    rfl
  value context v w built := readValue_of_value built
  location text place found := readLocation_of_ofName? found

/-! ## Definitions of files -/

section

variable {ρ μ τ ν ℓ : Type} {written : WrittenView ρ μ τ ν ℓ} {view view' : ResolvedView ρ μ τ ν ℓ}

/-- Two files have the same definitions of each kind, maybe in different orders. -/
structure Permuted (view view' : ResolvedView ρ μ τ ν ℓ) (file file' : File) : Prop where
  objects : (file.objects.map view.composite).Perm (file'.objects.map view'.composite)
  interfaces : (file.interfaces.map view.composite).Perm (file'.interfaces.map view'.composite)
  unions : (file.unions.map view.union).Perm (file'.unions.map view'.union)
  enums : (file.enums.map view.enum).Perm (file'.enums.map view'.enum)
  scalars : (file.scalars.map view.scalar).Perm (file'.scalars.map view'.scalar)
  inputs : (file.inputs.map view.input).Perm (file'.inputs.map view'.input)
  directives : (file.directives.map view.directive).Perm (file'.directives.map view'.directive)

/-- A `Query` is added to the objects of both documents or of none. -/
theorem objectsWithQuery_eq (perm : document.Perm document') :
    ∃ added, document.objectsWithQuery = document.objects ++ added ∧
      document'.objectsWithQuery = document'.objects ++ added := by
  have blocks : document.schemaBlocks.Perm document'.schemaBlocks := perm.filterMap _
  have given : document.names.Perm document'.names := perm.filterMap _
  have lacks : (document.schemaBlocks = [] ∧ "Query" ∉ document.names) ↔
      (document'.schemaBlocks = [] ∧ "Query" ∉ document'.names) := by
    rw [← List.length_eq_zero_iff, blocks.length_eq, List.length_eq_zero_iff, given.mem_iff]
  refine ⟨_, rfl, ?_⟩
  rw [Document.objectsWithQuery, if_congr lacks rfl rfl]

theorem LooksLike.permuted (looks : LooksLike written view document file)
    (looks' : LooksLike written view' document' file') (perm : document.Perm document') :
    Permuted view view' file file' where
  objects := by
    obtain ⟨added, objects, objects'⟩ := objectsWithQuery_eq perm
    rw [looks.objects, looks'.objects, objects, objects']
    exact ((perm.filterMap _).append_right _).map _
  interfaces := by
    rw [looks.interfaces, looks'.interfaces]
    exact (perm.filterMap _).map _
  unions := by
    rw [looks.unions, looks'.unions]
    exact (perm.filterMap _).map _
  enums := by
    rw [looks.enums, looks'.enums]
    exact (perm.filterMap _).map _
  scalars := by
    rw [looks.scalars, looks'.scalars]
    exact (perm.filterMap _).map _
  inputs := by
    rw [looks.inputs, looks'.inputs]
    exact (perm.filterMap _).map _
  directives := by
    rw [looks.directives, looks'.directives]
    exact (perm.filterMap _).map _

end

/-! ## Roots -/

/-- There is at most one schema block, so no order of several. -/
theorem Registrable.schemaBlocks_eq (registrable : Registrable document)
    (perm : document.Perm document') : document.schemaBlocks = document'.schemaBlocks := by
  have blocks : document.schemaBlocks.Perm document'.schemaBlocks := perm.filterMap _
  have few := registrable.oneSchema
  cases found : document.schemaBlocks with
  | nil =>
    rw [found] at blocks
    exact blocks.nil_eq
  | cons block rest =>
    rw [found, List.length_cons] at few
    obtain rfl : rest = [] := List.length_eq_zero_iff.1 (by omega)
    rw [found] at blocks
    exact blocks.singleton_eq

theorem Registrable.root?_eq (registrable : Registrable document)
    (perm : document.Perm document') (operation : Operation) :
    document.root? operation = document'.root? operation := by
  have given : document.names.Perm document'.names := perm.filterMap _
  rw [Document.root?.eq_def, Document.root?.eq_def, registrable.schemaBlocks_eq perm]
  simp only [given.mem_iff]

/-- A root that goes by its usual name is there if the name is defined. -/
theorem Resolved.map_implicitRoot (resolved : Resolved names name document file)
    (listed : names.Lists document) {n : String} {found : Option Nat}
    (looked : names.implicitRoot? n = .ok found) :
    found.map (fun index => file.nameAt? (.object index)) =
      (if n ∈ document.names then some n else none).map some := by
  cases found with
  | none =>
    have undefined := listed.find?_eq_none.1 (Names.implicitRoot?_eq_none.1 looked)
    rw [if_neg undefined]
    rfl
  | some index =>
    have found := Names.implicitRoot?_eq_some.1 looked
    have defined : n ∈ document.names := by
      by_contra undefined
      rw [listed.find?_eq_none.2 undefined] at found
      cases found
    rw [if_pos defined]
    exact congrArg some (resolved.nameAt? ((listed.find? _ _).1 found))

/-- Which operations have a root, and the name that stands at it. -/
theorem Resolved.map_root? (resolved : Resolved names name document file)
    (listed : names.Lists document) (operation : Operation) :
    (file.schema.root? operation).map (fun index => file.nameAt? (.object index)) =
      (document.root? operation).map some := by
  have schema := resolved.schema
  rw [Document.root?.eq_def]
  cases last : document.schemaBlocks.getLast? with
  | some block =>
    rw [last] at schema
    have byEntries := (Names.roots_of_eq_ok schema).2 operation
    dsimp only
    cases entry : Document.lastRoot? block.roots operation with
    | none =>
      rw [entry, Option.elim_none] at byEntries
      rw [byEntries]
      rfl
    | some n =>
      rw [entry] at byEntries
      obtain ⟨index, looked, set⟩ := byEntries
      rw [set]
      exact congrArg some (resolved.nameAt?_of_type? listed looked)
  | none =>
    rw [last, Option.elim_none] at schema
    cases operation with
    | mutation => exact resolved.map_implicitRoot listed schema.mutation
    | subscription => exact resolved.map_implicitRoot listed schema.subscription
    | query =>
      obtain ⟨found, looked, set⟩ := schema.query
      obtain ⟨n, isQuery, named⟩ := @Resolved.root_name _ _ _ _ resolved listed .query _ set
      rw [Document.rootName?, last] at isQuery
      cases isQuery
      rw [Roots.root?, set]
      exact congrArg some named

/-! ## Files of the same documents -/

/-- Two files that differ only in the order of the definitions of each kind. -/
structure SameByName (file file' : File) : Prop where
  name : file.name = file'.name
  applied : file.schema.directives = file'.schema.directives
  roots : ∀ operation,
    (file.schema.root? operation).map (fun index => file.nameAt? (.object index)) =
      (file'.schema.root? operation).map fun index => file'.nameAt? (.object index)
  /-- A name belongs to one definition of one kind. -/
  distinct : file.names.Nodup
  definitions : Permuted file.byName file'.byName file file'

theorem Resolved.directives_eq (resolved : Resolved names name document file)
    (resolved' : Resolved names' name document' file')
    (blocks : document.schemaBlocks = document'.schemaBlocks) :
    file.schema.directives = file'.schema.directives := by
  have schema := resolved.schema
  have schema' := resolved'.schema
  rw [← blocks] at schema'
  cases last : document.schemaBlocks.getLast? with
  | none =>
    rw [last] at schema schema'
    exact schema.directives.trans schema'.directives.symm
  | some block =>
    rw [last] at schema schema'
    have built := (Names.roots_of_eq_ok schema).1
    rw [(Names.roots_of_eq_ok schema').1] at built
    exact (Except.ok.inj built).symm

theorem Resolved.sameByName (resolved : Resolved names name document file)
    (resolved' : Resolved names' name document' file') (listed : names.Lists document)
    (listed' : names'.Lists document') (registrable : Registrable document)
    (perm : document.Perm document') : SameByName file file' where
  name := resolved.name.trans resolved'.name.symm
  applied := resolved.directives_eq resolved' (registrable.schemaBlocks_eq perm)
  roots operation := by
    rw [resolved.map_root? listed, resolved'.map_root? listed', registrable.root?_eq perm]
  distinct := resolved.names_nodup registrable
  definitions := by
    have kinds : names.kind? = names'.kind? :=
      funext (Names.kind?_eq_of_perm listed listed' perm)
    have looks := resolved.looksLike (resolved.preserves_byKind listed)
    rw [kinds] at looks
    exact looks.permuted (resolved'.looksLike (resolved'.preserves_byKind listed')) perm

/-! ## Equal files -/

/-- Two documents have the definitions of each kind in the same order. -/
structure SameOrder (document document' : Document) : Prop where
  objects : document.objects = document'.objects
  interfaces : document.interfaces = document'.interfaces
  unions : document.unions = document'.unions
  enums : document.enums = document'.enums
  scalars : document.scalars = document'.scalars
  inputs : document.inputs = document'.inputs
  directives : document.directives = document'.directives

theorem SameOrder.nameIn?_eq (same : SameOrder document document') (entry : Entry) :
    entry.nameIn? document = entry.nameIn? document' := by
  cases entry with
  | directive index => rw [Entry.nameIn?, Entry.nameIn?, same.directives]
  | type target =>
    cases target with
    | object index => rw [Entry.nameIn?, Entry.nameIn?, same.objects]
    | interface index => rw [Entry.nameIn?, Entry.nameIn?, same.interfaces]
    | union index => rw [Entry.nameIn?, Entry.nameIn?, same.unions]
    | enum index => rw [Entry.nameIn?, Entry.nameIn?, same.enums]
    | scalar index => rw [Entry.nameIn?, Entry.nameIn?, same.scalars]
    | input index => rw [Entry.nameIn?, Entry.nameIn?, same.inputs]
    | builtin known => rfl

/-- A name is found at the same place. -/
theorem SameOrder.find?_eq (same : SameOrder document document') (listed : names.Lists document)
    (listed' : names'.Lists document') : names.find? = names'.find? := by
  refine funext fun n => Option.ext fun entry => ?_
  rw [listed.find?, listed'.find?, same.nameIn?_eq]

theorem Names.type?_eq_of_find? (found : names.find? = names'.find?) :
    names.type? = names'.type? := by
  funext n
  rw [Names.type?, Names.type?, found]

/-- The file of a document with the given roots, by what its names stand for. -/
def fileOf (type? : String → Option Target) (name : String) (document : Document)
    (schema : Roots) : File where
  name := name
  schema := schema
  objects := document.objectsWithQuery.map (byTarget id type?).composite
  interfaces := document.interfaces.map (byTarget id type?).composite
  unions := document.unions.map (byTarget id type?).union
  enums := document.enums.map (byTarget id type?).enum
  scalars := document.scalars.map (byTarget id type?).scalar
  inputs := document.inputs.map (byTarget id type?).input
  directives := document.directives.map (byTarget id type?).directive

theorem Resolved.eq_fileOf (resolved : Resolved names name document file) :
    file = fileOf names.type? name document file.schema := by
  have within : names.Within names.type? := fun n target found => found
  have looks : LooksLike _ (asIs id) document file := resolved.looksLike within.preserves
  have composite : (asIs id).composite = id := Composite.map_id
  have union : (asIs id).union = id := Union.map_id
  have enum : (asIs id).enum = id := Enum.map_id
  have scalar : (asIs id).scalar = id := Scalar.map_id
  have input : (asIs id).input = id := InputObject.map_id
  have directive : (asIs id).directive = id := DirectiveDefinition.map_id
  rw [fileOf, ← looks.objects, ← looks.interfaces, ← looks.unions, ← looks.enums, ← looks.scalars,
    ← looks.inputs, ← looks.directives, composite, union, enum, scalar, input, directive,
    ← resolved.name]
  simp only [List.map_id]

theorem Resolved.root?_eq (resolved : Resolved names name document file)
    (resolved' : Resolved names' name document' file')
    (blocks : document.schemaBlocks = document'.schemaBlocks)
    (objects : document.objects = document'.objects) (found : names.find? = names'.find?)
    (operation : Operation) : file.schema.root? operation = file'.schema.root? operation := by
  have schema := resolved.schema
  have schema' := resolved'.schema
  have types := Names.type?_eq_of_find? found
  have implicit : names.implicitRoot? = names'.implicitRoot? := by
    funext n
    rw [Names.implicitRoot?, Names.implicitRoot?, found]
  rw [← blocks] at schema'
  cases last : document.schemaBlocks.getLast? with
  | some block =>
    rw [last] at schema schema'
    have told := (Names.roots_of_eq_ok schema).2 operation
    have told' := (Names.roots_of_eq_ok schema').2 operation
    cases entry : Document.lastRoot? block.roots operation with
    | none =>
      rw [entry] at told told'
      exact told.trans told'.symm
    | some n =>
      rw [entry] at told told'
      obtain ⟨index, looked, set⟩ := told
      obtain ⟨index', looked', set'⟩ := told'
      rw [types, looked'] at looked
      cases looked
      exact set.trans set'.symm
  | none =>
    rw [last, Option.elim_none] at schema schema'
    cases operation with
    | query =>
      obtain ⟨query, looked, set⟩ := schema.query
      obtain ⟨query', looked', set'⟩ := schema'.query
      rw [implicit, looked'] at looked
      cases looked
      rw [← objects] at set'
      exact set.trans set'.symm
    | mutation => exact Except.ok.inj (schema.mutation.symm.trans (implicit ▸ schema'.mutation))
    | subscription =>
      exact Except.ok.inj (schema.subscription.symm.trans (implicit ▸ schema'.subscription))

theorem Resolved.eq_of_sameOrder (resolved : Resolved names name document file)
    (resolved' : Resolved names' name document' file') (listed : names.Lists document)
    (listed' : names'.Lists document') (registrable : Registrable document)
    (perm : document.Perm document') (same : SameOrder document document') : file = file' := by
  have blocks := registrable.schemaBlocks_eq perm
  have found := same.find?_eq listed listed'
  have types := Names.type?_eq_of_find? found
  have schema : file.schema = file'.schema :=
    Roots.eq_of_root? (resolved.directives_eq resolved' blocks)
      (resolved.root?_eq resolved' blocks same.objects found)
  obtain ⟨added, objects, objects'⟩ := objectsWithQuery_eq perm
  -- What is left of either file is made from the same definitions by the same lookup.
  rw [resolved.eq_fileOf, resolved'.eq_fileOf, types, schema, fileOf, fileOf, objects, objects',
    same.objects, same.interfaces, same.unions, same.enums, same.scalars, same.inputs,
    same.directives]

/-! ## The order of definitions -/

/-- The order of definitions does not matter: all orders resolve or none does, the files differ
only in the order of the definitions of each kind, and if that is the same they are equal. -/
theorem resolve_perm (name : String) (perm : document.Perm document') :
    ((∃ file, resolve name document = .ok file) ↔ ∃ file, resolve name document' = .ok file) ∧
      ∀ file file', resolve name document = .ok file → resolve name document' = .ok file' →
        SameByName file file' ∧ (SameOrder document document' → file = file') := by
  refine ⟨⟨?_, ?_⟩, ?_⟩
  · rintro ⟨file, success⟩
    exact exists_resolve_of_perm perm success
  · rintro ⟨file, success⟩
    exact exists_resolve_of_perm perm.symm success
  · intro file file' success success'
    have spec := resolve_spec name document
    have spec' := resolve_spec name document'
    rw [success] at spec
    rw [success'] at spec'
    obtain ⟨registrable, names, listed, -, -, resolved⟩ := spec
    obtain ⟨-, names', listed', -, -, resolved'⟩ := spec'
    exact ⟨resolved.sameByName resolved' listed listed' registrable perm,
      resolved.eq_of_sameOrder resolved' listed listed' registrable perm⟩

/-- An interface between two objects, read either way round. -/
theorem resolve_perm_orders :
    ordersDocument.Perm ordersDocument.reverse ∧
      ∃ file file', resolve "orders" ordersDocument = .ok file ∧
        resolve "orders" ordersDocument.reverse = .ok file' ∧ SameByName file file' := by
  have perm : ordersDocument.Perm ordersDocument.reverse := (List.reverse_perm _).symm
  obtain ⟨iff, same⟩ := resolve_perm "orders" perm
  have success : (resolve "orders" ordersDocument).isOk = true := by decide +kernel
  obtain ⟨file, resolved⟩ := exists_of_isOk success
  obtain ⟨file', resolved'⟩ := iff.1 ⟨file, resolved⟩
  exact ⟨perm, file, file', resolved, resolved', (same file file' resolved resolved').1⟩

end Schema

end SdlCompiler
