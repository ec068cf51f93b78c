import SdlCompiler.Proofs.Schema.ReadBack

/-!
# The roots of a schema

Where operations start: at the objects that the schema block of a document names last, or without
such a block at the objects with the usual names. Of these only `Query` is made where it is missing.

Roots are looked up among the names of the first pass, so it does not matter where in a document the
block and the objects stand.
-/

namespace SdlCompiler.Schema

open Document (Definition)
open Outcome

variable {names : Names} {name n : String} {document : Document} {file : File}
  {block : Document.SchemaBlock} {index : Nat}

/-! ## Objects of a document in its file -/

/-- The object at a place of a file is the one that the document defines by a name, and no other
object of the file has this name. -/
structure IsObject (document : Document) (file : File) (n : String) (index : Nat) : Prop where
  defined : ∃ d c, document.objects[index]? = some d ∧ d.name = n ∧
    file.objects[index]? = some c ∧ file.readBack.composite c = numbered.composite d
  only : ∀ other, file.nameAt? (.object other) = some n → other = index

theorem Resolved.object_unique (resolved : Resolved names name document file)
    (registrable : Registrable document) {other : Nat}
    (here : file.nameAt? (.object index) = some n) (there : file.nameAt? (.object other) = some n) :
    other = index := by
  have distinct := resolved.names_nodup registrable
  simp only [File.names, List.append_assoc] at distinct
  rw [File.nameAt?, ← List.getElem?_map] at here there
  have inside := (List.getElem?_eq_some_iff.1 there).1
  exact (List.getElem?_inj inside distinct.of_append_left).1 (there.trans here.symm)

theorem Resolved.isObject (resolved : Resolved names name document file)
    (listed : names.Lists document) (registrable : Registrable document)
    (placed : document.objects[index]?.map Composite.name = some n) :
    IsObject document file n index := by
  have named : file.nameAt? (.object index) = some n := resolved.nameAt? placed
  obtain ⟨d, isDefined, rfl⟩ := Option.map_eq_some_iff.1 placed
  obtain ⟨objects, built, equal⟩ := resolved.objects
  obtain ⟨c, isBuilt, success⟩ := exists_getElem?_of_forall₂ built isDefined
  have inside := (List.getElem?_eq_some_iff.1 isBuilt).1
  refine ⟨⟨d, c, isDefined, rfl, ?_, ?_⟩, fun other => resolved.object_unique registrable named⟩
  · rw [equal, List.getElem?_append_left inside, isBuilt]
  · exact (resolved.preserves_numbered listed).composite success

/-- The objects of a file by their names. -/
theorem Resolved.objects_names (resolved : Resolved names name document file) :
    file.objects.map Composite.name =
      document.objects.map Composite.name ++ (addedObjects document).map Composite.name := by
  obtain ⟨objects, built, equal⟩ := resolved.objects
  rw [equal, List.map_append, built.map_eq fun _ _ h => (Names.composite_eq_ok.mp h).1]

/-! ## With a schema block -/

theorem Registrable.getLast?_schemaBlocks (registrable : Registrable document)
    (member : .schema block ∈ document) : document.schemaBlocks.getLast? = some block := by
  have isBlock : block ∈ document.schemaBlocks := List.mem_filterMap.2 ⟨_, member, rfl⟩
  have single := registrable.oneSchema
  match blocks : document.schemaBlocks, single with
  | [], _ =>
    rw [blocks] at isBlock
    cases isBlock
  | [only], _ =>
    rw [blocks, List.mem_singleton] at isBlock
    rw [isBlock]
    rfl

/-- The roots of a file are those that a schema block tells. -/
structure ToldRoots (document : Document) (block : Document.SchemaBlock) (file : File) : Prop where
  directives : file.schema.directives.map (Directive.map file.readBack.value) =
    block.directives.map (Directive.map numbered.value)
  /-- No object is added. -/
  objects : file.objects.map Composite.name = document.objects.map Composite.name
  /-- The root of an operation is the object that the last entry for the operation names. -/
  present : ∀ operation n, Document.lastRoot? block.roots operation = some n →
    ∃ index, file.schema.root? operation = some index ∧ IsObject document file n index
  absent : ∀ operation, Document.lastRoot? block.roots operation = none →
    file.schema.root? operation = none

theorem Resolved.toldRoots (resolved : Resolved names name document file)
    (listed : names.Lists document) (registrable : Registrable document)
    (member : .schema block ∈ document) : ToldRoots document block file := by
  have last := registrable.getLast?_schemaBlocks member
  have schema := resolved.schema
  rw [last] at schema
  obtain ⟨directed, byEntries⟩ := Names.roots_of_eq_ok schema
  constructor
  case directives => exact (resolved.preserves_numbered listed).directives directed
  case objects =>
    have blocks : document.schemaBlocks ≠ [] := by
      intro none
      rw [none] at last
      cases last
    simp [resolved.objects_names, addedObjects, blocks]
  case present =>
    intro operation n entry
    have told := byEntries operation
    rw [entry] at told
    obtain ⟨index, looked, set⟩ := told
    have placed := listed.nameIn?_of_type? looked (by simp)
    exact ⟨index, set, resolved.isObject listed registrable placed⟩
  case absent =>
    intro operation entry
    have told := byEntries operation
    rwa [entry] at told

/-! ## Without one -/

/-- The operations whose roots are never made, with the usual names of these. -/
def optionalRoots : List (Operation × String) :=
  [(.mutation, "Mutation"), (.subscription, "Subscription")]

/-- The roots of a file are the objects with the usual names. -/
structure UsualRoots (document : Document) (file : File) : Prop where
  directives : file.schema.directives = []
  /-- The only object that may be added is a `Query`. -/
  objects : file.objects.map Composite.name = document.objects.map Composite.name ++
    if "Query" ∈ document.objects.map Composite.name then [] else ["Query"]
  query : "Query" ∈ document.objects.map Composite.name →
    ∃ index, file.schema.query = some index ∧ IsObject document file "Query" index
  /-- The object that is added is empty, stands after the others, and no other has its name. -/
  added : "Query" ∉ document.objects.map Composite.name →
    file.schema.query = some document.objects.length ∧
      file.objects[document.objects.length]? = some { name := "Query" } ∧
      ∀ other, file.nameAt? (.object other) = some "Query" → other = document.objects.length
  present : ∀ root ∈ optionalRoots, root.2 ∈ document.objects.map Composite.name →
    ∃ index, file.schema.root? root.1 = some index ∧ IsObject document file root.2 index
  absent : ∀ root ∈ optionalRoots, root.2 ∉ document.objects.map Composite.name →
    file.schema.root? root.1 = none

theorem mem_names_of_mem_objects (member : n ∈ document.objects.map Composite.name) :
    n ∈ document.names := by
  obtain ⟨index, found⟩ := List.mem_iff_getElem?.1 member
  rw [List.getElem?_map] at found
  exact mem_names_iff.2 ⟨.type (.object index), found⟩

/-- A usual name that was looked up is that of an object, or of nothing. -/
theorem Names.Lists.implicitRoot?_cases (listed : names.Lists document) {found : Option Nat}
    (looked : names.implicitRoot? n = .ok found) :
    (found = none ∧ n ∉ document.names ∧ n ∉ document.objects.map Composite.name) ∨
      ∃ index, found = some index ∧ n ∈ document.objects.map Composite.name ∧
        document.objects[index]?.map Composite.name = some n := by
  cases found with
  | none =>
    have undefined := listed.find?_eq_none.1 (Names.implicitRoot?_eq_none.1 looked)
    exact .inl ⟨rfl, undefined, fun member => undefined (mem_names_of_mem_objects member)⟩
  | some index =>
    have placed : document.objects[index]?.map Composite.name = some n :=
      (listed.find? _ _).1 (Names.implicitRoot?_eq_some.1 looked)
    refine .inr ⟨index, rfl, List.mem_iff_getElem?.2 ⟨index, ?_⟩, placed⟩
    rw [List.getElem?_map, placed]

theorem Names.ImplicitRoots.optional {roots : Roots} (implicit : names.ImplicitRoots document roots)
    {root : Operation × String} (member : root ∈ optionalRoots) :
    names.implicitRoot? root.2 = .ok (roots.root? root.1) := by
  simp only [optionalRoots, List.mem_cons, List.not_mem_nil, or_false] at member
  rcases member with rfl | rfl
  · exact implicit.mutation
  · exact implicit.subscription

theorem Resolved.usualRoots (resolved : Resolved names name document file)
    (listed : names.Lists document) (registrable : Registrable document)
    (blockless : document.schemaBlocks = []) : UsualRoots document file := by
  have implicit := resolved.schema
  rw [blockless] at implicit
  obtain ⟨found, looked, isQuery⟩ := implicit.query
  have queried := listed.implicitRoot?_cases looked
  constructor
  case directives => exact implicit.directives
  case objects =>
    rw [resolved.objects_names, addedObjects]
    rcases queried with ⟨-, undefined, noObject⟩ | ⟨index, -, isObject, -⟩
    · rw [if_pos ⟨blockless, undefined⟩, if_neg noObject]
      rfl
    · rw [if_neg fun missing => missing.2 (mem_names_of_mem_objects isObject), if_pos isObject]
      rfl
  case query =>
    intro isObject
    rcases queried with ⟨-, -, noObject⟩ | ⟨index, rfl, -, placed⟩
    · exact absurd isObject noObject
    · exact ⟨index, isQuery, resolved.isObject listed registrable placed⟩
  case added =>
    intro noObject
    rcases queried with ⟨rfl, undefined, -⟩ | ⟨index, -, isObject, -⟩
    · obtain ⟨objects, built, equal⟩ := resolved.objects
      refine ⟨isQuery, ?_, fun other => resolved.object_unique registrable
        (resolved.nameAt?_added blockless undefined)⟩
      simp [equal, built.length_eq, addedObjects, blockless, undefined]
    · exact absurd isObject noObject
  case present =>
    intro root member isObject
    rcases listed.implicitRoot?_cases (implicit.optional member) with
      ⟨-, -, noObject⟩ | ⟨index, isRoot, -, placed⟩
    · exact absurd isObject noObject
    · exact ⟨index, isRoot, resolved.isObject listed registrable placed⟩
  case absent =>
    intro root member noObject
    rcases listed.implicitRoot?_cases (implicit.optional member) with
      ⟨isRoot, -, -⟩ | ⟨index, -, isObject, -⟩
    · exact isRoot
    · exact absurd isObject noObject

/-! ## All documents -/

/-- Where operations start in the file that a document resolves to. A schema block tells it,
wherever it stands. Without one the usual names do, and an empty `Query` is added if there is
none. -/
theorem resolve_roots (success : resolve name document = .ok file) :
    (∀ block, .schema block ∈ document → ToldRoots document block file) ∧
      ((∀ block, .schema block ∉ document) → UsualRoots document file) := by
  have spec := resolve_spec name document
  rw [success] at spec
  obtain ⟨registrable, names, listed, -, -, resolved⟩ := spec
  refine ⟨fun block => resolved.toldRoots listed registrable, fun blockless => ?_⟩
  refine resolved.usualRoots listed registrable (List.filterMap_eq_nil_iff.2 ?_)
  rintro (block | _) member
  · exact absurd member (blockless block)
  all_goals rfl

/-- A block with an entry that a later one replaces. -/
def shopBlock : Document.SchemaBlock where
  directives := [{ name := "link", arguments := [("version", .int "07")] }]
  roots := [(.query, "Edits"), (.mutation, "Edits"), (.query, "Reads")]

/-- The block stands between the objects that it names. -/
def shopDocument : Document :=
  [.object { name := "Reads" }, .schema shopBlock, .object { name := "Edits" }]

theorem resolve_roots_shop :
    (∃ file, resolve "shop" shopDocument = .ok file ∧ ToldRoots shopDocument shopBlock file) ∧
      ∃ file, resolve "blog" [.object { name := "Mutation" }] = .ok file ∧
        UsualRoots [.object { name := "Mutation" }] file := by
  constructor
  · have success : (resolve "shop" shopDocument).isOk = true := by decide +kernel
    obtain ⟨file, resolved⟩ := exists_of_isOk success
    have member : .schema shopBlock ∈ shopDocument := by simp [shopDocument]
    exact ⟨file, resolved, (resolve_roots resolved).1 shopBlock member⟩
  · exact ⟨_, rfl, (resolve_roots rfl).2 (by simp)⟩

end SdlCompiler.Schema
