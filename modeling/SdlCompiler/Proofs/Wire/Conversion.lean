import Mathlib.Data.List.Nodup
import Mathlib.Data.List.Perm.Subperm
import SdlCompiler.Proofs.Schema.Restating
import SdlCompiler.Wire.OfSchema

/-!
# Files have a message

Every interface that something implements and every root is at a place of the file, so the message
of the file can be made. An interface is copied below interfaces that all differ, and there are not
more of these than the file has.
-/

namespace SdlCompiler.Wire

open Outcome

variable {file : Schema.File}

/-- What a message gives of an object or an interface. -/
structure Gives (file : Schema.File) (c : Schema.Composite) (name description : String)
    (implements : List Interface) (directives : List Directive) (fields : List Field) : Prop where
  name : name = c.name
  description : description = descriptionText c.description
  implements : implements.map Interface.name = c.implements.map file.interfaceName
  directives : directives = c.directives.map Directive.ofSchema
  fields : fields = c.fields.map Field.ofSchema

def Gives.Object (file : Schema.File) (c : Schema.Composite) (o : Object) : Prop :=
  Gives file c o.name o.description o.implements o.directives o.fields

def Gives.Interface (file : Schema.File) (c : Schema.Composite) (i : Interface) : Prop :=
  Gives file c i.name i.description i.implements i.directives i.fields

theorem interfaceName_eq {index : Nat} {c : Schema.Composite}
    (found : file.interfaces[index]? = some c) : file.interfaceName index = c.name := by
  simp [Schema.File.interfaceName, Schema.File.nameAt?, found]

/-- A copy of an interface, with what it implements. -/
def fullCopy (c : Schema.Composite) (implements : List Interface) : Interface :=
  .mk c.name (descriptionText c.description) (c.directives.map Directive.ofSchema)
    (c.fields.map Field.ofSchema) implements

theorem embed_eq_ok {room : Nat} {path : List Nat} {index : Nat} {tree : Interface} :
    Interface.embed file room path index = .ok tree ↔
      ∃ c, file.interfaces[index]? = some c ∧
        (index ∈ path ∧ tree = .nameOnly c.name ∨
          index ∉ path ∧ ∃ less implements, room = less + 1 ∧
            c.implements.mapM (Interface.embed file less (index :: path)) = .ok implements ∧
            tree = fullCopy c implements) := by
  rw [Interface.embed]
  cases found : file.interfaces[index]? with
  | none => simp
  | some c =>
    by_cases repeated : index ∈ path
    · simp [repeated, eq_comm]
    · cases room with
      | zero => simp [repeated]
      | succ room =>
        have unread : path.contains index = false := by simpa using repeated
        simp only [unread, Bool.false_eq_true, if_false, bind_eq_ok, pure_eq_ok]
        constructor
        · rintro ⟨implements, parents, rfl⟩
          exact ⟨c, rfl, .inr ⟨repeated, room, implements, rfl, parents, rfl⟩⟩
        · rintro ⟨_, ⟨⟩, ⟨again, -⟩ | ⟨-, less, implements, ⟨⟩, parents, rfl⟩⟩
          · exact absurd again repeated
          · exact ⟨implements, parents, rfl⟩

/-- Places in a list that all differ are not more than the list has. -/
theorem length_le_of_nodup {path : List Nat} {n : Nat} (distinct : path.Nodup)
    (bounded : ∀ i ∈ path, i < n) : path.length ≤ n := by
  have within : path ⊆ List.range n := fun i member => List.mem_range.2 (bounded i member)
  have fewer := (List.subperm_of_subset distinct within).length_le
  rwa [List.length_range] at fewer

theorem exists_embed
    (inside : ∀ c ∈ file.interfaces, ∀ i ∈ c.implements, i < file.interfaces.length)
    {room : Nat} {path : List Nat} (distinct : path.Nodup)
    (bounded : ∀ i ∈ path, i < file.interfaces.length)
    (enough : file.interfaces.length ≤ room + path.length) {index : Nat}
    (here : index < file.interfaces.length) :
    ∃ interface, Interface.embed file room path index = .ok interface ∧
      interface.name = file.interfaceName index := by
  have found := List.getElem?_eq_getElem here
  rw [interfaceName_eq found]
  -- Where no room is left, the path already has every interface of the file.
  induction room generalizing path index with
  | zero =>
    have repeated : index ∈ path := by
      by_contra new
      have count := length_le_of_nodup (List.nodup_cons.2 ⟨new, distinct⟩)
        (List.forall_mem_cons.2 ⟨here, bounded⟩)
      rw [List.length_cons] at count
      omega
    exact ⟨_, embed_eq_ok.2 ⟨_, found, .inl ⟨repeated, rfl⟩⟩, rfl⟩
  | succ room ih =>
    by_cases repeated : index ∈ path
    · exact ⟨_, embed_eq_ok.2 ⟨_, found, .inl ⟨repeated, rfl⟩⟩, rfl⟩
    · have parents : ∀ i ∈ (file.interfaces[index]).implements, ∃ interface,
          Interface.embed file room (index :: path) i = .ok interface := by
        intro i member
        have inFile := inside _ (List.getElem_mem here) i member
        obtain ⟨interface, made, -⟩ := ih (List.nodup_cons.2 ⟨repeated, distinct⟩)
          (List.forall_mem_cons.2 ⟨here, bounded⟩)
          (by rw [List.length_cons]; omega) inFile (List.getElem?_eq_getElem inFile)
        exact ⟨interface, made⟩
      obtain ⟨implements, made⟩ := exists_mapM_eq_ok.2 parents
      exact ⟨_, embed_eq_ok.2 ⟨_, found, .inr ⟨repeated, room, implements, rfl, made, rfl⟩⟩, rfl⟩

/-- The interfaces at places of the file, below none or below one. -/
theorem exists_parents
    (inside : ∀ c ∈ file.interfaces, ∀ i ∈ c.implements, i < file.interfaces.length)
    {room : Nat} {path : List Nat} (distinct : path.Nodup)
    (bounded : ∀ i ∈ path, i < file.interfaces.length)
    (enough : file.interfaces.length ≤ room + path.length) {indices : List Nat}
    (here : ∀ i ∈ indices, i < file.interfaces.length) :
    ∃ implements, indices.mapM (Interface.embed file room path) = .ok implements ∧
      implements.map Interface.name = indices.map file.interfaceName := by
  obtain ⟨implements, made, named⟩ := exists_mapM_of_forall fun i member =>
    exists_embed inside distinct bounded enough (here i member)
  exact ⟨implements, made, map_eq_of_forall₂ named⟩

theorem exists_interface
    (inside : ∀ c ∈ file.interfaces, ∀ i ∈ c.implements, i < file.interfaces.length)
    (index : Nat) (c : Schema.Composite) (found : file.interfaces[index]? = some c) :
    ∃ interface, Interface.ofSchema file index = .ok interface ∧
      Gives.Interface file c interface := by
  obtain ⟨here, rfl⟩ := List.getElem?_eq_some_iff.1 found
  obtain ⟨room, count⟩ : ∃ room, file.interfaces.length = room + 1 :=
    ⟨file.interfaces.length - 1, by omega⟩
  obtain ⟨implements, made, named⟩ := exists_parents inside (List.nodup_singleton index)
    (by simpa using here) (Nat.le_of_eq count) (inside _ (List.getElem_mem here))
  have embedded := embed_eq_ok.2
    ⟨_, found, .inr ⟨List.not_mem_nil, room, implements, rfl, made, rfl⟩⟩
  rw [← count] at embedded
  exact ⟨_, embedded, rfl, rfl, named, rfl, rfl⟩

theorem exists_object
    (inside : ∀ c ∈ file.interfaces, ∀ i ∈ c.implements, i < file.interfaces.length)
    (index : Nat) (c : Schema.Composite) (found : file.objects[index]? = some c)
    (implemented : ∀ i ∈ c.implements, i < file.interfaces.length) :
    ∃ object, Object.ofSchema file index = .ok object ∧ Gives.Object file c object := by
  obtain ⟨implements, made, named⟩ := exists_parents inside List.nodup_nil (by simp)
    (Nat.le_refl _) implemented
  refine ⟨{ name := c.name, description := descriptionText c.description, implements,
            directives := c.directives.map Directive.ofSchema,
            fields := c.fields.map Field.ofSchema }, ?_, rfl, rfl, named, rfl, rfl⟩
  have all : c.implements.mapM (Interface.ofSchema file) = .ok implements := made
  rw [Object.ofSchema, found]
  dsimp only
  rw [all]
  rfl

/-- Everything at a place of a list is converted. -/
theorem exists_mapM_range {α β : Type} {convert : Nat → Except Defect β} {xs : List α}
    {P : α → β → Prop}
    (each : ∀ (index : Nat) (x : α), xs[index]? = some x → ∃ y, convert index = .ok y ∧ P x y) :
    ∃ ys, (List.range xs.length).mapM convert = .ok ys ∧ List.Forall₂ P xs ys := by
  have placed : ∀ index ∈ List.range xs.length, ∃ y, convert index = .ok y ∧
      ∃ x, xs[index]? = some x ∧ P x y := by
    intro index member
    have found := List.getElem?_eq_getElem (List.mem_range.1 member)
    obtain ⟨y, made, holds⟩ := each index _ found
    exact ⟨y, made, _, found, holds⟩
  obtain ⟨ys, made, related⟩ := exists_mapM_of_forall placed
  refine ⟨ys, made, ?_⟩
  obtain ⟨sameLength, holds⟩ := List.forall₂_iff_get.1 related
  rw [List.length_range] at sameLength
  refine List.forall₂_iff_get.2 ⟨sameLength, fun index inXs inYs => ?_⟩
  obtain ⟨x, found, inPlace⟩ := holds index (by rwa [List.length_range]) inYs
  rw [List.get_eq_getElem, List.getElem_range, List.getElem?_eq_getElem inXs] at found
  cases found
  exact inPlace

/-- The message of a file, as far as it is not made part by part. -/
structure Converts (file : Schema.File) (wire : File) : Prop where
  name : wire.name = file.name
  objects : List.Forall₂ (Gives.Object file) file.objects wire.objects
  interfaces : List.Forall₂ (Gives.Interface file) file.interfaces wire.interfaces
  unions : wire.unions = file.unions.map Union.ofSchema
  enums : wire.enums = file.enums.map Enum.ofSchema
  scalars : wire.scalars = file.scalars.map Symbol.ofScalar
  inputs : wire.inputs = file.inputs.map InputObject.ofSchema
  directives : wire.directives = file.directives.map DirectiveDefinition.ofSchema
  schema : ∃ roots, wire.schema = some roots ∧
    roots.directives = file.schema.directives.map Directive.ofSchema ∧
    roots.query.map Object.name = file.schema.query.map file.objectName ∧
    roots.mutation.map Object.name = file.schema.mutation.map file.objectName ∧
    roots.subscription.map Object.name = file.schema.subscription.map file.objectName

/-- A file in which interfaces and roots are at places. -/
structure Placed (file : Schema.File) : Prop where
  objects : ∀ c ∈ file.objects, ∀ i ∈ c.implements, i < file.interfaces.length
  interfaces : ∀ c ∈ file.interfaces, ∀ i ∈ c.implements, i < file.interfaces.length
  roots : ∀ operation index, file.schema.root? operation = some index →
    index < file.objects.length

theorem Placed.exists_ofSchema (placed : Placed file) :
    ∃ wire, File.ofSchema file = .ok wire ∧ Converts file wire := by
  have object : ∀ (index : Nat) (c : Schema.Composite), file.objects[index]? = some c →
      ∃ object, Object.ofSchema file index = .ok object ∧ Gives.Object file c object :=
    fun index c found => exists_object placed.interfaces index c found
      (placed.objects c (List.mem_of_getElem? found))
  have root : ∀ operation, ∃ object?,
      (file.schema.root? operation).mapM (Object.ofSchema file) = .ok object? ∧
        object?.map Object.name = (file.schema.root? operation).map file.objectName := by
    intro operation
    cases isRoot : file.schema.root? operation with
    | none => exact ⟨none, rfl, rfl⟩
    | some index =>
      have found := List.getElem?_eq_getElem (placed.roots operation index isRoot)
      obtain ⟨made, success, gives⟩ := object index _ found
      refine ⟨some made, ?_, ?_⟩
      · rw [Option.mapM_some, success]
        rfl
      · simp [Schema.File.objectName, Schema.File.nameAt?, found, gives.name]
  obtain ⟨interfaces, madeInterfaces, givenInterfaces⟩ :=
    exists_mapM_range (exists_interface placed.interfaces)
  obtain ⟨objects, madeObjects, givenObjects⟩ := exists_mapM_range object
  obtain ⟨query, madeQuery, namedQuery⟩ := root .query
  obtain ⟨mutation, madeMutation, namedMutation⟩ := root .mutation
  obtain ⟨subscription, madeSubscription, namedSubscription⟩ := root .subscription
  have roots : Roots.ofSchema file =
      .ok { directives := file.schema.directives.map Directive.ofSchema, query, mutation,
            subscription } :=
    bind_eq_ok.2 ⟨_, madeQuery, bind_eq_ok.2 ⟨_, madeMutation,
      bind_eq_ok.2 ⟨_, madeSubscription, rfl⟩⟩⟩
  exact ⟨_, bind_eq_ok.2 ⟨_, roots, bind_eq_ok.2 ⟨_, madeObjects,
    bind_eq_ok.2 ⟨_, madeInterfaces, rfl⟩⟩⟩, rfl, givenObjects, givenInterfaces, rfl, rfl, rfl, rfl,
    rfl, _, rfl, rfl, namedQuery, namedMutation, namedSubscription⟩

theorem exists_ofSchema (sound : file.Sound) :
    ∃ wire, File.ofSchema file = .ok wire ∧ Converts file wire := by
  have placed : Placed file :=
    ⟨fun c member => (sound.objects c member).implements,
      fun c member => (sound.interfaces c member).implements, sound.roots⟩
  exact placed.exists_ofSchema

end SdlCompiler.Wire
