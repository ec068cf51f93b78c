import SdlCompiler.Proofs.Schema.Integrity
import SdlCompiler.Schema.Session

/-!
# Passes in any order

The passes need not be called as a compilation calls them. Whatever documents they are given, in
whatever order, and also where they fail halfway, the names in use lead to places of those names,
and all that is in the file leads to places in the file. So no pass ever misses a place.

A pass extends the file (`File.Extends`), and each definition that it puts there is built from the
names in use (`Names.Draws`). These two facts carry the invariant over one step.
-/

namespace SdlCompiler.Schema

open Document (Definition)
open Outcome

variable {names : Names} {file before after : File} {n : String}

/-! ## Files that grow -/

/-- The places of the first file are in the second, with the same names. -/
structure File.Extends (before after : File) : Prop where
  objects : before.objects.map Composite.name <+: after.objects.map Composite.name
  interfaces : before.interfaces.map Composite.name <+: after.interfaces.map Composite.name
  unions : before.unions.map Union.name <+: after.unions.map Union.name
  enums : before.enums.map Enum.name <+: after.enums.map Enum.name
  scalars : before.scalars.map Scalar.name <+: after.scalars.map Scalar.name
  inputs : before.inputs.map InputObject.name <+: after.inputs.map InputObject.name
  directives : before.directives.map DirectiveDefinition.name <+:
    after.directives.map DirectiveDefinition.name

theorem File.Extends.refl (file : File) : file.Extends file := by
  constructor <;> exact List.prefix_refl _

theorem File.Extends.trans {first second third : File} (earlier : first.Extends second)
    (later : second.Extends third) : first.Extends third where
  objects := earlier.objects.trans later.objects
  interfaces := earlier.interfaces.trans later.interfaces
  unions := earlier.unions.trans later.unions
  enums := earlier.enums.trans later.enums
  scalars := earlier.scalars.trans later.scalars
  inputs := earlier.inputs.trans later.inputs
  directives := earlier.directives.trans later.directives

theorem name_of_prefix {α : Type} {name : α → String} {xs ys : List α}
    (kept : xs.map name <+: ys.map name) {index : Nat} (found : xs[index]?.map name = some n) :
    ys[index]?.map name = some n := by
  rw [← List.getElem?_map] at found ⊢
  obtain ⟨inside, -⟩ := List.getElem?_eq_some_iff.1 found
  obtain ⟨more, equal⟩ := kept
  rw [← equal, List.getElem?_append_left inside, found]

theorem File.Extends.nameAt? (extended : before.Extends after) {target : Target}
    (found : before.nameAt? target = some n) : after.nameAt? target = some n := by
  cases target with
  | object index => exact name_of_prefix extended.objects found
  | interface index => exact name_of_prefix extended.interfaces found
  | union index => exact name_of_prefix extended.unions found
  | enum index => exact name_of_prefix extended.enums found
  | scalar index => exact name_of_prefix extended.scalars found
  | input index => exact name_of_prefix extended.inputs found
  | builtin scalar => exact found

/-! ## Names and their places -/

/-- The name of what is at the place that a name was given to. No name is given to a built-in
scalar. -/
def Entry.nameAt? (file : File) : Entry → Option String
  | .type (.builtin _) => none
  | .type target => file.nameAt? target
  | .directive index => file.directives[index]?.map DirectiveDefinition.name

theorem Entry.nameAt?_type {target : Target} :
    (Entry.type target).nameAt? file = some n ↔
      (∀ scalar, target ≠ .builtin scalar) ∧ file.nameAt? target = some n := by
  cases target <;> simp [Entry.nameAt?]

theorem File.Extends.entryNameAt? (extended : before.Extends after) {entry : Entry}
    (found : entry.nameAt? before = some n) : entry.nameAt? after = some n := by
  cases entry with
  | directive index => exact name_of_prefix extended.directives found
  | type target =>
    obtain ⟨defined, named⟩ := Entry.nameAt?_type.1 found
    exact Entry.nameAt?_type.2 ⟨defined, extended.nameAt? named⟩

/-- Each name was given once, to a place in the file where something has that name. -/
structure Names.PlacedIn (names : Names) (file : File) : Prop where
  placed : ∀ n entry, (n, entry) ∈ names.entries → entry.nameAt? file = some n
  distinct : names.toList.Nodup

theorem Names.PlacedIn.extend (placedIn : names.PlacedIn before)
    (extended : before.Extends after) : names.PlacedIn after where
  placed n entry member := extended.entryNameAt? (placedIn.placed n entry member)
  distinct := placedIn.distinct

/-- Different names have different places, as a place has one name. -/
theorem Names.PlacedIn.apart (placedIn : names.PlacedIn file) :
    (names.entries.map Prod.snd).Nodup := by
  have asNames : (names.entries.map Prod.snd).map (Entry.nameAt? file) =
      names.toList.map some := by
    rw [Names.toList, List.map_map, List.map_map]
    exact List.map_congr_left fun entry member => placedIn.placed entry.1 entry.2 member
  refine List.Nodup.of_map (Entry.nameAt? file) ?_
  rw [asNames]
  exact placedIn.distinct.map fun _ _ => Option.some.inj

theorem Names.PlacedIn.find? (placedIn : names.PlacedIn file) {entry : Entry}
    (found : names.find? n = some entry) : entry.nameAt? file = some n := by
  refine placedIn.placed n entry ?_
  obtain ⟨before, after, split, -⟩ := List.lookup_eq_some_iff.1 found
  rw [split]
  simp

theorem Names.PlacedIn.type? (placedIn : names.PlacedIn file) {target : Target}
    (found : names.type? n = some target) : file.nameAt? target = some n := by
  unfold Names.type? at found
  split at found
  · next entry =>
    cases found
    exact (Entry.nameAt?_type.1 (placedIn.find? entry)).2
  · cases found
  · obtain ⟨scalar, isScalar, rfl⟩ := Option.map_eq_some_iff.1 found
    rw [← Builtin.ofName?_eq_some.1 isScalar]
    rfl

theorem lt_of_name {α : Type} {name : α → String} {items : List α} {index : Nat}
    (found : items[index]?.map name = some n) : index < items.length := by
  obtain ⟨item, isItem, -⟩ := Option.map_eq_some_iff.1 found
  exact (List.getElem?_eq_some_iff.1 isItem).1

/-! ## What a file leads to -/

/-- All that a file refers to by place is in it, and what a reference names has that name. -/
structure File.Closed (file : File) : Prop where
  named : ∀ r ∈ file.references, file.nameAt? r.target = some r.name
  implements : ∀ c ∈ file.objects ++ file.interfaces, ∀ index ∈ c.implements,
    index < file.interfaces.length
  roots : ∀ operation index, file.schema.root? operation = some index →
    index < file.objects.length

/-- A step of a pass that looks up the given names: each definition of the second file is one of the
first, or was built from the names. Only definitions that lead anywhere are told of. -/
structure Names.Draws (names : Names) (before after : File) : Prop where
  objects : ∀ c ∈ after.objects, c ∈ before.objects ∨ ∃ d, names.composite d = .ok c
  interfaces : ∀ c ∈ after.interfaces, c ∈ before.interfaces ∨ ∃ d, names.composite d = .ok c
  unions : ∀ u ∈ after.unions, u ∈ before.unions ∨ ∃ d, names.union d = .ok u
  inputs : ∀ i ∈ after.inputs, i ∈ before.inputs ∨ ∃ d, names.input d = .ok i
  directives : ∀ e ∈ after.directives,
    e ∈ before.directives ∨ ∃ d, names.directiveDefinition d = .ok e
  roots : ∀ operation index, after.schema.root? operation = some index →
    before.schema.root? operation = some index ∨ index < after.objects.length

theorem Names.Draws.refl (names : Names) (file : File) : names.Draws file file := by
  constructor <;> intros <;> exact .inl (by assumption)

theorem Names.Draws.composite (draws : names.Draws before after) {c : Composite}
    (member : c ∈ after.objects ++ after.interfaces) :
    c ∈ before.objects ++ before.interfaces ∨ ∃ d, names.composite d = .ok c := by
  rcases List.mem_append.1 member with isObject | isInterface
  · exact (draws.objects c isObject).imp_left (List.mem_append_left _)
  · exact (draws.interfaces c isInterface).imp_left (List.mem_append_right _)

theorem Names.Draws.reference (draws : names.Draws before after) {r : NamedType}
    (member : r ∈ after.references) :
    r ∈ before.references ∨ names.type? r.name = some r.target := by
  simp only [File.references, List.mem_append] at member ⊢
  rcases member with ((inComposites | inUnions) | inInputs) | inDirectives
  · obtain ⟨c, present, inFields⟩ := List.mem_flatMap.1 inComposites
    rcases draws.composite present with old | ⟨d, built⟩
    · exact .inl (.inl (.inl (.inl (List.mem_flatMap.2 ⟨c, old, inFields⟩))))
    · exact .inr (Names.type?_of_composite built inFields)
  · obtain ⟨u, present, inMembers⟩ := List.mem_flatMap.1 inUnions
    rcases draws.unions u present with old | ⟨d, built⟩
    · exact .inl (.inl (.inl (.inr (List.mem_flatMap.2 ⟨u, old, inMembers⟩))))
    · obtain ⟨-, -, membersBuilt, -⟩ := Names.union_eq_ok.1 built
      obtain ⟨n, -, memberBuilt⟩ := exists_of_forall₂ (mapM_eq_ok.1 membersBuilt).flip inMembers
      obtain ⟨rfl, found⟩ := Names.namedType_eq_ok.1 memberBuilt
      exact .inr found
  · obtain ⟨i, present, inFields⟩ := List.mem_flatMap.1 inInputs
    rcases draws.inputs i present with old | ⟨d, built⟩
    · exact .inl (.inl (.inr (List.mem_flatMap.2 ⟨i, old, inFields⟩)))
    · exact .inr (Names.type?_of_inputValues (Names.input_eq_ok.1 built).2.2.2 inFields)
  · obtain ⟨e, present, inArguments⟩ := List.mem_flatMap.1 inDirectives
    rcases draws.directives e present with old | ⟨d, built⟩
    · exact .inl (.inr (List.mem_flatMap.2 ⟨e, old, inArguments⟩))
    · exact .inr (Names.type?_of_inputValues
        (Names.directiveDefinition_eq_ok.1 built).2.2.2.2 inArguments)

/-- One step of a pass keeps a file closed. -/
theorem File.Closed.step (closed : before.Closed) (extended : before.Extends after)
    (placedIn : names.PlacedIn after) (draws : names.Draws before after) : after.Closed where
  named r member := by
    rcases draws.reference member with old | found
    · exact extended.nameAt? (closed.named r old)
    · exact placedIn.type? found
  implements c member index isParent := by
    rcases draws.composite member with old | ⟨d, built⟩
    · have grown := extended.interfaces.length_le
      rw [List.length_map, List.length_map] at grown
      exact Nat.lt_of_lt_of_le (closed.implements c old index isParent) grown
    · obtain ⟨-, -, -, implemented, -⟩ := Names.composite_eq_ok.1 built
      obtain ⟨n, -, found⟩ := exists_of_forall₂ (mapM_eq_ok.1 implemented).flip isParent
      exact lt_of_name (placedIn.type? (Names.interfaceIndex_eq_ok.1 found))
  roots operation index isRoot := by
    rcases draws.roots operation index isRoot with old | inside
    · have grown := extended.objects.length_le
      rw [List.length_map, List.length_map] at grown
      exact Nat.lt_of_lt_of_le (closed.roots operation index old) grown
    · exact inside

/-! ## Registering -/

theorem drawn_of_mem_snoc {ε δ σ : Type} {build : δ → Except ε σ} {d : δ} {items : List σ}
    {item x : σ} (built : build d = .ok item) (member : x ∈ items ++ [item]) :
    x ∈ items ∨ ∃ d, build d = .ok x := by
  rcases List.mem_append.1 member with old | new
  · exact .inl old
  · rw [List.mem_singleton.1 new]
    exact .inr ⟨d, built⟩

theorem File.addStub_extends {definition : Definition} {entry : Entry}
    (added : file.addStub definition = some (n, entry, after)) :
    file.Extends after ∧ entry.nameAt? after = some n := by
  cases definition with
  | schema _ | other _ _ => cases added
  | scalar d | object d | interface d | union d | enum d | input d | directive d =>
    cases added
    refine ⟨?_, by simp [Entry.nameAt?, File.nameAt?]⟩
    constructor <;> simp

/-- What is at a new place is built from a definition with nothing but a name. -/
theorem File.addStub_draws {definition : Definition} {entry : Entry} (names : Names)
    (added : file.addStub definition = some (n, entry, after)) : names.Draws file after := by
  have same := Names.Draws.refl names file
  cases definition with
  | schema _ | other _ _ => cases added
  | scalar d | enum d =>
    cases added
    exact ⟨same.objects, same.interfaces, same.unions, same.inputs, same.directives, same.roots⟩
  | object d =>
    cases added
    exact { same with
      objects := fun _ => drawn_of_mem_snoc (d := { name := d.name }) rfl
      roots := fun _ _ isRoot => .inl isRoot }
  | interface d =>
    cases added
    exact { same with
      interfaces := fun _ => drawn_of_mem_snoc (d := { name := d.name }) rfl }
  | union d =>
    cases added
    exact { same with unions := fun _ => drawn_of_mem_snoc (d := { name := d.name }) rfl }
  | input d =>
    cases added
    exact { same with inputs := fun _ => drawn_of_mem_snoc (d := { name := d.name }) rfl }
  | directive d =>
    cases added
    exact { same with directives := fun _ => drawn_of_mem_snoc (d := { name := d.name }) rfl }

theorem Names.PlacedIn.add (placedIn : names.PlacedIn file) {entry : Entry}
    (new : names.find? n = none) (placed : entry.nameAt? file = some n) :
    (names.add n entry).PlacedIn file where
  placed m other member := by
    rcases List.mem_append.1 member with old | last
    · exact placedIn.placed m other old
    · cases List.mem_singleton.1 last
      exact placed
  distinct := by
    have absent : n ∉ names.toList := by
      intro present
      obtain ⟨⟨m, other⟩, member, rfl⟩ := List.mem_map.1 present
      have differs := List.lookup_eq_none_iff.1 new (m, other) member
      simp at differs
    rw [Names.toList, Names.add, List.map_append, List.map_singleton, List.nodup_append_comm]
    exact List.nodup_cons.2 ⟨absent, placedIn.distinct⟩

theorem Names.enroll_keeps {definition : Definition} {names' : Names}
    (placedIn : names.PlacedIn file) (closed : file.Closed)
    (enrolled : names.enroll file definition = .ok (names', after)) :
    file.Extends after ∧ names'.PlacedIn after ∧ after.Closed := by
  unfold Names.enroll at enrolled
  split at enrolled
  · split at enrolled
    · cases enrolled
    · cases enrolled
      exact ⟨.refl file, ⟨placedIn.placed, placedIn.distinct⟩, closed⟩
  · cases enrolled
  · split at enrolled
    · cases enrolled
      exact ⟨.refl file, placedIn, closed⟩
    · next name entry grown added =>
      split at enrolled
      · cases enrolled
      · next new =>
        cases enrolled
        obtain ⟨extended, placed⟩ := File.addStub_extends added
        have absent := Option.not_isSome_iff_eq_none.1 new
        have placedIn' := (placedIn.extend extended).add absent placed
        exact ⟨extended, placedIn', closed.step extended placedIn' (File.addStub_draws _ added)⟩

/-- The places that were made before a definition is refused stay, and the names in use are still
those from before. -/
theorem Names.enrollAll_keeps (document : Document) (placedIn : names.PlacedIn file)
    (closed : file.Closed) :
    file.Extends (names.enrollAll file document).1 ∧ (names.enrollAll file document).1.Closed ∧
      ∀ names', (names.enrollAll file document).2 = .ok names' →
        names'.PlacedIn (names.enrollAll file document).1 := by
  induction document generalizing names file with
  | nil =>
    refine ⟨.refl file, closed, ?_⟩
    rintro _ ⟨⟩
    exact placedIn
  | cons definition rest ih =>
    rw [Names.enrollAll]
    cases enrolled : names.enroll file definition with
    | error e =>
      refine ⟨.refl file, closed, ?_⟩
      rintro _ ⟨⟩
    | ok result =>
      obtain ⟨names', grown⟩ := result
      obtain ⟨extended, placedIn', closed'⟩ := Names.enroll_keeps placedIn closed enrolled
      obtain ⟨later, closedLater, placedLater⟩ := ih placedIn' closed'
      exact ⟨extended.trans later, closedLater, placedLater⟩

/-! ## Populating -/

theorem drawn_of_mem_set {ε δ σ : Type} {build : δ → Except ε σ} {d : δ} {items : List σ}
    {index : Nat} {item x : σ} (built : build d = .ok item) (member : x ∈ items.set index item) :
    x ∈ items ∨ ∃ d, build d = .ok x := by
  rcases List.mem_or_eq_of_mem_set member with old | rfl
  · exact .inl old
  · exact .inr ⟨d, built⟩

/-- A place is filled with what has its name, or the definition for it cannot be built. -/
theorem fillSlot_cases {α : Type} {name : α → String} {items : List α} {index : Nat}
    {outcome : Except SchemaError α} {keeps : File → Prop} (put : List α → File)
    (here : items[index]?.map name = some n) (named : ∀ item, outcome = .ok item → name item = n)
    (kept : ∀ item, outcome = .ok item → (items.set index item).map name = items.map name →
      keeps (put (items.set index item))) :
    let filled : Except (Abort SchemaError) File := do
      return put (← fillSlot items index (← Names.step outcome))
    (∃ e, filled = .error (.error e)) ∨ ∃ after, filled = .ok after ∧ keeps after := by
  cases outcome with
  | error e => exact .inl ⟨e, rfl⟩
  | ok item =>
    refine .inr ⟨put (items.set index item), ?_, kept item rfl ?_⟩
    · simp only [bind_eq_ok, pure_eq_ok]
      exact ⟨item, rfl, items.set index item, fillSlot_of_lt (lt_of_name here), rfl⟩
    · rw [← List.getElem?_map] at here
      obtain ⟨inside, isNamed⟩ := List.getElem?_eq_some_iff.1 here
      rw [List.map_set, named item rfl, ← isNamed, List.set_getElem_self]

/-- A definition is put in the place of its name, or it is refused. The place is never missing. -/
theorem Names.fill_cases (placedIn : names.PlacedIn file) (definition : Definition) :
    (∃ e, names.fill file definition = .error (.error e)) ∨
      ∃ after, names.fill file definition = .ok after ∧ file.Extends after ∧
        names.Draws file after := by
  have kept := File.Extends.refl file
  have same := Names.Draws.refl names file
  unfold Names.fill
  cases definition with
  | other kind name => exact .inl ⟨_, rfl⟩
  | schema block =>
    dsimp only
    cases built : names.roots block with
    | error e => exact .inl ⟨e, rfl⟩
    | ok roots =>
      refine .inr ⟨{ file with schema := roots }, rfl, { kept with }, { same with roots := ?_ }⟩
      intro operation index isRoot
      obtain ⟨n, -, found⟩ := Names.lastRoot?_of_root? built isRoot
      exact .inr (lt_of_name (placedIn.type? found))
  -- All other kinds are filled alike. What goes to a place was built for the name of the place, so
  -- the names in the list are the same as before.
  | scalar d =>
    dsimp only
    split
    · next found =>
      exact fillSlot_cases (fun scalars => { file with scalars }) (placedIn.find? found)
        (fun _ built => (scalar_eq_ok.1 built).1) fun _ _ sameNames =>
          ⟨{ kept with scalars := sameNames ▸ List.prefix_refl _ },
            { same with }⟩
    · exact .inl ⟨_, rfl⟩
  | object d =>
    dsimp only
    split
    · next found =>
      exact fillSlot_cases (fun objects => { file with objects }) (placedIn.find? found)
        (fun _ built => (composite_eq_ok.1 built).1) fun _ built sameNames =>
          ⟨{ kept with objects := sameNames ▸ List.prefix_refl _ },
            { same with
              objects := fun _ => drawn_of_mem_set built
              roots := fun _ _ isRoot => .inl isRoot }⟩
    · exact .inl ⟨_, rfl⟩
  | interface d =>
    dsimp only
    split
    · next found =>
      exact fillSlot_cases (fun interfaces => { file with interfaces }) (placedIn.find? found)
        (fun _ built => (composite_eq_ok.1 built).1) fun _ built sameNames =>
          ⟨{ kept with interfaces := sameNames ▸ List.prefix_refl _ },
            { same with interfaces := fun _ => drawn_of_mem_set built }⟩
    · exact .inl ⟨_, rfl⟩
  | union d =>
    dsimp only
    split
    · next found =>
      exact fillSlot_cases (fun unions => { file with unions }) (placedIn.find? found)
        (fun _ built => (union_eq_ok.1 built).1) fun _ built sameNames =>
          ⟨{ kept with unions := sameNames ▸ List.prefix_refl _ },
            { same with unions := fun _ => drawn_of_mem_set built }⟩
    · exact .inl ⟨_, rfl⟩
  | enum d =>
    dsimp only
    split
    · next found =>
      exact fillSlot_cases (fun enums => { file with enums }) (placedIn.find? found)
        (fun _ built => (enum_eq_ok.1 built).1) fun _ _ sameNames =>
          ⟨{ kept with enums := sameNames ▸ List.prefix_refl _ },
            { same with }⟩
    · exact .inl ⟨_, rfl⟩
  | input d =>
    dsimp only
    split
    · next found =>
      exact fillSlot_cases (fun inputs => { file with inputs }) (placedIn.find? found)
        (fun _ built => (input_eq_ok.1 built).1) fun _ built sameNames =>
          ⟨{ kept with inputs := sameNames ▸ List.prefix_refl _ },
            { same with inputs := fun _ => drawn_of_mem_set built }⟩
    · exact .inl ⟨_, rfl⟩
  | directive d =>
    dsimp only
    split
    · next found =>
      exact fillSlot_cases (fun directives => { file with directives }) (placedIn.find? found)
        (fun _ built => (directiveDefinition_eq_ok.1 built).1) fun _ built sameNames =>
          ⟨{ kept with directives := sameNames ▸ List.prefix_refl _ },
            { same with directives := fun _ => drawn_of_mem_set built }⟩
    · exact .inl ⟨_, rfl⟩

/-- The places that were filled before a definition fails stay filled. -/
theorem Names.populate_keeps (document : Document) (placedIn : names.PlacedIn file)
    (closed : file.Closed) :
    file.Extends (names.populate file document).1 ∧ (names.populate file document).1.Closed ∧
      ∀ defect, (names.populate file document).2 ≠ .error (.crash defect) := by
  induction document generalizing file with
  | nil =>
    refine ⟨.refl file, closed, ?_⟩
    rintro _ ⟨⟩
  | cons definition rest ih =>
    rw [Names.populate]
    rcases Names.fill_cases placedIn definition with ⟨e, failed⟩ | ⟨after, filled, extended, draws⟩
    · rw [failed]
      refine ⟨.refl file, closed, ?_⟩
      rintro _ ⟨⟩
    · have placedIn' := placedIn.extend extended
      obtain ⟨later, closedLater, safe⟩ := ih placedIn' (closed.step extended placedIn' draws)
      rw [filled]
      exact ⟨extended.trans later, closedLater, safe⟩

/-! ## Synthesizing -/

theorem Names.implicitRoots_lt {size query : Nat}
    {mutation subscription : Option Nat} (isQuery : query < size)
    (looked : (do
      let mutation ← names.implicitRoot? "Mutation"
      return (mutation, ← names.implicitRoot? "Subscription")) = .ok (mutation, subscription))
    (others : ∀ n index, names.implicitRoot? n = .ok (some index) → index < size)
    (operation : Operation) (index : Nat)
    (isRoot : Roots.root? { query := some query, mutation, subscription } operation =
      some index) : index < size := by
  simp only [bind_eq_ok, pure_eq_ok] at looked
  obtain ⟨_, isMutation, _, isSubscription, ⟨⟩⟩ := looked
  cases operation with
  | query =>
    cases isRoot
    exact isQuery
  | mutation =>
    cases isRoot
    exact others _ _ isMutation
  | subscription =>
    cases isRoot
    exact others _ _ isSubscription

/-- The roots are objects of the file, or the one that is added to it. -/
theorem Names.synthesize_draws (placedIn : names.PlacedIn file) :
    file.Extends (names.synthesize file).1 ∧ names.Draws file (names.synthesize file).1 := by
  have kept := File.Extends.refl file
  have same := Names.Draws.refl names file
  have inside : ∀ n index, names.implicitRoot? n = .ok (some index) →
      index < file.objects.length := fun n index looked =>
    lt_of_name (placedIn.find? (Names.implicitRoot?_eq_some.1 looked))
  unfold Names.synthesize
  split
  · exact ⟨kept, same⟩
  · next found isQuery =>
    cases found with
    | some query =>
      dsimp only
      split
      · exact ⟨kept, same⟩
      · next looked =>
        refine ⟨{ kept with }, { same with roots := fun operation index isRoot => .inr ?_ }⟩
        exact Names.implicitRoots_lt (inside _ _ isQuery) looked inside operation index isRoot
    | none =>
      have room : file.objects.length <
          (file.objects ++ [{ name := "Query" : Composite }]).length := by
        simp
      have extended : file.Extends
          { file with objects := file.objects ++ [{ name := "Query" }] } :=
        { kept with objects := by simp }
      have draws : names.Draws file
          { file with objects := file.objects ++ [{ name := "Query" }] } :=
        { same with
          objects := fun _ => drawn_of_mem_snoc (d := { name := "Query" }) rfl
          roots := fun _ _ isRoot => .inl isRoot }
      dsimp only
      split
      · exact ⟨extended, draws⟩
      · next looked =>
        refine ⟨{ extended with }, { draws with roots := fun operation index isRoot => .inr ?_ }⟩
        exact Names.implicitRoots_lt room looked
          (fun n index looked => Nat.lt_trans (inside n index looked) room) operation index isRoot

/-! ## Calls -/

/-- The names in use lead to places of those names, different names to different places, and all
that is in the file leads to places in it. -/
structure Session.Consistent (session : Session) : Prop where
  placed : session.names.PlacedIn session.file
  apart : (session.names.entries.map Prod.snd).Nodup
  closed : session.file.Closed

theorem Session.consistent_start (name : String) : Consistent { file := { name } } where
  placed := ⟨nofun, List.nodup_nil⟩
  apart := List.nodup_nil
  closed := ⟨nofun, nofun, fun operation _ isRoot => by cases operation <;> cases isRoot⟩

theorem Session.call_keeps {session : Session} (consistent : session.Consistent) (c : Call) :
    (session.call c).1.Consistent ∧ session.file.Extends (session.call c).1.file ∧
      ∀ defect, (session.call c).2 ≠ .error (.crash defect) := by
  obtain ⟨placedIn, apart, closed⟩ := consistent
  unfold Session.call
  cases c with
  | register document =>
    have unnamed : Names.PlacedIn {} session.file := ⟨nofun, List.nodup_nil⟩
    obtain ⟨extended, closed', listed⟩ := Names.enrollAll_keeps document unnamed closed
    dsimp only
    split
    · next registered =>
      unfold Names.register at registered
      rw [registered] at extended closed' listed
      have placedIn' := listed _ rfl
      exact ⟨⟨placedIn', placedIn'.apart, closed'⟩, extended, nofun⟩
    · next registered =>
      unfold Names.register at registered
      rw [registered] at extended closed'
      exact ⟨⟨placedIn.extend extended, apart, closed'⟩, extended, nofun⟩
  | populate document =>
    obtain ⟨extended, closed', safe⟩ := Names.populate_keeps document placedIn closed
    exact ⟨⟨placedIn.extend extended, apart, closed'⟩, extended, safe⟩
  | synthesize =>
    obtain ⟨extended, draws⟩ := Names.synthesize_draws placedIn
    have placedIn' := placedIn.extend extended
    refine ⟨⟨placedIn', apart, closed.step extended placedIn' draws⟩, extended, ?_⟩
    intro defect
    dsimp only
    cases (session.names.synthesize session.file).2 <;> nofun

theorem Session.run_keeps {session : Session} (consistent : session.Consistent)
    (calls : List Call) : (session.run calls).Consistent := by
  induction calls generalizing session with
  | nil => exact consistent
  | cons c rest ih => exact ih (Session.call_keeps consistent c).1

/-- A file is begun, and passes are called over any documents, in any order and however they end. At
each time the names and the file fit together. And one more call leaves all places where they are,
with their names, and does not miss a place. -/
theorem Session.run_consistent (name : String) (calls : List Call) (c : Call) :
    let session := Session.run { file := { name } } calls
    session.Consistent ∧ (session.call c).1.Consistent ∧
      session.file.Extends (session.call c).1.file ∧
      ∀ defect, (session.call c).2 ≠ .error (.crash defect) := by
  intro session
  have consistent : session.Consistent := Session.run_keeps (Session.consistent_start name) calls
  exact ⟨consistent, Session.call_keeps consistent c⟩

end SdlCompiler.Schema
