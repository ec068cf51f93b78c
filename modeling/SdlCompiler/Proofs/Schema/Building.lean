import SdlCompiler.Proofs.Outcome
import SdlCompiler.Proofs.Schema.Parts
import SdlCompiler.Schema.Resolve

/-!
# Building one definition

What each part of a definition becomes when it is built, part by part: names and descriptions
stay, types are looked up, and values get their numbers.
-/

namespace SdlCompiler.Schema.Names

open Outcome

variable {names : Names} {context parent n : String}

/-! ## Values and types -/

theorem int_eq_ok {text : String} {m : Int64} :
    int context text = .ok m ↔ Numeric.int64? text.toList = some m := by
  rw [int]
  split <;> simp_all

theorem float_eq_ok {text : String} {x : Numeric.Binary64} :
    float context text = .ok x ↔ Numeric.Binary64.readFinite? text.toList = some x := by
  rw [float]
  split <;> simp_all

theorem argument_eq_ok {a : String × Document.Value} {b : String × Value} :
    argument context a = .ok b ↔ b.1 = a.1 ∧ value context a.2 = .ok b.2 := by
  simp only [argument, bind_eq_ok, pure_eq_ok]
  constructor
  · rintro ⟨v, built, rfl⟩
    exact ⟨rfl, built⟩
  · rintro ⟨same, built⟩
    exact ⟨b.2, built, by rw [← same]⟩

theorem directive_eq_ok {d : Document.Directive} {e : Directive} :
    directive context d = .ok e ↔
      e.name = d.name ∧ d.arguments.mapM (argument context) = .ok e.arguments := by
  simp only [directive, bind_eq_ok, pure_eq_ok]
  constructor
  · rintro ⟨arguments, built, rfl⟩
    exact ⟨rfl, built⟩
  · rintro ⟨same, built⟩
    exact ⟨e.arguments, built, by rw [← same]⟩

theorem namedType_eq_ok {t : NamedType} :
    names.namedType context n = .ok t ↔ t.name = n ∧ names.type? n = some t.target := by
  rw [namedType]
  cases found : names.type? n with
  | none => simp
  | some target =>
    obtain ⟨m, target'⟩ := t
    simp [eq_comm]

/-! ## Parts of definitions -/

theorem inputValue_eq_ok {v : Document.InputValue} {w : InputValue} :
    names.inputValue parent v = .ok w ↔
      w.name = v.name ∧ w.description = v.description ∧
        names.typeRef (parent ++ "." ++ v.name) v.type = .ok w.type ∧
        v.default.mapM (value (parent ++ "." ++ v.name)) = .ok w.default ∧
        directives (parent ++ "." ++ v.name) v.directives = .ok w.directives := by
  simp only [inputValue, bind_eq_ok, pure_eq_ok]
  constructor
  · rintro ⟨type, typed, default, valued, applied, directed, rfl⟩
    exact ⟨rfl, rfl, typed, valued, directed⟩
  · rintro ⟨sameName, sameText, typed, valued, directed⟩
    exact ⟨w.type, typed, w.default, valued, w.directives, directed, by
      rw [← sameName, ← sameText]⟩

theorem field_eq_ok {f : Document.Field} {g : Field} :
    names.field parent f = .ok g ↔
      g.name = f.name ∧ g.description = f.description ∧
        directives (parent ++ "." ++ f.name) f.directives = .ok g.directives ∧
        names.typeRef (parent ++ "." ++ f.name) f.type = .ok g.type ∧
        f.arguments.mapM (names.inputValue (parent ++ "." ++ f.name)) = .ok g.arguments := by
  simp only [field, bind_eq_ok, pure_eq_ok]
  constructor
  · rintro ⟨applied, directed, type, typed, arguments, built, rfl⟩
    exact ⟨rfl, rfl, directed, typed, built⟩
  · rintro ⟨sameName, sameText, directed, typed, built⟩
    exact ⟨g.directives, directed, g.type, typed, g.arguments, built, by
      rw [← sameName, ← sameText]⟩

theorem interfaceIndex_eq_ok {index : Nat} :
    names.interfaceIndex context n = .ok index ↔ names.type? n = some (.interface index) := by
  rw [interfaceIndex]
  split <;> simp_all

theorem enumValue_eq_ok {v : Document.EnumValue} {w : EnumValue} :
    enumValue parent v = .ok w ↔
      w.name = v.name ∧ w.description = v.description ∧
        directives (parent ++ "." ++ v.name) v.directives = .ok w.directives := by
  simp only [enumValue, bind_eq_ok, pure_eq_ok]
  constructor
  · rintro ⟨applied, directed, rfl⟩
    exact ⟨rfl, rfl, directed⟩
  · rintro ⟨sameName, sameText, directed⟩
    exact ⟨w.directives, directed, by rw [← sameName, ← sameText]⟩

theorem location_eq_ok {text : String} {place : Location} :
    location n text = .ok place ↔ Location.ofName? text = some place := by
  rw [location]
  split <;> simp_all

theorem ofName?_eq_some {text : String} {place : Location}
    (found : Location.ofName? text = some place) : place.name = text := by
  simpa using List.find?_some found

/-! ## Definitions -/

theorem scalar_eq_ok {d : Document.Scalar} {s : Scalar} :
    scalar d = .ok s ↔
      s.name = d.name ∧ s.description = d.description ∧
        directives d.name d.directives = .ok s.directives := by
  simp only [scalar, bind_eq_ok, pure_eq_ok]
  constructor
  · rintro ⟨applied, directed, rfl⟩
    exact ⟨rfl, rfl, directed⟩
  · rintro ⟨sameName, sameText, directed⟩
    exact ⟨s.directives, directed, by rw [← sameName, ← sameText]⟩

theorem composite_eq_ok {d : Document.Composite} {c : Composite} :
    names.composite d = .ok c ↔
      c.name = d.name ∧ c.description = d.description ∧
        directives d.name d.directives = .ok c.directives ∧
        d.implements.mapM (names.interfaceIndex d.name) = .ok c.implements ∧
        d.fields.mapM (names.field d.name) = .ok c.fields := by
  simp only [composite, bind_eq_ok, pure_eq_ok]
  constructor
  · rintro ⟨applied, directed, implements, implemented, fields, built, rfl⟩
    exact ⟨rfl, rfl, directed, implemented, built⟩
  · rintro ⟨sameName, sameText, directed, implemented, built⟩
    exact ⟨c.directives, directed, c.implements, implemented, c.fields, built, by
      rw [← sameName, ← sameText]⟩

theorem union_eq_ok {d : Document.Union} {u : Union} :
    names.union d = .ok u ↔
      u.name = d.name ∧ u.description = d.description ∧
        d.members.mapM (names.namedType d.name) = .ok u.members ∧
        directives d.name d.directives = .ok u.directives := by
  simp only [union, bind_eq_ok, pure_eq_ok]
  constructor
  · rintro ⟨members, built, applied, directed, rfl⟩
    exact ⟨rfl, rfl, built, directed⟩
  · rintro ⟨sameName, sameText, built, directed⟩
    exact ⟨u.members, built, u.directives, directed, by rw [← sameName, ← sameText]⟩

theorem enum_eq_ok {d : Document.Enum} {e : Enum} :
    enum d = .ok e ↔
      e.name = d.name ∧ e.description = d.description ∧
        d.values.mapM (enumValue d.name) = .ok e.values ∧
        directives d.name d.directives = .ok e.directives := by
  simp only [enum, bind_eq_ok, pure_eq_ok]
  constructor
  · rintro ⟨values, built, applied, directed, rfl⟩
    exact ⟨rfl, rfl, built, directed⟩
  · rintro ⟨sameName, sameText, built, directed⟩
    exact ⟨e.values, built, e.directives, directed, by rw [← sameName, ← sameText]⟩

theorem input_eq_ok {d : Document.InputObject} {i : InputObject} :
    names.input d = .ok i ↔
      i.name = d.name ∧ i.description = d.description ∧
        directives d.name d.directives = .ok i.directives ∧
        d.fields.mapM (names.inputValue d.name) = .ok i.fields := by
  simp only [input, bind_eq_ok, pure_eq_ok]
  constructor
  · rintro ⟨applied, directed, fields, built, rfl⟩
    exact ⟨rfl, rfl, directed, built⟩
  · rintro ⟨sameName, sameText, directed, built⟩
    exact ⟨i.directives, directed, i.fields, built, by rw [← sameName, ← sameText]⟩

theorem directiveDefinition_eq_ok {d : Document.DirectiveDefinition} {e : DirectiveDefinition} :
    names.directiveDefinition d = .ok e ↔
      e.name = d.name ∧ e.description = d.description ∧ e.repeatable = d.repeatable ∧
        d.locations.mapM (location d.name) = .ok e.locations ∧
        d.arguments.mapM (names.inputValue ("@" ++ d.name)) = .ok e.arguments := by
  simp only [directiveDefinition, bind_eq_ok, pure_eq_ok]
  constructor
  · rintro ⟨locations, placed, arguments, built, rfl⟩
    exact ⟨rfl, rfl, rfl, placed, built⟩
  · rintro ⟨sameName, sameText, sameFlag, placed, built⟩
    exact ⟨e.locations, placed, e.arguments, built, by rw [← sameName, ← sameText, ← sameFlag]⟩

/-! ## The schema block -/

theorem rootIndex_eq_ok {index : Nat} :
    names.rootIndex n = .ok index ↔ names.type? n = some (.object index) := by
  rw [rootIndex]
  split <;> simp_all

theorem withRoot_eq_ok {before after : Roots} {entry : Operation × String} :
    names.withRoot before entry = .ok after ↔
      ∃ index, names.type? entry.2 = some (.object index) ∧
        after.directives = before.directives ∧
        ∀ operation, after.root? operation =
          if entry.1 = operation then some index else before.root? operation := by
  simp only [withRoot, bind_eq_ok, rootIndex_eq_ok]
  refine exists_congr fun index => and_congr_right fun _ => ?_
  obtain ⟨directives, query, mutation, subscription⟩ := after
  rcases entry with ⟨kind, n⟩
  constructor
  · intro set
    refine ⟨?_, fun operation => ?_⟩
    · cases kind <;> cases set <;> rfl
    · cases kind <;> cases set <;> cases operation <;> rfl
  · rintro ⟨rfl, set⟩
    have query := set .query
    have mutation := set .mutation
    have subscription := set .subscription
    cases kind <;> cases query <;> cases mutation <;> cases subscription <;> rfl

/-- The roots after a list of entries: for each operation the object of the last entry, or the
root from before. -/
theorem root?_of_foldlM {entries : List (Operation × String)} {before after : Roots}
    (built : entries.foldlM names.withRoot before = .ok after) :
    after.directives = before.directives ∧
      ∀ operation, (Document.lastRoot? entries operation).elim
        (after.root? operation = before.root? operation)
        fun n => ∃ index, names.type? n = some (.object index) ∧
          after.root? operation = some index := by
  induction entries generalizing before with
  | nil =>
    rw [List.foldlM_nil, pure_eq_ok] at built
    subst built
    exact ⟨rfl, fun operation => rfl⟩
  | cons entry rest ih =>
    rw [List.foldlM_cons, bind_eq_ok] at built
    obtain ⟨middle, first, later⟩ := built
    obtain ⟨index, found, directed, set⟩ := withRoot_eq_ok.mp first
    obtain ⟨restDirected, restSet⟩ := ih later
    refine ⟨restDirected.trans directed, fun operation => ?_⟩
    have byRest := restSet operation
    rw [Document.lastRoot?_cons]
    cases last : Document.lastRoot? rest operation with
    | some n =>
      rw [last] at byRest
      exact byRest
    | none =>
      rw [last, Option.elim_none, set operation] at byRest
      by_cases same : entry.1 = operation
      · rw [if_pos same] at byRest ⊢
        exact ⟨index, found, byRest⟩
      · rw [if_neg same] at byRest ⊢
        exact byRest

theorem exists_withRoot {before : Roots} {entry : Operation × String} :
    (∃ after, names.withRoot before entry = .ok after) ↔
      ∃ index, names.type? entry.2 = some (.object index) := by
  obtain ⟨kind, n⟩ := entry
  simp only [← rootIndex_eq_ok]
  cases kind <;> exact exists_bind_pure_eq_ok

theorem exists_foldlM_withRoot {entries : List (Operation × String)} {before : Roots} :
    (∃ after, entries.foldlM names.withRoot before = .ok after) ↔
      ∀ entry ∈ entries, ∃ index, names.type? entry.2 = some (.object index) := by
  induction entries generalizing before with
  | nil => simp [pure_eq_ok]
  | cons entry rest ih =>
    rw [List.foldlM_cons, exists_bind_eq_ok fun _ => ih, exists_withRoot, List.forall_mem_cons]

theorem roots_of_eq_ok {block : Document.SchemaBlock} {built : Roots}
    (success : names.roots block = .ok built) :
    directives "the schema definition" block.directives = .ok built.directives ∧
      ∀ operation, (Document.lastRoot? block.roots operation).elim
        (built.root? operation = none)
        fun n => ∃ index, names.type? n = some (.object index) ∧
          built.root? operation = some index := by
  simp only [roots, bind_eq_ok] at success
  obtain ⟨applied, directed, folded⟩ := success
  obtain ⟨sameDirectives, set⟩ := root?_of_foldlM folded
  refine ⟨sameDirectives ▸ directed, fun operation => ?_⟩
  have byEntries := set operation
  cases operation <;> exact byEntries

/-- A root is the object that the last entry for its operation names. -/
theorem lastRoot?_of_root? {block : Document.SchemaBlock} {built : Roots}
    (success : names.roots block = .ok built) {operation : Operation} {index : Nat}
    (isRoot : built.root? operation = some index) :
    ∃ n, Document.lastRoot? block.roots operation = some n ∧
      names.type? n = some (.object index) := by
  have byEntries := (roots_of_eq_ok success).2 operation
  cases entry : Document.lastRoot? block.roots operation with
  | none =>
    rw [entry, Option.elim_none, isRoot] at byEntries
    cases byEntries
  | some n =>
    rw [entry] at byEntries
    obtain ⟨found, looked, set⟩ := byEntries
    rw [isRoot] at set
    cases set
    exact ⟨n, rfl, looked⟩

end SdlCompiler.Schema.Names
