import SdlCompiler.Proofs.Outcome
import SdlCompiler.Proofs.Schema.Registration
import SdlCompiler.Schema.Compile

/-!
# The second pass

The second pass fills the place of each definition with the definition itself. While it runs,
the places of the definitions that it has passed are filled, and the others still empty; it ends
well exactly if every definition can be built.
-/

namespace SdlCompiler.Schema

open Document (Definition)
open Outcome

/-! ## One list of places -/

section Progress

variable {ε δ σ : Type} {build : δ → Except ε σ} {stub : δ → σ} {done rest : List δ}
  {slots : List σ} {d : δ} {slot : σ}

/-- Definitions in order and their results. -/
abbrev Built (build : δ → Except ε σ) : List δ → List σ → Prop :=
  List.Forall₂ fun d slot => build d = .ok slot

/-- Places of which those of `done` are filled and those of `rest` are not. -/
def Progress (build : δ → Except ε σ) (stub : δ → σ) (done rest : List δ) (slots : List σ) : Prop :=
  ∃ filled, Built build done filled ∧ slots = filled ++ rest.map stub

theorem Progress.start : Progress build stub [] rest (rest.map stub) :=
  ⟨[], .nil, rfl⟩

theorem Progress.finished (progress : Progress build stub done [] slots) :
    Built build done slots := by
  obtain ⟨filled, built, rfl⟩ := progress
  simpa using built

theorem Progress.place (progress : Progress build stub done (d :: rest) slots) :
    done.length < slots.length := by
  obtain ⟨filled, built, rfl⟩ := progress
  simp [built.length_eq]

/-- The next place is the first that is not filled. -/
theorem Progress.advance (progress : Progress build stub done (d :: rest) slots)
    (built : build d = .ok slot) :
    Progress build stub (done ++ [d]) rest (slots.set done.length slot) := by
  obtain ⟨filled, before, rfl⟩ := progress
  refine ⟨filled ++ [slot], List.rel_append before (.cons built .nil), ?_⟩
  rw [before.length_eq]
  simp

end Progress

/-! ## All lists of places -/

/-- A definition that can be built. -/
def Names.Builds (names : Names) : Definition → Prop
  | .schema block => ∃ roots, names.roots block = .ok roots
  | .scalar d => ∃ slot, Names.scalar d = .ok slot
  | .object d | .interface d => ∃ slot, names.composite d = .ok slot
  | .union d => ∃ slot, names.union d = .ok slot
  | .enum d => ∃ slot, Names.enum d = .ok slot
  | .input d => ∃ slot, names.input d = .ok slot
  | .directive d => ∃ slot, names.directiveDefinition d = .ok slot
  | .other _ _ => False

/-- A file in which the definitions of `done` are filled in and those of `rest` are not. -/
structure Filled (names : Names) (name : String) (done rest : Document) (file : File) : Prop where
  name : file.name = name
  schema : done.schemaBlocks.getLast?.elim (file.schema = {})
    fun block => names.roots block = .ok file.schema
  objects : Progress names.composite (fun d => { name := d.name })
    done.objects rest.objects file.objects
  interfaces : Progress names.composite (fun d => { name := d.name })
    done.interfaces rest.interfaces file.interfaces
  unions : Progress names.union (fun d => { name := d.name })
    done.unions rest.unions file.unions
  enums : Progress Names.enum (fun d => { name := d.name }) done.enums rest.enums file.enums
  scalars : Progress Names.scalar (fun d => { name := d.name })
    done.scalars rest.scalars file.scalars
  inputs : Progress names.input (fun d => { name := d.name })
    done.inputs rest.inputs file.inputs
  directives : Progress names.directiveDefinition (fun d => { name := d.name })
    done.directives rest.directives file.directives

theorem filled_stubs (names : Names) (name : String) (document : Document) :
    Filled names name [] document (File.stubs name document) where
  name := rfl
  schema := rfl
  objects := .start
  interfaces := .start
  unions := .start
  enums := .start
  scalars := .start
  inputs := .start
  directives := .start

theorem step_eq_ok {α : Type} {outcome : Except SchemaError α} {a : α} :
    Names.step outcome = .ok a ↔ outcome = .ok a :=
  mapError_eq_ok

theorem fillSlot_of_lt {α : Type} {items : List α} {index : Nat} {item : α}
    (inside : index < items.length) : fillSlot items index item = .ok (items.set index item) :=
  if_pos inside

theorem Names.builds_of_fill {names : Names} {file file' : File} {definition : Definition}
    (filled : names.fill file definition = .ok file') : names.Builds definition := by
  cases definition with
  | other kind name => cases filled
  | schema block =>
    simp only [Names.fill, bind_eq_ok, step_eq_ok] at filled
    obtain ⟨roots, built, -⟩ := filled
    exact ⟨roots, built⟩
  | scalar d | object d | interface d | union d | enum d | input d | directive d =>
    simp only [Names.fill] at filled
    split at filled
    · simp only [bind_eq_ok, step_eq_ok] at filled
      obtain ⟨slot, built, -⟩ := filled
      exact ⟨slot, built⟩
    · cases filled

/-- The name of the definition that comes next leads to its place. -/
theorem Names.Lists.find?_next {names : Names} {done rest : Document} {definition : Definition}
    {n : String} {entry : Entry} (listed : names.Lists (done ++ definition :: rest))
    (named : definition.name? = some n) (placed : Entry.after? done definition = some entry) :
    names.find? n = some entry := by
  rw [listed.find?]
  cases definition with
  | schema _ | other _ _ => cases named
  | scalar d | object d | interface d | union d | enum d | input d | directive d =>
    cases named
    cases placed
    simp [Entry.nameIn?, Document.objects, Document.interfaces, Document.unions, Document.enums,
      Document.scalars, Document.inputs, Document.directives, Definition.object?,
      Definition.interface?, Definition.union?, Definition.enum?, Definition.scalar?,
      Definition.input?, Definition.directive?]

/-- A definition that can be built goes to its own place, and nothing else changes. -/
theorem Names.fill_of_builds {names : Names} {name : String} {done rest : Document}
    {definition : Definition} {file : File}
    (listed : names.Lists (done ++ definition :: rest))
    (filled : Filled names name done (definition :: rest) file)
    (builds : names.Builds definition) :
    ∃ file', names.fill file definition = .ok file' ∧
      Filled names name (done ++ [definition]) rest file' := by
  obtain ⟨sameName, schema, objects, interfaces, unions, enums, scalars, inputs, directives⟩ :=
    filled
  cases definition with
  | other _ _ => cases builds
  | schema block =>
    obtain ⟨roots, built⟩ := builds
    refine ⟨{ file with schema := roots }, ?_, ?_⟩
    · simp only [Names.fill, bind_eq_ok, step_eq_ok, pure_eq_ok]
      exact ⟨roots, built, rfl⟩
    · constructor
      all_goals
        simp only [Document.schemaBlocks, Document.objects, Document.interfaces, Document.unions,
          Document.enums, Document.scalars, Document.inputs, Document.directives, filterMap_snoc,
          Definition.schemaBlock?, Definition.object?, Definition.interface?, Definition.union?,
          Definition.enum?, Definition.scalar?, Definition.input?, Definition.directive?,
          Option.toList_none, Option.toList_some, List.append_nil]
      any_goals assumption
      simpa using built
  | scalar d | object d | interface d | union d | enum d | input d | directive d =>
    obtain ⟨slot, built⟩ := builds
    simp only [Names.fill, listed.find?_next rfl rfl, bind_eq_ok, step_eq_ok, pure_eq_ok]
    refine ⟨_, ⟨slot, built, _, fillSlot_of_lt (Progress.place (by assumption)), rfl⟩, ?_⟩
    constructor
    all_goals
      simp only [Document.schemaBlocks, Document.objects, Document.interfaces, Document.unions,
        Document.enums, Document.scalars, Document.inputs, Document.directives, filterMap_snoc,
        Definition.schemaBlock?, Definition.object?, Definition.interface?, Definition.union?,
        Definition.enum?, Definition.scalar?, Definition.input?, Definition.directive?,
        Option.toList_none, Option.toList_some, List.append_nil]
    -- Only the list of the definition's own kind has changed.
    any_goals assumption
    exact Progress.advance (by assumption) built

/-- The pass over the rest of a document, after the definitions in `done`. -/
theorem Names.populate_spec {names : Names} {name : String} {done : Document} (rest : Document)
    {file : File} (listed : names.Lists (done ++ rest))
    (filled : Filled names name done rest file) :
    match names.populate file rest with
    | (file', .ok ()) => (∀ d ∈ rest, names.Builds d) ∧ Filled names name (done ++ rest) [] file'
    | (_, .error _) => ¬ ∀ d ∈ rest, names.Builds d := by
  induction rest generalizing done file with
  | nil => simpa [Names.populate] using filled
  | cons definition rest ih =>
    rw [Names.populate]
    cases outcome : names.fill file definition with
    | error abort =>
      dsimp only
      intro builds
      obtain ⟨file', success, -⟩ :=
        Names.fill_of_builds listed filled (builds definition (by simp))
      rw [outcome] at success
      cases success
    | ok file' =>
      have builds := Names.builds_of_fill outcome
      obtain ⟨file'', success, filled'⟩ := Names.fill_of_builds listed filled builds
      rw [outcome] at success
      cases success
      have reassoc : done ++ definition :: rest = (done ++ [definition]) ++ rest := by simp
      rw [reassoc] at listed
      have later := ih listed filled'
      rw [← reassoc] at later
      dsimp only
      cases final : names.populate file' rest with
      | mk last result =>
        rw [final] at later
        cases result with
        | ok _ =>
          obtain ⟨restBuild, filledAll⟩ := later
          refine ⟨?_, filledAll⟩
          intro d member
          rcases List.mem_cons.mp member with rfl | inRest
          · exact builds
          · exact restBuild d inRest
        | error abort =>
          intro all
          exact later fun d member => all d (by simp [member])

end SdlCompiler.Schema
