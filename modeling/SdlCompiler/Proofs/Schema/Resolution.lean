import SdlCompiler.Proofs.Schema.Population

/-!
# Resolved documents

What a file holds that a document was resolved to: each definition built, in its place, and the
roots of the schema. How the passes over a document end is said once (`Passes`), and the properties
of resolution follow without another look at them.
-/

namespace SdlCompiler.Schema

open Document (Definition)
open Outcome

/-- The object that a file has besides those of its document: an empty `Query`, if the document
neither tells its roots nor defines anything of that name. -/
def addedObjects (document : Document) : List Composite :=
  if document.schemaBlocks = [] ∧ "Query" ∉ document.names then [{ name := "Query" }] else []

/-- The roots of a document without a schema block: those of its own definitions, and for
queries the object that is added. -/
structure Names.ImplicitRoots (names : Names) (document : Document) (roots : Roots) : Prop where
  directives : roots.directives = []
  query : ∃ found, names.implicitRoot? "Query" = .ok found ∧
    roots.query = some (found.getD document.objects.length)
  mutation : names.implicitRoot? "Mutation" = .ok roots.mutation
  subscription : names.implicitRoot? "Subscription" = .ok roots.subscription

/-- The file that a document resolves to. -/
structure Resolved (names : Names) (name : String) (document : Document) (file : File) : Prop where
  name : file.name = name
  schema : document.schemaBlocks.getLast?.elim (names.ImplicitRoots document file.schema)
    fun block => names.roots block = .ok file.schema
  objects : ∃ built, Built names.composite document.objects built ∧
    file.objects = built ++ addedObjects document
  interfaces : Built names.composite document.interfaces file.interfaces
  unions : Built names.union document.unions file.unions
  enums : Built Names.enum document.enums file.enums
  scalars : Built Names.scalar document.scalars file.scalars
  inputs : Built names.input document.inputs file.inputs
  directives : Built names.directiveDefinition document.directives file.directives

/-- The usual root names belong to objects, where the document does not tell its roots. -/
def Names.RootsFound (names : Names) (document : Document) : Prop :=
  document.schemaBlocks = [] →
    ∀ n ∈ ["Query", "Mutation", "Subscription"], ∃ found, names.implicitRoot? n = .ok found

theorem Names.implicitRoot?_eq_none {names : Names} {n : String} :
    names.implicitRoot? n = .ok none ↔ names.find? n = none := by
  rw [Names.implicitRoot?]
  split <;> simp_all

theorem Names.implicitRoot?_eq_some {names : Names} {n : String} {index : Nat} :
    names.implicitRoot? n = .ok (some index) ↔ names.find? n = some (.type (.object index)) := by
  rw [Names.implicitRoot?]
  split <;> simp_all

theorem resolved_of_schemaBlock {names : Names} {name : String} {document : Document}
    {file : File} (filled : Filled names name document [] file)
    (present : document.schemaBlocks ≠ []) : Resolved names name document file where
  name := filled.name
  schema := by
    have built := filled.schema
    rw [List.getLast?_eq_some_getLast present] at built ⊢
    exact built
  objects := ⟨file.objects, filled.objects.finished, by simp [addedObjects, present]⟩
  interfaces := filled.interfaces.finished
  unions := filled.unions.finished
  enums := filled.enums.finished
  scalars := filled.scalars.finished
  inputs := filled.inputs.finished
  directives := filled.directives.finished

/-- The roots are found by name in a file that is filled, or else the file stays without. -/
theorem Names.synthesize_spec {names : Names} {name : String} {document : Document} {file : File}
    (listed : names.Lists document) (filled : Filled names name document [] file)
    (absent : document.schemaBlocks = []) :
    match names.synthesize file with
    | (file', .ok ()) => names.RootsFound document ∧ Resolved names name document file'
    | (_, .error _) => ¬ names.RootsFound document := by
  have built := filled.objects.finished
  have missing : ∀ n ∈ ["Query", "Mutation", "Subscription"], ∀ e,
      names.implicitRoot? n = .error e → ¬names.RootsFound document := by
    intro n member e failed found
    obtain ⟨_, success⟩ := found absent n member
    rw [failed] at success
    cases success
  rw [Names.synthesize]
  cases queryFound : names.implicitRoot? "Query" with
  | error e => exact missing "Query" (by simp) e queryFound
  | ok query =>
    dsimp only
    cases mutationFound : names.implicitRoot? "Mutation" with
    | error e => exact missing "Mutation" (by simp) e mutationFound
    | ok mutation =>
      cases subscriptionFound : names.implicitRoot? "Subscription" with
      | error e => exact missing "Subscription" (by simp) e subscriptionFound
      | ok subscription =>
        simp only [bind, Except.bind, pure, Except.pure]
        refine ⟨?_, ?_⟩
        · intro _ n member
          simp only [List.mem_cons, List.not_mem_nil, or_false] at member
          rcases member with rfl | rfl | rfl
          · exact ⟨query, queryFound⟩
          · exact ⟨mutation, mutationFound⟩
          · exact ⟨subscription, subscriptionFound⟩
        · have defined : "Query" ∈ document.names ↔ query ≠ none := by
            rw [← not_iff_not, ← listed.find?_eq_none, ← Names.implicitRoot?_eq_none, queryFound]
            simp
          constructor
          case name => cases query <;> exact filled.name
          case schema =>
            rw [absent]
            refine ⟨rfl, ⟨query, queryFound, ?_⟩, mutationFound, subscriptionFound⟩
            cases query with
            | none => simp [built.length_eq]
            | some index => rfl
          case objects =>
            -- An object is added only if the document defines none of that name.
            refine ⟨file.objects, built, ?_⟩
            cases query with
            | none => simp [addedObjects, absent, defined]
            | some index => simp [addedObjects, defined]
          case interfaces => cases query <;> exact filled.interfaces.finished
          case unions => cases query <;> exact filled.unions.finished
          case enums => cases query <;> exact filled.enums.finished
          case scalars => cases query <;> exact filled.scalars.finished
          case inputs => cases query <;> exact filled.inputs.finished
          case directives => cases query <;> exact filled.directives.finished

/-! ## All passes -/

/-- The names that the first pass gives to the definitions of a document. -/
structure Names.GivenBy (names : Names) (name : String) (document : Document) : Prop where
  registered : Names.register document { name } = (File.stubs name document, .ok names)
  registrable : Registrable document
  listed : names.Lists document

/-- How the passes over a document end: with a definition that is refused, with one that cannot be
built, or with all of them in their places. Then the roots are told, or they are looked for. -/
inductive Passes (name : String) (document : Document) : Except (Abort SchemaError) File → Prop
  | refused {stubs : File} {e : SchemaError} :
      Names.register document { name } = (stubs, .error e) →
      Passes name document (.error (.error e))
  | unbuilt {names : Names} {file : File} {abort : Abort SchemaError} :
      names.GivenBy name document →
      names.populate (File.stubs name document) document = (file, .error abort) →
      Passes name document (.error abort)
  | told {names : Names} {file : File} : names.GivenBy name document →
      (∀ d ∈ document, names.Builds d) → Filled names name document [] file →
      document.schemaBlocks ≠ [] → Passes name document (.ok file)
  | rootless {names : Names} {file final : File} {e : SchemaError} : names.GivenBy name document →
      (∀ d ∈ document, names.Builds d) → Filled names name document [] file →
      document.schemaBlocks = [] → names.synthesize file = (final, .error e) →
      Passes name document (.error (.error e))
  | rooted {names : Names} {file final : File} : names.GivenBy name document →
      (∀ d ∈ document, names.Builds d) → Filled names name document [] file →
      document.schemaBlocks = [] → names.synthesize file = (final, .ok ()) →
      Passes name document (.ok final)

theorem resolve_passes (name : String) (document : Document) :
    Passes name document (resolve name document) := by
  have spec := Names.register_spec name document
  rw [resolve]
  cases first : Names.register document { name } with
  | mk stubs outcome =>
    rw [first] at spec
    cases outcome with
    | error e => exact .refused first
    | ok names =>
      obtain ⟨registrable, rfl, listed⟩ := spec
      have given : names.GivenBy name document := ⟨first, registrable, listed⟩
      have populated := @Names.populate_spec names name [] document _ listed
        (filled_stubs names name document)
      simp only [Names.step, Except.mapError, bind, Except.bind]
      cases second : names.populate (File.stubs name document) document with
      | mk file outcome =>
        rw [second] at populated
        cases outcome with
        | error abort => exact .unbuilt given second
        | ok _ =>
          obtain ⟨builds, filled⟩ := populated
          rw [List.nil_append] at filled
          dsimp only
          by_cases present : names.hasSchema
          · rw [if_pos present]
            exact .told given builds filled (listed.hasSchema.mp present)
          · rw [if_neg present]
            have absent : document.schemaBlocks = [] := by
              by_contra blocks
              exact present (listed.hasSchema.mpr blocks)
            cases third : names.synthesize file with
            | mk final outcome =>
              cases outcome with
              | error e => exact .rootless given builds filled absent third
              | ok _ => exact .rooted given builds filled absent third

/-- Resolution succeeds exactly if the document can be registered, each of its definitions can
be built from its names, and its roots are found; and then it gives the resolved file. -/
theorem resolve_spec (name : String) (document : Document) :
    match resolve name document with
    | .ok file => Registrable document ∧ ∃ names : Names, names.Lists document ∧
        (∀ d ∈ document, names.Builds d) ∧ names.RootsFound document ∧
        Resolved names name document file
    | .error _ => ¬ (Registrable document ∧ ∀ names : Names, names.Lists document →
        (∀ d ∈ document, names.Builds d) ∧ names.RootsFound document) := by
  have passes := resolve_passes name document
  generalize resolve name document = outcome at passes
  cases passes with
  | refused failed =>
    have spec := Names.register_spec name document
    rw [failed] at spec
    exact fun ⟨registrable, _⟩ => spec registrable
  | @unbuilt names _ _ given failed =>
    have spec := @Names.populate_spec names name [] document _ given.listed
      (filled_stubs names name document)
    rw [failed] at spec
    exact fun ⟨_, all⟩ => spec (all names given.listed).1
  | @told names _ given builds filled blocks =>
    exact ⟨given.registrable, names, given.listed, builds, fun absent => absurd absent blocks,
      resolved_of_schemaBlock filled blocks⟩
  | @rootless names _ _ _ given _ filled absent failed =>
    have spec := Names.synthesize_spec given.listed filled absent
    rw [failed] at spec
    exact fun ⟨_, all⟩ => spec (all names given.listed).2
  | @rooted names _ _ given builds filled absent done =>
    have spec := Names.synthesize_spec given.listed filled absent
    rw [done] at spec
    exact ⟨given.registrable, names, given.listed, builds, spec.1, spec.2⟩

end SdlCompiler.Schema
