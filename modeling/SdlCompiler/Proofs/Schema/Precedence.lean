import SdlCompiler.Proofs.Schema.Acceptance
import SdlCompiler.Proofs.Schema.Faults

/-!
# Which error is reported

A document that does not resolve may be wrong in many places. What is reported is settled pass by
pass: a definition that the first pass refuses comes before all that the second pass could find,
and within a pass the definitions are looked at in order. The roots that a document does not tell
are looked for last.

Building a definition never gives an error of the first pass (`Names.build_error`). So the second
pass, which knows these errors too, does not report them.
-/

namespace SdlCompiler.Schema

open Document (Definition)
open Outcome

/-! ## The first definition that fails -/

section

variable {fails : Document → Definition → SchemaError → Prop} {document : Document}
  {definition : Definition} {e : SchemaError}

/-- Some definition fails after those before it. -/
def FailsSomewhere (fails : Document → Definition → SchemaError → Prop) (document : Document) :
    Prop :=
  ∃ before d after e, document = before ++ d :: after ∧ fails before d e

/-- The error of the first definition that fails. -/
def FailsFirst (fails : Document → Definition → SchemaError → Prop) (document : Document)
    (e : SchemaError) : Prop :=
  ∃ before d after, document = before ++ d :: after ∧ ¬FailsSomewhere fails before ∧
    fails before d e

theorem FailsFirst.somewhere (first : FailsFirst fails document e) :
    FailsSomewhere fails document := by
  obtain ⟨before, d, after, split, -, failed⟩ := first
  exact ⟨before, d, after, e, split, failed⟩

theorem failsSomewhere_nil : ¬FailsSomewhere fails [] := by
  rintro ⟨before, d, after, e, split, -⟩
  cases before <;> cases split

theorem failsSomewhere_snoc :
    FailsSomewhere fails (document ++ [definition]) ↔
      FailsSomewhere fails document ∨ ∃ e, fails document definition e := by
  constructor
  · rintro ⟨before, d, after, e, split, failed⟩
    rcases List.eq_nil_or_concat after with rfl | ⟨later, last, rfl⟩
    · obtain ⟨rfl, same⟩ := List.append_inj' split rfl
      cases same
      exact .inr ⟨e, failed⟩
    · rw [List.concat_eq_append, ← List.cons_append, ← List.append_assoc] at split
      obtain ⟨rfl, -⟩ := List.append_inj' split rfl
      exact .inl ⟨before, d, later, e, rfl, failed⟩
  · rintro (⟨before, d, after, e, rfl, failed⟩ | ⟨e, failed⟩)
    · exact ⟨before, d, after ++ [definition], e, by simp, failed⟩
    · exact ⟨document, definition, [], e, rfl, failed⟩

end

/-! ## The first pass -/

/-- Why a definition is refused after those before it. -/
inductive Refused (before : Document) : Definition → SchemaError → Prop
  | unsupported (kind : String) (name : Option String) :
      Refused before (.other kind name) (.unsupportedDefinition kind name)
  | secondSchema (block : Document.SchemaBlock) (earlier : before.schemaBlocks ≠ []) :
      Refused before (.schema block) .duplicateSchema
  | repeated {d : Definition} {n : String} (named : d.name? = some n) (taken : n ∈ before.names) :
      Refused before d (.duplicateDefinition n)

variable {names : Names} {name : String} {document done rest : Document} {definition : Definition}
  {file : File} {e : SchemaError}

theorem admits_iff : Admits document definition ↔ ¬∃ e, Refused document definition e := by
  constructor
  · rintro admits ⟨e, refused⟩
    cases refused with
    | unsupported kind name => exact admits.supported kind name rfl
    | secondSchema block earlier => exact earlier (admits.firstSchema rfl)
    | repeated named taken => exact admits.newName _ named taken
  · intro free
    refine ⟨?_, ?_, fun n named taken => free ⟨_, .repeated named taken⟩⟩
    · rintro kind name rfl
      exact free ⟨_, .unsupported kind name⟩
    · intro isSchema
      by_contra earlier
      cases definition with
      | schema block => exact free ⟨_, .secondSchema block earlier⟩
      | _ => cases isSchema

theorem registrable_iff : Registrable document ↔ ¬FailsSomewhere Refused document := by
  induction document using List.reverseRecOn with
  | nil => exact ⟨fun _ => failsSomewhere_nil, fun _ => registrable_nil⟩
  | append_singleton document definition ih =>
    rw [registrable_snoc, failsSomewhere_snoc, not_or, ih, admits_iff]

/-- A definition is refused for a reason. -/
theorem Names.enroll_error (listed : names.Lists done)
    (failed : names.enroll (File.stubs name done) definition = .error e) :
    Refused done definition e := by
  cases definition with
  | schema block =>
    simp only [Names.enroll] at failed
    split at failed
    · next second =>
      cases failed
      exact .secondSchema block (listed.hasSchema.1 second)
    · cases failed
  | other kind otherName =>
    cases failed
    exact .unsupported kind otherName
  | scalar d | object d | interface d | union d | enum d | input d | directive d =>
    simp only [Names.enroll, File.addStub_stubs, Definition.name?, Definition.typeName?,
      Entry.after?, Option.bind_some, Option.map_some] at failed
    split at failed
    · next taken =>
      cases failed
      refine .repeated rfl ?_
      by_contra new
      rw [listed.find?_eq_none.2 new] at taken
      cases taken
    · cases failed

/-- The first pass reports the first definition that it refuses. -/
theorem Names.enrollAll_error (listed : names.Lists done) (passed : ¬FailsSomewhere Refused done)
    (failed : (names.enrollAll (File.stubs name done) rest).2 = .error e) :
    FailsFirst Refused (done ++ rest) e := by
  induction rest generalizing names done with
  | nil => cases failed
  | cons definition rest ih =>
    have step := Names.enroll_spec name definition listed
    rw [Names.enrollAll] at failed
    cases outcome : names.enroll (File.stubs name done) definition with
    | error e' =>
      rw [outcome] at failed
      cases failed
      exact ⟨done, definition, rest, rfl, passed, Names.enroll_error listed outcome⟩
    | ok result =>
      obtain ⟨names', file⟩ := result
      rw [outcome] at step failed
      obtain ⟨admits, rfl, listed'⟩ := step
      have passed' : ¬FailsSomewhere Refused (done ++ [definition]) := by
        rw [failsSomewhere_snoc, not_or]
        exact ⟨passed, admits_iff.1 admits⟩
      rw [← List.singleton_append, ← List.append_assoc]
      exact ih listed' passed' failed

/-! ## Errors of definitions -/

/-- An error in a part of a definition: a reference, a type, a value or a location. -/
def IsPartError : SchemaError → Prop
  | .unresolvedType _ _ | .nonNullOfNonNull _ | .unknownValue _ _ | .unknownLocation _ _ => True
  | .malformed | .integerRange _ | .duplicateSchema | .duplicateDefinition _
  | .unsupportedDefinition _ _ => False

namespace Names

/-- No definition is refused by being built: what can be wrong is one of its parts. -/
theorem build_error (failed : names.build definition = .error e) : IsPartError e := by
  have blamed := build_blames failed
  cases e with
  | unresolvedType | nonNullOfNonNull | unknownValue | unknownLocation => trivial
  | malformed | integerRange | duplicateSchema | duplicateDefinition | unsupportedDefinition =>
    exact blamed

/-- A definition cannot be built, whatever comes before it. -/
def BuildFails (names : Names) (_ : Document) (definition : Definition) (e : SchemaError) : Prop :=
  names.build definition = .error e

theorem builds_iff_build (supported : ∀ kind n, definition ≠ .other kind n) :
    names.Builds definition ↔ names.build definition = .ok () := by
  cases definition with
  | other kind n => exact absurd rfl (supported kind n)
  | schema _ | scalar _ | object _ | interface _ | union _ | enum _ | input _ | directive _ =>
    simp [Builds, build, map_eq_ok]

theorem not_failsSomewhere (supported : ∀ kind n, Definition.other kind n ∉ document)
    (builds : ∀ d ∈ document, names.Builds d) : ¬FailsSomewhere names.BuildFails document := by
  rintro ⟨before, d, after, e, rfl, failed⟩
  have member : d ∈ before ++ d :: after := by simp
  have built := (builds_iff_build fun kind n same => supported kind n (same ▸ member)).1
    (builds d member)
  rw [BuildFails, built] at failed
  cases failed

/-! ## The second pass -/

/-- A definition that has its place is filled in, unless it cannot be built. -/
theorem fill_error {abort : Abort SchemaError} (listed : names.Lists (done ++ definition :: rest))
    (filled : Filled names name done (definition :: rest) file)
    (supported : ∀ kind n, definition ≠ .other kind n)
    (failed : names.fill file definition = .error abort) :
    ∃ e, abort = .error e ∧ names.build definition = .error e := by
  cases built : names.build definition with
  | ok _ =>
    obtain ⟨file', success, -⟩ :=
      fill_of_builds listed filled ((builds_iff_build supported).2 built)
    rw [failed] at success
    cases success
  | error e =>
    refine ⟨e, ?_, rfl⟩
    cases definition with
    | other kind n => exact absurd rfl (supported kind n)
    | schema block =>
      rw [fill, map_eq_error.1 built] at failed
      cases failed
      rfl
    | scalar d | object d | interface d | union d | enum d | input d | directive d =>
      rw [fill, listed.find?_next rfl rfl, map_eq_error.1 built] at failed
      cases failed
      rfl

/-- The second pass reports the first definition that cannot be built. -/
theorem populate_error {abort : Abort SchemaError} (listed : names.Lists (done ++ rest))
    (filled : Filled names name done rest file)
    (supported : ∀ kind n, Definition.other kind n ∉ rest)
    (passed : ¬FailsSomewhere names.BuildFails done)
    (failed : (names.populate file rest).2 = .error abort) :
    ∃ e, abort = .error e ∧ FailsFirst names.BuildFails (done ++ rest) e := by
  induction rest generalizing done file with
  | nil => cases failed
  | cons definition rest ih =>
    have supportedHere : ∀ kind n, definition ≠ .other kind n := fun kind n same =>
      supported kind n (same ▸ List.mem_cons_self)
    rw [populate] at failed
    cases outcome : names.fill file definition with
    | error _ =>
      rw [outcome] at failed
      cases failed
      obtain ⟨e, rfl, unbuilt⟩ := fill_error listed filled supportedHere outcome
      exact ⟨e, rfl, done, definition, rest, rfl, passed, unbuilt⟩
    | ok file' =>
      have builds := builds_of_fill outcome
      obtain ⟨_, success, filled'⟩ := fill_of_builds listed filled builds
      rw [outcome] at success failed
      cases success
      have passed' : ¬FailsSomewhere names.BuildFails (done ++ [definition]) := by
        rw [failsSomewhere_snoc, not_or]
        refine ⟨passed, ?_⟩
        rintro ⟨e, unbuilt⟩
        rw [BuildFails, (builds_iff_build supportedHere).1 builds] at unbuilt
        cases unbuilt
      rw [← List.singleton_append, ← List.append_assoc] at listed ⊢
      exact ih listed filled' (fun kind n member => supported kind n (.tail _ member)) passed'
        failed

/-! ## The roots -/

end Names

/-- A name that a document gives to something else than an object. -/
def NonObject (document : Document) (n : String) : Prop :=
  n ∈ document.names ∧ ¬∃ o ∈ document.objects, o.name = n

/-- The first of the usual names of roots that does not belong to an object. -/
def FirstNonObjectRoot (document : Document) (n : String) : Prop :=
  ∃ before after, ["Query", "Mutation", "Subscription"] = before ++ n :: after ∧
    (∀ m ∈ before, ¬NonObject document m) ∧ NonObject document n

theorem Names.implicitRoot?_ok {n : String} {found : Option Nat} (listed : names.Lists document)
    (success : names.implicitRoot? n = .ok found) : ¬NonObject document n := by
  rintro ⟨defined, other⟩
  exact other (listed.exists_implicitRoot?.1 ⟨found, success⟩ defined)

theorem Names.implicitRoot?_error {n : String} (listed : names.Lists document)
    (failed : names.implicitRoot? n = .error e) :
    NonObject document n ∧ e = .unresolvedType n "the implicit schema definition" := by
  refine ⟨?_, ?_⟩
  · rw [NonObject, ← Classical.not_imp, ← listed.exists_implicitRoot?, failed]
    simp
  · rw [implicitRoot?] at failed
    split at failed <;> cases failed
    rfl

/-- The roots that are not told are looked for in order. -/
theorem Names.synthesize_error (listed : names.Lists document)
    (failed : (names.synthesize file).2 = .error e) :
    ∃ n, FirstNonObjectRoot document n ∧
      e = .unresolvedType n "the implicit schema definition" := by
  rw [synthesize] at failed
  cases query : names.implicitRoot? "Query" with
  | error _ =>
    rw [query] at failed
    cases failed
    obtain ⟨other, rfl⟩ := implicitRoot?_error listed query
    exact ⟨"Query", ⟨[], _, rfl, by simp, other⟩, rfl⟩
  | ok _ =>
    have first := implicitRoot?_ok listed query
    cases mutation : names.implicitRoot? "Mutation" with
    | error _ =>
      rw [query, mutation] at failed
      cases failed
      obtain ⟨other, rfl⟩ := implicitRoot?_error listed mutation
      exact ⟨"Mutation", ⟨["Query"], _, rfl, by simpa using first, other⟩, rfl⟩
    | ok _ =>
      have second := implicitRoot?_ok listed mutation
      cases subscription : names.implicitRoot? "Subscription" with
      | error _ =>
        rw [query, mutation, subscription] at failed
        cases failed
        obtain ⟨other, rfl⟩ := implicitRoot?_error listed subscription
        exact ⟨"Subscription", ⟨["Query", "Mutation"], _, rfl, by simp [first, second], other⟩, rfl⟩
      | ok _ =>
        rw [query, mutation, subscription] at failed
        cases failed

/-! ## All passes -/

theorem Names.register_error (failed : (Names.register document { name }).2 = .error e) :
    FailsFirst Refused document e :=
  Names.enrollAll_error Names.lists_nil failsSomewhere_nil failed

namespace Names.GivenBy

variable {abort : Abort SchemaError} (given : names.GivenBy name document)

include given

theorem populate_error
    (failed : (names.populate (File.stubs name document) document).2 = .error abort) :
    ∃ e, abort = .error e ∧ FailsFirst names.BuildFails document e :=
  Names.populate_error given.listed (filled_stubs names name document) given.registrable.supported
    failsSomewhere_nil failed

theorem isPartError
    (failed : (names.populate (File.stubs name document) document).2 = .error abort) :
    ∃ e, abort = .error e ∧ IsPartError e := by
  obtain ⟨e, rfl, _, _, _, -, -, unbuilt⟩ := given.populate_error failed
  exact ⟨e, rfl, Names.build_error unbuilt⟩

end Names.GivenBy

/-- What is reported of a document that does not resolve: the first definition that is refused,
or else the first that cannot be built, or else the first root that is no object. -/
theorem resolve_error {abort : Abort SchemaError} (failed : resolve name document = .error abort) :
    (FailsSomewhere Refused document →
      ∃ e, abort = .error e ∧ FailsFirst Refused document e) ∧
    (¬FailsSomewhere Refused document →
      ∃ file names, Names.register document { name } = (file, .ok names) ∧
        (∀ other, (names.populate file document).2 = .error other →
          ∃ e, other = .error e ∧ IsPartError e) ∧
        (FailsSomewhere names.BuildFails document →
          ∃ e, abort = .error e ∧ FailsFirst names.BuildFails document e) ∧
        (¬FailsSomewhere names.BuildFails document →
          document.schemaBlocks = [] ∧ ∃ n, FirstNonObjectRoot document n ∧
            abort = .error (.unresolvedType n "the implicit schema definition"))) := by
  have passes := resolve_passes name document
  rw [failed] at passes
  cases passes with
  | refused refusal =>
    have refused := Names.register_error (congrArg Prod.snd refusal)
    exact ⟨fun _ => ⟨_, rfl, refused⟩, fun passed => absurd refused.somewhere passed⟩
  | @unbuilt names _ _ given failure =>
    refine ⟨fun refused => absurd refused (registrable_iff.1 given.registrable), fun _ =>
      ⟨_, names, given.registered, fun other => given.isPartError, ?_, ?_⟩⟩
    all_goals obtain ⟨e, rfl, first⟩ := given.populate_error (congrArg Prod.snd failure)
    · exact fun _ => ⟨e, rfl, first⟩
    · exact fun passed => absurd first.somewhere passed
  | @rootless names _ _ _ given builds _ absent failure =>
    have built := Names.not_failsSomewhere given.registrable.supported builds
    refine ⟨fun refused => absurd refused (registrable_iff.1 given.registrable), fun _ =>
      ⟨_, names, given.registered, fun other => given.isPartError,
        fun somewhere => absurd somewhere built, fun _ => ⟨absent, ?_⟩⟩⟩
    obtain ⟨n, firstRoot, rfl⟩ := Names.synthesize_error given.listed (congrArg Prod.snd failure)
    exact ⟨n, firstRoot, rfl⟩

/-- A document with a fault for each pass: a reference to nothing, a root that is no object, and
a name that is given twice. -/
def faultyDocument : Document := [
  .object { name := "Query", fields := [{ name := "a", type := .named "Missing" }] },
  .scalar { name := "Mutation" },
  .enum { name := "Query" }]

/-- The faults come to light from the last to the first, as the definitions with the others are
taken away. -/
theorem resolve_error_faulty :
    (resolve "faulty" faultyDocument = .error (.error (.duplicateDefinition "Query")) ∧
      FailsFirst Refused faultyDocument (.duplicateDefinition "Query")) ∧
    (resolve "faulty" (faultyDocument.take 2) =
        .error (.error (.unresolvedType "Missing" "Query.a")) ∧
      ∃ names : Names, FailsFirst names.BuildFails (faultyDocument.take 2)
        (.unresolvedType "Missing" "Query.a")) ∧
    (resolve "faulty" ((faultyDocument.take 2).drop 1) =
        .error (.error (.unresolvedType "Mutation" "the implicit schema definition")) ∧
      FirstNonObjectRoot ((faultyDocument.take 2).drop 1) "Mutation") := by
  have twice : resolve "faulty" faultyDocument = .error (.error (.duplicateDefinition "Query")) :=
    rfl
  have nowhere : resolve "faulty" (faultyDocument.take 2) =
      .error (.error (.unresolvedType "Missing" "Query.a")) := rfl
  have misused : resolve "faulty" ((faultyDocument.take 2).drop 1) =
      .error (.error (.unresolvedType "Mutation" "the implicit schema definition")) := rfl
  refine ⟨⟨twice, ?_⟩, ⟨nowhere, ?_⟩, misused, ?_⟩
  · obtain ⟨e, ⟨⟩, first⟩ := (resolve_error twice).1
      ⟨faultyDocument.take 2, .enum { name := "Query" }, [], _, rfl,
        .repeated rfl (.head _)⟩
    exact first
  · have passed : ¬FailsSomewhere Refused (faultyDocument.take 2) :=
      registrable_iff.1 ⟨by simp [faultyDocument], by decide, by decide⟩
    obtain ⟨file, names, registered, -, unbuilt, -⟩ := (resolve_error nowhere).2 passed
    cases registered
    obtain ⟨e, ⟨⟩, first⟩ := unbuilt ⟨[], _, _, _, rfl, rfl⟩
    exact ⟨_, first⟩
  · have passed : ¬FailsSomewhere Refused ((faultyDocument.take 2).drop 1) :=
      registrable_iff.1 ⟨by simp [faultyDocument], by decide, by decide⟩
    obtain ⟨file, names, registered, -, -, built⟩ := (resolve_error misused).2 passed
    cases registered
    obtain ⟨-, n, first, ⟨⟩⟩ := built (by
      refine Names.not_failsSomewhere (by simp [faultyDocument]) fun d member => ?_
      cases List.mem_singleton.1 member
      exact ⟨_, rfl⟩)
    exact first

end SdlCompiler.Schema
