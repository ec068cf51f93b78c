import SdlCompiler.Proofs.Schema.Parts
import Mathlib.Data.List.Induction
import Mathlib.Data.List.Nodup

/-!
# The first pass

What the first pass over a document leaves behind: a place for each definition, in the order of
the document within each kind, and the names of the definitions, each with its place. The pass
succeeds exactly on the documents that are `Registrable`.
-/

namespace SdlCompiler.Schema

open Document (Definition)

/-! ## Places -/

/-- The name of the definition whose place an entry is. -/
def Entry.nameIn? (document : Document) : Entry → Option String
  | .type (.object index) => document.objects[index]?.map Composite.name
  | .type (.interface index) => document.interfaces[index]?.map Composite.name
  | .type (.union index) => document.unions[index]?.map Union.name
  | .type (.enum index) => document.enums[index]?.map Enum.name
  | .type (.scalar index) => document.scalars[index]?.map Scalar.name
  | .type (.input index) => document.inputs[index]?.map InputObject.name
  | .type (.builtin _) => none
  | .directive index => document.directives[index]?.map DirectiveDefinition.name

/-- The place of the definition that comes next after those of a document. -/
def Entry.after? (document : Document) : Definition → Option Entry
  | .object _ => some (.type (.object document.objects.length))
  | .interface _ => some (.type (.interface document.interfaces.length))
  | .union _ => some (.type (.union document.unions.length))
  | .enum _ => some (.type (.enum document.enums.length))
  | .scalar _ => some (.type (.scalar document.scalars.length))
  | .input _ => some (.type (.input document.inputs.length))
  | .directive _ => some (.directive document.directives.length)
  | .schema _ | .other _ _ => none

/-- A file in which each definition of a document has a place that is still empty. -/
def File.stubs (name : String) (document : Document) : File :=
  { name,
    objects := document.objects.map fun d => { name := d.name },
    interfaces := document.interfaces.map fun d => { name := d.name },
    unions := document.unions.map fun d => { name := d.name },
    enums := document.enums.map fun d => { name := d.name },
    scalars := document.scalars.map fun d => { name := d.name },
    inputs := document.inputs.map fun d => { name := d.name },
    directives := document.directives.map fun d => { name := d.name } }

theorem filterMap_snoc {α β : Type} (f : α → Option β) (xs : List α) (x : α) :
    (xs ++ [x]).filterMap f = xs.filterMap f ++ (f x).toList := by
  cases equal : f x <;> simp [equal]

theorem getElem?_snoc_map {α : Type} (f : α → String) (xs : List α) (x : α) (index : Nat)
    (n : String) :
    (xs ++ [x])[index]?.map f = some n ↔
      xs[index]?.map f = some n ∨ (f x = n ∧ xs.length = index) := by
  rcases Nat.lt_trichotomy index xs.length with before | here | beyond
  · have elsewhere : xs.length ≠ index := by omega
    simp [List.getElem?_append_left before, elsewhere]
  · subst here
    simp
  · have elsewhere : xs.length ≠ index := by omega
    have outside : xs[index]? = none := List.getElem?_eq_none (Nat.le_of_lt beyond)
    have outsideSnoc : (xs ++ [x])[index]? = none :=
      List.getElem?_eq_none (by rw [List.length_append]; exact beyond)
    simp [outside, outsideSnoc, elsewhere]

/-- One more definition is one more place. -/
theorem Entry.nameIn?_snoc (document : Document) (definition : Definition) (entry : Entry)
    (n : String) :
    entry.nameIn? (document ++ [definition]) = some n ↔
      entry.nameIn? document = some n ∨
        (definition.name? = some n ∧ Entry.after? document definition = some entry) := by
  rcases entry with target | index
  · cases target <;> cases definition <;>
      simp only [Entry.nameIn?, Entry.after?, Definition.name?, Definition.typeName?,
        Document.objects, Document.interfaces, Document.unions, Document.enums,
        Document.scalars, Document.inputs, filterMap_snoc, Definition.object?,
        Definition.interface?, Definition.union?, Definition.enum?, Definition.scalar?,
        Definition.input?, Option.toList, List.append_nil, getElem?_snoc_map] <;> simp
  · cases definition <;>
      simp only [Entry.nameIn?, Entry.after?, Definition.name?, Definition.typeName?,
        Document.directives, filterMap_snoc, Definition.directive?, Option.toList,
        List.append_nil, getElem?_snoc_map] <;> simp

theorem Entry.after?_isSome {definition : Definition} {n : String} (document : Document)
    (named : definition.name? = some n) :
    ∃ entry, Entry.after? document definition = some entry := by
  cases definition with
  | schema _ | other _ _ => cases named
  | scalar _ | object _ | interface _ | union _ | enum _ | input _ | directive _ => exact ⟨_, rfl⟩

theorem mem_names_iff {document : Document} {n : String} :
    n ∈ document.names ↔ ∃ entry : Entry, entry.nameIn? document = some n := by
  induction document using List.reverseRecOn with
  | nil =>
    constructor
    · intro member
      cases member
    · rintro ⟨entry, named⟩
      rcases entry with target | index
      · cases target <;> cases named
      · cases named
  | append_singleton document definition ih =>
    simp only [Document.names, filterMap_snoc, List.mem_append, Option.mem_toList,
      Entry.nameIn?_snoc, exists_or] at ih ⊢
    rw [ih]
    refine or_congr_right ⟨fun named => ?_, fun ⟨_, named, _⟩ => named⟩
    obtain ⟨entry, placed⟩ := Entry.after?_isSome document named
    exact ⟨entry, named, placed⟩

/-! ## Documents that can be registered -/

/-- Every definition is of a kind that is compiled, there is at most one schema block, and no
name is given twice. -/
structure Registrable (document : Document) : Prop where
  supported : ∀ kind name, Definition.other kind name ∉ document
  oneSchema : document.schemaBlocks.length ≤ 1
  distinct : document.names.Nodup

/-- A definition that may follow a registrable document. -/
structure Admits (document : Document) (definition : Definition) : Prop where
  supported : ∀ kind name, definition ≠ .other kind name
  firstSchema : definition.schemaBlock?.isSome → document.schemaBlocks = []
  newName : ∀ n, definition.name? = some n → n ∉ document.names

theorem registrable_nil : Registrable [] where
  supported := by simp
  oneSchema := by simp [Document.schemaBlocks]
  distinct := by simp [Document.names]

/-- A registrable document has only registrable beginnings. -/
theorem Registrable.of_append {document rest : Document}
    (registrable : Registrable (document ++ rest)) : Registrable document := by
  obtain ⟨supported, oneSchema, distinct⟩ := registrable
  simp only [Document.schemaBlocks, Document.names, List.filterMap_append, List.length_append]
    at oneSchema distinct
  refine ⟨fun kind name member => supported kind name (List.mem_append_left _ member), ?_,
    distinct.of_append_left⟩
  simp only [Document.schemaBlocks]
  omega

theorem registrable_snoc {document : Document} {definition : Definition} :
    Registrable (document ++ [definition]) ↔
      Registrable document ∧ Admits document definition := by
  constructor
  · intro registrable
    refine ⟨registrable.of_append, ?_⟩
    obtain ⟨supported, oneSchema, distinct⟩ := registrable
    simp only [Document.schemaBlocks, Document.names, filterMap_snoc, List.length_append]
      at oneSchema distinct
    rw [List.nodup_append] at distinct
    refine ⟨?_, ?_, ?_⟩
    · rintro kind name rfl
      exact supported kind name (by simp)
    · intro isSchema
      rw [← List.length_eq_zero_iff, Document.schemaBlocks]
      rw [Option.isSome_iff_exists] at isSchema
      obtain ⟨block, found⟩ := isSchema
      simp only [found, Option.toList, List.length_singleton] at oneSchema
      omega
    · intro n named member
      exact distinct.2.2 n member n (by simp [named]) rfl
  · rintro ⟨⟨supported, oneSchema, distinct⟩, admits⟩
    refine ⟨?_, ?_, ?_⟩
    · intro kind name member
      rcases List.mem_append.mp member with earlier | last
      · exact supported kind name earlier
      · exact admits.supported kind name (List.mem_singleton.mp last).symm
    · simp only [Document.schemaBlocks, filterMap_snoc, List.length_append] at oneSchema ⊢
      cases isSchema : definition.schemaBlock? with
      | none => simpa using oneSchema
      | some block =>
        have none_before := admits.firstSchema (by simp [isSchema])
        simp [Document.schemaBlocks] at none_before
        simp [List.filterMap_eq_nil_iff.mpr none_before]
    · simp only [Document.names, filterMap_snoc]
      refine List.nodup_append.mpr ⟨distinct, ?_, ?_⟩
      · cases definition.name? <;> simp
      · intro n member m last equal
        subst equal
        exact admits.newName n (by simpa using last) member

/-! ## The names of a document -/

/-- The names that the first pass finds: each name has the place of the one definition that
gives it. -/
structure Names.Lists (names : Names) (document : Document) : Prop where
  find? : ∀ n entry, names.find? n = some entry ↔ entry.nameIn? document = some n
  hasSchema : names.hasSchema = true ↔ document.schemaBlocks ≠ []

theorem Names.Lists.find?_eq_none {names : Names} {document : Document}
    (listed : names.Lists document) {n : String} :
    names.find? n = none ↔ n ∉ document.names := by
  rw [Option.eq_none_iff_forall_ne_some, mem_names_iff]
  simp only [ne_eq, listed.find?, not_exists]

theorem Names.lists_nil : Names.Lists {} [] where
  find? n entry := by
    have nowhere : ¬ ∃ entry : Entry, entry.nameIn? [] = some n := by
      rw [← mem_names_iff]
      simp [Document.names]
    simp only [not_exists] at nowhere
    simp [Names.find?, nowhere entry]
  hasSchema := by simp [Document.schemaBlocks]

theorem Names.find?_add (names : Names) (n m : String) (entry : Entry) :
    (names.add n entry).find? m = (names.find? m).or (if m = n then some entry else none) := by
  rw [Names.find?, Names.add, List.lookup_append, List.lookup_cons, List.lookup_nil]
  by_cases equal : m = n
  · simp [equal, Names.find?]
  · simp [beq_false_of_ne equal, equal, Names.find?]

/-- The place that a file of stubs makes for one more definition. -/
theorem File.addStub_stubs (name : String) (document : Document) (definition : Definition) :
    (File.stubs name document).addStub definition =
      definition.name?.bind fun n => (Entry.after? document definition).map fun entry =>
        (n, entry, File.stubs name (document ++ [definition])) := by
  cases definition <;>
    simp [File.stubs, File.addStub, Definition.name?, Definition.typeName?, Entry.after?,
      Document.objects, Document.interfaces, Document.unions, Document.enums, Document.scalars,
      Document.inputs, Document.directives, Definition.object?, Definition.interface?,
      Definition.union?, Definition.enum?, Definition.scalar?, Definition.input?,
      Definition.directive?]

theorem Names.Lists.add {names : Names} {document : Document} {definition : Definition}
    {n : String} {entry : Entry} (listed : names.Lists document)
    (named : definition.name? = some n) (placed : Entry.after? document definition = some entry)
    (new : n ∉ document.names) : (names.add n entry).Lists (document ++ [definition]) where
  find? m other := by
    have absent := listed.find?_eq_none.mpr new
    rw [Names.find?_add, Entry.nameIn?_snoc, ← listed.find?, named, placed]
    by_cases equal : m = n
    · subst equal
      simp [absent]
    · simp [equal, Ne.symm equal]
  hasSchema := by
    have noBlock : definition.schemaBlock? = none := by
      cases definition with
      | schema _ => cases named
      | _ => rfl
    rw [Document.schemaBlocks, filterMap_snoc, noBlock, Option.toList_none, List.append_nil]
    exact listed.hasSchema

theorem Names.Lists.addSchema {names : Names} {document : Document}
    {block : Document.SchemaBlock} (listed : names.Lists document) :
    Names.Lists { names with hasSchema := true } (document ++ [.schema block]) where
  find? m entry := by
    have same : names.find? m = some entry ↔ entry.nameIn? document = some m :=
      listed.find? m entry
    rw [Entry.nameIn?_snoc, ← same]
    simp [Names.find?, Definition.name?, Definition.typeName?]
  hasSchema := by simp [Document.schemaBlocks, Definition.schemaBlock?]

/-! ## The pass -/

/-- One definition is taken in exactly if it may follow those before it. -/
theorem Names.enroll_spec {names : Names} {done : Document} (name : String)
    (definition : Definition) (listed : names.Lists done) :
    match names.enroll (File.stubs name done) definition with
    | .ok (names', file) =>
      Admits done definition ∧ file = File.stubs name (done ++ [definition]) ∧
        names'.Lists (done ++ [definition])
    | .error _ => ¬ Admits done definition := by
  cases definition with
  | schema block =>
    simp only [Names.enroll]
    by_cases second : names.hasSchema
    · rw [if_pos second]
      intro admits
      exact listed.hasSchema.mp second (admits.firstSchema rfl)
    · rw [if_neg second]
      refine ⟨⟨by simp, fun _ => ?_, by simp [Definition.name?, Definition.typeName?]⟩, ?_,
        listed.addSchema⟩
      · by_contra some_block
        exact second (listed.hasSchema.mpr some_block)
      · simp [File.stubs, Document.objects, Document.interfaces, Document.unions,
          Document.enums, Document.scalars, Document.inputs, Document.directives,
          Definition.object?, Definition.interface?, Definition.union?, Definition.enum?,
          Definition.scalar?, Definition.input?, Definition.directive?]
  | other kind otherName =>
    intro admits
    exact admits.supported kind otherName rfl
  | scalar d | object d | interface d | union d | enum d | input d | directive d =>
    -- All other kinds are enrolled alike: refused if the name is taken, and added otherwise.
    simp only [Names.enroll, File.addStub_stubs, Definition.name?, Definition.typeName?,
      Entry.after?, Option.bind_some, Option.map_some]
    split
    · next taken =>
      split at taken
      · cases taken
      · next free =>
        cases taken
        have new : d.name ∉ done.names := by
          rw [← listed.find?_eq_none]
          simpa using free
        refine ⟨⟨by simp, by simp [Definition.schemaBlock?], ?_⟩, rfl,
          listed.add rfl rfl new⟩
        rintro n ⟨⟩
        exact new
    · next refused =>
      split at refused
      · next taken =>
        intro admits
        have absent := listed.find?_eq_none.mpr (admits.newName d.name rfl)
        simp [absent] at taken
      · cases refused

/-- The pass over the rest of a document, after the definitions in `done`. -/
theorem Names.enrollAll_spec {names : Names} {done : Document} (name : String)
    (rest : Document) (listed : names.Lists done) (registrable : Registrable done) :
    match names.enrollAll (File.stubs name done) rest with
    | (file, .ok names') =>
      Registrable (done ++ rest) ∧ file = File.stubs name (done ++ rest) ∧
        names'.Lists (done ++ rest)
    | (_, .error _) => ¬ Registrable (done ++ rest) := by
  induction rest generalizing names done with
  | nil => simpa [Names.enrollAll] using ⟨registrable, listed⟩
  | cons definition rest ih =>
    have step := Names.enroll_spec name definition listed
    rw [Names.enrollAll]
    have reassoc : done ++ definition :: rest = (done ++ [definition]) ++ rest := by simp
    cases outcome : names.enroll (File.stubs name done) definition with
    | error e =>
      rw [outcome] at step
      dsimp only at step ⊢
      intro whole
      rw [reassoc] at whole
      exact step (registrable_snoc.mp whole.of_append).2
    | ok result =>
      rw [outcome] at step
      obtain ⟨names', file⟩ := result
      obtain ⟨admits, rfl, listed'⟩ := step
      dsimp only
      rw [reassoc]
      exact ih listed' (registrable_snoc.mpr ⟨registrable, admits⟩)

/-- The first pass succeeds exactly on registrable documents. -/
theorem Names.register_spec (name : String) (document : Document) :
    match Names.register document { name } with
    | (file, .ok names) =>
      Registrable document ∧ file = File.stubs name document ∧ names.Lists document
    | (_, .error _) => ¬ Registrable document :=
  Names.enrollAll_spec name document Names.lists_nil registrable_nil

end SdlCompiler.Schema
