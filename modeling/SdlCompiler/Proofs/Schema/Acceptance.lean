import SdlCompiler.Proofs.Schema.Integrity

/-!
# Documents that resolve

Which documents resolve at all, said of the document alone. Each part of a definition is built
exactly if the names that it refers to are known and its numbers can be read
(`Names.builds_iff`), and a name is known exactly if the document defines it or it is that of a
built-in scalar (`Names.Lists.exists_type?`).
-/

namespace SdlCompiler

namespace Value

variable {ι φ ι' φ' ε : Type} (int : ι → Except ε ι') (float : φ → Except ε φ')

open Outcome

mutual

/-- The numbers of a value can be replaced exactly if each of them can be. -/
theorem exists_traverse (v : Value ι φ) :
    (∃ w, v.traverse int float = .ok w) ↔
      (∀ n ∈ v.ints, ∃ m, int n = .ok m) ∧ ∀ x ∈ v.floats, ∃ y, float x = .ok y := by
  cases v with
  | «variable» _ | string _ | boolean _ | null | enum _ => simp [traverse, ints, floats]
  | int literal | float literal =>
    rw [traverse, exists_bind_pure_eq_ok]
    simp [ints, floats]
  | list items =>
    rw [traverse, exists_bind_pure_eq_ok, exists_traverseItems items, ints, floats]
  | object fields =>
    rw [traverse, exists_bind_pure_eq_ok, exists_traverseFields fields, ints, floats]

theorem exists_traverseItems (items : List (Value ι φ)) :
    (∃ built, traverseItems int float items = .ok built) ↔
      (∀ n ∈ itemInts items, ∃ m, int n = .ok m) ∧
        ∀ x ∈ itemFloats items, ∃ y, float x = .ok y := by
  cases items with
  | nil => simp [traverseItems, itemInts, itemFloats]
  | cons item rest =>
    rw [traverseItems, exists_bind_eq_ok fun _ => exists_bind_pure_eq_ok, exists_traverse item,
      exists_traverseItems rest, itemInts, itemFloats, List.forall_mem_append,
      List.forall_mem_append]
    exact and_and_and_comm

theorem exists_traverseFields (fields : List (String × Value ι φ)) :
    (∃ built, traverseFields int float fields = .ok built) ↔
      (∀ n ∈ fieldInts fields, ∃ m, int n = .ok m) ∧
        ∀ x ∈ fieldFloats fields, ∃ y, float x = .ok y := by
  cases fields with
  | nil => simp [traverseFields, fieldInts, fieldFloats]
  | cons field rest =>
    obtain ⟨name, value⟩ := field
    rw [traverseFields, exists_bind_eq_ok fun _ => exists_bind_pure_eq_ok, exists_traverse value,
      exists_traverseFields rest, fieldInts, fieldFloats, List.forall_mem_append,
      List.forall_mem_append]
    exact and_and_and_comm

end

end Value

namespace Schema

open Document (Definition)
open Outcome

variable {names : Names} {document : Document}

/-! ## Parts that can be built -/

/-- A value whose numbers can be read: integers of 64 bits, and finite floats. -/
structure Readable (v : Document.Value) : Prop where
  ints : ∀ text ∈ v.ints, ∃ n, Numeric.int64? text.toList = some n
  floats : ∀ text ∈ v.floats, ∃ x, Numeric.Binary64.read? text.toList = some x ∧ x.isFinite

namespace Names

variable {context parent n : String}

theorem exists_value {v : Document.Value} : (∃ w, value context v = .ok w) ↔ Readable v := by
  rw [value, Value.exists_traverse]
  simp only [int_eq_ok, float_eq_ok, Numeric.Binary64.readFinite?, Option.filter_eq_some_iff]
  exact ⟨fun ⟨ints, floats⟩ => ⟨ints, floats⟩, fun ⟨ints, floats⟩ => ⟨ints, floats⟩⟩

theorem exists_directive {d : Document.Directive} :
    (∃ e, directive context d = .ok e) ↔ ∀ v ∈ d.values, Readable v := by
  rw [directive, exists_bind_pure_eq_ok, exists_mapM_eq_ok, Directive.values, List.forall_mem_map]
  simp only [argument, exists_bind_pure_eq_ok, exists_value]

theorem exists_directives {ds : List Document.Directive} :
    (∃ built, directives context ds = .ok built) ↔
      ∀ v ∈ ds.flatMap Directive.values, Readable v := by
  rw [directives, exists_mapM_eq_ok, List.forall_mem_flatMap]
  simp only [exists_directive]

theorem exists_namedType :
    (∃ t, names.namedType context n = .ok t) ↔ ∃ target, names.type? n = some target := by
  simp only [namedType_eq_ok]
  exact ⟨fun ⟨t, _, found⟩ => ⟨_, found⟩, fun ⟨target, found⟩ => ⟨⟨n, target⟩, rfl, found⟩⟩

/-- A type that can be built: the names know its innermost name. -/
def Knows (names : Names) (type : Document.TypeExpr) : Prop :=
  type.NonNullOnce ∧ ∃ target, names.type? type.innermost = some target

theorem exists_typeRef {type : Document.TypeExpr} :
    (∃ t, names.typeRef context type = .ok t) ↔ names.Knows type := by
  fun_induction Names.typeRef names context type with
  | case1 n | case3 n =>
    rw [exists_bind_pure_eq_ok, exists_namedType]
    exact (and_iff_right trivial).symm
  | case2 element ih | case4 element ih =>
    rw [exists_bind_pure_eq_ok, ih]
    rfl
  | case5 => simp [Knows, Document.TypeExpr.NonNullOnce]

theorem exists_inputValue {v : Document.InputValue} :
    (∃ w, names.inputValue parent v = .ok w) ↔
      names.Knows v.type ∧ ∀ x ∈ v.values, Readable x := by
  rw [inputValue,
    exists_bind_eq_ok fun _ => exists_bind_eq_ok fun _ => exists_bind_pure_eq_ok,
    exists_typeRef, exists_option_mapM_eq_ok, exists_directives]
  simp only [exists_value, InputValue.values, List.forall_mem_append, Option.mem_toList]

theorem exists_inputValues {vs : List Document.InputValue} :
    (∃ built, vs.mapM (names.inputValue parent) = .ok built) ↔
      (∀ t ∈ vs.map InputValue.type, names.Knows t) ∧
        ∀ x ∈ vs.flatMap InputValue.values, Readable x := by
  rw [exists_mapM_eq_ok]
  simp only [exists_inputValue, List.forall_mem_map, List.forall_mem_flatMap]
  exact forall₂_and

theorem exists_field {f : Document.Field} :
    (∃ g, names.field parent f = .ok g) ↔
      (∀ t ∈ f.types, names.Knows t) ∧ ∀ x ∈ f.values, Readable x := by
  rw [field, exists_bind_eq_ok fun _ => exists_bind_eq_ok fun _ => exists_bind_pure_eq_ok,
    exists_directives, exists_typeRef, exists_inputValues, Field.types, Field.values,
    List.forall_mem_cons, List.forall_mem_append]
  constructor
  · rintro ⟨applied, typed, known, readable⟩
    exact ⟨⟨typed, known⟩, applied, readable⟩
  · rintro ⟨⟨typed, known⟩, applied, readable⟩
    exact ⟨applied, typed, known, readable⟩

theorem exists_fields {fs : List Document.Field} :
    (∃ built, fs.mapM (names.field parent) = .ok built) ↔
      (∀ t ∈ fs.flatMap Field.types, names.Knows t) ∧
        ∀ x ∈ fs.flatMap Field.values, Readable x := by
  rw [exists_mapM_eq_ok]
  simp only [exists_field, List.forall_mem_flatMap]
  exact forall₂_and

/-! ## Definitions that can be built -/

theorem exists_roots {block : Document.SchemaBlock} :
    (∃ built, names.roots block = .ok built) ↔
      (∀ entry ∈ block.roots, ∃ index, names.type? entry.2 = some (.object index)) ∧
        ∀ v ∈ block.directives.flatMap Directive.values, Readable v := by
  rw [roots, exists_bind_eq_ok fun _ => exists_foldlM_withRoot, exists_directives]
  exact and_comm

theorem exists_scalar {d : Document.Scalar} :
    (∃ s, scalar d = .ok s) ↔ ∀ v ∈ d.directives.flatMap Directive.values, Readable v := by
  rw [scalar, exists_bind_pure_eq_ok, exists_directives]

theorem exists_composite {d : Document.Composite} :
    (∃ c, names.composite d = .ok c) ↔
      (∀ t ∈ d.fields.flatMap Field.types, names.Knows t) ∧
        (∀ n ∈ d.implements, ∃ index, names.type? n = some (.interface index)) ∧
        ∀ v ∈ d.directives.flatMap Directive.values ++ d.fields.flatMap Field.values,
          Readable v := by
  rw [composite, exists_bind_eq_ok fun _ => exists_bind_eq_ok fun _ => exists_bind_pure_eq_ok,
    exists_directives, exists_mapM_eq_ok, exists_fields, List.forall_mem_append]
  simp only [interfaceIndex_eq_ok]
  constructor
  · rintro ⟨applied, implemented, known, readable⟩
    exact ⟨known, implemented, applied, readable⟩
  · rintro ⟨known, implemented, applied, readable⟩
    exact ⟨applied, implemented, known, readable⟩

theorem exists_union {d : Document.Union} :
    (∃ u, names.union d = .ok u) ↔
      (∀ n ∈ d.members, ∃ target, names.type? n = some target) ∧
        ∀ v ∈ d.directives.flatMap Directive.values, Readable v := by
  rw [union, exists_bind_eq_ok fun _ => exists_bind_pure_eq_ok, exists_mapM_eq_ok,
    exists_directives]
  simp only [exists_namedType]

theorem exists_enumValues {vs : List Document.EnumValue} :
    (∃ built, vs.mapM (enumValue parent) = .ok built) ↔
      ∀ x ∈ vs.flatMap fun v => v.directives.flatMap Directive.values, Readable x := by
  rw [exists_mapM_eq_ok, List.forall_mem_flatMap]
  simp only [enumValue, exists_bind_pure_eq_ok, exists_directives]

theorem exists_enum {d : Document.Enum} :
    (∃ e, enum d = .ok e) ↔
      ∀ x ∈ d.directives.flatMap Directive.values ++
        d.values.flatMap fun v => v.directives.flatMap Directive.values, Readable x := by
  rw [enum, exists_bind_eq_ok fun _ => exists_bind_pure_eq_ok, exists_enumValues,
    exists_directives, List.forall_mem_append]
  exact and_comm

theorem exists_input {d : Document.InputObject} :
    (∃ i, names.input d = .ok i) ↔
      (∀ t ∈ d.fields.map InputValue.type, names.Knows t) ∧
        ∀ v ∈ d.directives.flatMap Directive.values ++ d.fields.flatMap InputValue.values,
          Readable v := by
  rw [input, exists_bind_eq_ok fun _ => exists_bind_pure_eq_ok, exists_directives,
    exists_inputValues, List.forall_mem_append]
  exact and_left_comm

theorem exists_directiveDefinition {d : Document.DirectiveDefinition} :
    (∃ e, names.directiveDefinition d = .ok e) ↔
      (∀ t ∈ d.arguments.map InputValue.type, names.Knows t) ∧
        (∀ v ∈ d.arguments.flatMap InputValue.values, Readable v) ∧
        ∀ l ∈ d.locations, ∃ place, Location.ofName? l = some place := by
  rw [directiveDefinition, exists_bind_eq_ok fun _ => exists_bind_pure_eq_ok, exists_mapM_eq_ok,
    exists_inputValues, and_comm, and_assoc]
  simp only [location_eq_ok]

/-- What it takes to build a definition. -/
structure Allows (names : Names) (definition : Definition) : Prop where
  supported : ∀ kind n, definition ≠ .other kind n
  types : ∀ t ∈ definition.types, names.Knows t
  members : ∀ n ∈ definition.members, ∃ target, names.type? n = some target
  interfaces : ∀ n ∈ definition.interfaceReferences,
    ∃ index, names.type? n = some (.interface index)
  roots : ∀ n ∈ definition.rootReferences, ∃ index, names.type? n = some (.object index)
  values : ∀ v ∈ definition.values, Readable v
  locations : ∀ l ∈ definition.locations, ∃ place, Location.ofName? l = some place

/-- A definition can be built exactly if its names and values allow it. -/
theorem builds_iff {definition : Definition} :
    names.Builds definition ↔ names.Allows definition := by
  have nothing : ∀ {α : Type} {p : α → Prop}, ∀ x ∈ ([] : List α), p x := by simp
  -- A part that a kind of definition does not have allows anything.
  cases definition with
  | other kind n => exact ⟨False.elim, fun allows => allows.supported kind n rfl⟩
  | schema block =>
    rw [Builds, exists_roots]
    constructor
    · rintro ⟨found, readable⟩
      refine ⟨by simp, nothing, nothing, nothing, ?_, readable, nothing⟩
      simpa only [Definition.rootReferences, List.forall_mem_map] using found
    · intro allows
      refine ⟨?_, allows.values⟩
      simpa only [Definition.rootReferences, List.forall_mem_map] using allows.roots
  | scalar d =>
    rw [Builds, exists_scalar]
    exact ⟨fun readable => ⟨by simp, nothing, nothing, nothing, nothing, readable, nothing⟩,
      fun allows => allows.values⟩
  | object d | interface d =>
    rw [Builds, exists_composite]
    exact ⟨fun ⟨known, implemented, readable⟩ =>
        ⟨by simp, known, nothing, implemented, nothing, readable, nothing⟩,
      fun allows => ⟨allows.types, allows.interfaces, allows.values⟩⟩
  | union d =>
    rw [Builds, exists_union]
    exact ⟨fun ⟨known, readable⟩ =>
        ⟨by simp, nothing, known, nothing, nothing, readable, nothing⟩,
      fun allows => ⟨allows.members, allows.values⟩⟩
  | enum d =>
    rw [Builds, exists_enum]
    exact ⟨fun readable => ⟨by simp, nothing, nothing, nothing, nothing, readable, nothing⟩,
      fun allows => allows.values⟩
  | input d =>
    rw [Builds, exists_input]
    exact ⟨fun ⟨known, readable⟩ =>
        ⟨by simp, known, nothing, nothing, nothing, readable, nothing⟩,
      fun allows => ⟨allows.types, allows.values⟩⟩
  | directive d =>
    rw [Builds, exists_directiveDefinition]
    exact ⟨fun ⟨known, readable, placed⟩ =>
        ⟨by simp, known, nothing, nothing, nothing, readable, placed⟩,
      fun allows => ⟨allows.types, allows.values, allows.locations⟩⟩

end Names

/-! ## Names that are known -/

theorem mem_typeNames_iff {n : String} :
    n ∈ document.typeNames ↔ ∃ target, (Entry.type target).nameIn? document = some n := by
  induction document using List.reverseRecOn with
  | nil =>
    constructor
    · intro member
      cases member
    · rintro ⟨target, named⟩
      cases target <;> cases named
  | append_singleton document definition ih =>
    simp only [Document.typeNames, filterMap_snoc, List.mem_append, Option.mem_toList,
      Entry.nameIn?_snoc, exists_or] at ih ⊢
    rw [ih]
    refine or_congr_right ?_
    cases definition <;> simp [Definition.typeName?, Definition.name?, Entry.after?]

theorem exists_getElem?_map_eq {α : Type} {f : α → String} {xs : List α} {n : String} :
    (∃ index : Nat, xs[index]?.map f = some n) ↔ ∃ x ∈ xs, f x = n := by
  simp only [Option.map_eq_some_iff, List.mem_iff_getElem?]
  exact ⟨fun ⟨index, x, found, same⟩ => ⟨x, ⟨index, found⟩, same⟩,
    fun ⟨x, ⟨index, found⟩, same⟩ => ⟨index, x, found, same⟩⟩

namespace Names.Lists

theorem exists_type? (listed : names.Lists document) {n : String} :
    (∃ target, names.type? n = some target) ↔
      n ∈ document.typeNames ∨
        (n ∈ ["Int", "Float", "String", "Boolean", "ID"] ∧ n ∉ document.names) := by
  have builtin : (∃ scalar : Builtin, scalar.name = n) ↔
      n ∈ ["Int", "Float", "String", "Boolean", "ID"] := by
    constructor
    · rintro ⟨scalar, rfl⟩
      cases scalar <;> decide
    · intro member
      simp only [List.mem_cons, List.not_mem_nil, or_false] at member
      rcases member with rfl | rfl | rfl | rfl | rfl
      · exact ⟨.int, rfl⟩
      · exact ⟨.float, rfl⟩
      · exact ⟨.string, rfl⟩
      · exact ⟨.boolean, rfl⟩
      · exact ⟨.id, rfl⟩
  simp only [listed.type?_eq_some, exists_or, mem_typeNames_iff, ← builtin]
  refine or_congr_right ⟨?_, ?_⟩
  · rintro ⟨target, scalar, -, same, undefined⟩
    exact ⟨⟨scalar, same⟩, undefined⟩
  · rintro ⟨⟨scalar, same⟩, undefined⟩
    exact ⟨_, scalar, rfl, same, undefined⟩

theorem exists_interface? (listed : names.Lists document) {n : String} :
    (∃ index, names.type? n = some (.interface index)) ↔ ∃ d ∈ document.interfaces, d.name = n := by
  simp only [listed.type?_eq_some, reduceCtorEq, false_and, exists_false, or_false]
  exact exists_getElem?_map_eq

theorem exists_object? (listed : names.Lists document) {n : String} :
    (∃ index, names.type? n = some (.object index)) ↔ ∃ d ∈ document.objects, d.name = n := by
  simp only [listed.type?_eq_some, reduceCtorEq, false_and, exists_false, or_false]
  exact exists_getElem?_map_eq

theorem exists_implicitRoot? (listed : names.Lists document) {n : String} :
    (∃ found, names.implicitRoot? n = .ok found) ↔
      (n ∈ document.names → ∃ d ∈ document.objects, d.name = n) := by
  have undefined : n ∉ document.names ↔ names.implicitRoot? n = .ok none := by
    rw [Names.implicitRoot?_eq_none, listed.find?_eq_none]
  have defined : (∃ d ∈ document.objects, d.name = n) ↔
      ∃ index, names.implicitRoot? n = .ok (some index) := by
    simp only [Names.implicitRoot?_eq_some, listed.find?]
    exact exists_getElem?_map_eq.symm
  rw [imp_iff_not_or, undefined, defined]
  constructor
  · rintro ⟨found, success⟩
    cases found with
    | none => exact .inl success
    | some index => exact .inr ⟨index, success⟩
  · rintro (success | ⟨index, success⟩)
    · exact ⟨_, success⟩
    · exact ⟨_, success⟩

end Names.Lists

/-! ## Well-formed documents -/

/-- What makes a document one that can be resolved. -/
structure WellFormed (document : Document) : Prop where
  /-- Every definition is of a kind that is compiled. -/
  supported : ∀ kind n, Definition.other kind n ∉ document
  oneSchema : document.schemaBlocks.length ≤ 1
  /-- Types and directives have names of their own, all different. -/
  distinct : document.names.Nodup
  /-- A type that is referred to is defined, or it is a built-in scalar whose name nothing else
  has. -/
  types : ∀ d ∈ document, ∀ n ∈ d.typeReferences, n ∈ document.typeNames ∨
    (n ∈ ["Int", "Float", "String", "Boolean", "ID"] ∧ n ∉ document.names)
  interfaces : ∀ d ∈ document, ∀ n ∈ d.interfaceReferences, ∃ i ∈ document.interfaces, i.name = n
  roots : ∀ d ∈ document, ∀ n ∈ d.rootReferences, ∃ o ∈ document.objects, o.name = n
  nonNullOnce : ∀ d ∈ document, ∀ t ∈ d.types, t.NonNullOnce
  /-- Integers are of 64 bits, and floats are finite, at any depth of any value. -/
  values : ∀ d ∈ document, ∀ v ∈ d.values, Readable v
  locations : ∀ d ∈ document, ∀ l ∈ d.locations, l ∈ Location.all.map Location.name
  /-- Without a schema block, the usual names of the roots are left to objects. -/
  implicitRoots : document.schemaBlocks = [] →
    ∀ n ∈ ["Query", "Mutation", "Subscription"], n ∈ document.names →
      ∃ o ∈ document.objects, o.name = n

theorem exists_ofName? {l : String} :
    (∃ place, Location.ofName? l = some place) ↔ l ∈ Location.all.map Location.name := by
  rw [← Option.isSome_iff_exists, Location.ofName?, List.find?_isSome, List.mem_map]
  simp only [beq_iff_eq]

/-- The passes succeed exactly on well-formed documents. -/
theorem wellFormed_iff (listed : names.Lists document) :
    WellFormed document ↔
      Registrable document ∧ (∀ d ∈ document, names.Builds d) ∧ names.RootsFound document := by
  simp only [Names.builds_iff, Names.RootsFound, listed.exists_implicitRoot?]
  constructor
  · intro formed
    refine ⟨⟨formed.supported, formed.oneSchema, formed.distinct⟩, fun d member => ?_,
      formed.implicitRoots⟩
    have known := formed.types d member
    simp only [Definition.typeReferences, List.forall_mem_append, List.forall_mem_map,
      ← listed.exists_type?] at known
    refine ⟨?_, fun t inTypes => ⟨formed.nonNullOnce d member t inTypes, known.1 t inTypes⟩,
      known.2, ?_, ?_, formed.values d member, ?_⟩
    · rintro kind n rfl
      exact formed.supported kind n member
    · simpa only [listed.exists_interface?] using formed.interfaces d member
    · simpa only [listed.exists_object?] using formed.roots d member
    · simpa only [exists_ofName?] using formed.locations d member
  · rintro ⟨registrable, allows, implicitRoots⟩
    refine ⟨registrable.supported, registrable.oneSchema, registrable.distinct,
      fun d member => ?_, fun d member => ?_, fun d member => ?_,
      fun d member t inTypes => ((allows d member).types t inTypes).1,
      fun d member => (allows d member).values, fun d member => ?_, implicitRoots⟩
    · simp only [← listed.exists_type?, Definition.typeReferences, List.forall_mem_append,
        List.forall_mem_map]
      exact ⟨fun t inTypes => ((allows d member).types t inTypes).2, (allows d member).members⟩
    · simpa only [listed.exists_interface?] using (allows d member).interfaces
    · simpa only [listed.exists_object?] using (allows d member).roots
    · simpa only [exists_ofName?] using (allows d member).locations

/-- A document resolves exactly if it is well-formed. -/
theorem exists_resolve_iff (name : String) (document : Document) :
    (∃ file, resolve name document = .ok file) ↔ WellFormed document := by
  have spec := resolve_spec name document
  cases outcome : resolve name document with
  | ok file =>
    rw [outcome] at spec
    obtain ⟨registrable, names, listed, builds, found, -⟩ := spec
    exact ⟨fun _ => (wellFormed_iff listed).mpr ⟨registrable, builds, found⟩, fun _ => ⟨file, rfl⟩⟩
  | error abort =>
    rw [outcome] at spec
    refine ⟨fun ⟨_, success⟩ => (nomatch success), fun formed => ?_⟩
    have registrable : Registrable document :=
      ⟨formed.supported, formed.oneSchema, formed.distinct⟩
    exact absurd ⟨registrable, fun names listed => ((wellFormed_iff listed).mp formed).2⟩ spec

end Schema

end SdlCompiler
