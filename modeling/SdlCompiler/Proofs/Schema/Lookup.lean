import SdlCompiler.Proofs.Schema.ReadBack

/-!
# What names determine

A file is determined by its document and by what the names in it stand for. So two files are equal
as soon as their documents are and names are looked up alike.
-/

namespace SdlCompiler.Schema

open Outcome

variable {names : Names} {name : String} {document : Document} {file : File}

/-! ## Values and locations -/

/-- A value with the numbers that its texts are read as. Where a document resolves every number can
be read, so what stands for others does not matter. -/
def readValue : Document.Value → Value :=
  SdlCompiler.Value.map (fun text => (Numeric.int64? text.toList).getD 0) fun text =>
    (Numeric.Binary64.read? text.toList).getD default

def readLocation (text : String) : Location :=
  (Location.ofName? text).getD (.executable .query)

theorem readValue_of_value {context : String} {v : Document.Value} {w : Value}
    (built : Names.value context v = .ok w) : w = readValue v := by
  refine (SdlCompiler.Value.map_id w).symm.trans
    (SdlCompiler.Value.map_of_traverse (fun text n read => ?_) (fun text x read => ?_) built)
  · rw [Names.int_eq_ok.1 read]
    rfl
  · rw [Names.float_eq_ok, Numeric.Binary64.readFinite?, Option.filter_eq_some_iff] at read
    rw [read.1]
    rfl

theorem readLocation_of_ofName? {text : String} {place : Location}
    (found : Location.ofName? text = some place) : place = readLocation text := by
  rw [readLocation, found]
  rfl

/-! ## Definitions by what names stand for -/

section

variable {text : Option String → Option String} {type? : String → Option Target}

/-- The interface that a name stands for, if it stands for one. -/
def lookInterface (type? : String → Option Target) (n : String) : Nat :=
  match type? n with
  | some (.interface index) => index
  | _ => 0

def lookMember (type? : String → Option Target) (n : String) : NamedType :=
  ⟨n, (type? n).getD (.object 0)⟩

/-- A type by what its innermost name stands for. -/
def lookType (type? : String → Option Target) : Document.TypeExpr → TypeRef
  | .named n => .named false (lookMember type? n)
  | .list element => .list false (lookType type? element)
  | .nonNull (.named n) => .named true (lookMember type? n)
  | .nonNull (.list element) => .list true (lookType type? element)
  | .nonNull (.nonNull type) => lookType type? (.nonNull type)

/-- The parts of a document by what its names stand for. Where it resolves, each name stands for
something that fits its place. -/
def byTarget (text : Option String → Option String) (type? : String → Option Target) :
    WrittenView Nat NamedType TypeRef Value Location where
  text := text
  reference := lookInterface type?
  member := lookMember type?
  type := lookType type?
  value := readValue
  location := readLocation

/-- The parts of a file as they are, other than descriptions. -/
def asIs (text : Option String → Option String) :
    ResolvedView Nat NamedType TypeRef Value Location where
  text := text
  reference := id
  member := id
  type := id
  value := id
  location := id

/-- Every name of a document stands for the same, and other names may stand for something too. -/
def Names.Within (names : Names) (type? : String → Option Target) : Prop :=
  ∀ n target, names.type? n = some target → type? n = some target

theorem Names.Within.interface (within : names.Within type?) {n : String} {index : Nat}
    (found : names.type? n = some (.interface index)) : lookInterface type? n = index := by
  rw [lookInterface, within n _ found]

theorem Names.Within.member (within : names.Within type?) {n : String} {target : Target}
    (found : names.type? n = some target) : lookMember type? n = ⟨n, target⟩ := by
  rw [lookMember, within n _ found]
  rfl

theorem Names.Within.typeRef (within : names.Within type?) {context : String}
    {type : Document.TypeExpr} {t : TypeRef} (built : names.typeRef context type = .ok t) :
    t = lookType type? type := by
  fun_induction Names.typeRef names context type generalizing t with
  | case1 n | case3 n =>
    simp only [bind_eq_ok, pure_eq_ok, Names.namedType_eq_ok] at built
    obtain ⟨named, ⟨rfl, found⟩, rfl⟩ := built
    rw [lookType, within.member found]
  | case2 element ih | case4 element ih =>
    simp only [bind_eq_ok, pure_eq_ok] at built
    obtain ⟨inner, success, rfl⟩ := built
    rw [ih success, lookType]
  | case5 => cases built

theorem Names.Within.preserves (within : names.Within type?) :
    names.Preserves (byTarget text type?) (asIs text) where
  text := rfl
  reference _ _ found := (within.interface found).symm
  member _ _ found := (within.member found).symm
  type _ _ _ built := within.typeRef built
  value _ _ _ built := readValue_of_value built
  location _ _ found := readLocation_of_ofName? found

end

/-! ## Roots -/

theorem Roots.eq_of_root? {roots roots' : Roots} (directives : roots.directives = roots'.directives)
    (same : ∀ operation, roots.root? operation = roots'.root? operation) : roots = roots' := by
  obtain ⟨applied, query, mutation, subscription⟩ := roots
  obtain ⟨applied', query', mutation', subscription'⟩ := roots'
  obtain rfl : applied = applied' := directives
  obtain rfl : query = query' := same .query
  obtain rfl : mutation = mutation' := same .mutation
  obtain rfl : subscription = subscription' := same .subscription
  rfl

/-! ## Places by name -/

/-- A definition of a file is one of its document, or it is the `Query` that the document lacks. -/
theorem Resolved.nameIn?_of_nameAt? (resolved : Resolved names name document file)
    {target : Target} {n : String} (placed : file.nameAt? target = some n)
    (defined : ∀ scalar, target ≠ .builtin scalar) :
    (Entry.type target).nameIn? document = some n ∨ n = "Query" ∧ n ∉ document.names := by
  cases target with
  | builtin scalar => exact absurd rfl (defined scalar)
  | object index =>
    obtain ⟨objects, built, equal⟩ := resolved.objects
    rw [File.nameAt?, equal] at placed
    by_cases inside : index < objects.length
    · rw [List.getElem?_append_left inside,
        built.getElem?_map_eq (fun _ _ h => (Names.composite_eq_ok.1 h).1) index] at placed
      exact .inl placed
    · rw [List.getElem?_append_right (Nat.le_of_not_lt inside)] at placed
      obtain ⟨added, found, rfl⟩ := Option.map_eq_some_iff.1 placed
      have isAdded := List.mem_of_getElem? found
      rw [addedObjects] at isAdded
      split at isAdded
      · next missing =>
        rw [List.mem_singleton.1 isAdded]
        exact .inr ⟨rfl, missing.2⟩
      · cases isAdded
  | interface index =>
    exact .inl ((resolved.interfaces.getElem?_map_eq
      (fun _ _ h => (Names.composite_eq_ok.1 h).1) index).symm.trans placed)
  | union index =>
    exact .inl ((resolved.unions.getElem?_map_eq
      (fun _ _ h => (Names.union_eq_ok.1 h).1) index).symm.trans placed)
  | enum index =>
    exact .inl ((resolved.enums.getElem?_map_eq
      (fun _ _ h => (Names.enum_eq_ok.1 h).1) index).symm.trans placed)
  | scalar index =>
    exact .inl ((resolved.scalars.getElem?_map_eq
      (fun _ _ h => (Names.scalar_eq_ok.1 h).1) index).symm.trans placed)
  | input index =>
    exact .inl ((resolved.inputs.getElem?_map_eq
      (fun _ _ h => (Names.input_eq_ok.1 h).1) index).symm.trans placed)

theorem Resolved.not_mem_names (resolved : Resolved names name document file)
    (listed : names.Lists document) {n : String} {scalar : Builtin}
    (found : names.type? n = some (.builtin scalar)) : n ∉ file.names := by
  rcases listed.type?_eq_some.1 found with placed | ⟨_, -, rfl, undefined⟩
  · cases placed
  · exact resolved.builtin_not_mem undefined

/-- What a name stands for can be told from the names in the file. -/
theorem Resolved.target_unique (resolved : Resolved names name document file)
    (listed : names.Lists document) {n : String} {target other : Target}
    (found : names.type? n = some target) (placed : file.nameAt? other = some n)
    (builtin : ∀ scalar, other = .builtin scalar → n ∉ file.names) : other = target := by
  suffices looked : names.type? n = some other by
    exact Option.some.inj (looked.symm.trans found)
  by_cases isBuiltin : ∃ scalar, other = .builtin scalar
  · obtain ⟨scalar, rfl⟩ := isBuiltin
    have undefined : n ∉ document.names := by
      intro member
      exact builtin scalar rfl (resolved.names_perm.mem_iff.2 (List.mem_append_left _ member))
    exact listed.type?_eq_some.2 (.inr ⟨scalar, rfl, Option.some.inj placed, undefined⟩)
  · rcases resolved.nameIn?_of_nameAt? placed fun scalar is => isBuiltin ⟨scalar, is⟩ with
      inDocument | ⟨rfl, undefined⟩
    · exact listed.type?_eq_some.2 (.inl inDocument)
    · -- A `Query` that the document lacks is not looked up.
      rw [Names.type?, listed.find?_eq_none.2 undefined] at found
      cases found

end SdlCompiler.Schema
