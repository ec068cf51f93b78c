import SdlCompiler.Proofs.Schema.Restating

/-!
# Files of documents that can be written

A document that can be written resolves to a file that can be written too: building a definition
keeps its names, and a value has no infinite number once its numbers are read.
-/

namespace SdlCompiler.Schema

open Document (IsName Definition)
open Outcome

variable {names : Names} {name : String} {document : Document} {file : File}

namespace Names

variable {context parent : String}

/-! ## Parts of definitions -/

theorem finite_of_value {v : Document.Value} {w : Value} (spelled : Document.Value.Spelled v)
    (built : value context v = .ok w) : w.Finite := by
  obtain ⟨written, -⟩ := spelled
  unfold value at built
  induction written generalizing w with
  | int text =>
    obtain ⟨n, -, same⟩ := bind_eq_ok.1 built
    obtain rfl := pure_eq_ok.1 same
    exact .int n
  | float =>
    obtain ⟨x, read, same⟩ := bind_eq_ok.1 built
    obtain rfl := pure_eq_ok.1 same
    rw [float_eq_ok, Numeric.Binary64.readFinite?, Option.filter_eq_some_iff] at read
    exact .float read.2
  | string basic =>
    cases built
    exact .string basic
  | boolean value =>
    cases built
    exact .boolean value
  | null =>
    cases built
    exact .null
  | enum isName free =>
    cases built
    exact .enum isName free
  | list _ ih =>
    rw [traverse_list] at built
    obtain ⟨items, all, same⟩ := bind_eq_ok.1 built
    obtain rfl := pure_eq_ok.1 same
    refine .list fun item member => ?_
    obtain ⟨source, present, success⟩ := exists_of_forall₂ (mapM_eq_ok.1 all).flip member
    exact ih source present success
  | object isName _ ih =>
    rw [traverse_object] at built
    obtain ⟨fields, all, same⟩ := bind_eq_ok.1 built
    obtain rfl := pure_eq_ok.1 same
    have related : ∀ field ∈ fields, IsName field.1 ∧ Value.Finite field.2 := by
      intro field member
      obtain ⟨source, present, success⟩ := exists_of_forall₂ (mapM_eq_ok.1 all).flip member
      obtain ⟨inner, valued, same⟩ := bind_eq_ok.1 success
      obtain rfl := pure_eq_ok.1 same
      exact ⟨isName source present, ih source present valued⟩
    exact .object (fun field member => (related field member).1)
      fun field member => (related field member).2

/-- What holds of all parts of a definition holds of what they are built to. -/
theorem forall_of_mapM {ε α β : Type} {build : α → Except ε β} {P : α → Prop} {Q : β → Prop}
    {xs : List α} {ys : List β} (success : xs.mapM build = .ok ys)
    (each : ∀ x y, P x → build x = .ok y → Q y) (all : ∀ x ∈ xs, P x) : ∀ y ∈ ys, Q y := by
  intro y member
  obtain ⟨x, present, built⟩ := exists_of_forall₂ (mapM_eq_ok.1 success).flip member
  exact each x y (all x present) built

theorem written_of_directives {ds : List Document.Directive} {es : List Directive}
    (written : ∀ d ∈ ds, d.Written Document.Value.Spelled)
    (built : directives context ds = .ok es) : ∀ e ∈ es, e.Written Value.Finite := by
  refine forall_of_mapM built (fun d e written built => ?_) written
  obtain ⟨sameName, arguments⟩ := directive_eq_ok.1 built
  refine ⟨sameName ▸ written.name, ?_⟩
  refine forall_of_mapM arguments (fun a b written built => ?_) written.arguments
  obtain ⟨sameKey, valued⟩ := argument_eq_ok.1 built
  exact ⟨sameKey ▸ written.1, finite_of_value written.2 valued⟩

/-- A type keeps its name and its lists. -/
theorem typeRef_shape {type : Document.TypeExpr} {t : TypeRef}
    (built : names.typeRef context type = .ok t) :
    t.innermost.name = type.innermost ∧ t.depth = type.depth := by
  fun_induction Names.typeRef names context type generalizing t with
  | case1 n | case3 n =>
    simp only [bind_eq_ok, pure_eq_ok, Names.namedType_eq_ok] at built
    obtain ⟨named, ⟨rfl, -⟩, rfl⟩ := built
    exact ⟨rfl, rfl⟩
  | case2 element ih | case4 element ih =>
    simp only [bind_eq_ok, pure_eq_ok] at built
    obtain ⟨inner, success, rfl⟩ := built
    obtain ⟨sameName, sameDepth⟩ := ih success
    exact ⟨sameName, congrArg (· + 1) sameDepth⟩
  | case5 => cases built

section

variable (refers : ∀ n target, IsName n → names.type? n = some target → file.Refers ⟨n, target⟩)

include refers

theorem knows_of_typeRef {type : Document.TypeExpr} {t : TypeRef} (written : type.Written)
    (built : names.typeRef context type = .ok t) : file.Knows t := by
  obtain ⟨sameName, sameDepth⟩ := typeRef_shape built
  refine ⟨sameDepth ▸ written.depth, ?_⟩
  exact refers _ _ (sameName ▸ written.name) (type?_of_typeRef built)

theorem written_of_inputValue {v : Document.InputValue} {w : InputValue}
    (written : v.Written Document.TypeExpr.Written Document.Value.Spelled)
    (built : names.inputValue parent v = .ok w) : w.Written file.Knows Value.Finite := by
  obtain ⟨sameName, -, typed, valued, directed⟩ := inputValue_eq_ok.1 built
  refine ⟨sameName ▸ written.name, knows_of_typeRef refers written.type typed, ?_,
    written_of_directives written.directives directed⟩
  intro x isDefault
  rcases option_mapM_eq_ok.1 valued with ⟨-, isNone⟩ | ⟨a, b, isSome, success, isResult⟩
  · rw [isNone] at isDefault
    cases isDefault
  · rw [isResult] at isDefault
    cases isDefault
    exact finite_of_value (written.default a isSome) success

theorem written_of_field {f : Document.Field} {g : Field}
    (written : f.Written Document.TypeExpr.Written Document.Value.Spelled)
    (built : names.field parent f = .ok g) : g.Written file.Knows Value.Finite := by
  obtain ⟨sameName, -, directed, typed, taken⟩ := field_eq_ok.1 built
  refine ⟨sameName ▸ written.name, ?_, knows_of_typeRef refers written.type typed,
    written_of_directives written.directives directed⟩
  exact forall_of_mapM taken (fun _ _ => written_of_inputValue refers) written.arguments

/-! ## Definitions -/

theorem written_of_composite {d : Document.Composite} {c : Composite}
    (interfaces : ∀ n index, names.type? n = some (.interface index) →
      index < file.interfaces.length)
    (written : d.Written IsName Document.TypeExpr.Written Document.Value.Spelled)
    (built : names.composite d = .ok c) :
    c.Written (· < file.interfaces.length) file.Knows Value.Finite := by
  obtain ⟨sameName, -, directed, implemented, filled⟩ := composite_eq_ok.1 built
  refine ⟨sameName ▸ written.name, ?_, written_of_directives written.directives directed,
    forall_of_mapM filled (fun _ _ => written_of_field refers) written.fields⟩
  refine forall_of_mapM implemented (fun n index _ found => ?_) written.implements
  exact interfaces n index (interfaceIndex_eq_ok.1 found)

theorem written_of_union {d : Document.Union} {u : Union}
    (written : d.Written IsName Document.Value.Spelled) (built : names.union d = .ok u) :
    u.Written file.Refers Value.Finite := by
  obtain ⟨sameName, -, named, directed⟩ := union_eq_ok.1 built
  refine ⟨sameName ▸ written.name, written_of_directives written.directives directed, ?_⟩
  refine forall_of_mapM named (fun n r isName found => ?_) written.members
  obtain ⟨rfl, looked⟩ := namedType_eq_ok.1 found
  exact refers _ _ isName looked

theorem written_of_input {d : Document.InputObject} {i : InputObject}
    (written : d.Written Document.TypeExpr.Written Document.Value.Spelled)
    (built : names.input d = .ok i) : i.Written file.Knows Value.Finite := by
  obtain ⟨sameName, -, directed, filled⟩ := input_eq_ok.1 built
  exact ⟨sameName ▸ written.name, written_of_directives written.directives directed,
    forall_of_mapM filled (fun _ _ => written_of_inputValue refers) written.fields⟩

theorem written_of_directiveDefinition {d : Document.DirectiveDefinition}
    {e : DirectiveDefinition}
    (written : d.Written Document.TypeExpr.Written Document.Value.Spelled
      fun place => (Location.ofName? place).isSome)
    (built : names.directiveDefinition d = .ok e) :
    e.Written file.Knows Value.Finite fun _ => True := by
  obtain ⟨sameName, -, -, placed, taken⟩ := directiveDefinition_eq_ok.1 built
  refine ⟨sameName ▸ written.name, ?_, ?_, fun _ _ => trivial⟩
  · exact forall_of_mapM taken (fun _ _ => written_of_inputValue refers) written.arguments
  · intro empty
    have length := (mapM_eq_ok.1 placed).length_eq
    rw [empty] at length
    exact written.nonempty (List.length_eq_zero_iff.1 length)

end

theorem written_of_enum {d : Document.Enum} {e : Enum}
    (written : d.Written Document.Value.Spelled) (built : enum d = .ok e) :
    e.Written Value.Finite := by
  obtain ⟨sameName, -, listed, directed⟩ := enum_eq_ok.1 built
  refine ⟨sameName ▸ written.name, written_of_directives written.directives directed, ?_⟩
  refine forall_of_mapM listed (fun v w written built => ?_) written.values
  obtain ⟨sameSymbol, -, applied⟩ := enumValue_eq_ok.1 built
  exact ⟨sameSymbol ▸ written.name, sameSymbol ▸ written.free,
    written_of_directives written.directives applied⟩

theorem written_of_scalar {d : Document.Scalar} {s : Scalar}
    (written : d.Written Document.Value.Spelled) (built : scalar d = .ok s) :
    s.Written Value.Finite := by
  obtain ⟨sameName, -, directed⟩ := scalar_eq_ok.1 built
  exact ⟨sameName ▸ written.name, written_of_directives written.directives directed⟩

end Names

/-! ## Files -/

/-- A name that is looked up among those of the document leads to its place in the file. -/
theorem Resolved.refers (resolved : Resolved names name document file)
    (listed : names.Lists document) {n : String} {target : Target} (isName : IsName n)
    (found : names.type? n = some target) : file.Refers ⟨n, target⟩ := by
  rcases listed.type?_eq_some.1 found with placed | ⟨scalar, rfl, rfl, undefined⟩
  · refine ⟨isName, resolved.nameAt? placed, ?_⟩
    rintro scalar rfl
    cases placed
  · exact ⟨isName, rfl, fun _ _ => resolved.builtin_not_mem undefined⟩

/-- Definitions that are each built from one of the document, where building keeps a property. -/
theorem forall_of_built {ε δ σ : Type} {build : δ → Except ε σ} {pick : Definition → Option δ}
    {P : δ → Prop} {Q : σ → Prop} {slots : List σ}
    (built : Built build (document.filterMap pick) slots)
    (written : ∀ d ∈ document, d.Written) (kind : ∀ d x, pick d = some x → d.Written → P x)
    (each : ∀ x y, P x → build x = .ok y → Q y) : ∀ y ∈ slots, Q y := by
  refine Names.forall_of_mapM (mapM_eq_ok.2 built) each fun x member => ?_
  obtain ⟨d, present, picked⟩ := List.mem_filterMap.1 member
  exact kind d x picked (written d present)

theorem Resolved.interface_lt (resolved : Resolved names name document file)
    (listed : names.Lists document) (n : String) (index : Nat)
    (found : names.type? n = some (.interface index)) : index < file.interfaces.length := by
  have named := resolved.nameAt? (listed.nameIn?_of_type? found (by simp))
  obtain ⟨c, isThere, -⟩ := Option.map_eq_some_iff.1 named
  exact (List.getElem?_eq_some_iff.1 isThere).1

theorem Resolved.written_applied (resolved : Resolved names name document file)
    (written : ∀ d ∈ document, d.Written) :
    ∀ d ∈ file.schema.directives, d.Written Value.Finite := by
  have schema := resolved.schema
  cases last : document.schemaBlocks.getLast? with
  | none =>
    rw [last, Option.elim_none] at schema
    rw [schema.directives]
    exact fun _ member => absurd member List.not_mem_nil
  | some block =>
    rw [last, Option.elim_some] at schema
    obtain ⟨d, present, isBlock⟩ := List.mem_filterMap.1 (List.mem_of_getLast? last)
    have spelled := written d present
    cases d <;> cases isBlock
    exact Names.written_of_directives spelled (Names.roots_of_eq_ok schema).1

theorem Resolved.written_objects (resolved : Resolved names name document file)
    (listed : names.Lists document) (written : ∀ d ∈ document, d.Written) :
    ∀ c ∈ file.objects, c.Written (· < file.interfaces.length) file.Knows Value.Finite := by
  obtain ⟨objects, built, equal⟩ := resolved.objects
  rw [equal, List.forall_mem_append]
  constructor
  · refine forall_of_built built written (fun d x picked spelled => ?_) fun d c =>
      Names.written_of_composite (fun n target => resolved.refers listed)
        (resolved.interface_lt listed)
    cases d <;> cases picked
    exact spelled
  · -- An object that no definition gives is the empty query root.
    rw [addedObjects]
    split
    · rw [List.forall_mem_singleton]
      exact ⟨by decide, by simp, by simp, by simp⟩
    · exact fun _ member => absurd member List.not_mem_nil

/-- A document that can be written resolves to a sound file. -/
theorem Resolved.sound (resolved : Resolved names name document file)
    (listed : names.Lists document) (registrable : Registrable document)
    (written : ∀ d ∈ document, d.Written) : file.Sound := by
  have refers : ∀ n target, IsName n → names.type? n = some target → file.Refers ⟨n, target⟩ :=
    fun n target isName found => resolved.refers listed isName found
  have interfaces := resolved.interface_lt listed
  constructor
  case distinct => exact resolved.names_nodup registrable
  case applied => exact resolved.written_applied written
  case roots =>
    intro operation index isRoot
    obtain ⟨n, -, named⟩ := resolved.root_name listed isRoot
    obtain ⟨c, isThere, -⟩ := Option.map_eq_some_iff.1 named
    exact (List.getElem?_eq_some_iff.1 isThere).1
  case objects => exact resolved.written_objects listed written
  case interfaces =>
    refine forall_of_built resolved.interfaces written (fun d x picked spelled => ?_)
      fun d c => Names.written_of_composite refers interfaces
    cases d <;> cases picked
    exact spelled
  case unions =>
    refine forall_of_built resolved.unions written (fun d x picked spelled => ?_)
      fun d u => Names.written_of_union refers
    cases d <;> cases picked
    exact spelled
  case enums =>
    refine forall_of_built resolved.enums written (fun d x picked spelled => ?_)
      fun d e => Names.written_of_enum
    cases d <;> cases picked
    exact spelled
  case scalars =>
    refine forall_of_built resolved.scalars written (fun d x picked spelled => ?_)
      fun d s => Names.written_of_scalar
    cases d <;> cases picked
    exact spelled
  case inputs =>
    refine forall_of_built resolved.inputs written (fun d x picked spelled => ?_)
      fun d i => Names.written_of_input refers
    cases d <;> cases picked
    exact spelled
  case directives =>
    refine forall_of_built resolved.directives written (fun d x picked spelled => ?_)
      fun d e => Names.written_of_directiveDefinition refers
    cases d <;> cases picked
    exact spelled

/-- A text compiles only to a sound file, of the name given. -/
theorem sound_of_compile {source : String} (compiled : compile name source = .ok file) :
    file.Sound ∧ file.name = name := by
  obtain ⟨document, parsed, success⟩ := bind_eq_ok.1 compiled
  have spec := resolve_spec name document
  rw [success] at spec
  obtain ⟨registrable, names, listed, -, -, resolved⟩ := spec
  exact ⟨resolved.sound listed registrable (Document.parse_written parsed), resolved.name⟩

end SdlCompiler.Schema
