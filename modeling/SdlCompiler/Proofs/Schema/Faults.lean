import SdlCompiler.Proofs.Outcome
import SdlCompiler.Proofs.Schema.Parts
import SdlCompiler.Schema.Resolve

/-!
# What an error is about

A definition that cannot be built has a part that is at fault, and the error tells what is wrong
with a part that is there (`Names.build_blames`): a type that is non-null twice, a number that
cannot be read, or a location that does not exist. Of a reference only the name is told.
-/

namespace SdlCompiler.Schema

open Document (Definition)
open Outcome

/-- The text of a number in a value that cannot be read: an integer of more than 64 bits, or a
float that is not finite. -/
def Unread (v : Document.Value) (text : String) : Prop :=
  (text ∈ v.ints ∧ Numeric.int64? text.toList = none) ∨
    (text ∈ v.floats ∧ Numeric.Binary64.readFinite? text.toList = none)

theorem unread_list_cons {item : Document.Value} {rest : List Document.Value} {text : String} :
    Unread (.list (item :: rest)) text ↔ Unread item text ∨ Unread (.list rest) text := by
  simp only [Unread, Value.ints, Value.itemInts, Value.floats, Value.itemFloats, List.mem_append,
    or_and_right]
  exact or_or_or_comm

theorem unread_object_cons {key : String} {v : Document.Value}
    {rest : List (String × Document.Value)} {text : String} :
    Unread (.object ((key, v) :: rest)) text ↔ Unread v text ∨ Unread (.object rest) text := by
  simp only [Unread, Value.ints, Value.fieldInts, Value.floats, Value.fieldFloats, List.mem_append,
    or_and_right]
  exact or_or_or_comm

/-- An error about one of the given types, values or locations, or about a reference. -/
def Blames (types : List Document.TypeExpr) (values : List Document.Value)
    (locations : List String) : SchemaError → Prop
  | .unresolvedType _ _ => True
  | .nonNullOfNonNull _ => ∃ type ∈ types, ¬type.NonNullOnce
  | .unknownValue text _ => ∃ v ∈ values, Unread v text
  | .unknownLocation place _ => place ∈ locations ∧ Location.ofName? place = none
  | .malformed | .integerRange _ | .duplicateSchema | .duplicateDefinition _
  | .unsupportedDefinition _ _ => False

namespace Names

variable {names : Names} {context parent n : String} {E : SchemaError → Prop}
  {types : List Document.TypeExpr} {values : List Document.Value} {locations : List String}

/-! ## Values and types -/

-- An error does not tell how deep a number stands, so the value to blame is the outermost one:
-- `here` passes on what is found in a part of it.
mutual

theorem failsWith_value {v : Document.Value}
    (here : ∀ text, Unread v text → E (.unknownValue text context)) :
    FailsWith E (value context v) := by
  cases v with
  | «variable» _ | string _ | boolean _ | null | enum _ => exact failsWith_ok _
  | int literal =>
    refine FailsWith.bind ?_ fun n => failsWith_ok _
    rw [Names.int]
    split
    · exact failsWith_ok _
    · next large => exact failsWith_error (here literal (.inl ⟨.head _, large⟩))
  | float literal =>
    refine FailsWith.bind ?_ fun x => failsWith_ok _
    rw [Names.float]
    split
    · exact failsWith_ok _
    · next unread => exact failsWith_error (here literal (.inr ⟨.head _, unread⟩))
  | list items => exact (failsWith_items here).bind fun _ => failsWith_ok _
  | object fields => exact (failsWith_fields here).bind fun _ => failsWith_ok _

theorem failsWith_items {items : List Document.Value}
    (here : ∀ text, Unread (.list items) text → E (.unknownValue text context)) :
    FailsWith E (Value.traverseItems (int context) (float context) items) := by
  cases items with
  | nil => exact failsWith_ok []
  | cons item rest =>
    refine (failsWith_value fun text unread => ?_).bind fun _ =>
      (failsWith_items fun text unread => ?_).bind fun _ => failsWith_ok _
    · exact here text (unread_list_cons.2 (.inl unread))
    · exact here text (unread_list_cons.2 (.inr unread))

theorem failsWith_fields {fields : List (String × Document.Value)}
    (here : ∀ text, Unread (.object fields) text → E (.unknownValue text context)) :
    FailsWith E (Value.traverseFields (int context) (float context) fields) := by
  cases fields with
  | nil => exact failsWith_ok []
  | cons field rest =>
    obtain ⟨key, v⟩ := field
    refine (failsWith_value fun text unread => ?_).bind fun _ =>
      (failsWith_fields fun text unread => ?_).bind fun _ => failsWith_ok _
    · exact here text (unread_object_cons.2 (.inl unread))
    · exact here text (unread_object_cons.2 (.inr unread))

end

theorem blames_value {v : Document.Value} (written : v ∈ values) :
    FailsWith (Blames types values locations) (value context v) :=
  failsWith_value fun _ unread => ⟨v, written, unread⟩

theorem blames_directives {ds : List Document.Directive}
    (written : ∀ v ∈ ds.flatMap Directive.values, v ∈ values) :
    FailsWith (Blames types values locations) (directives context ds) := by
  simp only [List.forall_mem_flatMap, Directive.values, List.forall_mem_map] at written
  refine failsWith_mapM fun d member => ?_
  refine (failsWith_mapM fun a given => ?_).bind fun _ => failsWith_ok _
  exact (blames_value (written d member a given)).bind fun _ => failsWith_ok _

theorem failsWith_namedType (reference : E (.unresolvedType n context)) :
    FailsWith E (names.namedType context n) := by
  rw [namedType]
  split
  · exact failsWith_ok _
  · exact failsWith_error reference

theorem failsWith_typeRef {type : Document.TypeExpr}
    (reference : ∀ n, E (.unresolvedType n context))
    (twice : ¬type.NonNullOnce → E (.nonNullOfNonNull context)) :
    FailsWith E (names.typeRef context type) := by
  fun_induction names.typeRef context type with
  | case1 n | case3 n => exact (failsWith_namedType (reference n)).bind fun _ => failsWith_ok _
  | case2 element ih | case4 element ih => exact (ih twice).bind fun _ => failsWith_ok _
  | case5 => exact failsWith_error (twice id)

theorem blames_typeRef {type : Document.TypeExpr} (written : type ∈ types) :
    FailsWith (Blames types values locations) (names.typeRef context type) :=
  failsWith_typeRef (fun _ => trivial) fun twice => ⟨type, written, twice⟩

/-! ## Parts of definitions -/

theorem blames_inputValue {v : Document.InputValue} (typed : v.type ∈ types)
    (valued : ∀ x ∈ v.values, x ∈ values) :
    FailsWith (Blames types values locations) (names.inputValue parent v) := by
  obtain ⟨defaulted, applied⟩ := List.forall_mem_append.1 valued
  refine (blames_typeRef typed).bind fun type => FailsWith.bind ?_ fun default =>
    (blames_directives applied).bind fun _ => failsWith_ok _
  cases present : v.default with
  | none => exact failsWith_ok none
  | some x =>
    rw [present] at defaulted
    exact (blames_value (defaulted x (.head _))).bind fun _ => failsWith_ok _

theorem blames_inputValues {vs : List Document.InputValue}
    (typed : ∀ t ∈ vs.map InputValue.type, t ∈ types)
    (valued : ∀ x ∈ vs.flatMap InputValue.values, x ∈ values) :
    FailsWith (Blames types values locations) (vs.mapM (names.inputValue parent)) := by
  rw [List.forall_mem_map] at typed
  rw [List.forall_mem_flatMap] at valued
  exact failsWith_mapM fun v member => blames_inputValue (typed v member) (valued v member)

theorem blames_field {f : Document.Field} (typed : ∀ t ∈ f.types, t ∈ types)
    (valued : ∀ x ∈ f.values, x ∈ values) :
    FailsWith (Blames types values locations) (names.field parent f) := by
  obtain ⟨typedHere, typedInside⟩ := List.forall_mem_cons.1 typed
  obtain ⟨applied, valuedInside⟩ := List.forall_mem_append.1 valued
  exact (blames_directives applied).bind fun _ => (blames_typeRef typedHere).bind fun _ =>
    (blames_inputValues typedInside valuedInside).bind fun _ => failsWith_ok _

/-! ## Definitions -/

theorem blames_scalar {d : Document.Scalar}
    (applied : ∀ x ∈ d.directives.flatMap Directive.values, x ∈ values) :
    FailsWith (Blames types values locations) (scalar d) :=
  (blames_directives applied).bind fun _ => failsWith_ok _

theorem blames_composite {d : Document.Composite}
    (typed : ∀ t ∈ d.fields.flatMap Field.types, t ∈ types)
    (valued : ∀ x ∈ d.directives.flatMap Directive.values ++ d.fields.flatMap Field.values,
      x ∈ values) :
    FailsWith (Blames types values locations) (names.composite d) := by
  obtain ⟨applied, valuedInside⟩ := List.forall_mem_append.1 valued
  rw [List.forall_mem_flatMap] at typed valuedInside
  have implemented : ∀ n, FailsWith (Blames types values locations)
      (names.interfaceIndex d.name n) := by
    intro n
    rw [interfaceIndex]
    split
    · exact failsWith_ok _
    · exact failsWith_error trivial
  exact (blames_directives applied).bind fun _ =>
    (failsWith_mapM fun n _ => implemented n).bind fun _ =>
      (failsWith_mapM fun f member => blames_field (typed f member) (valuedInside f member)).bind
        fun _ => failsWith_ok _

theorem blames_union {d : Document.Union}
    (applied : ∀ x ∈ d.directives.flatMap Directive.values, x ∈ values) :
    FailsWith (Blames types values locations) (names.union d) :=
  (failsWith_mapM fun _ _ => failsWith_namedType trivial).bind fun _ =>
    (blames_directives applied).bind fun _ => failsWith_ok _

theorem blames_enum {d : Document.Enum}
    (valued : ∀ x ∈ d.directives.flatMap Directive.values ++
      d.values.flatMap fun v => v.directives.flatMap Directive.values, x ∈ values) :
    FailsWith (Blames types values locations) (enum d) := by
  obtain ⟨applied, appliedInside⟩ := List.forall_mem_append.1 valued
  rw [List.forall_mem_flatMap] at appliedInside
  refine (failsWith_mapM fun v member => ?_).bind fun _ =>
    (blames_directives applied).bind fun _ => failsWith_ok _
  exact (blames_directives (appliedInside v member)).bind fun _ => failsWith_ok _

theorem blames_input {d : Document.InputObject}
    (typed : ∀ t ∈ d.fields.map InputValue.type, t ∈ types)
    (valued : ∀ x ∈ d.directives.flatMap Directive.values ++ d.fields.flatMap InputValue.values,
      x ∈ values) :
    FailsWith (Blames types values locations) (names.input d) := by
  obtain ⟨applied, valuedInside⟩ := List.forall_mem_append.1 valued
  exact (blames_directives applied).bind fun _ =>
    (blames_inputValues typed valuedInside).bind fun _ => failsWith_ok _

theorem blames_directiveDefinition {d : Document.DirectiveDefinition}
    (typed : ∀ t ∈ d.arguments.map InputValue.type, t ∈ types)
    (valued : ∀ x ∈ d.arguments.flatMap InputValue.values, x ∈ values)
    (placed : ∀ l ∈ d.locations, l ∈ locations) :
    FailsWith (Blames types values locations) (names.directiveDefinition d) := by
  have each : ∀ l ∈ d.locations, FailsWith (Blames types values locations)
      (location d.name l) := by
    intro l member
    rw [location]
    split
    · exact failsWith_ok _
    · next unknown => exact failsWith_error ⟨placed l member, unknown⟩
  exact (failsWith_mapM each).bind fun _ =>
    (blames_inputValues typed valued).bind fun _ => failsWith_ok _

theorem blames_roots {block : Document.SchemaBlock}
    (applied : ∀ x ∈ block.directives.flatMap Directive.values, x ∈ values) :
    FailsWith (Blames types values locations) (names.roots block) := by
  have each : ∀ roots root, FailsWith (Blames types values locations)
      (names.withRoot roots root) := by
    intro roots root
    refine FailsWith.bind ?_ fun index => ?_
    · rw [rootIndex]
      split
      · exact failsWith_ok _
      · exact failsWith_error trivial
    · split <;> exact failsWith_ok _
  exact (blames_directives applied).bind fun applied =>
    failsWith_foldlM each block.roots { directives := applied }

/-- Building a definition, for the sake of its errors. There is nothing to build of a definition
that is not compiled. -/
def build (names : Names) : Definition → Except SchemaError Unit
  | .schema block => (names.roots block).map fun _ => ()
  | .scalar d => (scalar d).map fun _ => ()
  | .object d | .interface d => (names.composite d).map fun _ => ()
  | .union d => (names.union d).map fun _ => ()
  | .enum d => (enum d).map fun _ => ()
  | .input d => (names.input d).map fun _ => ()
  | .directive d => (names.directiveDefinition d).map fun _ => ()
  | .other _ _ => .ok ()

/-- A definition that cannot be built has a part that is at fault. -/
theorem build_blames {d : Definition} {e : SchemaError} (failed : names.build d = .error e) :
    Blames d.types d.values d.locations e := by
  cases d with
  | schema block => exact blames_roots (fun _ => id) e (map_eq_error.1 failed)
  | scalar d => exact blames_scalar (fun _ => id) e (map_eq_error.1 failed)
  | object d | interface d =>
    exact blames_composite (fun _ => id) (fun _ => id) e (map_eq_error.1 failed)
  | union d => exact blames_union (fun _ => id) e (map_eq_error.1 failed)
  | enum d => exact blames_enum (fun _ => id) e (map_eq_error.1 failed)
  | input d => exact blames_input (fun _ => id) (fun _ => id) e (map_eq_error.1 failed)
  | directive d =>
    exact blames_directiveDefinition (fun _ => id) (fun _ => id) (fun _ => id) e
      (map_eq_error.1 failed)
  | other kind n => cases failed

end Names

end SdlCompiler.Schema
