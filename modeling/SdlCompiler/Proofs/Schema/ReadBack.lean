import SdlCompiler.Proofs.Schema.Soundness

/-!
# Files read back

What a document says is in the file that it resolves to, in the same order. The two are compared
with places replaced by the names of what stands there, and texts of numbers by the numbers.

A `View` is a way to look at the parts of definitions. A definition looks the same before and after
it is built, in any two views in which its references, types and values do (`Names.Preserves`). So
each way to compare a file with its document takes one instance of `Names.Preserves`.
-/

namespace SdlCompiler

/-! ## Views -/

/-- What is seen of a description, a reference to an interface, the member of a union, a type, a
value and a location. -/
structure View (ρ μ τ ν ℓ ρ' μ' τ' ν' ℓ' : Type) where
  text : Option String → Option String := id
  reference : ρ → ρ'
  member : μ → μ'
  type : τ → τ'
  value : ν → ν'
  location : ℓ → ℓ'

namespace View

variable {ρ μ τ ν ℓ ρ' μ' τ' ν' ℓ' : Type} (view : View ρ μ τ ν ℓ ρ' μ' τ' ν' ℓ')

def composite : Composite ρ τ ν → Composite ρ' τ' ν' :=
  Composite.map view.text view.reference view.type view.value

def union : Union μ ν → Union μ' ν' :=
  Union.map view.text view.member view.value

def enum : Enum ν → Enum ν' :=
  Enum.map view.text view.value

def scalar : Scalar ν → Scalar ν' :=
  Scalar.map view.text view.value

def input : InputObject τ ν → InputObject τ' ν' :=
  InputObject.map view.text view.type view.value

def directive : DirectiveDefinition τ ν ℓ → DirectiveDefinition τ' ν' ℓ' :=
  DirectiveDefinition.map view.text view.type view.value view.location

section

variable {ρ'' μ'' τ'' ν'' ℓ'' : Type} (after : View ρ' μ' τ' ν' ℓ' ρ'' μ'' τ'' ν'' ℓ'')
  (before : View ρ μ τ ν ℓ ρ' μ' τ' ν' ℓ')

/-- What is seen of what is seen. -/
def comp : View ρ μ τ ν ℓ ρ'' μ'' τ'' ν'' ℓ'' where
  text := after.text ∘ before.text
  reference := after.reference ∘ before.reference
  member := after.member ∘ before.member
  type := after.type ∘ before.type
  value := after.value ∘ before.value
  location := after.location ∘ before.location

theorem composite_comp : (after.comp before).composite = after.composite ∘ before.composite := by
  rw [composite, composite, composite, Composite.map_comp, comp]

theorem union_comp : (after.comp before).union = after.union ∘ before.union := by
  rw [union, union, union, Union.map_comp, comp]

theorem enum_comp : (after.comp before).enum = after.enum ∘ before.enum := by
  rw [enum, enum, enum, Enum.map_comp, comp]

theorem scalar_comp : (after.comp before).scalar = after.scalar ∘ before.scalar := by
  rw [scalar, scalar, scalar, Scalar.map_comp, comp]

theorem input_comp : (after.comp before).input = after.input ∘ before.input := by
  rw [input, input, input, InputObject.map_comp, comp]

theorem directive_comp : (after.comp before).directive = after.directive ∘ before.directive := by
  rw [directive, directive, directive, DirectiveDefinition.map_comp, comp]

end

end View

/-! ## Values and types -/

namespace Value

open Outcome

variable {ι φ ι' φ' ι'' φ'' ε : Type} {int : ι → Except ε ι'} {float : φ → Except ε φ'}
  {after : ι' → ι''} {before : ι → ι''} {after' : φ' → φ''} {before' : φ → φ''}

mutual

/-- Numbers that look the same once they are replaced leave values that look the same. -/
theorem map_of_traverse (ints : ∀ n m, int n = .ok m → after m = before n)
    (floats : ∀ x y, float x = .ok y → after' y = before' x) {v : Value ι φ} {w : Value ι' φ'}
    (built : v.traverse int float = .ok w) : w.map after after' = v.map before before' := by
  cases v with
  | «variable» _ | string _ | boolean _ | null | enum _ =>
    cases built
    rfl
  | int literal =>
    obtain ⟨n, read, same⟩ := bind_eq_ok.1 built
    obtain rfl := pure_eq_ok.1 same
    rw [map, map, ints _ _ read]
  | float literal =>
    obtain ⟨x, read, same⟩ := bind_eq_ok.1 built
    obtain rfl := pure_eq_ok.1 same
    rw [map, map, floats _ _ read]
  | list items =>
    obtain ⟨built, success, same⟩ := bind_eq_ok.1 built
    obtain rfl := pure_eq_ok.1 same
    rw [map, map, mapItems_of_traverseItems ints floats success]
  | object fields =>
    obtain ⟨built, success, same⟩ := bind_eq_ok.1 built
    obtain rfl := pure_eq_ok.1 same
    rw [map, map, mapFields_of_traverseFields ints floats success]

theorem mapItems_of_traverseItems (ints : ∀ n m, int n = .ok m → after m = before n)
    (floats : ∀ x y, float x = .ok y → after' y = before' x) {items : List (Value ι φ)}
    {built : List (Value ι' φ')} (success : traverseItems int float items = .ok built) :
    mapItems after after' built = mapItems before before' items := by
  cases items with
  | nil =>
    cases success
    rfl
  | cons item rest =>
    obtain ⟨first, head, success⟩ := bind_eq_ok.1 success
    obtain ⟨others, tail, same⟩ := bind_eq_ok.1 success
    obtain rfl := pure_eq_ok.1 same
    rw [mapItems, mapItems, map_of_traverse ints floats head,
      mapItems_of_traverseItems ints floats tail]

theorem mapFields_of_traverseFields (ints : ∀ n m, int n = .ok m → after m = before n)
    (floats : ∀ x y, float x = .ok y → after' y = before' x) {fields : List (String × Value ι φ)}
    {built : List (String × Value ι' φ')}
    (success : traverseFields int float fields = .ok built) :
    mapFields after after' built = mapFields before before' fields := by
  cases fields with
  | nil =>
    cases success
    rfl
  | cons field rest =>
    obtain ⟨key, value⟩ := field
    obtain ⟨first, head, success⟩ := bind_eq_ok.1 success
    obtain ⟨others, tail, same⟩ := bind_eq_ok.1 success
    obtain rfl := pure_eq_ok.1 same
    rw [mapFields, mapFields, map_of_traverse ints floats head,
      mapFields_of_traverseFields ints floats tail]

end

end Value

/-- The objects of a document, and after them an empty `Query` if it has neither a schema block nor
a definition of that name. -/
def Document.objectsWithQuery (document : Document) : List Document.Composite :=
  document.objects ++
    if document.schemaBlocks = [] ∧ "Query" ∉ document.names then [{ name := "Query" }] else []

namespace Schema

open Document (Definition)
open Outcome

variable {names : Names} {name : String} {document : Document} {file : File}

/-- A type is built with the lists and marks that it is written with. -/
theorem Names.toDocument_of_typeRef {context : String} {type : Document.TypeExpr} {t : TypeRef}
    (built : names.typeRef context type = .ok t) : t.toDocument = type := by
  fun_induction Names.typeRef names context type generalizing t with
  | case1 n | case3 n =>
    simp only [bind_eq_ok, pure_eq_ok, Names.namedType_eq_ok] at built
    obtain ⟨named, ⟨rfl, -⟩, rfl⟩ := built
    rfl
  | case2 element ih | case4 element ih =>
    simp only [bind_eq_ok, pure_eq_ok] at built
    obtain ⟨inner, success, rfl⟩ := built
    rw [← ih success]
    rfl
  | case5 => cases built

/-! ## What building preserves -/

abbrev WrittenView := View String String Document.TypeExpr Document.Value String

abbrev ResolvedView := View Nat NamedType TypeRef Value Location

section

variable {ρ μ τ ν ℓ : Type} {written : WrittenView ρ μ τ ν ℓ} {resolved : ResolvedView ρ μ τ ν ℓ}

/-- Each part looks the same when it has been built as it does when it is written. -/
structure Names.Preserves (names : Names) (written : WrittenView ρ μ τ ν ℓ)
    (resolved : ResolvedView ρ μ τ ν ℓ) : Prop where
  text : resolved.text = written.text
  reference : ∀ n index, names.type? n = some (.interface index) →
    resolved.reference index = written.reference n
  member : ∀ n target, names.type? n = some target →
    resolved.member ⟨n, target⟩ = written.member n
  type : ∀ context t u, names.typeRef context t = .ok u → resolved.type u = written.type t
  value : ∀ context v w, Names.value context v = .ok w → resolved.value w = written.value v
  location : ∀ text place, Location.ofName? text = some place →
    resolved.location place = written.location text

namespace Names.Preserves

variable {context parent : String} (preserves : names.Preserves written resolved)

include preserves

theorem directives {ds : List Document.Directive} {es : List Directive}
    (built : Names.directives context ds = .ok es) :
    es.map (Directive.map resolved.value) = ds.map (Directive.map written.value) := by
  refine Built.map_eq (mapM_eq_ok.1 built) fun d e built => ?_
  obtain ⟨sameName, taken⟩ := directive_eq_ok.1 built
  have arguments : e.arguments.map (fun a => (a.1, resolved.value a.2)) =
      d.arguments.map fun a => (a.1, written.value a.2) := by
    refine Built.map_eq (mapM_eq_ok.1 taken) fun a b built => ?_
    obtain ⟨sameKey, valued⟩ := argument_eq_ok.1 built
    rw [sameKey, preserves.value _ _ _ valued]
  rw [Directive.map, Directive.map, sameName, arguments]

theorem default {default : Option Document.Value} {built : Option Value}
    (valued : default.mapM (Names.value context) = .ok built) :
    built.map resolved.value = default.map written.value := by
  rcases option_mapM_eq_ok.1 valued with ⟨rfl, rfl⟩ | ⟨v, w, rfl, success, rfl⟩
  · rfl
  · exact congrArg some (preserves.value _ _ _ success)

theorem inputValues {vs : List Document.InputValue} {ws : List InputValue}
    (built : vs.mapM (names.inputValue parent) = .ok ws) :
    ws.map (InputValue.map resolved.text resolved.type resolved.value) =
      vs.map (InputValue.map written.text written.type written.value) := by
  refine Built.map_eq (mapM_eq_ok.1 built) fun v w built => ?_
  obtain ⟨sameName, sameText, typed, valued, directed⟩ := inputValue_eq_ok.1 built
  rw [InputValue.map, InputValue.map, sameName, sameText, preserves.text,
    preserves.type _ _ _ typed, preserves.default valued, preserves.directives directed]

theorem fields {fs : List Document.Field} {gs : List Field}
    (built : fs.mapM (names.field parent) = .ok gs) :
    gs.map (Field.map resolved.text resolved.type resolved.value) =
      fs.map (Field.map written.text written.type written.value) := by
  refine Built.map_eq (mapM_eq_ok.1 built) fun f g built => ?_
  obtain ⟨sameName, sameText, directed, typed, taken⟩ := field_eq_ok.1 built
  rw [Field.map, Field.map, sameName, sameText, preserves.inputValues taken, preserves.text,
    preserves.type _ _ _ typed, preserves.directives directed]

theorem composite {d : Document.Composite} {c : Composite} (built : names.composite d = .ok c) :
    resolved.composite c = written.composite d := by
  obtain ⟨sameName, sameText, directed, implemented, filled⟩ := composite_eq_ok.1 built
  have interfaces : c.implements.map resolved.reference = d.implements.map written.reference :=
    Built.map_eq (mapM_eq_ok.1 implemented) fun n index found =>
      preserves.reference n index (interfaceIndex_eq_ok.1 found)
  rw [View.composite, View.composite, Composite.map, Composite.map, sameName, sameText, interfaces,
    preserves.directives directed, preserves.fields filled, preserves.text]

theorem union {d : Document.Union} {u : Union} (built : names.union d = .ok u) :
    resolved.union u = written.union d := by
  obtain ⟨sameName, sameText, named, directed⟩ := union_eq_ok.1 built
  have members : u.members.map resolved.member = d.members.map written.member := by
    refine Built.map_eq (mapM_eq_ok.1 named) fun n r found => ?_
    obtain ⟨rfl, looked⟩ := namedType_eq_ok.1 found
    exact preserves.member _ _ looked
  rw [View.union, View.union, Union.map, Union.map, sameName, sameText, preserves.text, members,
    preserves.directives directed]

theorem enum {d : Document.Enum} {e : Enum} (built : Names.enum d = .ok e) :
    resolved.enum e = written.enum d := by
  obtain ⟨sameName, sameText, listed, directed⟩ := enum_eq_ok.1 built
  have values : e.values.map (EnumValue.map resolved.text resolved.value) =
      d.values.map (EnumValue.map written.text written.value) := by
    refine Built.map_eq (mapM_eq_ok.1 listed) fun v w built => ?_
    obtain ⟨sameSymbol, sameText, applied⟩ := enumValue_eq_ok.1 built
    rw [EnumValue.map, EnumValue.map, sameSymbol, sameText, preserves.text,
      preserves.directives applied]
  rw [View.enum, View.enum, Enum.map, Enum.map, sameName, sameText, values, preserves.text,
    preserves.directives directed]

theorem scalar {d : Document.Scalar} {s : Scalar} (built : Names.scalar d = .ok s) :
    resolved.scalar s = written.scalar d := by
  obtain ⟨sameName, sameText, directed⟩ := scalar_eq_ok.1 built
  rw [View.scalar, View.scalar, Scalar.map, Scalar.map, sameName, sameText, preserves.text,
    preserves.directives directed]

theorem input {d : Document.InputObject} {i : InputObject} (built : names.input d = .ok i) :
    resolved.input i = written.input d := by
  obtain ⟨sameName, sameText, directed, filled⟩ := input_eq_ok.1 built
  rw [View.input, View.input, InputObject.map, InputObject.map, sameName, sameText,
    preserves.directives directed, preserves.inputValues filled, preserves.text]

theorem directiveDefinition {d : Document.DirectiveDefinition} {e : DirectiveDefinition}
    (built : names.directiveDefinition d = .ok e) : resolved.directive e = written.directive d := by
  obtain ⟨sameName, sameText, sameFlag, placed, taken⟩ := directiveDefinition_eq_ok.1 built
  have locations : e.locations.map resolved.location = d.locations.map written.location :=
    Built.map_eq (mapM_eq_ok.1 placed) fun text place found =>
      preserves.location text place (location_eq_ok.1 found)
  rw [View.directive, View.directive, DirectiveDefinition.map, DirectiveDefinition.map, sameName,
    sameText, sameFlag, locations, preserves.inputValues taken, preserves.text]

end Names.Preserves

/-- A file looks like its document, kind by kind. -/
structure LooksLike (written : WrittenView ρ μ τ ν ℓ) (resolved : ResolvedView ρ μ τ ν ℓ)
    (document : Document) (file : File) : Prop where
  objects : file.objects.map resolved.composite =
    document.objectsWithQuery.map written.composite
  interfaces : file.interfaces.map resolved.composite =
    document.interfaces.map written.composite
  unions : file.unions.map resolved.union = document.unions.map written.union
  enums : file.enums.map resolved.enum = document.enums.map written.enum
  scalars : file.scalars.map resolved.scalar = document.scalars.map written.scalar
  inputs : file.inputs.map resolved.input = document.inputs.map written.input
  directives : file.directives.map resolved.directive = document.directives.map written.directive

theorem Resolved.looksLike (isResolved : Resolved names name document file)
    (preserves : names.Preserves written resolved) : LooksLike written resolved document file where
  objects := by
    obtain ⟨objects, built, equal⟩ := isResolved.objects
    rw [equal, Document.objectsWithQuery, List.map_append, List.map_append,
      built.map_eq fun _ _ => preserves.composite, addedObjects]
    congr 1
    split
    · simp [View.composite, Composite.map, preserves.text]
    · rfl
  interfaces := isResolved.interfaces.map_eq fun _ _ => preserves.composite
  unions := isResolved.unions.map_eq fun _ _ => preserves.union
  enums := isResolved.enums.map_eq fun _ _ => preserves.enum
  scalars := isResolved.scalars.map_eq fun _ _ => preserves.scalar
  inputs := isResolved.inputs.map_eq fun _ _ => preserves.input
  directives := isResolved.directives.map_eq fun _ _ => preserves.directiveDefinition

end

/-! ## Reading a file back -/

/-- The parts of a file as its document would write them: an interface by the name of what is at
its place, a type as it is written and by the name of what it leads to, and numbers as they are. -/
def File.readBack (file : File) :
    ResolvedView (Option String) (String × Option String) (Document.TypeExpr × Option String)
      (SdlCompiler.Value (Option Int64) (Option Numeric.Binary64)) String where
  reference index := file.nameAt? (.interface index)
  member r := (r.name, file.nameAt? r.target)
  type t := (t.toDocument, file.nameAt? t.innermost.target)
  value := SdlCompiler.Value.map some some
  location := Location.name

/-- The parts of a document with the numbers that its texts are read as. A reference should lead to
the name that is written. -/
def numbered :
    WrittenView (Option String) (String × Option String) (Document.TypeExpr × Option String)
      (SdlCompiler.Value (Option Int64) (Option Numeric.Binary64)) String where
  reference := some
  member n := (n, some n)
  type t := (t, some t.innermost)
  value := SdlCompiler.Value.map (fun text => Numeric.int64? text.toList) fun text =>
    Numeric.Binary64.read? text.toList
  location := id

/-- What a name is looked up as has that name. -/
theorem Resolved.nameAt?_of_type? (resolved : Resolved names name document file)
    (listed : names.Lists document) {n : String} {target : Target}
    (found : names.type? n = some target) : file.nameAt? target = some n := by
  rcases listed.type?_eq_some.1 found with placed | ⟨scalar, rfl, rfl, -⟩
  · exact resolved.nameAt? placed
  · rfl

theorem Names.nameAt?_of_typeRef (resolved : Resolved names name document file)
    (listed : names.Lists document) {context : String} {type : Document.TypeExpr} {t : TypeRef}
    (built : names.typeRef context type = .ok t) :
    file.nameAt? t.innermost.target = some type.innermost := by
  rw [← (typeRef_shape built).1]
  exact resolved.nameAt?_of_type? listed (type?_of_typeRef built)

theorem Resolved.preserves_numbered (resolved : Resolved names name document file)
    (listed : names.Lists document) : names.Preserves numbered file.readBack where
  text := rfl
  reference n index found := resolved.nameAt?_of_type? listed found
  member n target found := congrArg (n, ·) (resolved.nameAt?_of_type? listed found)
  type context t u built := by
    show (u.toDocument, file.nameAt? u.innermost.target) = (t, some t.innermost)
    rw [Names.toDocument_of_typeRef built, Names.nameAt?_of_typeRef resolved listed built]
  value context v w built := by
    refine SdlCompiler.Value.map_of_traverse (fun text n read => ?_) (fun text x read => ?_) built
    · exact (Names.int_eq_ok.1 read).symm
    · rw [Names.float_eq_ok, Numeric.Binary64.readFinite?, Option.filter_eq_some_iff] at read
      exact read.1.symm
  location text place found := Names.ofName?_eq_some found

/-- Nothing is lost, added or put elsewhere: read back, the definitions of each kind are those of
the document in its order, and the one object more is an empty `Query`, which is there exactly if
the document has neither a schema block nor a definition of that name. -/
theorem resolve_looksLike (resolved : resolve name document = .ok file) :
    file.name = name ∧ LooksLike numbered file.readBack document file := by
  have spec := resolve_spec name document
  rw [resolved] at spec
  obtain ⟨-, names, listed, -, -, resolved⟩ := spec
  exact ⟨resolved.name, resolved.looksLike (resolved.preserves_numbered listed)⟩

/-- Two objects around an interface, numbers in a default, and no root. -/
def ordersDocument : Document :=
  [.object { name := "Order", implements := ["Node"],
             fields := [{ name := "items", type := .nonNull (.list (.named "Item")),
                          arguments := [{ name := "range", type := .list (.named "Float"),
                                          default := some (.list [.int "-07", .float "5e-1"]) }] }] },
   .interface { name := "Node" }, .object { name := "Item", description := some "" }]

theorem resolve_looksLike_orders :
    ∃ file, resolve "orders" ordersDocument = .ok file ∧ file.name = "orders" ∧
      LooksLike numbered file.readBack ordersDocument file := by
  have success : (resolve "orders" ordersDocument).isOk = true := by decide +kernel
  obtain ⟨file, resolved⟩ := exists_of_isOk success
  exact ⟨file, resolved, resolve_looksLike resolved⟩

end Schema

end SdlCompiler
