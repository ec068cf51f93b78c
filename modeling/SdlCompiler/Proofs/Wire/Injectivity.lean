import SdlCompiler.Proofs.Schema.Lookup
import SdlCompiler.Proofs.Wire.Conversion

/-!
# Messages determine their files

A message gives names in place of what they stand for, and copies of interfaces and roots, cut off
where an interface would repeat, in place of the places where they are. Nothing is lost by that:
what a name stands for can be told from the names that the definitions of the message have.

The parts of a message are first put in the shape of definitions (`shape`), which is one view of the
file (`seen`). Looked up in this view, the definitions of the file are there again (`looked`).
-/

namespace SdlCompiler

namespace Wire

open Outcome
open Schema (Target Resolved Names lookInterface lookMember lookType byTarget ResolvedView)

variable {names names' : Names} {name name' : String} {document document' : Document}
  {file file' : Schema.File} {wire : File} {type? : String → Option Target}

/-! ## The shape of a message -/

def Directive.shape (d : Directive) : SdlCompiler.Directive (Option Value) :=
  { name := d.name, arguments := d.arguments.map fun a => (a.name, a.value) }

def InputValue.shape (v : InputValue) : SdlCompiler.InputValue (Option TypeRef) (Option Value) :=
  { name := v.name, description := some v.description, type := v.type,
    default := v.default.map some, directives := v.directives.map Directive.shape }

def Field.shape (f : Field) : SdlCompiler.Field (Option TypeRef) (Option Value) :=
  { name := f.name, description := some f.description, arguments := f.arguments.map InputValue.shape,
    type := f.type, directives := f.directives.map Directive.shape }

def Object.shape (o : Object) : SdlCompiler.Composite String (Option TypeRef) (Option Value) :=
  { name := o.name, description := some o.description, implements := o.implements.map Interface.name,
    directives := o.directives.map Directive.shape, fields := o.fields.map Field.shape }

def Interface.shape (i : Interface) :
    SdlCompiler.Composite String (Option TypeRef) (Option Value) :=
  { name := i.name, description := some i.description, implements := i.implements.map Interface.name,
    directives := i.directives.map Directive.shape, fields := i.fields.map Field.shape }

def Union.shape (u : Union) : SdlCompiler.Union String (Option Value) :=
  { name := u.name, description := some u.description,
    directives := u.directives.map Directive.shape, members := u.members.map Name.text }

def Symbol.shape (s : Symbol) : SdlCompiler.Scalar (Option Value) :=
  { name := s.name, description := some s.description,
    directives := s.directives.map Directive.shape }

def Enum.shape (e : Enum) : SdlCompiler.Enum (Option Value) :=
  { name := e.name, description := some e.description,
    directives := e.directives.map Directive.shape,
    values := e.values.map fun v =>
      { name := v.name, description := some v.description,
        directives := v.directives.map Directive.shape } }

def InputObject.shape (i : InputObject) :
    SdlCompiler.InputObject (Option TypeRef) (Option Value) :=
  { name := i.name, description := some i.description,
    directives := i.directives.map Directive.shape, fields := i.fields.map InputValue.shape }

def DirectiveDefinition.shape (d : DirectiveDefinition) :
    SdlCompiler.DirectiveDefinition (Option TypeRef) (Option Value) Location :=
  { name := d.name, description := some d.description,
    arguments := d.arguments.map InputValue.shape, locations := d.locations,
    repeatable := d.repeatable }

/-! ## What is seen of a file -/

/-- A description, which is empty where there is none. -/
def spell (description : Option String) : Option String :=
  some (descriptionText description)

/-- What a message gives of the parts of a file. -/
def seen (file : Schema.File) :
    ResolvedView String String (Option TypeRef) (Option Value) Location where
  text := spell
  reference := file.interfaceName
  member := Schema.NamedType.name
  type := some ∘ TypeRef.ofSchema
  value := some ∘ Value.ofSchema
  location := Location.ofSchema

theorem Directive.shape_comp_ofSchema :
    Directive.shape ∘ Directive.ofSchema = SdlCompiler.Directive.map (some ∘ Value.ofSchema) := by
  funext d
  simp [Directive.shape, Directive.ofSchema, SdlCompiler.Directive.map]

theorem InputValue.shape_comp_ofSchema :
    InputValue.shape ∘ InputValue.ofSchema =
      SdlCompiler.InputValue.map spell (some ∘ TypeRef.ofSchema) (some ∘ Value.ofSchema) := by
  funext v
  simp [InputValue.shape, InputValue.ofSchema, SdlCompiler.InputValue.map, spell,
    Directive.shape_comp_ofSchema]

theorem Field.shape_comp_ofSchema :
    Field.shape ∘ Field.ofSchema =
      SdlCompiler.Field.map spell (some ∘ TypeRef.ofSchema) (some ∘ Value.ofSchema) := by
  funext f
  simp [Field.shape, Field.ofSchema, SdlCompiler.Field.map, spell, Directive.shape_comp_ofSchema,
    InputValue.shape_comp_ofSchema]

theorem Union.shape_comp_ofSchema : Union.shape ∘ Union.ofSchema = (seen file).union := by
  funext u
  simp [Union.shape, Union.ofSchema, View.union, SdlCompiler.Union.map, seen, spell,
    Directive.shape_comp_ofSchema]

theorem Symbol.shape_comp_ofScalar : Symbol.shape ∘ Symbol.ofScalar = (seen file).scalar := by
  funext s
  simp [Symbol.shape, Symbol.ofScalar, View.scalar, SdlCompiler.Scalar.map, seen, spell,
    Directive.shape_comp_ofSchema]

theorem Enum.shape_comp_ofSchema : Enum.shape ∘ Enum.ofSchema = (seen file).enum := by
  funext e
  simp [Enum.shape, Enum.ofSchema, View.enum, SdlCompiler.Enum.map, SdlCompiler.EnumValue.map, seen,
    spell, Directive.shape_comp_ofSchema]

theorem InputObject.shape_comp_ofSchema :
    InputObject.shape ∘ InputObject.ofSchema = (seen file).input := by
  funext i
  simp [InputObject.shape, InputObject.ofSchema, View.input, SdlCompiler.InputObject.map, seen,
    spell, Directive.shape_comp_ofSchema, InputValue.shape_comp_ofSchema]

theorem DirectiveDefinition.shape_comp_ofSchema :
    DirectiveDefinition.shape ∘ DirectiveDefinition.ofSchema = (seen file).directive := by
  funext d
  simp [DirectiveDefinition.shape, DirectiveDefinition.ofSchema, View.directive,
    SdlCompiler.DirectiveDefinition.map, seen, spell, InputValue.shape_comp_ofSchema]

theorem Gives.shape_object {c : Schema.Composite} {o : Wire.Object} (gives : Gives.Object file c o) :
    o.shape = (seen file).composite c := by
  obtain ⟨sameName, sameText, implemented, directed, filled⟩ := gives
  simp [Object.shape, View.composite, Composite.map, seen, spell, sameName, sameText, implemented,
    directed, filled, Directive.shape_comp_ofSchema, Field.shape_comp_ofSchema]

theorem Gives.shape_interface {c : Schema.Composite} {i : Wire.Interface}
    (gives : Gives.Interface file c i) : i.shape = (seen file).composite c := by
  obtain ⟨sameName, sameText, implemented, directed, filled⟩ := gives
  simp [Interface.shape, View.composite, Composite.map, seen, spell, sameName, sameText, implemented,
    directed, filled, Directive.shape_comp_ofSchema, Field.shape_comp_ofSchema]

/-! ## Looking up what is seen -/

namespace Value

mutual

/-- The value that a message gives. Messages of files leave no value out. -/
def toSchema : Value → Schema.Value
  | .unset => .null
  | .variable name => .variable name
  | .int n => .int n
  | .float x => .float x
  | .string text => .string text
  | .boolean value => .boolean value
  | .null => .null
  | .enum symbol => .enum symbol
  | .list items => .list (itemsToSchema items)
  | .object fields => .object (fieldsToSchema fields)

def itemsToSchema : List Value → List Schema.Value
  | [] => []
  | item :: rest => item.toSchema :: itemsToSchema rest

def fieldsToSchema : List (String × Option Value) → List (String × Schema.Value)
  | [] => []
  | (name, none) :: rest => (name, .null) :: fieldsToSchema rest
  | (name, some value) :: rest => (name, value.toSchema) :: fieldsToSchema rest

end

mutual

theorem toSchema_ofSchema (v : Schema.Value) : (ofSchema v).toSchema = v := by
  cases v with
  | list items => rw [ofSchema, toSchema, itemsToSchema_itemsOfSchema items]
  | object fields => rw [ofSchema, toSchema, fieldsToSchema_fieldsOfSchema fields]
  | _ => rfl

theorem itemsToSchema_itemsOfSchema (items : List Schema.Value) :
    itemsToSchema (itemsOfSchema items) = items := by
  cases items with
  | nil => rfl
  | cons item rest =>
    rw [itemsOfSchema, itemsToSchema, toSchema_ofSchema item, itemsToSchema_itemsOfSchema rest]

theorem fieldsToSchema_fieldsOfSchema (fields : List (String × Schema.Value)) :
    fieldsToSchema (fieldsOfSchema fields) = fields := by
  cases fields with
  | nil => rfl
  | cons field rest =>
    obtain ⟨name, value⟩ := field
    rw [fieldsOfSchema, fieldsToSchema, toSchema_ofSchema value,
      fieldsToSchema_fieldsOfSchema rest]

end

end Value

/-- The type that a message gives, by what its innermost name stands for. -/
def TypeRef.look (type? : String → Option Target) : TypeRef → Schema.TypeRef
  | .named nonNull name => .named nonNull (lookMember type? name)
  | .list nonNull element => .list nonNull (element.look type?)
  | .unset nonNull | .untypedList nonNull => .named nonNull (lookMember type? "")

def Location.toSchema (l : Location) : SdlCompiler.Location :=
  (SdlCompiler.Location.all.find? fun place => Location.ofSchema place = l).getD (.executable .query)

theorem Location.toSchema_ofSchema (place : SdlCompiler.Location) :
    (Location.ofSchema place).toSchema = place := by
  cases place with
  | executable place => cases place <;> decide
  | typeSystem place => cases place <;> decide

/-- The parts that are seen, by what the names in them stand for. -/
def looked (type? : String → Option Target) :
    View String String (Option TypeRef) (Option Value) Location
      Nat Schema.NamedType Schema.TypeRef Schema.Value SdlCompiler.Location where
  reference := lookInterface type?
  member := lookMember type?
  type t := (t.getD (.unset false)).look type?
  value v := (v.getD .unset).toSchema
  location := Location.toSchema

theorem look_ofSchema_of_typeRef {context : String} {type : Document.TypeExpr} {t : Schema.TypeRef}
    (built : names.typeRef context type = .ok t) :
    (TypeRef.ofSchema t).look type? = lookType type? type := by
  fun_induction Names.typeRef names context type generalizing t with
  | case1 n | case3 n =>
    simp only [bind_eq_ok, pure_eq_ok, Names.namedType_eq_ok] at built
    obtain ⟨named, ⟨rfl, -⟩, rfl⟩ := built
    rw [TypeRef.ofSchema, TypeRef.look, lookType]
  | case2 element ih | case4 element ih =>
    simp only [bind_eq_ok, pure_eq_ok] at built
    obtain ⟨inner, success, rfl⟩ := built
    rw [TypeRef.ofSchema, TypeRef.look, lookType, ih success]
  | case5 => cases built

/-- What is looked up in the message is what is looked up in the document. -/
theorem preserves_looked (resolved : Resolved names name document file)
    (listed : names.Lists document) :
    names.Preserves (byTarget spell type?) ((looked type?).comp (seen file)) where
  text := rfl
  reference n index found := by
    have named : file.interfaceName index = n := by
      rw [Schema.File.interfaceName, resolved.nameAt?_of_type? listed found]
      rfl
    show lookInterface type? (file.interfaceName index) = lookInterface type? n
    rw [named]
  member n target found := rfl
  type _ _ _ built := look_ofSchema_of_typeRef built
  value _ _ w built := (Value.toSchema_ofSchema w).trans (Schema.readValue_of_value built)
  location _ place found :=
    (Location.toSchema_ofSchema place).trans (Schema.readLocation_of_ofName? found)

end Wire

/-! ## Files up to missing descriptions -/

/-- The file with an empty description wherever there is none. -/
def Schema.File.spelledOut (file : Schema.File) : Schema.File where
  name := file.name
  schema := file.schema
  objects := file.objects.map (asIs Wire.spell).composite
  interfaces := file.interfaces.map (asIs Wire.spell).composite
  unions := file.unions.map (asIs Wire.spell).union
  enums := file.enums.map (asIs Wire.spell).enum
  scalars := file.scalars.map (asIs Wire.spell).scalar
  inputs := file.inputs.map (asIs Wire.spell).input
  directives := file.directives.map (asIs Wire.spell).directive

namespace Wire

open Outcome
open Schema (Target Resolved Names Registrable asIs)

variable {names names' : Names} {name name' : String} {document document' : Document}
  {file file' : Schema.File} {wire : File} {type? : String → Option Target}

/-- The file that a message gives, by what the names in it stand for and with the given roots. -/
def File.look (type? : String → Option Target) (schema : Schema.Roots) (wire : File) :
    Schema.File where
  name := wire.name
  schema := schema
  objects := wire.objects.map ((looked type?).composite ∘ Object.shape)
  interfaces := wire.interfaces.map ((looked type?).composite ∘ Interface.shape)
  unions := wire.unions.map ((looked type?).union ∘ Union.shape)
  enums := wire.enums.map ((looked type?).enum ∘ Enum.shape)
  scalars := wire.scalars.map ((looked type?).scalar ∘ Symbol.shape)
  inputs := wire.inputs.map ((looked type?).input ∘ InputObject.shape)
  directives := wire.directives.map ((looked type?).directive ∘ DirectiveDefinition.shape)

/-- In the shape of definitions, a message gives what is seen of its file. -/
structure Shows (file : Schema.File) (wire : File) : Prop where
  objects : wire.objects.map Object.shape = file.objects.map (seen file).composite
  interfaces : wire.interfaces.map Interface.shape = file.interfaces.map (seen file).composite
  unions : wire.unions.map Union.shape = file.unions.map (seen file).union
  enums : wire.enums.map Enum.shape = file.enums.map (seen file).enum
  scalars : wire.scalars.map Symbol.shape = file.scalars.map (seen file).scalar
  inputs : wire.inputs.map InputObject.shape = file.inputs.map (seen file).input
  directives : wire.directives.map DirectiveDefinition.shape =
    file.directives.map (seen file).directive

theorem Converts.shows (converts : Converts file wire) : Shows file wire where
  objects := map_eq_of_forall₂ (converts.objects.imp fun _ _ => Gives.shape_object)
  interfaces := map_eq_of_forall₂ (converts.interfaces.imp fun _ _ => Gives.shape_interface)
  unions := by rw [converts.unions, List.map_map, Union.shape_comp_ofSchema]
  enums := by rw [converts.enums, List.map_map, Enum.shape_comp_ofSchema]
  scalars := by rw [converts.scalars, List.map_map, Symbol.shape_comp_ofScalar]
  inputs := by rw [converts.inputs, List.map_map, InputObject.shape_comp_ofSchema]
  directives := by rw [converts.directives, List.map_map, DirectiveDefinition.shape_comp_ofSchema]

/-- Looked up, the message of a file gives the file, up to missing descriptions. -/
theorem spelledOut_eq_look (resolved : Resolved names name document file)
    (listed : names.Lists document) (within : names.Within type?) (converts : Converts file wire) :
    file.spelledOut = wire.look type? file.schema := by
  have spelled := resolved.looksLike (@Names.Within.preserves _ spell _ within)
  have found := resolved.looksLike (@preserves_looked _ _ _ _ type? resolved listed)
  -- Both views agree with one view of the document, so they agree with each other.
  rw [Schema.File.spelledOut, spelled.objects, ← found.objects, spelled.interfaces,
    ← found.interfaces, spelled.unions, ← found.unions, spelled.enums, ← found.enums,
    spelled.scalars, ← found.scalars, spelled.inputs, ← found.inputs, spelled.directives,
    ← found.directives, View.composite_comp, View.union_comp, View.enum_comp, View.scalar_comp,
    View.input_comp, View.directive_comp, File.look, converts.name]
  simp only [← List.map_map, converts.shows.objects, converts.shows.interfaces,
    converts.shows.unions, converts.shows.enums, converts.shows.scalars, converts.shows.inputs,
    converts.shows.directives]

/-! ## Names and roots of the same message -/

/-- Definitions that look alike have the same names, if what they look like has their names. -/
theorem map_name_eq {α β γ : Type} {f : α → γ} {g : β → γ} {m : α → String} {m' : β → String}
    {xs : List α} {ys : List β} (n : γ → String) (same : xs.map f = ys.map g)
    (keeps : ∀ x, n (f x) = m x) (keeps' : ∀ y, n (g y) = m' y) : xs.map m = ys.map m' := by
  have named := congrArg (List.map n) same
  simpa only [List.map_map, Function.comp_def, keeps, keeps'] using named

/-- Files of the same message have the same names at the same places. -/
theorem Shows.sameNames (shows : Shows file wire) (shows' : Shows file' wire) :
    file.nameAt? = file'.nameAt? ∧ file.names = file'.names := by
  have objects : file.objects.map Composite.name = file'.objects.map Composite.name :=
    map_name_eq Composite.name (shows.objects.symm.trans shows'.objects)
      (fun _ => rfl) fun _ => rfl
  have interfaces : file.interfaces.map Composite.name = file'.interfaces.map Composite.name :=
    map_name_eq Composite.name (shows.interfaces.symm.trans shows'.interfaces)
      (fun _ => rfl) fun _ => rfl
  have unions : file.unions.map SdlCompiler.Union.name =
      file'.unions.map SdlCompiler.Union.name :=
    map_name_eq SdlCompiler.Union.name (shows.unions.symm.trans shows'.unions)
      (fun _ => rfl) fun _ => rfl
  have enums : file.enums.map SdlCompiler.Enum.name = file'.enums.map SdlCompiler.Enum.name :=
    map_name_eq SdlCompiler.Enum.name (shows.enums.symm.trans shows'.enums)
      (fun _ => rfl) fun _ => rfl
  have scalars : file.scalars.map Scalar.name = file'.scalars.map Scalar.name :=
    map_name_eq Scalar.name (shows.scalars.symm.trans shows'.scalars)
      (fun _ => rfl) fun _ => rfl
  have inputs : file.inputs.map SdlCompiler.InputObject.name =
      file'.inputs.map SdlCompiler.InputObject.name :=
    map_name_eq SdlCompiler.InputObject.name (shows.inputs.symm.trans shows'.inputs)
      (fun _ => rfl) fun _ => rfl
  have directives : file.directives.map SdlCompiler.DirectiveDefinition.name =
      file'.directives.map SdlCompiler.DirectiveDefinition.name :=
    map_name_eq SdlCompiler.DirectiveDefinition.name
      (shows.directives.symm.trans shows'.directives) (fun _ => rfl) fun _ => rfl
  constructor
  · funext target
    cases target <;>
      simp only [Schema.File.nameAt?, ← List.getElem?_map, objects, interfaces, unions, enums,
        scalars, inputs]
  · rw [Schema.File.names, Schema.File.names, objects, interfaces, unions, enums, scalars, inputs,
      directives]

/-- What is looked up in either of two documents whose files have the same names. -/
theorem within_or (resolved : Resolved names name document file)
    (resolved' : Resolved names' name' document' file') (listed : names.Lists document)
    (listed' : names'.Lists document') (places : file.nameAt? = file'.nameAt?)
    (sameNames : file.names = file'.names) :
    names.Within (fun n => (names.type? n).or (names'.type? n)) ∧
      names'.Within fun n => (names.type? n).or (names'.type? n) := by
  constructor
  · intro n target found
    simp only [found, Option.some_or]
  · intro n target found'
    dsimp only
    cases found : names.type? n with
    | none => rw [Option.none_or, found']
    | some other =>
      -- Both documents know the name, and what the second says has it in the first file too.
      have placed : file.nameAt? target = some n := by
        rw [places]
        exact resolved'.nameAt?_of_type? listed' found'
      have undefined : ∀ scalar, target = .builtin scalar → n ∉ file.names := by
        rintro scalar rfl
        rw [sameNames]
        exact resolved'.not_mem_names listed' found'
      rw [resolved.target_unique listed found placed undefined, Option.some_or]

theorem object_unique (distinct : file.names.Nodup) {i j : Nat} {n : String}
    (here : file.nameAt? (.object i) = some n) (there : file.nameAt? (.object j) = some n) :
    i = j := by
  have objects : (file.objects.map Composite.name).Nodup := by
    simp only [Schema.File.names, List.append_assoc] at distinct
    exact (List.nodup_append.1 distinct).1
  rw [Schema.File.nameAt?, ← List.getElem?_map] at here there
  exact (List.getElem?_inj (List.getElem?_eq_some_iff.1 here).1 objects).1 (here.trans there.symm)

/-- The roots in a message, by their names. -/
theorem Converts.root_names (converts : Converts file wire) (converts' : Converts file' wire)
    (operation : Operation) :
    (file.schema.root? operation).map file.objectName =
      (file'.schema.root? operation).map file'.objectName := by
  obtain ⟨roots, isSchema, -, query, mutation, subscription⟩ := converts.schema
  obtain ⟨roots', isSchema', -, query', mutation', subscription'⟩ := converts'.schema
  rw [isSchema] at isSchema'
  cases isSchema'
  cases operation with
  | query => exact query.symm.trans query'
  | mutation => exact mutation.symm.trans mutation'
  | subscription => exact subscription.symm.trans subscription'

def Directive.toSchema (d : Directive) : Schema.Directive :=
  d.shape.map fun v => (v.getD .unset).toSchema

theorem Directive.toSchema_ofSchema (d : Schema.Directive) : (ofSchema d).toSchema = d := by
  show SdlCompiler.Directive.map _ ((shape ∘ ofSchema) d) = d
  rw [shape_comp_ofSchema]
  simp [SdlCompiler.Directive.map, Function.comp_def, Value.toSchema_ofSchema]

theorem Converts.schema_directives (converts : Converts file wire)
    (converts' : Converts file' wire) : file.schema.directives = file'.schema.directives := by
  obtain ⟨roots, isSchema, applied, -⟩ := converts.schema
  obtain ⟨roots', isSchema', applied', -⟩ := converts'.schema
  rw [isSchema] at isSchema'
  cases isSchema'
  have injective : Function.Injective Directive.ofSchema :=
    Function.LeftInverse.injective Directive.toSchema_ofSchema
  exact List.map_injective_iff.2 injective (applied.symm.trans applied')

theorem Converts.schema_eq (converts : Converts file wire) (converts' : Converts file' wire)
    (resolved : Resolved names name document file)
    (resolved' : Resolved names' name' document' file') (listed : names.Lists document)
    (listed' : names'.Lists document') (distinct : file.names.Nodup)
    (places : file.nameAt? = file'.nameAt?) : file.schema = file'.schema := by
  refine Schema.Roots.eq_of_root? (converts.schema_directives converts') fun operation => ?_
  have named := converts.root_names converts' operation
  cases here : file.schema.root? operation with
  | none =>
    rw [here] at named
    exact (Option.map_eq_none_iff.1 named.symm).symm
  | some index =>
    rw [here] at named
    obtain ⟨index', there, same⟩ := Option.map_eq_some_iff.1 named.symm
    obtain ⟨n, -, placed⟩ := resolved.root_name listed here
    obtain ⟨n', -, placed'⟩ := resolved'.root_name listed' there
    rw [Schema.File.objectName, Schema.File.objectName, placed, placed'] at same
    obtain rfl : n' = n := same
    rw [there, object_unique distinct placed (places ▸ placed')]

theorem placed_of_resolved (resolved : Resolved names name document file)
    (listed : names.Lists document) : Placed file := by
  have looks := resolved.looksLike (resolved.preserves_numbered listed)
  -- Read back, an interface has the name that the document has there, so its place exists.
  have inside : ∀ (cs : List Schema.Composite) (ds : List Document.Composite),
      cs.map file.readBack.composite = ds.map Schema.numbered.composite →
        ∀ c ∈ cs, ∀ i ∈ c.implements, i < file.interfaces.length := by
    intro cs ds same c member i implemented
    have seenThere := List.mem_map_of_mem (f := file.readBack.composite) member
    rw [same] at seenThere
    obtain ⟨d, -, alike⟩ := List.mem_map.1 seenThere
    have named : file.nameAt? (.interface i) ∈ d.implements.map some := by
      have listed := congrArg Composite.implements alike
      show _ ∈ (Schema.numbered.composite d).implements
      rw [listed]
      exact List.mem_map_of_mem implemented
    obtain ⟨n, -, found⟩ := List.mem_map.1 named
    obtain ⟨c, isThere, -⟩ := Option.map_eq_some_iff.1 found.symm
    exact (List.getElem?_eq_some_iff.1 isThere).1
  refine ⟨inside _ _ looks.objects, inside _ _ looks.interfaces, ?_⟩
  intro operation index isRoot
  obtain ⟨n, -, named⟩ := resolved.root_name listed isRoot
  obtain ⟨c, isThere, -⟩ := Option.map_eq_some_iff.1 named
  exact (List.getElem?_eq_some_iff.1 isThere).1

/-! ## Injectivity -/

/-- Resolved files have a message, and files of the same message are the same, but for descriptions
that are missing in one and empty in the other. -/
theorem ofSchema_injective (success : Schema.resolve name document = .ok file)
    (success' : Schema.resolve name' document' = .ok file')
    (same : File.ofSchema file = File.ofSchema file') :
    (∃ wire, File.ofSchema file = .ok wire) ∧ file.spelledOut = file'.spelledOut := by
  have spec := Schema.resolve_spec name document
  have spec' := Schema.resolve_spec name' document'
  rw [success] at spec
  rw [success'] at spec'
  obtain ⟨registrable, names, listed, -, -, resolved⟩ := spec
  obtain ⟨-, names', listed', -, -, resolved'⟩ := spec'
  obtain ⟨wire, made, converts⟩ := (placed_of_resolved resolved listed).exists_ofSchema
  obtain ⟨wire', made', converts'⟩ := (placed_of_resolved resolved' listed').exists_ofSchema
  rw [same, made'] at made
  cases made
  obtain ⟨places, sameNames⟩ := converts.shows.sameNames converts'.shows
  obtain ⟨within, within'⟩ := within_or resolved resolved' listed listed' places sameNames
  have schema := converts.schema_eq converts' resolved resolved' listed listed'
    (resolved.names_nodup registrable) places
  refine ⟨⟨wire, same.trans made'⟩, ?_⟩
  rw [spelledOut_eq_look resolved listed within converts,
    spelledOut_eq_look resolved' listed' within' converts', schema]

/-- An interface below itself, with the roots left out or given. -/
theorem ofSchema_injective_roots :
    let brief : Document := [.interface { name := "Node", implements := ["Node"] }]
    let full : Document :=
      [.object { name := "Query" }, .schema { roots := [(.query, "Query")] },
       .interface { name := "Node", description := some "", implements := ["Node"] }]
    ∃ file file', Schema.resolve "node" brief = .ok file ∧ Schema.resolve "node" full = .ok file' ∧
      File.ofSchema file = File.ofSchema file' ∧ file.spelledOut = file'.spelledOut := by
  intro brief full
  have success : Schema.resolve "node" brief = .ok _ := rfl
  have success' : Schema.resolve "node" full = .ok _ := rfl
  exact ⟨_, _, success, success', rfl, (ofSchema_injective success success' rfl).2⟩

end Wire

end SdlCompiler
