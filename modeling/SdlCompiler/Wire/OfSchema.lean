import SdlCompiler.Schema.Basic
import SdlCompiler.Schema.Error
import SdlCompiler.Wire.Protocol

/-!
# Resolved files as messages

The message of a resolved file. Interfaces are copied where they are implemented, down to an
interface that is being copied already: of that one, only the name is given.
-/

namespace SdlCompiler.Wire

def descriptionText (description : Option String) : String :=
  description.getD ""

def TypeRef.ofSchema : Schema.TypeRef → TypeRef
  | .named nonNull type => .named nonNull type.name
  | .list nonNull element => .list nonNull (ofSchema element)

namespace Value

mutual

def ofSchema : Schema.Value → Value
  | .variable name => .variable name
  | .int n => .int n
  | .float x => .float x
  | .string text => .string text
  | .boolean value => .boolean value
  | .null => .null
  | .enum symbol => .enum symbol
  | .list items => .list (itemsOfSchema items)
  | .object fields => .object (fieldsOfSchema fields)

def itemsOfSchema : List Schema.Value → List Value
  | [] => []
  | item :: rest => ofSchema item :: itemsOfSchema rest

def fieldsOfSchema : List (String × Schema.Value) → List (String × Option Value)
  | [] => []
  | (name, value) :: rest => (name, some (ofSchema value)) :: fieldsOfSchema rest

end

end Value

def Directive.ofSchema (d : Schema.Directive) : Directive :=
  { name := d.name,
    arguments := d.arguments.map fun (name, value) => ⟨name, some (.ofSchema value)⟩ }

def InputValue.ofSchema (v : Schema.InputValue) : InputValue :=
  { name := v.name, description := descriptionText v.description,
    type := some (.ofSchema v.type), default := v.default.map Value.ofSchema,
    directives := v.directives.map Directive.ofSchema }

def Field.ofSchema (f : Schema.Field) : Field :=
  { name := f.name, description := descriptionText f.description,
    arguments := f.arguments.map InputValue.ofSchema, type := some (.ofSchema f.type),
    directives := f.directives.map Directive.ofSchema }

/-- The interface at a place, below the interfaces at the places of `path`. A path without
repetition leaves `room` for as many more interfaces as the file has besides. -/
def Interface.embed (file : Schema.File) (room : Nat) (path : List Nat) (index : Nat) :
    Except Defect Interface :=
  match file.interfaces[index]? with
  | none => .error .missingSlot
  | some definition =>
    if path.contains index then .ok (.nameOnly definition.name)
    else
      match room with
      | 0 => .error .missingSlot
      | room + 1 => do
        let implements ← definition.implements.mapM (embed file room (index :: path))
        return .mk definition.name (descriptionText definition.description)
          (definition.directives.map Directive.ofSchema) (definition.fields.map Field.ofSchema)
          implements

/-- The interface at a place, below none. -/
def Interface.ofSchema (file : Schema.File) (index : Nat) : Except Defect Interface :=
  embed file file.interfaces.length [] index

/-- The object at a place. -/
def Object.ofSchema (file : Schema.File) (index : Nat) : Except Defect Object :=
  match file.objects[index]? with
  | none => .error .missingSlot
  | some definition => do
    let implements ← definition.implements.mapM (Interface.ofSchema file)
    return { name := definition.name, description := descriptionText definition.description,
             implements, directives := definition.directives.map Directive.ofSchema,
             fields := definition.fields.map Field.ofSchema }

def Union.ofSchema (u : Schema.Union) : Union :=
  { name := u.name, description := descriptionText u.description,
    directives := u.directives.map Directive.ofSchema,
    members := u.members.map fun member => ⟨member.name⟩ }

def Enum.ofSchema (e : Schema.Enum) : Enum :=
  { name := e.name, description := descriptionText e.description,
    directives := e.directives.map Directive.ofSchema,
    values := e.values.map fun value =>
      { name := value.name, description := descriptionText value.description,
        directives := value.directives.map Directive.ofSchema } }

def Symbol.ofScalar (s : Schema.Scalar) : Symbol :=
  { name := s.name, description := descriptionText s.description,
    directives := s.directives.map Directive.ofSchema }

def InputObject.ofSchema (i : Schema.InputObject) : InputObject :=
  { name := i.name, description := descriptionText i.description,
    directives := i.directives.map Directive.ofSchema,
    fields := i.fields.map InputValue.ofSchema }

def Location.ofSchema : SdlCompiler.Location → Location
  | .executable place => .executable (Int32.ofNat place.number)
  | .typeSystem place => .typeSystem (Int32.ofNat place.number)

def DirectiveDefinition.ofSchema (d : Schema.DirectiveDefinition) : DirectiveDefinition :=
  { name := d.name, description := descriptionText d.description,
    arguments := d.arguments.map InputValue.ofSchema,
    locations := d.locations.map Location.ofSchema, repeatable := d.repeatable }

def Roots.ofSchema (file : Schema.File) : Except Defect Roots := do
  let query ← file.schema.query.mapM (Object.ofSchema file)
  let mutation ← file.schema.mutation.mapM (Object.ofSchema file)
  let subscription ← file.schema.subscription.mapM (Object.ofSchema file)
  return { directives := file.schema.directives.map Directive.ofSchema, query, mutation,
           subscription }

def File.ofSchema (file : Schema.File) : Except Defect File := do
  let schema ← Roots.ofSchema file
  let objects ← (List.range file.objects.length).mapM (Object.ofSchema file)
  let interfaces ← (List.range file.interfaces.length).mapM (Interface.ofSchema file)
  return { name := file.name, schema := some schema, objects, interfaces,
           unions := file.unions.map Union.ofSchema, enums := file.enums.map Enum.ofSchema,
           scalars := file.scalars.map Symbol.ofScalar,
           inputs := file.inputs.map InputObject.ofSchema,
           directives := file.directives.map DirectiveDefinition.ofSchema }

/-- The request for all of the files. -/
def Request.ofFiles (version : Version) (parameter : String) (files : List File) : Request :=
  { generate := files.map File.name, parameter, version := some version, files }

end SdlCompiler.Wire
