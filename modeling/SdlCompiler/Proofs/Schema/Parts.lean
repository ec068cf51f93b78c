import SdlCompiler.Document.Basic
import SdlCompiler.Schema.Names

/-!
# What documents and files are made of

The definitions of a document by kind, with the names, types, values and references that occur
in them; and the names and references of a resolved file.
-/

namespace SdlCompiler

/-! ## Parts of values and types -/

namespace Value

variable {ι φ : Type}

mutual

/-- The integers in a value, at any depth. -/
def ints : Value ι φ → List ι
  | .int literal => [literal]
  | .list items => itemInts items
  | .object fields => fieldInts fields
  | _ => []

def itemInts : List (Value ι φ) → List ι
  | [] => []
  | item :: rest => item.ints ++ itemInts rest

def fieldInts : List (String × Value ι φ) → List ι
  | [] => []
  | (_, value) :: rest => value.ints ++ fieldInts rest

end

mutual

/-- The floats in a value, at any depth. -/
def floats : Value ι φ → List φ
  | .float literal => [literal]
  | .list items => itemFloats items
  | .object fields => fieldFloats fields
  | _ => []

def itemFloats : List (Value ι φ) → List φ
  | [] => []
  | item :: rest => item.floats ++ itemFloats rest

def fieldFloats : List (String × Value ι φ) → List φ
  | [] => []
  | (_, value) :: rest => value.floats ++ fieldFloats rest

end

mutual

/-- The names of the variables in a value, at any depth. -/
def variableNames : Value ι φ → List String
  | .variable name => [name]
  | .list items => itemVariableNames items
  | .object fields => fieldVariableNames fields
  | _ => []

def itemVariableNames : List (Value ι φ) → List String
  | [] => []
  | item :: rest => item.variableNames ++ itemVariableNames rest

def fieldVariableNames : List (String × Value ι φ) → List String
  | [] => []
  | (_, value) :: rest => value.variableNames ++ fieldVariableNames rest

end

theorem itemInts_eq (items : List (Value ι φ)) : itemInts items = items.flatMap ints := by
  induction items with
  | nil => rfl
  | cons item rest ih => rw [itemInts, ih, List.flatMap_cons]

theorem fieldInts_eq (fields : List (String × Value ι φ)) :
    fieldInts fields = fields.flatMap fun field => field.2.ints := by
  induction fields with
  | nil => rfl
  | cons field rest ih => rw [fieldInts, ih, List.flatMap_cons]

theorem itemVariableNames_eq (items : List (Value ι φ)) :
    itemVariableNames items = items.flatMap variableNames := by
  induction items with
  | nil => rfl
  | cons item rest ih => rw [itemVariableNames, ih, List.flatMap_cons]

theorem fieldVariableNames_eq (fields : List (String × Value ι φ)) :
    fieldVariableNames fields = fields.flatMap fun field => field.2.variableNames := by
  induction fields with
  | nil => rfl
  | cons field rest ih => rw [fieldVariableNames, ih, List.flatMap_cons]

end Value

namespace Document.TypeExpr

/-- The name under all lists and marks. -/
def innermost : TypeExpr → String
  | named name => name
  | list element => element.innermost
  | nonNull type => type.innermost

/-- Nothing in the type is made non-null twice in a row. -/
def NonNullOnce : TypeExpr → Prop
  | named _ => True
  | list element => element.NonNullOnce
  | nonNull (nonNull _) => False
  | nonNull type => type.NonNullOnce

end Document.TypeExpr

/-! ## Values and types of parts of definitions -/

def Directive.values {ν : Type} (d : Directive ν) : List ν :=
  d.arguments.map Prod.snd

def InputValue.values {τ ν : Type} (v : InputValue τ ν) : List ν :=
  v.default.toList ++ v.directives.flatMap Directive.values

def Field.values {τ ν : Type} (f : Field τ ν) : List ν :=
  f.directives.flatMap Directive.values ++ f.arguments.flatMap InputValue.values

/-- The type of a field, and those of its arguments. -/
def Field.types {τ ν : Type} (f : Field τ ν) : List τ :=
  f.type :: f.arguments.map InputValue.type

/-! ## Documents -/

namespace Document

namespace Definition

def schemaBlock? : Definition → Option SchemaBlock
  | .schema d => some d
  | _ => none

def scalar? : Definition → Option Scalar
  | .scalar d => some d
  | _ => none

def object? : Definition → Option Composite
  | .object d => some d
  | _ => none

def interface? : Definition → Option Composite
  | .interface d => some d
  | _ => none

def union? : Definition → Option Union
  | .union d => some d
  | _ => none

def enum? : Definition → Option Enum
  | .enum d => some d
  | _ => none

def input? : Definition → Option InputObject
  | .input d => some d
  | _ => none

def directive? : Definition → Option DirectiveDefinition
  | .directive d => some d
  | _ => none

end Definition

def schemaBlocks (document : Document) : List SchemaBlock :=
  document.filterMap Definition.schemaBlock?

def scalars (document : Document) : List Scalar :=
  document.filterMap Definition.scalar?

def objects (document : Document) : List Composite :=
  document.filterMap Definition.object?

def interfaces (document : Document) : List Composite :=
  document.filterMap Definition.interface?

def unions (document : Document) : List Union :=
  document.filterMap Definition.union?

def enums (document : Document) : List Enum :=
  document.filterMap Definition.enum?

def inputs (document : Document) : List InputObject :=
  document.filterMap Definition.input?

def directives (document : Document) : List DirectiveDefinition :=
  document.filterMap Definition.directive?

/-- The name that a list of roots gives last for an operation. -/
def lastRoot? (entries : List (Operation × String)) (operation : Operation) : Option String :=
  (entries.filter fun entry => entry.1 = operation).getLast?.map Prod.snd

theorem lastRoot?_cons (entry : Operation × String) (rest : List (Operation × String))
    (operation : Operation) :
    lastRoot? (entry :: rest) operation =
      (lastRoot? rest operation).or (if entry.1 = operation then some entry.2 else none) := by
  by_cases same : entry.1 = operation
  · cases found : (rest.filter fun entry => entry.1 = operation).getLast? <;>
      simp [lastRoot?, same, List.getLast?_cons, found]
  · simp [lastRoot?, same]

/-- The name of the object at which an operation starts: as the schema block tells, or the usual
one where there is no such block. -/
def rootName? (document : Document) (operation : Operation) : Option String :=
  match document.schemaBlocks.getLast? with
  | some block => lastRoot? block.roots operation
  | none =>
    match operation with
    | .query => some "Query"
    | .mutation => some "Mutation"
    | .subscription => some "Subscription"

namespace Definition

/-- The name that a definition gives to a type. -/
def typeName? : Definition → Option String
  | .scalar d => some d.name
  | .object d | .interface d => some d.name
  | .union d => some d.name
  | .enum d => some d.name
  | .input d => some d.name
  | .schema _ | .directive _ | .other _ _ => none

/-- The name that a definition gives to a type or to a directive. -/
def name? : Definition → Option String
  | .directive d => some d.name
  | d => d.typeName?

/-- The types that are written in a definition. -/
def types : Definition → List TypeExpr
  | .object d | .interface d => d.fields.flatMap Field.types
  | .input d => d.fields.map InputValue.type
  | .directive d => d.arguments.map InputValue.type
  | .schema _ | .scalar _ | .union _ | .enum _ | .other _ _ => []

def members : Definition → List String
  | .union d => d.members
  | _ => []

/-- The names of types to which a definition refers, under a type or as a member. -/
def typeReferences (definition : Definition) : List String :=
  definition.types.map TypeExpr.innermost ++ definition.members

def interfaceReferences : Definition → List String
  | .object d | .interface d => d.implements
  | _ => []

def rootReferences : Definition → List String
  | .schema block => block.roots.map Prod.snd
  | _ => []

/-- The values that are written in a definition: defaults and arguments of directives. -/
def values : Definition → List Value
  | .schema block => block.directives.flatMap Directive.values
  | .scalar d => d.directives.flatMap Directive.values
  | .object d | .interface d =>
    d.directives.flatMap Directive.values ++ d.fields.flatMap Field.values
  | .union d => d.directives.flatMap Directive.values
  | .enum d =>
    d.directives.flatMap Directive.values ++
      d.values.flatMap fun v => v.directives.flatMap Directive.values
  | .input d => d.directives.flatMap Directive.values ++ d.fields.flatMap InputValue.values
  | .directive d => d.arguments.flatMap InputValue.values
  | .other _ _ => []

def locations : Definition → List String
  | .directive d => d.locations
  | _ => []

end Definition

def typeNames (document : Document) : List String :=
  document.filterMap Definition.typeName?

/-- The names of types and of directives, which must differ from each other. -/
def names (document : Document) : List String :=
  document.filterMap Definition.name?

end Document

/-! ## Files -/

namespace Schema

/-- The root of an operation. -/
def Roots.root? (roots : Roots) : Operation → Option Nat
  | .query => roots.query
  | .mutation => roots.mutation
  | .subscription => roots.subscription

/-- The names in the types of a field and of its arguments. -/
def Field.references (f : Field) : List NamedType :=
  f.types.map TypeRef.innermost

namespace File

/-- The names of all definitions, kind by kind. -/
def names (file : File) : List String :=
  file.objects.map Composite.name ++ file.interfaces.map Composite.name ++
    file.unions.map Union.name ++ file.enums.map Enum.name ++ file.scalars.map Scalar.name ++
    file.inputs.map InputObject.name ++ file.directives.map DirectiveDefinition.name

/-- All references to types by name. -/
def references (file : File) : List NamedType :=
  (file.objects ++ file.interfaces).flatMap (fun c => c.fields.flatMap Field.references) ++
    file.unions.flatMap Union.members ++
    file.inputs.flatMap (fun i => i.fields.map fun v => v.type.innermost) ++
    file.directives.flatMap (fun d => d.arguments.map fun v => v.type.innermost)

/-- The name of the definition at a place, if the place is in the file. -/
def nameAt? (file : File) : Target → Option String
  | .object index => file.objects[index]?.map Composite.name
  | .interface index => file.interfaces[index]?.map Composite.name
  | .union index => file.unions[index]?.map Union.name
  | .enum index => file.enums[index]?.map Enum.name
  | .scalar index => file.scalars[index]?.map Scalar.name
  | .input index => file.inputs[index]?.map InputObject.name
  | .builtin scalar => some scalar.name

end File

end Schema

end SdlCompiler
