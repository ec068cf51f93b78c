/-!
# Places where a directive may stand

Eight in operations, eleven in schemas. Each has the name by which a directive definition
lists it.
-/

namespace SdlCompiler

inductive ExecutableLocation where
  | query
  | mutation
  | subscription
  | field
  | fragmentDefinition
  | fragmentSpread
  | inlineFragment
  | variableDefinition
deriving DecidableEq, Repr

inductive TypeSystemLocation where
  | schema
  | scalar
  | object
  | fieldDefinition
  | argumentDefinition
  | interface
  | union
  | enum
  | enumValue
  | inputObject
  | inputFieldDefinition
deriving DecidableEq, Repr

inductive Location where
  | executable (place : ExecutableLocation)
  | typeSystem (place : TypeSystemLocation)
deriving DecidableEq, Repr

namespace ExecutableLocation

/-- The locations in the order of their numbers. -/
def all : List ExecutableLocation :=
  [.query, .mutation, .subscription, .field, .fragmentDefinition, .fragmentSpread,
    .inlineFragment, .variableDefinition]

def name : ExecutableLocation → String
  | query => "QUERY"
  | mutation => "MUTATION"
  | subscription => "SUBSCRIPTION"
  | field => "FIELD"
  | fragmentDefinition => "FRAGMENT_DEFINITION"
  | fragmentSpread => "FRAGMENT_SPREAD"
  | inlineFragment => "INLINE_FRAGMENT"
  | variableDefinition => "VARIABLE_DEFINITION"

def number (place : ExecutableLocation) : Nat :=
  all.idxOf place

end ExecutableLocation

namespace TypeSystemLocation

/-- The locations in the order of their numbers. -/
def all : List TypeSystemLocation :=
  [.schema, .scalar, .object, .fieldDefinition, .argumentDefinition, .interface, .union, .enum,
    .enumValue, .inputObject, .inputFieldDefinition]

def name : TypeSystemLocation → String
  | schema => "SCHEMA"
  | scalar => "SCALAR"
  | object => "OBJECT"
  | fieldDefinition => "FIELD_DEFINITION"
  | argumentDefinition => "ARGUMENT_DEFINITION"
  | interface => "INTERFACE"
  | union => "UNION"
  | enum => "ENUM"
  | enumValue => "ENUM_VALUE"
  | inputObject => "INPUT_OBJECT"
  | inputFieldDefinition => "INPUT_FIELD_DEFINITION"

def number (place : TypeSystemLocation) : Nat :=
  all.idxOf place

end TypeSystemLocation

namespace Location

def all : List Location :=
  ExecutableLocation.all.map executable ++ TypeSystemLocation.all.map typeSystem

def name : Location → String
  | executable place => place.name
  | typeSystem place => place.name

def ofName? (name : String) : Option Location :=
  all.find? fun place => place.name == name

end Location

end SdlCompiler
