import SdlCompiler.Definition
import SdlCompiler.Location
import SdlCompiler.Numeric.Binary64
import SdlCompiler.Value

/-!
# Resolved files

A compiled schema file. Its definitions stand in seven lists, one for each kind, and refer to
each other by their places in these lists.
-/

namespace SdlCompiler.Schema

inductive Builtin where
  | int
  | float
  | string
  | boolean
  | id
deriving DecidableEq, Repr

namespace Builtin

def all : List Builtin :=
  [.int, .float, .string, .boolean, .id]

def name : Builtin → String
  | int => "Int"
  | float => "Float"
  | string => "String"
  | boolean => "Boolean"
  | id => "ID"

def ofName? (name : String) : Option Builtin :=
  all.find? fun builtin => builtin.name == name

end Builtin

/-- What the name of a type stands for: a place in one of the lists, or a built-in scalar. -/
inductive Target where
  | object (index : Nat)
  | interface (index : Nat)
  | union (index : Nat)
  | enum (index : Nat)
  | scalar (index : Nat)
  | input (index : Nat)
  | builtin (scalar : Builtin)
deriving DecidableEq, Repr

/-- The name of a type with what it stands for. -/
structure NamedType where
  name : String
  target : Target
deriving DecidableEq, Repr

/-- A type. Each layer is non-null or not, so nothing is non-null twice. -/
inductive TypeRef where
  | named (nonNull : Bool) (type : NamedType)
  | list (nonNull : Bool) (element : TypeRef)
deriving DecidableEq, Repr

namespace TypeRef

/-- The type under all lists. -/
def innermost : TypeRef → NamedType
  | named _ type => type
  | list _ element => element.innermost

def isNonNull : TypeRef → Bool
  | named nonNull _ => nonNull
  | list nonNull _ => nonNull

end TypeRef

/-- A value with its numbers. -/
abbrev Value := SdlCompiler.Value Int64 Numeric.Binary64

abbrev Directive := SdlCompiler.Directive Value
abbrev InputValue := SdlCompiler.InputValue TypeRef Value
abbrev Field := SdlCompiler.Field TypeRef Value
abbrev Scalar := SdlCompiler.Scalar Value
/-- Interfaces are given by their places among the interfaces. -/
abbrev Composite := SdlCompiler.Composite Nat TypeRef Value
abbrev Union := SdlCompiler.Union NamedType Value
abbrev EnumValue := SdlCompiler.EnumValue Value
abbrev Enum := SdlCompiler.Enum Value
abbrev InputObject := SdlCompiler.InputObject TypeRef Value
abbrev DirectiveDefinition := SdlCompiler.DirectiveDefinition TypeRef Value Location

/-- The root types of the operations, as places among the objects. -/
structure Roots where
  directives : List Directive := []
  query : Option Nat := none
  mutation : Option Nat := none
  subscription : Option Nat := none
deriving Repr, Inhabited

structure File where
  name : String := ""
  schema : Roots := {}
  objects : List Composite := []
  interfaces : List Composite := []
  unions : List Union := []
  enums : List Enum := []
  scalars : List Scalar := []
  inputs : List InputObject := []
  directives : List DirectiveDefinition := []
deriving Repr, Inhabited

namespace File

/-- The place of the first object with the given name. -/
def objectNamed? (file : File) (name : String) : Option Nat :=
  file.objects.findIdx? fun object => object.name == name

/-- The place of the first interface with the given name. -/
def interfaceNamed? (file : File) (name : String) : Option Nat :=
  file.interfaces.findIdx? fun interface => interface.name == name

end File

end SdlCompiler.Schema
