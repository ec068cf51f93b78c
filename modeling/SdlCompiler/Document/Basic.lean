import SdlCompiler.Definition
import SdlCompiler.Value

/-!
# Documents

A schema as its author wrote it: a list of definitions that refer to each other by name, with
numbers as texts.
-/

namespace SdlCompiler.Document

/-- A type as it is written. Nothing keeps a non-null type from being made non-null again. -/
inductive TypeExpr where
  | named (name : String)
  | list (element : TypeExpr)
  | nonNull (type : TypeExpr)
deriving DecidableEq, Repr, Inhabited

/-- A value with its numbers as texts. -/
abbrev Value := SdlCompiler.Value String String

abbrev Directive := SdlCompiler.Directive Value
abbrev InputValue := SdlCompiler.InputValue TypeExpr Value
abbrev Field := SdlCompiler.Field TypeExpr Value
abbrev Scalar := SdlCompiler.Scalar Value
abbrev Composite := SdlCompiler.Composite String TypeExpr Value
abbrev Union := SdlCompiler.Union String Value
abbrev EnumValue := SdlCompiler.EnumValue Value
abbrev Enum := SdlCompiler.Enum Value
abbrev InputObject := SdlCompiler.InputObject TypeExpr Value
abbrev DirectiveDefinition := SdlCompiler.DirectiveDefinition TypeExpr Value String

/-- A block that names the root types of operations. -/
structure SchemaBlock where
  directives : List Directive := []
  roots : List (Operation × String) := []
deriving Repr, Inhabited

inductive Definition where
  | schema (block : SchemaBlock)
  | scalar (scalar : Scalar)
  | object (object : Composite)
  | interface (interface : Composite)
  | union (union : Union)
  | enum (enum : Enum)
  | input (input : InputObject)
  | directive (directive : DirectiveDefinition)
  /-- Something that a schema may hold and that is not compiled. -/
  | other (kind : String) (name : Option String)
deriving Repr, Inhabited

end SdlCompiler.Document

namespace SdlCompiler

abbrev Document := List Document.Definition

end SdlCompiler
