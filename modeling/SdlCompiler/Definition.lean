/-!
# The shapes of definitions

What a schema defines, over the ways to write references: `ρ` for a reference to an interface
or to the member of a union, `τ` for a type, `ν` for a value and `ℓ` for a location. A
document writes names and texts there; a resolved file writes places in the file and numbers.
-/

namespace SdlCompiler

inductive Operation where
  | query
  | mutation
  | subscription
deriving DecidableEq, Repr

/-- A directive applied to something, with its arguments in the order given. -/
structure Directive (ν : Type) where
  name : String
  arguments : List (String × ν)
deriving Repr, Inhabited

/-- An argument or the field of an input object. -/
structure InputValue (τ ν : Type) where
  name : String
  description : Option String := none
  type : τ
  default : Option ν := none
  directives : List (Directive ν) := []
deriving Repr

structure Field (τ ν : Type) where
  name : String
  description : Option String := none
  arguments : List (InputValue τ ν) := []
  type : τ
  directives : List (Directive ν) := []
deriving Repr

structure Scalar (ν : Type) where
  name : String
  description : Option String := none
  directives : List (Directive ν) := []
deriving Repr, Inhabited

/-- An object type, or an interface. -/
structure Composite (ρ τ ν : Type) where
  name : String
  description : Option String := none
  implements : List ρ := []
  directives : List (Directive ν) := []
  fields : List (Field τ ν) := []
deriving Repr, Inhabited

structure Union (ρ ν : Type) where
  name : String
  description : Option String := none
  directives : List (Directive ν) := []
  members : List ρ := []
deriving Repr, Inhabited

structure EnumValue (ν : Type) where
  name : String
  description : Option String := none
  directives : List (Directive ν) := []
deriving Repr, Inhabited

structure Enum (ν : Type) where
  name : String
  description : Option String := none
  directives : List (Directive ν) := []
  values : List (EnumValue ν) := []
deriving Repr, Inhabited

structure InputObject (τ ν : Type) where
  name : String
  description : Option String := none
  directives : List (Directive ν) := []
  fields : List (InputValue τ ν) := []
deriving Repr, Inhabited

structure DirectiveDefinition (τ ν ℓ : Type) where
  name : String
  description : Option String := none
  arguments : List (InputValue τ ν) := []
  locations : List ℓ := []
  repeatable : Bool := false
deriving Repr, Inhabited

end SdlCompiler
