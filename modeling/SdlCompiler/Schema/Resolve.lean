import SdlCompiler.Numeric.Decimal
import SdlCompiler.Numeric.Integer
import SdlCompiler.Schema.Names

/-!
# Definitions with their references resolved

Each definition of a document, with names of types replaced by what they stand for and texts of
numbers by the numbers. `context` says in errors where a reference or a value stands.
-/

namespace SdlCompiler.Schema.Names

/-! ## Values and types -/

def int (context text : String) : Except SchemaError Int64 :=
  match Numeric.int64? text.toList with
  | some n => .ok n
  | none => .error (.unknownValue text context)

def float (context text : String) : Except SchemaError Numeric.Binary64 :=
  match Numeric.Binary64.readFinite? text.toList with
  | some x => .ok x
  | none => .error (.unknownValue text context)

def value (context : String) (v : Document.Value) : Except SchemaError Value :=
  v.traverse (int context) (float context)

def argument (context : String) (a : String × Document.Value) :
    Except SchemaError (String × Value) := do
  return (a.1, ← value context a.2)

def directive (context : String) (d : Document.Directive) : Except SchemaError Directive := do
  return { name := d.name, arguments := ← d.arguments.mapM (argument context) }

def directives (context : String) (ds : List Document.Directive) :
    Except SchemaError (List Directive) :=
  ds.mapM (directive context)

def namedType (names : Names) (context name : String) : Except SchemaError NamedType :=
  match names.type? name with
  | some target => .ok ⟨name, target⟩
  | none => .error (.unresolvedType name context)

def typeRef (names : Names) (context : String) : Document.TypeExpr → Except SchemaError TypeRef
  | .named name => do return .named false (← names.namedType context name)
  | .list element => do return .list false (← names.typeRef context element)
  | .nonNull (.named name) => do return .named true (← names.namedType context name)
  | .nonNull (.list element) => do return .list true (← names.typeRef context element)
  | .nonNull (.nonNull _) => .error (.nonNullOfNonNull context)

/-! ## Parts of definitions -/

def inputValue (names : Names) (parent : String) (v : Document.InputValue) :
    Except SchemaError InputValue := do
  let context := parent ++ "." ++ v.name
  let type ← names.typeRef context v.type
  let default ← v.default.mapM (value context)
  return { name := v.name, description := v.description, type, default,
           directives := ← directives context v.directives }

def field (names : Names) (parent : String) (f : Document.Field) : Except SchemaError Field := do
  let context := parent ++ "." ++ f.name
  let directives ← directives context f.directives
  let type ← names.typeRef context f.type
  return { name := f.name, description := f.description, directives, type,
           arguments := ← f.arguments.mapM (names.inputValue context) }

def interfaceIndex (names : Names) (context name : String) : Except SchemaError Nat :=
  match names.type? name with
  | some (.interface index) => .ok index
  | _ => .error (.unresolvedType name context)

def enumValue (parent : String) (v : Document.EnumValue) : Except SchemaError EnumValue := do
  return { name := v.name, description := v.description,
           directives := ← directives (parent ++ "." ++ v.name) v.directives }

def location (directive name : String) : Except SchemaError Location :=
  match Location.ofName? name with
  | some place => .ok place
  | none => .error (.unknownLocation name directive)

/-! ## Definitions -/

def scalar (d : Document.Scalar) : Except SchemaError Scalar := do
  return { name := d.name, description := d.description,
           directives := ← directives d.name d.directives }

def composite (names : Names) (d : Document.Composite) : Except SchemaError Composite := do
  let directives ← directives d.name d.directives
  let implements ← d.implements.mapM (names.interfaceIndex d.name)
  return { name := d.name, description := d.description, directives, implements,
           fields := ← d.fields.mapM (names.field d.name) }

def union (names : Names) (d : Document.Union) : Except SchemaError Union := do
  let members ← d.members.mapM (names.namedType d.name)
  return { name := d.name, description := d.description, members,
           directives := ← directives d.name d.directives }

def enum (d : Document.Enum) : Except SchemaError Enum := do
  let values ← d.values.mapM (enumValue d.name)
  return { name := d.name, description := d.description, values,
           directives := ← directives d.name d.directives }

def input (names : Names) (d : Document.InputObject) : Except SchemaError InputObject := do
  let directives ← directives d.name d.directives
  return { name := d.name, description := d.description, directives,
           fields := ← d.fields.mapM (names.inputValue d.name) }

def directiveDefinition (names : Names) (d : Document.DirectiveDefinition) :
    Except SchemaError DirectiveDefinition := do
  let locations ← d.locations.mapM (location d.name)
  return { name := d.name, description := d.description, locations, repeatable := d.repeatable,
           arguments := ← d.arguments.mapM (names.inputValue ("@" ++ d.name)) }

/-! ## The schema block -/

def rootIndex (names : Names) (name : String) : Except SchemaError Nat :=
  match names.type? name with
  | some (.object index) => .ok index
  | _ => .error (.unresolvedType name "the schema definition")

/-- Sets the root of an operation, in place of one that is there. -/
def withRoot (names : Names) (roots : Roots) (root : Operation × String) :
    Except SchemaError Roots := do
  let index ← names.rootIndex root.2
  match root.1 with
  | .query => return { roots with query := some index }
  | .mutation => return { roots with mutation := some index }
  | .subscription => return { roots with subscription := some index }

def roots (names : Names) (block : Document.SchemaBlock) : Except SchemaError Roots := do
  let directives ← directives "the schema definition" block.directives
  block.roots.foldlM names.withRoot { directives }

end SdlCompiler.Schema.Names
