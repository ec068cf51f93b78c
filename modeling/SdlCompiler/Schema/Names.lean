import SdlCompiler.Document.Basic
import SdlCompiler.Schema.Basic
import SdlCompiler.Schema.Error

/-!
# The names of a file

The first pass over a document gives each definition an empty place in the file, and its name
to that place. Types and directives share their names.
-/

namespace SdlCompiler.Schema

/-- What a name was given to. -/
inductive Entry where
  | type (target : Target)
  | directive (index : Nat)
deriving DecidableEq, Repr

/-- The names of one document in the order of its definitions. -/
structure Names where
  entries : List (String × Entry) := []
  hasSchema : Bool := false
deriving DecidableEq, Repr, Inhabited

namespace Names

def find? (names : Names) (name : String) : Option Entry :=
  names.entries.lookup name

/-- The number of definitions, the schema block included. -/
def size (names : Names) : Nat :=
  names.entries.length + if names.hasSchema then 1 else 0

def toList (names : Names) : List String :=
  names.entries.map Prod.fst

/-- The type of the given name: a definition of the document, or else a built-in scalar. -/
def type? (names : Names) (name : String) : Option Target :=
  match names.find? name with
  | some (.type target) => some target
  | some (.directive _) => none
  | none => (Builtin.ofName? name).map .builtin

def add (names : Names) (name : String) (entry : Entry) : Names :=
  { names with entries := names.entries ++ [(name, entry)] }

end Names

/-- A new place at the end of the file for a definition that has a name, with that name. -/
def File.addStub (file : File) : Document.Definition → Option (String × Entry × File)
  | .scalar d =>
    some (d.name, .type (.scalar file.scalars.length),
      { file with scalars := file.scalars ++ [{ name := d.name }] })
  | .object d =>
    some (d.name, .type (.object file.objects.length),
      { file with objects := file.objects ++ [{ name := d.name }] })
  | .interface d =>
    some (d.name, .type (.interface file.interfaces.length),
      { file with interfaces := file.interfaces ++ [{ name := d.name }] })
  | .union d =>
    some (d.name, .type (.union file.unions.length),
      { file with unions := file.unions ++ [{ name := d.name }] })
  | .enum d =>
    some (d.name, .type (.enum file.enums.length),
      { file with enums := file.enums ++ [{ name := d.name }] })
  | .input d =>
    some (d.name, .type (.input file.inputs.length),
      { file with inputs := file.inputs ++ [{ name := d.name }] })
  | .directive d =>
    some (d.name, .directive file.directives.length,
      { file with directives := file.directives ++ [{ name := d.name }] })
  | .schema _ | .other _ _ => none

namespace Names

/-- Takes in one definition. -/
def enroll (names : Names) (file : File) (definition : Document.Definition) :
    Except SchemaError (Names × File) :=
  match definition with
  | .schema _ =>
    if names.hasSchema then .error .duplicateSchema
    else .ok ({ names with hasSchema := true }, file)
  | .other kind name => .error (.unsupportedDefinition kind name)
  | _ =>
    match file.addStub definition with
    | none => .ok (names, file)
    | some (name, entry, extended) =>
      if (names.find? name).isSome then .error (.duplicateDefinition name)
      else .ok (names.add name entry, extended)

/-- Takes in definitions one after the other, up to the first that is refused. The places made
before that one remain. -/
def enrollAll (names : Names) (file : File) : Document → File × Except SchemaError Names
  | [] => (file, .ok names)
  | definition :: rest =>
    match names.enroll file definition with
    | .error e => (file, .error e)
    | .ok (names, file) => enrollAll names file rest

/-- The names of a document, which get their places at the end of the file. -/
def register (document : Document) (file : File) : File × Except SchemaError Names :=
  enrollAll {} file document

end Names

end SdlCompiler.Schema
