import SdlCompiler.Document.Grammar
import SdlCompiler.Schema.Resolve

/-!
# Compiling a schema

The second pass over a document fills the places that the first pass made. A document without
a schema block gets its root types by their usual names, and an empty `Query` if it has none.
-/

namespace SdlCompiler.Schema

/-- The list with a new item at a place that must be there. -/
def fillSlot {α : Type} (items : List α) (index : Nat) (item : α) :
    Except (Abort SchemaError) (List α) :=
  if index < items.length then .ok (items.set index item) else .error (.crash .missingSlot)

namespace Names

/-- The outcome of resolving a definition, as a step of a compilation. -/
def step {α : Type} (outcome : Except SchemaError α) : Except (Abort SchemaError) α :=
  outcome.mapError .error

/-- Resolves one definition and puts it in its place. -/
def fill (names : Names) (file : File) (definition : Document.Definition) :
    Except (Abort SchemaError) File :=
  match definition with
  | .schema block => do return { file with schema := ← step (names.roots block) }
  | .scalar d => do
    let .some (.type (.scalar index)) := names.find? d.name | misplaced d.name
    return { file with scalars := ← fillSlot file.scalars index (← step (scalar d)) }
  | .object d => do
    let .some (.type (.object index)) := names.find? d.name | misplaced d.name
    return { file with objects := ← fillSlot file.objects index (← step (names.composite d)) }
  | .interface d => do
    let .some (.type (.interface index)) := names.find? d.name | misplaced d.name
    return { file with
      interfaces := ← fillSlot file.interfaces index (← step (names.composite d)) }
  | .union d => do
    let .some (.type (.union index)) := names.find? d.name | misplaced d.name
    return { file with unions := ← fillSlot file.unions index (← step (names.union d)) }
  | .enum d => do
    let .some (.type (.enum index)) := names.find? d.name | misplaced d.name
    return { file with enums := ← fillSlot file.enums index (← step (enum d)) }
  | .input d => do
    let .some (.type (.input index)) := names.find? d.name | misplaced d.name
    return { file with inputs := ← fillSlot file.inputs index (← step (names.input d)) }
  | .directive d => do
    let .some (.directive index) := names.find? d.name | misplaced d.name
    return { file with
      directives := ← fillSlot file.directives index (← step (names.directiveDefinition d)) }
  | .other kind name => .error (.error (.unsupportedDefinition kind name))
where
  /-- A definition of another kind, or none, was given this name. -/
  misplaced (name : String) : Except (Abort SchemaError) File :=
    .error (.error (.duplicateDefinition name))

/-- Fills the places of the definitions one after the other, up to the first that fails. The
places filled before that one stay filled. -/
def populate (names : Names) (file : File) : Document → File × Except (Abort SchemaError) Unit
  | [] => (file, .ok ())
  | definition :: rest =>
    match names.fill file definition with
    | .error abort => (file, .error abort)
    | .ok file => names.populate file rest

/-- The object of the given name, if the name was given to anything. -/
def implicitRoot? (names : Names) (name : String) : Except SchemaError (Option Nat) :=
  match names.find? name with
  | none => .ok none
  | some (.type (.object index)) => .ok (some index)
  | some _ => .error (.unresolvedType name "the implicit schema definition")

/-- The roots by their usual names. An empty `Query` is added to the file if there is none, even
if another root then turns out to be no object. -/
def synthesize (names : Names) (file : File) : File × Except SchemaError Unit :=
  match names.implicitRoot? "Query" with
  | .error e => (file, .error e)
  | .ok found =>
    let (query, file) :=
      match found with
      | some index => (index, file)
      | none =>
        (file.objects.length, { file with objects := file.objects ++ [{ name := "Query" }] })
    let others := do
      let mutation ← names.implicitRoot? "Mutation"
      return (mutation, ← names.implicitRoot? "Subscription")
    match others with
    | .error e => (file, .error e)
    | .ok (mutation, subscription) =>
      ({ file with schema := { query := some query, mutation, subscription } }, .ok ())

end Names

/-- The resolved form of a document. -/
def resolve (name : String) (document : Document) : Except (Abort SchemaError) File := do
  let (file, registered) := Names.register document { name }
  let names ← Names.step registered
  let (file, populated) := names.populate file document
  populated
  if names.hasSchema then return file
  let (file, synthesized) := names.synthesize file
  Names.step synthesized
  return file

/-- The resolved form of the document that a text writes. -/
def compile (name source : String) : Except (Abort SchemaError) File := do
  resolve name (← Document.parse source)

end SdlCompiler.Schema
