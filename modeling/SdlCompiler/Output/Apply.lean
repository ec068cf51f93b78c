import SdlCompiler.FileTree.Access
import SdlCompiler.Output.Insertion
import SdlCompiler.Wire.Protocol

/-!
# Edits of an output directory

The edits of a response are applied one after the other. One with a name writes a file; with an
insertion point as well, it puts content into a file that is there. One without either adds to
the file of the edit before it. A name cannot lead out of the output directory. Where an edit
fails, those before it have been applied and those after it have not.
-/

namespace SdlCompiler.Output

/-- Why the edits of a response cannot be applied. -/
inductive OutputError where
  | missingName (index : Nat) (insertionPoint : String)
  | missingPredecessor (index : Nat)
  | outside (index : Nat) (name : String)
  | system (path : String) (cause : SystemError)
deriving DecidableEq, Repr

namespace OutputError

def message : OutputError → String
  | missingName index insertionPoint =>
    s!"file #{index} of the response has insertion point `{insertionPoint}` but no file name"
  | missingPredecessor index =>
    s!"file #{index} of the response appends to the previous file, but there is none"
  | outside index name =>
    s!"file #{index} of the response is named `{name}`, which is not a relative path inside the " ++
      "output directory"
  | system path cause => path ++ ": " ++ cause.message

end OutputError

/-- A component that does not lead out of the directory it is followed from. -/
def isInward : Path.Component → Bool
  | .normal _ | .current => true
  | .root | .parent => false

/-- The path of a file in the output directory. -/
def target (directory : String) (index : Nat) (name : String) : Except OutputError String :=
  if (Path.components name).all isInward then .ok (Path.join directory name)
  else .error (.outside index name)

/-- Makes the directories above a file. -/
def makeParent (tree : FileTree) (path : String) : FileTree × Except OutputError Unit :=
  match Path.parent? path with
  | none => (tree, .ok ())
  | some parent =>
    let (tree, made) := tree.makeDirectories parent
    (tree, made.mapError (OutputError.system parent))

/-- Writes a file and makes the directories above it. -/
def writeNew (tree : FileTree) (path content : String) : FileTree × Except OutputError Unit :=
  match makeParent tree path with
  | (tree, .error e) => (tree, .error e)
  | (tree, .ok ()) =>
    match tree.write path content.toUTF8.toList with
    | .ok tree => (tree, .ok ())
    | .error cause => (tree, .error (.system path cause))

/-- Applies one edit, after one of the file at the path `previous`. The result is the path of
its own file. -/
def applyEdit (directory : String) (tree : FileTree) (previous : Option String) (index : Nat)
    (edit : Wire.Edit) : FileTree × Except OutputError String :=
  let keep (path : String) (result : Except SystemError FileTree) :
      FileTree × Except OutputError String :=
    match result with
    | .ok tree => (tree, .ok path)
    | .error cause => (tree, .error (.system path cause))
  if edit.name = "" then
    if edit.insertionPoint ≠ "" then (tree, .error (.missingName index edit.insertionPoint))
    else
      match previous with
      | none => (tree, .error (.missingPredecessor index))
      | some path => keep path (tree.append path edit.content.toUTF8.toList)
  else
    match target directory index edit.name with
    | .error e => (tree, .error e)
    | .ok path =>
      if edit.insertionPoint ≠ "" then
        keep path (tree.replace path (inject edit.insertionPoint edit.content))
      else
        let (tree, written) := writeNew tree path edit.content
        (tree, written.map fun () => path)

/-- Applies edits of which the first has the given index. -/
def applyFrom (directory : String) :
    FileTree → Option String → Nat → List Wire.Edit → FileTree × Except OutputError Unit
  | tree, _, _, [] => (tree, .ok ())
  | tree, previous, index, edit :: rest =>
    match applyEdit directory tree previous index edit with
    | (tree, .ok path) => applyFrom directory tree (some path) (index + 1) rest
    | (tree, .error e) => (tree, .error e)

/-- Applies the edits of one response. -/
def apply (directory : String) (tree : FileTree) (edits : List Wire.Edit) :
    FileTree × Except OutputError Unit :=
  applyFrom directory tree none 0 edits

end SdlCompiler.Output
