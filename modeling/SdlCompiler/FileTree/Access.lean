import SdlCompiler.FileTree.Basic

/-!
# Reading and writing files
-/

namespace SdlCompiler.FileTree

/-- The place of a file and what is in it, its permissions included. -/
def fileAt (tree : FileTree) (path : String) :
    Except SystemError (Place × List UInt8 × Nat) := do
  let place ← tree.locate path
  match tree.entry? place with
  | none => .error .notFound
  | some .directory => .error .isADirectory
  | some (.file content mode) => .ok (place, content, mode)

/-- The contents of a file. -/
def read (tree : FileTree) (path : String) : Except SystemError (List UInt8) := do
  let (_, content, mode) ← tree.fileAt path
  if isReadable mode then .ok content else .error .permissionDenied

/-- The contents of a file as a text. -/
def readText (tree : FileTree) (path : String) : Except SystemError String := do
  match String.fromUTF8? (← tree.read path).toByteArray with
  | some text => .ok text
  | none => .error .notText

/-- Sets the contents of a file, which may be a new one. -/
def write (tree : FileTree) (path : String) (content : List UInt8) :
    Except SystemError FileTree := do
  let place ← tree.locateNew path
  match tree.entry? place with
  | none => .ok (tree.set place (.file content defaultMode))
  | some .directory => .error .isADirectory
  | some (.file _ mode) =>
    if isWritable mode then .ok (tree.set place (.file content (modeAfterWrite mode)))
    else .error .permissionDenied

/-- Adds to the end of a file that is there already. -/
def append (tree : FileTree) (path : String) (content : List UInt8) :
    Except SystemError FileTree := do
  let (place, old, mode) ← tree.fileAt path
  if isWritable mode then
    let mode := if content.isEmpty then mode else modeAfterWrite mode
    .ok (tree.set place (.file (old ++ content) mode))
  else .error .permissionDenied

/-- Puts another file in the place of one that can be read, with the same permissions. The old
file is not written to, so it need not be writable, and what is replaced is the name that the path
ends in: where that is a link to the old file, the link is gone and the old file stays. -/
def replace (tree : FileTree) (path : String) (change : List UInt8 → List UInt8) :
    Except SystemError FileTree := do
  let (_, old, mode) ← tree.fileAt path
  if isReadable mode then
    match ← tree.locateParent path with
    | (_, none) => .error .isADirectory
    | (parent, some name) => .ok (tree.set (parent ++ [name]) (.file (change old) mode))
  else .error .permissionDenied

/-! ## Directories -/

/-- Makes one directory. -/
def makeDirectory (tree : FileTree) (path : String) : Except SystemError FileTree := do
  match ← tree.locateParent path with
  | (_, none) => .error .alreadyExists
  | (parent, some name) =>
    checkName name
    let place := parent ++ [name]
    if (tree.entry? place).isSome ∨ (tree.link? place).isSome then .error .alreadyExists
    else .ok (tree.set place .directory)

/-- Makes a directory whose parent is there. One that is there already will do. -/
def ensureDirectory (tree : FileTree) (path : String) : FileTree × Except SystemError Unit :=
  match tree.makeDirectory path with
  | .ok tree => (tree, .ok ())
  | .error e => (tree, if tree.isDirectory path then .ok () else .error e)

/-- Makes a directory and those above it, of which there are at most `depth`. -/
def makeDirectoriesUpTo : Nat → FileTree → String → FileTree × Except SystemError Unit
  | 0, tree, path => tree.ensureDirectory path
  | depth + 1, tree, path =>
    if path = "" then (tree, .ok ())
    else
      match tree.makeDirectory path, Path.parent? path with
      | .error e, some parent =>
        if e = .notFound then
          match makeDirectoriesUpTo depth tree parent with
          | (tree, .ok ()) => tree.ensureDirectory path
          | failed => failed
        else tree.ensureDirectory path
      | _, _ => tree.ensureDirectory path

/-- Makes a directory and those above it, as far as they are missing. On an error, those that
were made stay. -/
def makeDirectories (tree : FileTree) (path : String) : FileTree × Except SystemError Unit :=
  makeDirectoriesUpTo (Path.pieces path).length tree path

end SdlCompiler.FileTree
