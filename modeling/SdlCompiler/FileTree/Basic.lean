import SdlCompiler.Path
import SdlCompiler.SystemError

/-!
# File trees

Files, directories and symbolic links by place. A place is the list of the names on the way down
from the root, which is always there and always a directory. A link holds a path, which leads on
from the directory that holds the link. So there may be many ways to a place, but where there is a
link there is nothing else.

`walk` follows a path from a place. Each step has to start in a directory, also one that goes
nowhere, so a path to a file cannot end in a slash.
-/

namespace SdlCompiler

abbrev Place := List String

/-- Where a path that is met at a place starts. -/
def Path.startOf (place : Place) (path : String) : Place :=
  if isAbsolute path then [] else place

inductive Entry where
  | directory
  /-- A file with its contents and its permissions. -/
  | file (content : List UInt8) (mode : Nat)
deriving DecidableEq, Repr

structure FileTree where
  entries : List (Place × Entry) := []
  /-- The directory that relative paths start from. -/
  current : Place := []
  /-- The symbolic links, with the paths in them. -/
  links : List (Place × String) := []
deriving Repr, Inhabited

namespace FileTree

/-- The path in the link at a place. -/
def link? (tree : FileTree) (place : Place) : Option String :=
  tree.links.lookup place

def entry? (tree : FileTree) (place : Place) : Option Entry :=
  if place = [] then some .directory
  else if (tree.link? place).isSome then none
  else tree.entries.lookup place

/-- The entries with one of them set. -/
def setIn (place : Place) (entry : Entry) : List (Place × Entry) → List (Place × Entry)
  | [] => [(place, entry)]
  | (p, e) :: rest => if p = place then (p, entry) :: rest else (p, e) :: setIn place entry rest

/-- Puts an entry at a place, also if a link was there. -/
def set (tree : FileTree) (place : Place) (entry : Entry) : FileTree :=
  { tree with
    entries := setIn place entry tree.entries
    links := tree.links.filter (·.1 ≠ place) }

/-- The contents of the file at a place. -/
def content? (tree : FileTree) (place : Place) : Option (List UInt8) :=
  match tree.entry? place with
  | some (.file content _) => some content
  | _ => none

/-! ## Permissions -/

/-- The owner of a file may read it. -/
def isReadable (mode : Nat) : Bool := mode &&& 0o400 != 0

/-- The owner of a file may write to it. -/
def isWritable (mode : Nat) : Bool := mode &&& 0o200 != 0

/-- The owner of a file may run it. -/
def isExecutable (mode : Nat) : Bool := mode &&& 0o100 != 0

/-- The permissions of a new file. -/
def defaultMode : Nat := 0o644

/-- The permissions of a file that was written to. Whoever runs it no longer gets the rights of
its owner, nor those of its group if the group may run it. -/
def modeAfterWrite (mode : Nat) : Nat :=
  let mode := mode - (mode &&& 0o4000)
  if mode &&& 0o010 != 0 then mode - (mode &&& 0o2000) else mode

/-! ## Paths in a tree -/

/-- The longest name, in bytes. -/
def nameLimit : Nat := 255

/-- The first length of a path, in bytes, that is too long. -/
def pathLimit : Nat := 4096

/-- What is wrong with a path whatever the tree. -/
def checkPath (path : String) : Except SystemError Unit :=
  if path.toList.contains '\x00' then .error .nulInPath
  else if path = "" then .error .notFound
  else if pathLimit ≤ path.utf8ByteSize then .error .nameTooLong
  else .ok ()

def checkName (name : String) : Except SystemError Unit :=
  if nameLimit < name.utf8ByteSize then .error .nameTooLong else .ok ()

/-- How many links there may be on the way of a path. -/
def linkLimit : Nat := 40

/-- What is asked of the last name of a path. -/
inductive Purpose where
  /-- Something is there by that name. -/
  | find
  /-- It may be the name of a new file. -/
  | create
deriving DecidableEq, Repr

/-- What one piece of a path leads to. -/
inductive Stride where
  | place (place : Place)
  /-- A link, with the path in it. -/
  | link (path : String)
deriving DecidableEq, Repr

/-- Where a piece of a path leads to from a place, with other pieces after it. A new file cannot
have a slash after its name. -/
def stride (tree : FileTree) (purpose : Purpose) (place : Place) (piece : String)
    (rest : List String) : Except SystemError Stride :=
  match tree.entry? place with
  | none => .error .notFound
  | some (.file _ _) => .error .notADirectory
  | some .directory =>
    if piece = "" ∨ piece = "." then .ok (.place place)
    else if piece = ".." then .ok (.place place.dropLast)
    else if purpose = .create ∧ rest ≠ [] ∧ ∀ later ∈ rest, later = "" then .error .isADirectory
    else do
      checkName piece
      let next := place ++ [piece]
      match tree.link? next with
      | some path => .ok (.link path)
      | none =>
        if (tree.entry? next).isSome ∨ purpose = .create ∧ rest = [] then .ok (.place next)
        else .error .notFound

/-- Where the pieces of a path lead to from a place. Behind a link, `onward` follows the path in
it and then the pieces that are left. -/
def walkVia (tree : FileTree) (purpose : Purpose)
    (onward : Place → List String → Except SystemError Place) :
    Place → List String → Except SystemError Place
  | place, [] => .ok place
  | place, piece :: rest => do
    match ← tree.stride purpose place piece rest with
    | .place next => tree.walkVia purpose onward next rest
    | .link path => onward (Path.startOf place path) (Path.pieces path ++ rest)

/-- Where the pieces of a path lead to, with at most `limit` links on the way. -/
def walkUpTo (tree : FileTree) (purpose : Purpose) :
    Nat → Place → List String → Except SystemError Place
  | 0 => tree.walkVia purpose fun _ _ => .error .tooManyLinks
  | limit + 1 => tree.walkVia purpose (tree.walkUpTo purpose limit)

/-- Where pieces of a path lead to. -/
def walk (tree : FileTree) (purpose : Purpose) (path : String) (pieces : List String) :
    Except SystemError Place :=
  tree.walkUpTo purpose linkLimit (Path.startOf tree.current path) pieces

/-- The place that a path leads to. There is an entry at it. -/
def locate (tree : FileTree) (path : String) : Except SystemError Place := do
  checkPath path
  tree.walk .find path (Path.pieces path)

/-- The place of the file that a path leads to. The file may be a new one, also behind a link. -/
def locateNew (tree : FileTree) (path : String) : Except SystemError Place := do
  checkPath path
  tree.walk .create path (Path.pieces path)

/-- The directory that holds the last component of a path, and that component, if it is a
name. Nothing need be there by that name, and a link by that name is not followed. -/
def locateParent (tree : FileTree) (path : String) :
    Except SystemError (Place × Option String) := do
  checkPath path
  match (Path.pieces path).reverse.dropWhile (· = "") with
  | [] => return ([], none)
  | last :: before =>
    let parent ← tree.walk .find path (before.reverse ++ ["."])
    return (parent, if last = "." ∨ last = ".." then none else some last)

def isDirectory (tree : FileTree) (path : String) : Bool :=
  match tree.locate path with
  | .ok place => tree.entry? place == some .directory
  | .error _ => false

end FileTree

end SdlCompiler
