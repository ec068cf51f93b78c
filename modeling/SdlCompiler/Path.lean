import SdlCompiler.Text.Split

/-!
# Paths

A path is a text with slashes between its components. Empty components do not count, and
neither does `.`, unless it is the first component of a relative path.
-/

namespace SdlCompiler.Path

inductive Component where
  | root
  | current
  | parent
  | normal (name : String)
deriving DecidableEq, Repr

/-- What stands between the slashes. -/
def pieces (path : String) : List String :=
  (Text.split '/' path.toList).map String.ofList

def ofPieces (pieces : List String) : String :=
  "/".intercalate pieces

def isAbsolute (path : String) : Bool :=
  path.toList.head? == some '/'

def endsInSlash (path : String) : Bool :=
  path.toList.getLast? == some '/'

/-- The component of a piece that is not the first. -/
def component? (piece : String) : Option Component :=
  if piece = "" ∨ piece = "." then none
  else if piece = ".." then some .parent
  else some (.normal piece)

def components (path : String) : List Component :=
  if path = "" then []
  else
    match pieces path with
    | [] => []
    | first :: rest =>
      let start :=
        if first = "" then some .root else if first = "." then some .current else component? first
      start.toList ++ rest.filterMap component?

def Component.name? : Component → Option String
  | .normal name => some name
  | _ => none

/-- The names among the components. -/
def names (path : String) : List String :=
  (components path).filterMap Component.name?

/-- The path without its last component, if it has one that is not the root. -/
def parent? (path : String) : Option String :=
  let isIdle (piece : String) := (component? piece).isNone
  match pieces path with
  | [] => none
  | first :: rest =>
    match rest.reverse.dropWhile isIdle with
    | _ :: before =>
      match (before.dropWhile isIdle).reverse with
      | [] => some (if first = "" then "/" else first)
      | kept => some (ofPieces (first :: kept))
    | [] => if first = "" then none else some ""

/-- The path to what `path` leads to from the directory `base`. -/
def join (base path : String) : String :=
  if isAbsolute path ∨ base = "" then path
  else if endsInSlash base then base ++ path
  else base ++ "/" ++ path

end SdlCompiler.Path
