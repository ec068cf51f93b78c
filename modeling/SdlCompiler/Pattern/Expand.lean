import SdlCompiler.FileTree.Basic
import SdlCompiler.Pattern.Basic

/-!
# The files of a pattern

Follows a pattern through a file tree, component by component. A component without wildcards is
followed without a look at the directory, so it may also be `.` or `..`; for one with wildcards
the entries of the directory are tried in the order of their names. A directory comes before
what is below it.
-/

namespace SdlCompiler

/-- The names in the directory at a place, in order. -/
def FileTree.children (tree : FileTree) (place : Place) : List String :=
  let places := tree.entries.map Prod.fst ++ tree.links.map Prod.fst
  let names := places.filterMap fun p =>
    match p.getLast? with
    | some name => if p.dropLast = place then some name else none
    | none => none
  names.mergeSort (fun a b => a ≤ b)

namespace Pattern

/-- A pattern as the list of its components. -/
structure Route where
  /-- Where it starts. -/
  base : String
  components : List (List Token)
  /-- It ends in a slash, so it stands for directories only. -/
  directoriesOnly : Bool
deriving Repr

/-- The pieces of a pattern. A slash at its end does not begin another one. -/
def patternPieces (text : List Char) : List (List Char) :=
  match (Text.split '/' text).reverse with
  | [] :: before => before.reverse
  | pieces => pieces.reverse

/-- The route of a pattern. The pattern has to be right as a whole as well as in each of its
components. -/
def route (pattern : String) : Except PatternError Route := do
  let _ ← parse pattern.toList
  let isAbsolute := Path.isAbsolute pattern
  let relative := if isAbsolute then pattern.toList.drop 1 else pattern.toList
  let pieces := if relative = [] then [[]] else patternPieces relative
  return { base := if isAbsolute then "/" else ".", components := ← pieces.mapM parse,
           directoriesOnly := Path.endsInSlash pattern }

/-- A path found so far, with the components that are still to follow. The last piece of the
path is one that the first of them is to be tried on; where there is none, the path is found. -/
abbrev Lead := String × List (List Token)

def isCurrent (path : String) : Bool :=
  Path.components path == [.current]

/-- The path of an entry of a directory. -/
def entryPath (path name : String) : String :=
  if isCurrent path then name else Path.join path name

def isSpecial (name : String) : Bool :=
  name == "." || name == ".."

def isThere (tree : FileTree) (path : String) : Bool :=
  (tree.locate path).isOk

/-- The leads from the entries of a directory. -/
def childLeads (tree : FileTree) (components : List (List Token)) (path : String) : List Lead :=
  match tree.locate path with
  | .error _ => []
  | .ok place => (tree.children place).map fun name => (entryPath path name, components)

/-- The leads from a directory, in the order in which they are to be followed. -/
def leads (tree : FileTree) : List (List Token) → String → List Lead
  | [], path => [(path, [])]
  | component :: rest, path =>
    match literal? component with
    | some name =>
      let name := String.ofList name
      let next := entryPath path name
      if if isSpecial name then tree.isDirectory path else isThere tree next then
        leads tree rest next
      else []
    | none =>
      if tree.isDirectory path then
        let special (name : String) : List Lead :=
          if component.head? = some (.literal '.') ∧ matchesName component name.toList then
            leads tree rest (Path.join path name)
          else []
        special ".." ++ special "." ++ childLeads tree (component :: rest) path
      else []

/-- The last name of a path. -/
def lastName (path : String) : List Char :=
  (((Path.names path).getLast?).getD "").toList

def isRecursive (component : List Token) : Bool :=
  component == [.recursive]

/-- The files of a lead, as far as they are at most `depth` steps away. -/
def follow (tree : FileTree) (directoriesOnly : Bool) : Nat → Lead → List String
  | 0, _ => []
  | depth + 1, (path, components) =>
    let found := if directoriesOnly && !tree.isDirectory path then [] else [path]
    let tried (component : List Token) (rest : List (List Token)) : List String :=
      if matchesName component (lastName path) then
        if rest.isEmpty then found
        else (leads tree rest path).flatMap (follow tree directoriesOnly depth)
      else []
    match components with
    | [] => found
    | component :: rest =>
      if isRecursive component then
        let rest := rest.dropWhile isRecursive
        let below :=
          if tree.isDirectory path then
            (leads tree ([.recursive] :: rest) path).flatMap (follow tree directoriesOnly depth)
          else []
        match rest with
        | [] => if tree.isDirectory path then path :: below else []
        | next :: more => tried next more ++ below
      else tried component rest

/-- More steps than there are on any way through the tree: at each component of a route, each
step but the last goes down one directory, or through one of the links that a path may have. -/
def stepLimit (tree : FileTree) (route : Route) : Nat :=
  (route.components.length + 1) * (tree.entries.length + 2) * (FileTree.linkLimit + 1)

/-- The paths of the files that a pattern stands for. -/
def expand (tree : FileTree) (pattern : String) : Except PatternError (List String) := do
  let route ← route pattern
  return (leads tree route.components route.base).flatMap
    (follow tree route.directoriesOnly (stepLimit tree route))

end Pattern

end SdlCompiler
