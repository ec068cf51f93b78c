import SdlCompiler.Expression.SetReader
import SdlCompiler.Text.Alphanumeric

/-!
# Reading regular expressions

`read?` reads the whole of a text that has no closing brace. Groups that are still open are kept
on a stack, with what was read before them.
-/

namespace SdlCompiler.Expression

/-! ## Groups -/

/-- Changes of flags. Those after a hyphen are switched off, and no flag is named twice. -/
def changes? (on : Bool) : List Char → Option (List FlagChange)
  | [] => some []
  | '-' :: rest => if on ∧ rest ≠ [] then changes? false rest else none
  | c :: rest => do
    let flag ← Flag.ofChar? c
    let changes ← changes? on rest
    if changes.any (·.flag == flag) then none else some (⟨flag, on⟩ :: changes)

def isNameStart (c : Char) : Bool :=
  Text.isAlphabetic c || c == '_'

def isNameChar (c : Char) : Bool :=
  Text.isAlphanumeric c || ['_', '.', '[', ']'].contains c

/-- The name of a group, and what follows it. -/
def groupName? (text : List Char) : Option (List Char × List Char) :=
  match text.takeWhile (· ≠ '>'), text.dropWhile (· ≠ '>') with
  | first :: name, _ :: rest =>
    if isNameStart first && name.all isNameChar then some (first :: name, rest) else none
  | _, _ => none

/-- What an opening parenthesis begins. -/
inductive Opening where
  | group (changes : List FlagChange)
  | namedGroup (name : List Char)
  /-- Only a change of flags, with its closing parenthesis. -/
  | flags (changes : List FlagChange)

/-- What begins after an opening parenthesis, and what follows it. -/
def opening? : List Char → Option (Opening × List Char)
  | '?' :: 'P' :: '<' :: rest => (groupName? rest).map fun (name, rest) => (.namedGroup name, rest)
  | '?' :: '<' :: rest => (groupName? rest).map fun (name, rest) => (.namedGroup name, rest)
  | '?' :: rest => do
    let isEnd (c : Char) := c == ':' || c == ')'
    let changes ← changes? true (rest.takeWhile (!isEnd ·))
    match rest.dropWhile (!isEnd ·) with
    | ':' :: rest => some (.group changes, rest)
    | ')' :: rest => if changes = [] then none else some (.flags changes, rest)
    | _ => none
  | rest => some (.group [], rest)

/-! ## Whole expressions -/

/-- Alternatives, of which the last one is still being read. -/
structure Branches where
  /-- The finished ones, the last one first. -/
  finished : List Expression := []
  /-- The parts of the one that is being read, the last one first. -/
  parts : List Expression := []
deriving Inhabited

namespace Branches

def add (b : Branches) (part : Expression) : Branches :=
  { b with parts := part :: b.parts }

/-- Begins the next alternative. -/
def next (b : Branches) : Branches :=
  ⟨ofParts b.parts.reverse :: b.finished, []⟩

def expression (b : Branches) : Expression :=
  match b.finished with
  | [] => ofParts b.parts.reverse
  | _ => .alternatives b.next.finished.reverse

/-- Repeats the last part. A change of flags cannot be repeated. -/
def repeatLast? (b : Branches) : Option Branches :=
  match b.parts with
  | [] | .flags _ :: _ => none
  | part :: parts => some { b with parts := .repetition part :: parts }

end Branches

/-- A group whose closing parenthesis has not been read. -/
structure OpenGroup where
  changes : List FlagChange
  /-- What was read before the group. -/
  before : Branches
  /-- Whether blanks and comments counted before the group. -/
  extended : Bool

structure Reader where
  branches : Branches := {}
  /-- The innermost group first. -/
  groups : List OpenGroup := []
  extended : Bool := false
  /-- The names of all groups so far. -/
  names : List (List Char) := []

namespace Reader

def add (r : Reader) (part : Expression) : Reader :=
  { r with branches := r.branches.add part }

def openGroup (r : Reader) (changes : List FlagChange) : Reader :=
  { r with
    branches := {}
    groups := ⟨changes, r.branches, r.extended⟩ :: r.groups
    extended := valueAfter changes .extended r.extended }

/-- No two groups have the same name. -/
def open? (r : Reader) : Opening → Option Reader
  | .group changes => some (r.openGroup changes)
  | .namedGroup name =>
    if r.names.contains name then none
    else some { r.openGroup [] with names := name :: r.names }
  | .flags changes =>
    some { r.add (.flags changes) with extended := valueAfter changes .extended r.extended }

def close? (r : Reader) : Option Reader :=
  match r.groups with
  | [] => none
  | g :: groups =>
    some { r with
      branches := g.before.add (.group g.changes r.branches.expression)
      groups
      extended := g.extended }

def ofEscape : Escape → Expression
  | .literal l => .literal l
  | .shorthand kind negated => .shorthand kind negated
  | .margin => .margin
  | .wordBoundary => .wordBoundary

/-- Reads what begins with a character. An opening brace would begin a count of repetitions, which
cannot end. -/
def step? (r : Reader) (c : Char) (rest : List Char) : Option (Reader × List Char) :=
  match c with
  | '(' => do
    let (opening, rest) ← opening? (skip r.extended rest)
    return (← r.open? opening, rest)
  | ')' => r.close?.map fun r => (r, rest)
  | '|' => some ({ r with branches := r.branches.next }, rest)
  | '[' => (set? r.extended rest).map fun (chars, rest) => (r.add chars, rest)
  | '?' | '*' | '+' => do
    let branches ← r.branches.repeatLast?
    -- A question mark after the sign only says which match is tried first.
    let rest := if rest.head? = some '?' then rest.tail else rest
    return ({ r with branches }, rest)
  | '\x7b' => none
  | '\\' => (escape? r.extended rest).map fun (escape, rest) => (r.add (ofEscape escape), rest)
  | '.' => some (r.add .any, rest)
  | '^' | '$' => some (r.add .margin, rest)
  | c => some (r.add (.literal ⟨c, false⟩), rest)

/-- Reads to the end, where no group may be open. -/
def run? : Nat → Reader → List Char → Option Expression
  | 0, _, _ => none
  | limit + 1, r, text =>
    match skip r.extended text with
    | [] => if r.groups.isEmpty then some r.branches.expression else none
    | c :: rest => do
      let (r, rest) ← r.step? c rest
      run? limit r rest

end Reader

/-- How deep an expression may nest. -/
def depthLimit : Nat := 250

/-- The expression that a text writes. -/
def read? (text : List Char) : Option Expression :=
  (Reader.run? (text.length + 1) {} text).filter fun e => e.depth ≤ depthLimit

end SdlCompiler.Expression
