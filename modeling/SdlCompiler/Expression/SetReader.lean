import SdlCompiler.Expression.Escape

/-!
# Reading sets of characters

A set stands between brackets and holds characters, ranges, other sets, and operations between
what stands on their two sides. Operations are grouped from the left.
-/

namespace SdlCompiler.Expression

/-- The names that a set of ASCII characters can have. -/
def setNames : List String :=
  ["alnum", "alpha", "ascii", "blank", "cntrl", "digit", "graph", "lower", "print", "punct",
    "space", "upper", "word", "xdigit"]

/-- A set by its name after an opening bracket, and what follows it. -/
def namedSet? : List Char → Option (CharSet × List Char)
  | ':' :: text =>
    let negated := text.head? == some '^'
    let text := if negated then text.tail else text
    let name := String.ofList (text.takeWhile (· ≠ ':'))
    match text.dropWhile (· ≠ ':') with
    | ':' :: ']' :: rest => if setNames.contains name then some (.named name negated, rest) else none
    | _ => none
  | _ => none

def CharSet.ofEscape? : Escape → Option CharSet
  | .literal l => some (.literal l)
  | .shorthand kind negated => some (.shorthand kind negated)
  | .margin | .wordBoundary => none

/-- The range between two characters, which must not be in the wrong order. -/
def CharSet.range? : Escape → Escape → Option CharSet
  | .literal low, .literal high => if low.char ≤ high.char then some (.range low high) else none
  | _, _ => none

/-- A character, an escape or a range, and what follows it. A hyphen before a closing bracket or
before another hyphen makes no range. -/
def member? (extended : Bool) (text : List Char) : Option (CharSet × List Char) := do
  let (low, rest) ← element? extended text
  let single := (CharSet.ofEscape? low).map fun item => (item, skip extended rest)
  match skip extended rest with
  | '-' :: rest =>
    let next := decidingChar? extended rest
    if next = some ']' ∨ next = some '-' then single
    else
      let (high, rest) ← element? extended (skip extended rest)
      return (← CharSet.range? low high, rest)
  | _ => single

/-- A set whose closing bracket has not been read. -/
structure OpenSet where
  negated : Bool
  /-- Nothing but hyphens has been read. -/
  atStart : Bool := true
  /-- The last operation with what stands on its left. -/
  pending : Option (SetOperation × CharSet) := none
  /-- The items after the last operation, the last one first. -/
  items : List CharSet := []
deriving Inhabited

namespace OpenSet

/-- The set after its opening bracket, and what follows the sign of a negation. -/
def start (extended : Bool) (text : List Char) : OpenSet × List Char :=
  match skip extended text with
  | '^' :: rest => ({ negated := true }, rest)
  | rest => ({ negated := false }, rest)

def add (s : OpenSet) (item : CharSet) : OpenSet :=
  { s with atStart := false, items := item :: s.items }

/-- What has been read, as a whole. -/
def content (s : OpenSet) : CharSet :=
  let last := CharSet.ofItems s.items.reverse
  match s.pending with
  | none => last
  | some (kind, left) => .operation kind left last

def operate (s : OpenSet) (kind : SetOperation) : OpenSet :=
  { s with atStart := false, pending := some (kind, s.content), items := [] }

end OpenSet

/-- Reads on in a set that stands in the outer ones, the innermost first, up to the end of the
outermost. A closing bracket at the start of a set and hyphens there stand for themselves. -/
def readSet? (extended : Bool) :
    Nat → List OpenSet → OpenSet → List Char → Option (Expression × List Char)
  | 0, _, _, _ => none
  | limit + 1, outer, s, text =>
    match skip extended text with
    | [] => none
    | ']' :: rest =>
      if s.atStart && s.items.isEmpty then
        readSet? extended limit outer (s.add (.literal ⟨']', false⟩)) rest
      else
        match outer with
        | [] => some (.set s.negated s.content, rest)
        | around :: outer =>
          readSet? extended limit outer (around.add (.bracketed s.negated s.content)) rest
    | '[' :: rest =>
      match namedSet? rest with
      | some (item, rest) => readSet? extended limit outer (s.add item) rest
      | none =>
        let (inner, rest) := OpenSet.start extended rest
        readSet? extended limit (s :: outer) inner rest
    | '&' :: '&' :: rest => readSet? extended limit outer (s.operate .intersection) rest
    | '~' :: '~' :: rest => readSet? extended limit outer (s.operate .symmetricDifference) rest
    | '-' :: rest =>
      if s.atStart then
        let s := { s with items := .literal ⟨'-', false⟩ :: s.items }
        readSet? extended limit outer s rest
      else
        match rest with
        | '-' :: rest => readSet? extended limit outer (s.operate .difference) rest
        | _ => do
          let (item, rest) ← member? extended ('-' :: rest)
          readSet? extended limit outer (s.add item) rest
    | text => do
      let (item, rest) ← member? extended text
      readSet? extended limit outer (s.add item) rest

/-- A set after its opening bracket, and what follows it. -/
def set? (extended : Bool) (text : List Char) : Option (Expression × List Char) :=
  let (s, rest) := OpenSet.start extended text
  readSet? extended (rest.length + 1) [] s rest

end SdlCompiler.Expression
