/-!
# Regular expressions

An expression as it is written: what it matches does not matter here, only which parts it has and
how deep they nest.
-/

namespace SdlCompiler

namespace Expression

/-- A switch that changes how what follows is read or matched. -/
inductive Flag where
  | ignoreCase
  | multiLine
  | dotMatchesAll
  | swapGreed
  | unicode
  | carriageReturn
  /-- Blanks and comments do not count. -/
  | extended
deriving DecidableEq, Repr

def Flag.ofChar? : Char → Option Flag
  | 'i' => some ignoreCase
  | 'm' => some multiLine
  | 's' => some dotMatchesAll
  | 'U' => some swapGreed
  | 'u' => some unicode
  | 'R' => some carriageReturn
  | 'x' => some extended
  | _ => none

structure FlagChange where
  flag : Flag
  on : Bool
deriving DecidableEq, Repr

/-- The value of a flag after some changes. -/
def valueAfter (changes : List FlagChange) (flag : Flag) (value : Bool) : Bool :=
  match changes.find? (·.flag == flag) with
  | some change => change.on
  | none => value

/-- A character that stands for itself. -/
structure Literal where
  char : Char
  /-- Written by a code of two digits, which can also be the code of a byte. -/
  isCode : Bool := false
deriving DecidableEq, Repr

/-- A set of characters that has a letter of its own. -/
inductive Shorthand where
  | digit
  | space
  | word
deriving DecidableEq, Repr

inductive SetOperation where
  | intersection
  | difference
  | symmetricDifference
deriving DecidableEq, Repr

/-- What stands between the brackets of a set of characters. -/
inductive CharSet where
  | empty
  | literal (l : Literal)
  | range (low high : Literal)
  /-- A set of ASCII characters that has a name. -/
  | named (name : String) (negated : Bool)
  | shorthand (kind : Shorthand) (negated : Bool)
  | bracketed (negated : Bool) (inner : CharSet)
  /-- Two or more items. -/
  | union (items : List CharSet)
  | operation (kind : SetOperation) (left right : CharSet)
deriving Repr, Inhabited

namespace CharSet

/-- The set of all items. One that stands alone is no union. -/
def ofItems : List CharSet → CharSet
  | [] => .empty
  | [item] => item
  | items => .union items

mutual

/-- How deep brackets, unions and operations nest. -/
def depth : CharSet → Nat
  | .empty | .literal _ | .range _ _ | .named _ _ | .shorthand _ _ => 0
  | .bracketed _ inner => inner.depth + 1
  | .union items => depthOfItems items + 1
  | .operation _ left right => max left.depth right.depth + 1

/-- The depth of the deepest item. -/
def depthOfItems : List CharSet → Nat
  | [] => 0
  | item :: rest => max item.depth (depthOfItems rest)

end

end CharSet

end Expression

inductive Expression where
  | empty
  | literal (l : Expression.Literal)
  /-- Any character, or any but those that end a line. -/
  | any
  /-- The start or the end of a line or of the text. -/
  | margin
  /-- The start or the end of a word, or the lack of both. -/
  | wordBoundary
  | shorthand (kind : Expression.Shorthand) (negated : Bool)
  | set (negated : Bool) (inner : Expression.CharSet)
  /-- A change of flags up to the end of the group that it stands in. -/
  | flags (changes : List Expression.FlagChange)
  | repetition (inner : Expression)
  | group (changes : List Expression.FlagChange) (inner : Expression)
  /-- Two or more parts, one after the other. -/
  | sequence (parts : List Expression)
  /-- Two or more branches, of which one has to match. -/
  | alternatives (branches : List Expression)
deriving Repr, Inhabited

namespace Expression

/-- Parts one after the other. One that stands alone is no sequence. -/
def ofParts : List Expression → Expression
  | [] => .empty
  | [part] => part
  | parts => .sequence parts

mutual

/-- How deep sets, repetitions, groups, sequences and alternatives nest. -/
def depth : Expression → Nat
  | .empty | .literal _ | .any | .margin | .wordBoundary | .shorthand _ _ | .flags _ => 0
  | .set _ inner => inner.depth + 1
  | .repetition inner => inner.depth + 1
  | .group _ inner => inner.depth + 1
  | .sequence parts => depthOfParts parts + 1
  | .alternatives branches => depthOfParts branches + 1

/-- The depth of the deepest part. -/
def depthOfParts : List Expression → Nat
  | [] => 0
  | part :: rest => max part.depth (depthOfParts rest)

end

end Expression

end SdlCompiler
