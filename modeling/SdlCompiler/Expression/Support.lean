import SdlCompiler.Expression.Reader

/-!
# Expressions that can be used

An expression is used on text, and may match whole characters only. Where characters are those of
Unicode, there are no tables of their classes and of their cases, so that shorthands and matching
without regard to case are refused. Where characters are bytes, all that could match a part of a
character is refused. Last, an automaton cannot tell where a word of Unicode begins or ends.
-/

namespace SdlCompiler.Expression

/-- How characters are taken. -/
structure Mode where
  unicode : Bool := true
  ignoreCase : Bool := false
deriving DecidableEq, Repr

namespace Mode

def after (mode : Mode) (changes : List FlagChange) : Mode :=
  { unicode := valueAfter changes .unicode mode.unicode
    ignoreCase := valueAfter changes .ignoreCase mode.ignoreCase }

/-- The mode needs no table for a character. -/
def hasCases (mode : Mode) : Bool :=
  !(mode.unicode && mode.ignoreCase)

/-- A literal can be used. A code is taken for that of a byte if characters are bytes. -/
def hasLiteral (mode : Mode) (l : Literal) : Bool :=
  mode.hasCases && (mode.unicode || !l.isCode || l.char.toNat ≤ 0x7F)

/-- A literal can be a member of a set. -/
def hasMember (mode : Mode) (l : Literal) : Bool :=
  mode.hasCases && (mode.unicode || l.char.toNat ≤ 0x7F)

/-- A set can be negated, which adds all that is not ASCII. -/
def hasNegation (mode : Mode) (negated : Bool) : Bool :=
  mode.unicode || !negated

def hasShorthand (mode : Mode) (negated : Bool) : Bool :=
  !mode.unicode && !negated

mutual

def hasSet (mode : Mode) : CharSet → Bool
  | .empty => true
  | .literal l => mode.hasMember l
  | .range low high => mode.hasMember low && mode.hasMember high
  | .named _ negated => mode.hasCases && mode.hasNegation negated
  | .shorthand _ negated => mode.hasShorthand negated
  | .bracketed negated inner => mode.hasNegation negated && mode.hasSet inner
  | .union items => mode.hasSets items
  | .operation _ left right => mode.hasSet left && mode.hasSet right

def hasSets (mode : Mode) : List CharSet → Bool
  | [] => true
  | item :: rest => mode.hasSet item && mode.hasSets rest

end

end Mode

/-- What is known after a part of an expression. -/
structure Usage where
  mode : Mode := {}
  /-- An edge of a word of Unicode has been asked for. -/
  wordBoundary : Bool := false
deriving DecidableEq, Repr

namespace Usage

def require (usage : Usage) (condition : Bool) : Option Usage :=
  if condition then some usage else none

mutual

/-- What is known after an expression that can be used. Changes of flags last up to the end of
their group. -/
def after? (usage : Usage) : Expression → Option Usage
  | .empty | .margin => some usage
  | .literal l => usage.require (usage.mode.hasLiteral l)
  | .any => usage.require usage.mode.unicode
  | .wordBoundary =>
    some { usage with wordBoundary := usage.wordBoundary || usage.mode.unicode }
  | .shorthand _ negated => usage.require (usage.mode.hasShorthand negated)
  | .set negated inner =>
    usage.require (usage.mode.hasNegation negated && usage.mode.hasSet inner)
  | .flags changes => some { usage with mode := usage.mode.after changes }
  | .repetition inner => usage.after? inner
  | .group changes inner => do
    let inside ← after? { usage with mode := usage.mode.after changes } inner
    return { inside with mode := usage.mode }
  | .sequence parts => usage.afterAll? parts
  | .alternatives branches => usage.afterAll? branches

def afterAll? (usage : Usage) : List Expression → Option Usage
  | [] => some usage
  | part :: rest => do
    let usage ← usage.after? part
    usage.afterAll? rest

end

end Usage

/-- Why a text cannot be used as an expression. -/
inductive Fault where
  /-- It is none, or it needs what is left out. -/
  | unusable
  | wordBoundary
deriving DecidableEq, Repr

def Fault.message : Fault → String
  | unusable => "error building NFA"
  | wordBoundary =>
    "unsupported regex feature for DFAs: cannot build DFAs for regexes with Unicode word " ++
      "boundaries; switch to ASCII word boundaries, or heuristically enable Unicode word " ++
      "boundaries or use a different regex engine"

/-- Why a text cannot be used as an expression, if so. -/
def fault? (text : List Char) : Option Fault :=
  match (read? text).bind (Usage.after? {}) with
  | none => some .unusable
  | some usage => if usage.wordBoundary then some .wordBoundary else none

end SdlCompiler.Expression
