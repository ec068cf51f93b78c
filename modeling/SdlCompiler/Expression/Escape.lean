import SdlCompiler.Expression.Basic
import SdlCompiler.Text.Blank

/-!
# Single characters of a regular expression

Where blanks and comments do not count, and what follows a backslash.
-/

namespace SdlCompiler.Expression

/-! ## Blanks and comments -/

/-- What follows blanks and comments, from inside a comment or not. A comment begins with a number
sign and ends with its line. -/
def afterBlanks : Bool → List Char → List Char
  | _, [] => []
  | true, c :: rest => afterBlanks (c != '\n') rest
  | false, c :: rest =>
    if Text.isBlank c then afterBlanks false rest
    else if c == '#' then afterBlanks true rest
    else c :: rest

/-- What follows blanks and comments, if those do not count. -/
def skip (extended : Bool) (text : List Char) : List Char :=
  if extended then afterBlanks false text else text

/-- The character that decides what a hyphen before the text means. If blanks and comments do not
count, blanks are passed over, and one number sign without the comment that it begins. -/
def decidingChar? (extended : Bool) (text : List Char) : Option Char :=
  if extended then
    match text.dropWhile Text.isBlank with
    | '#' :: comment => (comment.dropWhile Text.isBlank).head?
    | rest => rest.head?
  else text.head?

/-! ## Escapes -/

def isHexDigit (c : Char) : Bool :=
  c.isDigit || ('a' ≤ c && c ≤ 'f') || ('A' ≤ c && c ≤ 'F')

def hexValue (digits : List Char) : Nat :=
  let digit (c : Char) : Nat :=
    if c.isDigit then c.toNat - '0'.toNat else c.toLower.toNat - 'a'.toNat + 10
  digits.foldl (fun n c => 16 * n + digit c) 0

/-- That many digits at the start of the text, and what follows them. -/
def hexDigits? (extended : Bool) : Nat → List Char → Option (List Char × List Char)
  | 0, text => some ([], text)
  | _ + 1, [] => none
  | count + 1, c :: rest => do
    if !isHexDigit c then none
    let (digits, rest) ← hexDigits? extended count (skip extended rest)
    return (c :: digits, rest)

/-- The character with the code in that many digits, and what follows them. -/
def coded? (extended : Bool) (count : Nat) (text : List Char) : Option (Char × List Char) := do
  let (digits, rest) ← hexDigits? extended count (skip extended text)
  if (hexValue digits).isValidChar then some (Char.ofNat (hexValue digits), rest) else none

/-- What an escape stands for. -/
inductive Escape where
  | literal (l : Literal)
  | shorthand (kind : Shorthand) (negated : Bool)
  | margin
  | wordBoundary
deriving DecidableEq, Repr

/-- The escape that a single character makes after a backslash. Marks of ASCII stand for
themselves, letters and digits only where they have a meaning. -/
def Escape.ofChar? : Char → Option Escape
  | 'd' => some (.shorthand .digit false)
  | 's' => some (.shorthand .space false)
  | 'w' => some (.shorthand .word false)
  | 'D' => some (.shorthand .digit true)
  | 'S' => some (.shorthand .space true)
  | 'W' => some (.shorthand .word true)
  | 'a' => some (.literal ⟨'\x07', false⟩)
  | 'f' => some (.literal ⟨'\x0C', false⟩)
  | 't' => some (.literal ⟨'\t', false⟩)
  | 'n' => some (.literal ⟨'\n', false⟩)
  | 'r' => some (.literal ⟨'\r', false⟩)
  | 'v' => some (.literal ⟨'\x0B', false⟩)
  | 'A' | 'z' => some .margin
  | 'b' | 'B' | '<' | '>' => some .wordBoundary
  | c => if c.isAlphanum || 0x7F < c.toNat then none else some (.literal ⟨c, false⟩)

/-- The escape after a backslash, and what follows it. There are no sets of characters by their
properties: the tables for them are left out. -/
def escape? (extended : Bool) : List Char → Option (Escape × List Char)
  | 'x' :: rest => (coded? extended 2 rest).map fun (c, rest) => (.literal ⟨c, true⟩, rest)
  | 'u' :: rest => (coded? extended 4 rest).map fun (c, rest) => (.literal ⟨c, false⟩, rest)
  | 'U' :: rest => (coded? extended 8 rest).map fun (c, rest) => (.literal ⟨c, false⟩, rest)
  | c :: rest => (Escape.ofChar? c).map fun escape => (escape, rest)
  | [] => none

/-- A character of a set or an escape, and what follows it. -/
def element? (extended : Bool) : List Char → Option (Escape × List Char)
  | '\\' :: rest => escape? extended rest
  | c :: rest => some (.literal ⟨c, false⟩, rest)
  | [] => none

end SdlCompiler.Expression
