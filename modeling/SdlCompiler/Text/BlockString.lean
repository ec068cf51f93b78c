import SdlCompiler.Text.Blank
import SdlCompiler.Text.Bytes
import SdlCompiler.Text.Lines

/-!
# Block strings

The value of a block string, from the characters between its triple quotes, and how a text is
written as one. The indentation that the lines share is not part of the value, nor are blank
lines at its two ends. The only escape is a backslash before a triple quote.

`value` has no answer on contents it cannot take apart: a text of fewer than six bytes, and
an indentation that ends inside a character of more than one byte.
-/

namespace SdlCompiler.Text.BlockString

/-- Why a block string has no value. -/
inductive Fault where
  | tooShort
  | splitCharacter
deriving DecidableEq, Repr

/-- Bytes before the first visible character, in a line that has one. -/
def indentation (line : List Char) : Option Nat :=
  if isBlankLine line then none else some (byteLength (line.takeWhile isBlank))

/-- The least indentation of the lines, or none where every line is blank. -/
def commonIndentation (ls : List (List Char)) : Nat :=
  ((ls.filterMap indentation).min?).getD 0

/-- The line without its first `n` bytes. -/
def cutIndentation (n : Nat) (line : List Char) : Except Fault (List Char) :=
  match dropBytes? n line with
  | some rest => .ok rest
  | none => .error .splitCharacter

/-- Writes each escaped triple quote as a plain one. -/
def unescape : List Char → List Char
  | [] => []
  | '\\' :: '"' :: '"' :: '"' :: rest => '"' :: '"' :: '"' :: unescape rest
  | c :: rest => c :: unescape rest

/-- The lines up to the last that is not blank. -/
def dropBlankEnd (ls : List (List Char)) : List (List Char) :=
  (ls.reverse.dropWhile isBlankLine).reverse

/-- The lines from the first to the last that is not blank. All but the line that the block
string opens on lose their common indentation. -/
def dedent : List (List Char) → Except Fault (List (List Char))
  | [] => .ok []
  | opening :: others =>
    let cut := cutIndentation (commonIndentation others)
    if isBlankLine opening then
      (dropBlankEnd (others.dropWhile isBlankLine)).mapM cut
    else do
      return opening :: (← (dropBlankEnd others).mapM cut)

/-- The value of the block string with these contents. -/
def value (raw : List Char) : Except Fault (List Char) :=
  if (lines raw).all isBlankLine then .ok []
  else if byteLength raw < 6 then .error .tooShort
  else do
    return joinLines ((← dedent (lines raw)).map unescape)

/-! ## Writing -/

/-- Puts a backslash before each triple quote. -/
def escape : List Char → List Char
  | [] => []
  | '"' :: '"' :: '"' :: rest => '\\' :: '"' :: '"' :: '"' :: escape rest
  | c :: rest => c :: escape rest

/-- One line of a block string. A blank line loses its blanks. -/
def writeLine (indent line : List Char) : List Char :=
  if isBlankLine line then ['\n'] else indent ++ escape line ++ ['\n']

/-- The lines between the two that hold the triple quotes. -/
def writeLines (indent text : List Char) : List Char :=
  (lines (trim text)).flatMap (writeLine indent)

/-- The text as a block string on lines of its own, with the same indentation on each. There is
none for an empty text. -/
def write (indent text : List Char) : List Char :=
  let quotes := indent ++ ['"', '"', '"', '\n']
  if text = [] then [] else quotes ++ writeLines indent text ++ quotes

end SdlCompiler.Text.BlockString
