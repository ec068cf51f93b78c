import SdlCompiler.Numeric.Integer

/-!
# The search for integers that 64 bits do not hold

A pass over the bytes of a text, before it is cut into tokens. The pass knows comments,
strings, names and numbers, and looks at every number that is no float. A comment runs to the
next line feed.

The cursor of the pass may step beyond the end of the text. Each read and each cut is checked,
so that a read outside the text and a cut inside a character would show as a `Stop` of their
own.
-/

namespace SdlCompiler.Document.IntegerScan

/-- Why the pass ends early. -/
inductive Stop where
  | outOfRange (literal : String)
  | outside (pos : Nat)
  | splitCharacter (start stop : Nat)
deriving DecidableEq, Repr

def byte (c : Char) : UInt8 :=
  UInt8.ofNat c.toNat

def isDigitByte (b : UInt8) : Bool :=
  byte '0' ≤ b && b ≤ byte '9'

def isLetterByte (b : UInt8) : Bool :=
  (byte 'a' ≤ b && b ≤ byte 'z') || (byte 'A' ≤ b && b ≤ byte 'Z')

def isNameByte (b : UInt8) : Bool :=
  isLetterByte b || isDigitByte b || b == byte '_'

/-- What follows a float's digits, or a malformed number's. -/
def continuesNumber (b : UInt8) : Bool :=
  isLetterByte b || isDigitByte b || b == byte '.' || b == byte '+' || b == byte '-'

/-- The byte at a place inside the text. -/
def byteAt (src : ByteArray) (pos : Nat) : Except Stop UInt8 :=
  match src[pos]? with
  | some b => .ok b
  | none => .error (.outside pos)

/-- Whether the text from `pos` on starts with the given bytes. -/
def startsWith (src : ByteArray) (pos : Nat) (bytes : List UInt8) : Except Stop Bool :=
  if pos ≤ src.size then .ok ((src.extract pos (pos + bytes.length)).toList == bytes)
  else .error (.outside pos)

/-- Whether a character ends and another starts at this place. -/
def isBoundary (src : ByteArray) (pos : Nat) : Bool :=
  match src[pos]? with
  | some b => b &&& 0xC0 != 0x80
  | none => pos == src.size

/-- The text between two places. -/
def slice (src : ByteArray) (start stop : Nat) : Except Stop String :=
  if start ≤ stop && isBoundary src start && isBoundary src stop then
    match String.fromUTF8? (src.extract start stop) with
    | some text => .ok text
    | none => .error (.splitCharacter start stop)
  else .error (.splitCharacter start stop)

/-- The first place from `pos` on whose byte is not to be kept. -/
def skipWhile (src : ByteArray) (keep : UInt8 → Bool) (pos : Nat) : Except Stop Nat :=
  if pos < src.size then do
    if keep (← byteAt src pos) then skipWhile src keep (pos + 1) else return pos
  else return pos
termination_by src.size - pos

/-- The place after the string whose contents start at `pos`. A string ends at a quote or at
the end of its line, and a backslash covers the byte after it. -/
def skipQuoted (src : ByteArray) (pos : Nat) : Except Stop Nat :=
  if pos < src.size then do
    let b ← byteAt src pos
    if b == byte '"' || b == byte '\n' then return pos + 1
    else if b == byte '\\' then skipQuoted src (pos + 2)
    else skipQuoted src (pos + 1)
  else return pos + 1
termination_by src.size - pos

def tripleQuote : List UInt8 :=
  [byte '"', byte '"', byte '"']

/-- The place after the block string whose contents start at `pos`. -/
def skipBlock (src : ByteArray) (pos : Nat) : Except Stop Nat :=
  if pos < src.size then do
    if ← startsWith src pos tripleQuote then return pos + 3
    else if ← startsWith src pos (byte '\\' :: tripleQuote) then skipBlock src (pos + 4)
    else skipBlock src (pos + 1)
  else return pos + 3
termination_by src.size - pos

/-- The place after the number at `pos`, which must be a 64-bit integer if it is no float. -/
def skipNumber (src : ByteArray) (pos : Nat) : Except Stop Nat := do
  let stop ← skipWhile src isDigitByte (pos + 1)
  let literal ← slice src pos stop
  let isFloat :=
    match src[stop]? with
    | some b => b == byte '.' || b == byte 'e' || b == byte 'E'
    | none => false
  if !isFloat && literal != "-" && (Numeric.int64? literal.toList).isNone then
    throw (.outOfRange literal)
  skipWhile src continuesNumber stop

/-- The place after what starts with the byte at `pos`. -/
def step (src : ByteArray) (pos : Nat) : Except Stop Nat := do
  let b ← byteAt src pos
  if b == byte '#' then skipWhile src (· != byte '\n') (pos + 1)
  else if b == byte '"' then
    if ← startsWith src pos tripleQuote then skipBlock src (pos + 3)
    else skipQuoted src (pos + 1)
  else if isLetterByte b || b == byte '_' then skipWhile src isNameByte (pos + 1)
  else if b == byte '-' || isDigitByte b then skipNumber src pos
  else return pos + 1

/-- The pass from `pos` on. Every step moves on. -/
def scanFrom (src : ByteArray) (pos : Nat) : Except Stop Unit :=
  if pos < src.size then
    match step src pos with
    | .error stop => .error stop
    | .ok next => if pos < next then scanFrom src next else .ok ()
  else .ok ()
termination_by src.size - pos

/-- The pass over a whole text. -/
def scan (source : String) : Except Stop Unit :=
  scanFrom source.toUTF8 0

end SdlCompiler.Document.IntegerScan
