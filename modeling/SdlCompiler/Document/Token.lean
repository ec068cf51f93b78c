import SdlCompiler.Numeric.Integer

/-!
# Tokens

The words of a document. Blanks, commas, byte order marks and comments stand between tokens
and are dropped. A comment runs to the next carriage return or line feed.

`lex` reads a whole text. Where no token starts, the list ends with `invalid`; where a number
breaks off after the sign of its exponent, with `unfinished`; and where a block string holds a
character that it must not, with `crash`.
-/

namespace SdlCompiler.Document

inductive Token where
  | punctuator (c : Char)
  | name (text : String)
  | int (text : String)
  | float (text : String)
  /-- The characters between two quotes, escapes as written. -/
  | quoted (raw : List Char)
  /-- The characters between two triple quotes, escapes as written. -/
  | block (raw : List Char)
  | invalid
  /-- A number without the digits of its exponent. It may still follow a value, as a number
  may. -/
  | unfinished
  | crash
deriving DecidableEq, Repr

namespace Token

def isIgnored (c : Char) : Bool :=
  c == ' ' || c == '\t' || c == '\r' || c == '\n' || c == '\x0C' || c == ',' || c == '\uFEFF'

def isLineEnd (c : Char) : Bool :=
  c == '\r' || c == '\n'

def isPunctuator (c : Char) : Bool :=
  ['&', '@', '}', ']', ')', ':', '$', '=', '!', '{', '[', '(', '|'].contains c

def isNameStart (c : Char) : Bool :=
  ('a' ≤ c && c ≤ 'z') || ('A' ≤ c && c ≤ 'Z') || c == '_'

def isNameChar (c : Char) : Bool :=
  isNameStart c || Numeric.isDigit c

def isHexDigit (c : Char) : Bool :=
  Numeric.isDigit c || ('a' ≤ c && c ≤ 'f') || ('A' ≤ c && c ≤ 'F')

/-- What may follow a backslash in a quoted string, `u` apart. -/
def isEscape (c : Char) : Bool :=
  c == '"' || c == '\\' || c == '/' || c == 'b' || c == 'f' || c == 'n' || c == 'r' || c == 't'

/-- What a string on one line may hold. -/
def isLineChar (c : Char) : Bool :=
  c == '\t' || (0x20 ≤ c.toNat && c.toNat ≤ 0xFFFF)

/-- What a block string may hold. -/
def isBlockChar (c : Char) : Bool :=
  isLineChar c || isLineEnd c

/-! ## Numbers -/

/-- A point and digits, if they stand at the front. -/
def fractionPart : List Char → List Char × List Char
  | '.' :: rest =>
    if rest.takeWhile Numeric.isDigit = [] then ([], '.' :: rest)
    else ('.' :: rest.takeWhile Numeric.isDigit, rest.dropWhile Numeric.isDigit)
  | text => ([], text)

/-- A sign, if one stands at the front. -/
def signPart : List Char → List Char × List Char
  | '+' :: rest => (['+'], rest)
  | '-' :: rest => (['-'], rest)
  | text => ([], text)

/-- The letter `e`, an optional sign and digits, if they stand at the front. -/
def exponentPart : List Char → List Char × List Char
  | [] => ([], [])
  | c :: rest =>
    let (sign, digits) := signPart rest
    if (c = 'e' ∨ c = 'E') ∧ digits.takeWhile Numeric.isDigit ≠ [] then
      (c :: sign ++ digits.takeWhile Numeric.isDigit, digits.dropWhile Numeric.isDigit)
    else ([], c :: rest)

/-- Whether an exponent stands at the front that has a sign and no digits. -/
def breaksOff : List Char → Bool
  | c :: sign :: rest =>
    (c == 'e' || c == 'E') && (sign == '+' || sign == '-') && !(rest.head?.any Numeric.isDigit)
  | _ => false

/-- Whether a number may not end before this text. -/
def gluesToNumber : List Char → Bool
  | [] => false
  | c :: _ => c == '.' || isNameStart c

/-- Digits without a leading zero, or a single zero. -/
def isWhole : List Char → Bool
  | [] => false
  | ['0'] => true
  | c :: _ => c != '0'

/-- The number whose digits stand at the front of a text, after its sign. -/
def unsigned (sign text : List Char) : Token × List Char :=
  let whole := text.takeWhile Numeric.isDigit
  let (fraction, rest) := fractionPart (text.dropWhile Numeric.isDigit)
  let (exponent, rest) := exponentPart rest
  if !isWhole whole then (.invalid, [])
  else if exponent = [] ∧ breaksOff rest then (.unfinished, [])
  else if gluesToNumber rest then (.invalid, [])
  else if fraction = [] ∧ exponent = [] then (.int (String.ofList (sign ++ whole)), rest)
  else (.float (String.ofList (sign ++ whole ++ fraction ++ exponent)), rest)

/-- The number that starts with `c`, a digit or a minus sign. -/
def number (c : Char) (rest : List Char) : Token × List Char :=
  if c == '-' then unsigned ['-'] rest else unsigned [] (c :: rest)

/-! ## Strings -/

/-- The contents of a quoted string and what follows its closing quote. -/
def quotedBody : List Char → Option (List Char × List Char)
  | [] => none
  | '"' :: rest => some ([], rest)
  | '\\' :: 'u' :: a :: b :: c :: d :: rest =>
    if isHexDigit a && isHexDigit b && isHexDigit c && isHexDigit d then
      (quotedBody rest).map fun (raw, rest) => ('\\' :: 'u' :: a :: b :: c :: d :: raw, rest)
    else none
  | '\\' :: c :: rest =>
    if isEscape c then (quotedBody rest).map fun (raw, rest) => ('\\' :: c :: raw, rest)
    else none
  | c :: rest =>
    if isLineChar c && c != '\\' then (quotedBody rest).map fun (raw, rest) => (c :: raw, rest)
    else none

/-- The contents of a block string and what follows its closing quotes, or the token that
stands for the failure to find them. -/
def blockBody : List Char → Except Token (List Char × List Char)
  | [] => .error .invalid
  | '"' :: '"' :: '"' :: rest => .ok ([], rest)
  | '\\' :: '"' :: '"' :: '"' :: rest =>
    (blockBody rest).map fun (raw, rest) => ('\\' :: '"' :: '"' :: '"' :: raw, rest)
  | c :: rest =>
    if isBlockChar c then (blockBody rest).map fun (raw, rest) => (c :: raw, rest)
    else .error .crash

/-- The string that starts with a quote before this text. -/
def string : List Char → Token × List Char
  | '"' :: '"' :: rest =>
    match blockBody rest with
    | .ok (raw, rest) => (.block raw, rest)
    | .error token => (token, [])
  | text =>
    match quotedBody text with
    | some (raw, rest) => (.quoted raw, rest)
    | none => (.invalid, [])

/-! ## Texts -/

/-- The token that starts with `c`, and what follows it in `c :: rest`. -/
def next (c : Char) (rest : List Char) : Token × List Char :=
  if isPunctuator c then (.punctuator c, rest)
  else if isNameStart c then
    (.name (String.ofList (c :: rest.takeWhile isNameChar)), rest.dropWhile isNameChar)
  else if c == '-' || Numeric.isDigit c then number c rest
  else if c == '"' then string rest
  else (.invalid, [])

theorem fractionPart_length (text : List Char) :
    (fractionPart text).2.length ≤ text.length := by
  unfold fractionPart
  split
  · split
    · simp
    · simp only [List.length_cons]
      exact Nat.le_succ_of_le (List.dropWhile_sublist _).length_le
  · simp

theorem signPart_length (text : List Char) : (signPart text).2.length ≤ text.length := by
  unfold signPart
  split <;> simp

theorem exponentPart_length (text : List Char) :
    (exponentPart text).2.length ≤ text.length := by
  unfold exponentPart
  split
  · simp
  · dsimp only
    split
    · have sign := signPart_length
      simp only [List.length_cons]
      exact Nat.le_succ_of_le (Nat.le_trans (List.dropWhile_sublist _).length_le (sign _))
    · simp

theorem unsigned_length (sign text : List Char) :
    (unsigned sign text).2.length ≤ (text.dropWhile Numeric.isDigit).length := by
  have tail := Nat.le_trans (exponentPart_length (fractionPart (text.dropWhile Numeric.isDigit)).2)
    (fractionPart_length (text.dropWhile Numeric.isDigit))
  unfold unsigned
  dsimp only
  split
  · simp
  split
  · simp
  split
  · simp
  split
  · exact tail
  · exact tail

/-- A number takes at least one character. -/
theorem number_length (c : Char) (rest : List Char) (starts : c = '-' ∨ Numeric.isDigit c) :
    (number c rest).2.length ≤ rest.length := by
  unfold number
  split
  · exact Nat.le_trans (unsigned_length _ _) (List.dropWhile_sublist _).length_le
  · next noSign =>
    have isDigit : Numeric.isDigit c := starts.resolve_left (by simpa using noSign)
    refine Nat.le_trans (unsigned_length _ _) ?_
    rw [List.dropWhile_cons_of_pos isDigit]
    exact (List.dropWhile_sublist _).length_le

theorem quotedBody_length {text raw rest : List Char} (found : quotedBody text = some (raw, rest)) :
    rest.length ≤ text.length := by
  fun_induction quotedBody text generalizing raw rest with
  | case1 => simp at found
  | case2 => simp_all
  | case3 a b c d rest _ ih | case5 c rest _ _ ih | case7 c rest _ _ _ _ ih =>
    obtain ⟨⟨raw', rest'⟩, inner, equal⟩ := Option.map_eq_some_iff.mp found
    have := ih inner
    cases equal
    simp only [List.length_cons]
    omega
  | case4 | case6 | case8 => simp at found

theorem blockBody_length {text raw rest : List Char} (found : blockBody text = .ok (raw, rest)) :
    rest.length ≤ text.length := by
  fun_induction blockBody text generalizing raw rest with
  | case1 => simp at found
  | case2 tail =>
    cases found
    simp only [List.length_cons]
    omega
  | case3 tail ih | case4 c tail _ _ _ ih =>
    cases inner : blockBody tail with
    | error token => simp [inner, Except.map] at found
    | ok pair =>
      simp only [inner, Except.map] at found
      cases found
      have := ih inner
      simp only [List.length_cons]
      omega
  | case5 => simp at found

theorem string_length (text : List Char) : (string text).2.length ≤ text.length := by
  unfold string
  split
  · split
    · next found =>
      have := blockBody_length found
      simp only [List.length_cons]
      omega
    · simp
  · split
    · next found => exact quotedBody_length found
    · simp

/-- A token takes at least one character. -/
theorem next_length (c : Char) (rest : List Char) : (next c rest).2.length ≤ rest.length := by
  unfold next
  split
  · simp
  split
  · exact (List.dropWhile_sublist _).length_le
  split
  · next starts =>
    refine number_length c rest ?_
    simpa using starts
  split
  · exact string_length rest
  · simp

/-- The tokens of a text. -/
def lex : List Char → List Token
  | [] => []
  | c :: rest =>
    if isIgnored c then lex rest
    else if c == '#' then lex (rest.dropWhile fun c => !isLineEnd c)
    else (next c rest).1 :: lex (next c rest).2
termination_by text => text.length
decreasing_by
  · simp
  · exact Nat.lt_succ_of_le (List.dropWhile_sublist _).length_le
  · exact Nat.lt_succ_of_le (next_length c rest)

end Token

end SdlCompiler.Document
