import SdlCompiler.Proofs.Document.Written

/-!
# The integers of a text

The search for integers that 64 bits do not hold goes over a text before the text is cut into
tokens. It keeps in step with the tokens as long as every comment ends at a line feed
(`overflow?_eq_find?`), but for one difference: behind a number it passes over all that could go on
with one, signs among it. So it does not look at an integer that stands directly behind a number.

A large integer is found if it stands anywhere else (`scan_of_exposed`), and nothing is found that
is no such integer (`scan_outOfRange`). One that is not found may make the grammar crash
(`parse_hidden_integer`).
-/

namespace SdlCompiler.Document

open Token IntegerScan

/-! ## Pieces -/

/-- What a text is cut into. -/
inductive Piece where
  | blank
  /-- A comment, with the text after it. -/
  | comment (after : List Char)
  | token (token : Token)
deriving DecidableEq

/-- The pieces of a text, in order and without a gap. -/
def pieces : List Char → List Piece
  | [] => []
  | c :: rest =>
    if isIgnored c then .blank :: pieces rest
    else if c == '#' then
      .comment (rest.dropWhile fun c => !isLineEnd c) :: pieces (rest.dropWhile fun c => !isLineEnd c)
    else .token (next c rest).1 :: pieces (next c rest).2
termination_by text => text.length
decreasing_by
  · simp
  · exact Nat.lt_succ_of_le (List.dropWhile_sublist _).length_le
  · exact Nat.lt_succ_of_le (next_length c rest)

def Piece.token? : Piece → Option Token
  | .token read => some read
  | _ => none

/-- The tokens of a text are those of its pieces that are tokens. -/
theorem lex_eq_pieces (text : List Char) : lex text = (pieces text).filterMap Piece.token? := by
  fun_induction lex text with
  | case1 => rw [pieces]; rfl
  | case2 c rest ignored ih => rw [pieces, if_pos ignored, ih]; rfl
  | case3 c rest kept comment ih => rw [pieces, if_neg kept, if_pos comment, ih]; rfl
  | case4 c rest kept noComment ih => rw [pieces, if_neg kept, if_neg noComment, ih]; rfl

theorem mem_lex {text : List Char} {token : Token} :
    token ∈ lex text ↔ .token token ∈ pieces text := by
  rw [lex_eq_pieces, List.mem_filterMap]
  constructor
  · rintro ⟨piece, member, same⟩
    cases piece <;> cases same
    exact member
  · exact fun member => ⟨_, member, rfl⟩

/-- A line ends before this text: at a line feed, alone or behind a carriage return, or because
nothing comes after. -/
def endsLine : List Char → Bool
  | [] | '\n' :: _ | '\r' :: '\n' :: _ => true
  | _ => false

def Piece.isClosed : Piece → Bool
  | .comment after => endsLine after
  | _ => true

/-- Every comment of a text ends where a line does. -/
def CommentsClosed (text : List Char) : Prop :=
  (pieces text).all Piece.isClosed = true

instance (text : List Char) : Decidable (CommentsClosed text) :=
  inferInstanceAs (Decidable (_ = true))

/-- The text is cut into tokens to its end. -/
def Lexes (text : List Char) : Prop :=
  ∀ token ∈ lex text, Rule.isProper token = true

instance (text : List Char) : Decidable (Lexes text) :=
  inferInstanceAs (Decidable (∀ token ∈ lex text, _))

/-! ## Integers -/

/-- An integer of a text. -/
structure Integer where
  literal : String
  /-- Whether a number ends where this one starts. -/
  behindNumber : Bool
deriving DecidableEq

/-- Not an integer of 64 bits. -/
def Integer.isLarge (n : Integer) : Bool :=
  (Numeric.int64? n.literal.toList).isNone

/-- The integers among pieces, of which the first may stand directly behind a number. -/
def integersAfter (behindNumber : Bool) : List Piece → List Integer
  | [] => []
  | .token (.int literal) :: rest => ⟨literal, behindNumber⟩ :: integersAfter true rest
  | .token (.float _) :: rest => integersAfter true rest
  | _ :: rest => integersAfter false rest

/-- The integers of a text, in order. -/
def integers (text : List Char) : List Integer :=
  integersAfter false (pieces text)

theorem mem_integersAfter {literal : String} {behindNumber : Bool} {ps : List Piece} :
    (∃ n ∈ integersAfter behindNumber ps, n.literal = literal) ↔ .token (.int literal) ∈ ps := by
  fun_induction integersAfter behindNumber ps with
  | case1 => simp
  | case2 behindNumber other rest ih => simp [← ih, eq_comm]
  | case3 behindNumber text rest ih => simp [← ih]
  | case4 behindNumber piece rest noInt noFloat ih =>
    have other : Piece.token (.int literal) ≠ piece := fun same => noInt literal same.symm
    simp [← ih, other]

/-- The integers of a text are the tokens that are integers. -/
theorem exists_mem_integers {text : List Char} {literal : String} :
    (∃ n ∈ integers text, n.literal = literal) ↔ .int literal ∈ lex text := by
  rw [integers, mem_integersAfter, mem_lex]

/-! ## Numbers -/

/-- Nothing that could go on with the digits of a number, nor stand directly behind it. -/
def EndsNumber (rest : List Char) : Prop :=
  ∀ c, rest.head? = some c → (isNameStart c || Numeric.isDigit c || c == '.') = false

theorem head?_dropWhile_isDigit {text : List Char} {c : Char}
    (first : (text.dropWhile Numeric.isDigit).head? = some c) : Numeric.isDigit c = false := by
  have stopped := List.head?_dropWhile_not Numeric.isDigit text
  rw [first] at stopped
  simpa using stopped

theorem endsNumber_of_glues {rest : List Char} (free : gluesToNumber rest = false)
    (noDigit : ∀ c, rest.head? = some c → Numeric.isDigit c = false) : EndsNumber rest := by
  intro c first
  cases rest with
  | nil => cases first
  | cons d rest =>
    cases first
    simp only [gluesToNumber, Bool.or_eq_false_iff] at free
    simp [free, noDigit c rfl]

/-- A part of a number: characters at the front that go on with it, up to one that is no digit. -/
structure IsPart (text part rest : List Char) : Prop where
  split : text = part ++ rest
  continues : part.all continuesNumberChar = true
  ended : part ≠ [] → ∀ c, rest.head? = some c → Numeric.isDigit c = false

theorem all_continues {digits : List Char} (all : digits.all Numeric.isDigit = true) :
    digits.all continuesNumberChar = true := by
  rw [List.all_eq_true] at all ⊢
  intro c member
  simp [continuesNumberChar, all c member]

theorem fractionPart_isPart (text : List Char) :
    IsPart text (fractionPart text).1 (fractionPart text).2 ∧
      ((fractionPart text).1 ≠ [] → isFloatBefore text = true) := by
  unfold fractionPart
  split
  · next rest =>
    split
    · exact ⟨⟨rfl, rfl, fun nonempty => absurd rfl nonempty⟩, fun nonempty => absurd rfl nonempty⟩
    · refine ⟨⟨?_, ?_, fun _ c => head?_dropWhile_isDigit⟩, fun _ => rfl⟩
      · simp [List.takeWhile_append_dropWhile]
      · exact Bool.and_eq_true_iff.2 ⟨rfl, all_continues List.all_takeWhile⟩
  · exact ⟨⟨rfl, rfl, fun nonempty => absurd rfl nonempty⟩, fun nonempty => absurd rfl nonempty⟩

theorem signPart_isPart (text : List Char) :
    text = (signPart text).1 ++ (signPart text).2 ∧
      (signPart text).1.all continuesNumberChar = true := by
  unfold signPart
  split <;> exact ⟨rfl, rfl⟩

theorem exponentPart_isPart (text : List Char) :
    IsPart text (exponentPart text).1 (exponentPart text).2 ∧
      ((exponentPart text).1 ≠ [] → isFloatBefore text = true) := by
  cases text with
  | nil => exact ⟨⟨rfl, rfl, fun nonempty => absurd rfl nonempty⟩, fun nonempty => absurd rfl nonempty⟩
  | cons c rest =>
    obtain ⟨split, signContinues⟩ := signPart_isPart rest
    simp only [exponentPart]
    split
    · next isExponent =>
      have letter : (c == '.' || c == 'e' || c == 'E') = true ∧ continuesNumberChar c = true := by
        rcases isExponent.1 with rfl | rfl <;> decide
      refine ⟨⟨?_, ?_, fun _ d => head?_dropWhile_isDigit⟩, fun _ => letter.1⟩
      · simp [List.takeWhile_append_dropWhile, ← split]
      · simp only [List.cons_append, List.all_cons, List.all_append, Bool.and_eq_true]
        exact ⟨letter.2, signContinues, all_continues List.all_takeWhile⟩
    · exact ⟨⟨rfl, rfl, fun nonempty => absurd rfl nonempty⟩,
        fun nonempty => absurd rfl nonempty⟩

/-- What is cut off where a number starts: `front` goes up to the first character that is no digit,
and `tail` is what follows it. -/
inductive CutsNumber (front tail : List Char) : Token × List Char → Prop
  | int (digits : ∃ c ∈ front, Numeric.isDigit c = true) (ended : EndsNumber tail) :
      CutsNumber front tail (.int (String.ofList front), tail)
  | float {text : String} {after : List Char} (isFloat : isFloatBefore tail = true)
      (continued : tail.dropWhile continuesNumberChar = after.dropWhile continuesNumberChar)
      (ended : EndsNumber after) : CutsNumber front tail (.float text, after)
  | failed {token : Token} (improper : Rule.isProper token = false) :
      CutsNumber front tail (token, [])

theorem unsigned_cuts (sign text : List Char) :
    CutsNumber (sign ++ text.takeWhile Numeric.isDigit) (text.dropWhile Numeric.isDigit)
      (unsigned sign text) := by
  obtain ⟨fraction, fractionFloat⟩ := fractionPart_isPart (text.dropWhile Numeric.isDigit)
  obtain ⟨exponent, exponentFloat⟩ :=
    exponentPart_isPart (fractionPart (text.dropWhile Numeric.isDigit)).2
  generalize parts : fractionPart (text.dropWhile Numeric.isDigit) = fractionParts at *
  generalize lastParts : exponentPart fractionParts.2 = exponentParts at *
  simp only [unsigned, parts, lastParts]
  split_ifs with notWhole breaks glues isInt
  · exact .failed rfl
  · exact .failed rfl
  · exact .failed rfl
  · have same : exponentParts.2 = text.dropWhile Numeric.isDigit := by
      rw [fraction.split, isInt.1, List.nil_append, exponent.split, isInt.2, List.nil_append]
    rw [same] at glues ⊢
    refine .int ?_ (endsNumber_of_glues (by simpa using glues) fun c => head?_dropWhile_isDigit)
    cases whole : text.takeWhile Numeric.isDigit with
    | nil => simp [whole, isWhole] at notWhole
    | cons c digits =>
      exact ⟨c, by simp, List.mem_takeWhile_imp (whole ▸ List.mem_cons_self)⟩
  · refine .float ?_ ?_ (endsNumber_of_glues (by simpa using glues) ?_)
    · by_cases noFraction : fractionParts.1 = []
      · have tail : text.dropWhile Numeric.isDigit = fractionParts.2 := by
          rw [fraction.split, noFraction, List.nil_append]
        rw [tail]
        exact exponentFloat fun noExponent => isInt ⟨noFraction, noExponent⟩
      · exact fractionFloat noFraction
    · rw [fraction.split, exponent.split,
        List.dropWhile_append_of_pos (List.all_eq_true.1 fraction.continues),
        List.dropWhile_append_of_pos (List.all_eq_true.1 exponent.continues)]
    · by_cases noExponent : exponentParts.1 = []
      · have tail : exponentParts.2 = fractionParts.2 := by
          rw [exponent.split, noExponent, List.nil_append]
        rw [tail]
        exact fraction.ended fun noFraction => isInt ⟨noFraction, noExponent⟩
      · exact exponent.ended noExponent

/-- The sign of a number is its first character, or the first digit is. -/
theorem number_cuts {c : Char} (starts : (c == '-' || Numeric.isDigit c) = true) (rest : List Char) :
    CutsNumber (c :: rest.takeWhile Numeric.isDigit) (rest.dropWhile Numeric.isDigit)
      (number c rest) := by
  unfold number
  split
  · next sign =>
    obtain rfl := beq_iff_eq.1 sign
    exact unsigned_cuts ['-'] rest
  · next noSign =>
    have digit : Numeric.isDigit c = true := by simpa [noSign] using starts
    have cuts := unsigned_cuts [] (c :: rest)
    rwa [List.takeWhile_cons_of_pos digit, List.dropWhile_cons_of_pos digit,
      List.nil_append] at cuts

/-! ## Strings -/

theorem afterQuoted_escape (c : Char) (rest : List Char) :
    afterQuoted ('\\' :: c :: rest) = afterQuoted rest := by
  conv_lhs => unfold afterQuoted
  rfl

/-- The search leaves a quoted string where the string ends. -/
theorem afterQuoted_of_quotedBody {text raw rest : List Char}
    (found : quotedBody text = some (raw, rest)) : afterQuoted text = rest := by
  fun_induction quotedBody text generalizing raw rest with
  | case1 => cases found
  | case2 rest =>
    cases found
    unfold afterQuoted
    exact if_pos (.inl rfl)
  | case3 a b c d rest hex ih =>
    obtain ⟨⟨inner, _⟩, foundRest, same⟩ := Option.map_eq_some_iff.1 found
    cases same
    simp only [Bool.and_eq_true] at hex
    obtain ⟨⟨⟨isA, isB⟩, isC⟩, isD⟩ := hex
    have skips : ∀ {c}, isHexDigit c = true → ∀ more, afterQuoted (c :: more) = afterQuoted more := by
      intro c hex more
      obtain ⟨noQuote, noLineFeed, noBackslash⟩ := isHexDigit_plain hex
      exact afterQuoted_plain noQuote noLineFeed noBackslash more
    rw [afterQuoted_escape, skips isA, skips isB, skips isC, skips isD, ih foundRest]
  | case5 c rest _ escape ih =>
    obtain ⟨⟨inner, _⟩, foundRest, same⟩ := Option.map_eq_some_iff.1 found
    cases same
    rw [afterQuoted_escape, ih foundRest]
  | case7 c rest noQuote _ _ line ih =>
    obtain ⟨⟨inner, _⟩, foundRest, same⟩ := Option.map_eq_some_iff.1 found
    cases same
    simp only [Bool.and_eq_true, bne_iff_ne] at line
    have noLineFeed : c ≠ '\n' := by
      rintro rfl
      exact absurd line.1 (by decide)
    rw [afterQuoted_plain noQuote noLineFeed line.2, ih foundRest]
  | case4 | case6 | case8 => cases found

/-- The search leaves a block string where the string ends. -/
theorem afterBlock_of_blockBody {text raw rest : List Char}
    (found : blockBody text = .ok (raw, rest)) : afterBlock text = rest := by
  fun_induction blockBody text generalizing raw rest with
  | case1 => cases found
  | case2 rest =>
    cases found
    rw [afterBlock]
  | case3 rest ih =>
    obtain ⟨⟨inner, _⟩, foundRest, same⟩ := Outcome.map_eq_ok.1 found
    cases same
    rw [afterBlock, ih foundRest]
  | case4 c rest noQuotes noEscape line ih =>
    obtain ⟨⟨inner, _⟩, foundRest, same⟩ := Outcome.map_eq_ok.1 found
    cases same
    rw [afterBlock, ih foundRest]
    · exact noQuotes
    · exact noEscape
  | case5 => cases found

/-- A string is no number, and the search leaves it where it ends. -/
inductive CutsString (after : List Char) : Token × List Char → Prop
  | quoted {raw : List Char} : CutsString after (.quoted raw, after)
  | block {raw : List Char} : CutsString after (.block raw, after)
  | failed {token : Token} (improper : Rule.isProper token = false) : CutsString after (token, [])

theorem isProper_of_blockBody {text : List Char} {token : Token}
    (failed : blockBody text = .error token) : Rule.isProper token = false := by
  fun_induction blockBody text with
  | case1 =>
    cases failed
    rfl
  | case2 => cases failed
  | case3 rest ih | case4 c rest _ _ _ ih => exact ih (Outcome.map_eq_error.1 failed)
  | case5 =>
    cases failed
    rfl

theorem string_cuts (text : List Char) : CutsString (afterString text) (string text) := by
  unfold string
  split
  · next contents =>
    rw [afterString]
    split
    · next found =>
      rw [afterBlock_of_blockBody found]
      exact .block
    · next failed => exact .failed (isProper_of_blockBody failed)
  · next noBlock =>
    rw [afterString]
    · split
      · next found =>
        rw [afterQuoted_of_quotedBody found]
        exact .quoted
      · exact .failed rfl
    · exact noBlock

/-! ## The search and the tokens -/

/-- An integer that the search reports: large, and not directly behind a number. -/
def Integer.isFound (n : Integer) : Bool :=
  !n.behindNumber && n.isLarge

/-- What the search goes on with. Behind a number it passes over all that could go on with one. -/
def resume (behindNumber : Bool) (text : List Char) : List Char :=
  if behindNumber then text.dropWhile continuesNumberChar else text

/-- The search finds the first integer that it should find, at least if there is one or the text is
cut into tokens to its end. -/
def Finds (behindNumber : Bool) (text : List Char) : Prop :=
  Lexes text ∨ (∃ n ∈ integersAfter behindNumber (pieces text), n.isFound = true) →
    overflow? (resume behindNumber text) =
      ((integersAfter behindNumber (pieces text)).find? Integer.isFound).map (·.literal.toList)

section

variable {behindNumber : Bool} {c : Char} {rest : List Char}

theorem continues_break (isBreak : isBreak c = true) : continuesNumberChar c = false := by
  have table : breaks.all fun c => continuesNumberChar c = false := by decide
  exact of_decide_eq_true (of_all_breaks table isBreak)

theorem resume_cons (stops : continuesNumberChar c = false) :
    resume behindNumber (c :: rest) = c :: rest := by
  unfold resume
  split
  · exact List.dropWhile_cons_of_neg (by simp [stops])
  · rfl

theorem pieces_token (kept : isIgnored c = false) (noComment : c ≠ '#') :
    pieces (c :: rest) = .token (next c rest).1 :: pieces (next c rest).2 := by
  rw [pieces, if_neg (by simp [kept]), if_neg (by simpa using noComment)]

theorem lexes_cons (kept : isIgnored c = false) (noComment : c ≠ '#') :
    Lexes (c :: rest) ↔ Rule.isProper (next c rest).1 = true ∧ Lexes (next c rest).2 := by
  rw [Lexes, lex, if_neg (by simp [kept]), if_neg (by simpa using noComment),
    List.forall_mem_cons]
  rfl

/-- Where no token starts, nothing has to be found. -/
theorem finds_failed {token : Token} (kept : isIgnored c = false) (noComment : c ≠ '#')
    (failed : next c rest = (token, [])) (improper : Rule.isProper token = false) :
    Finds behindNumber (c :: rest) := by
  intro known
  rw [lexes_cons kept noComment, pieces_token kept noComment, failed, improper, pieces] at known
  cases token with
  | invalid | unfinished | crash => simp [integersAfter] at known
  | punctuator | name | int | float | quoted | block => cases improper

/-- A piece that is no number is passed over by itself. -/
theorem finds_piece {piece : Piece} {after : List Char}
    (cut : pieces (c :: rest) = piece :: pieces after)
    (noInt : ∀ literal, piece ≠ .token (.int literal))
    (noFloat : ∀ text, piece ≠ .token (.float text))
    (passed : overflow? (resume behindNumber (c :: rest)) = overflow? after)
    (later : Finds false after) : Finds behindNumber (c :: rest) := by
  have same : integersAfter behindNumber (piece :: pieces after) =
      integersAfter false (pieces after) := by
    rw [integersAfter]
    · exact noInt
    · exact noFloat
  have lexes : Lexes (c :: rest) → Lexes after := fun lexes token member =>
    lexes token (mem_lex.2 (by simp [cut, mem_lex.1 member]))
  intro known
  rw [cut, same] at known
  rw [cut, same, passed]
  exact later (known.imp_left lexes)

theorem lineFeed_of_endsLine (ends : endsLine ('\r' :: rest) = true) :
    ∃ more, rest = '\n' :: more := by
  unfold endsLine at ends
  split at ends
  · next same => cases same
  · next same => cases same
  · next more same =>
    cases same
    exact ⟨more, rfl⟩
  · cases ends

/-- A comment that ends a line ends for the search where it ends for the tokens. -/
theorem overflow?_comment (closed : endsLine (rest.dropWhile fun c => !isLineEnd c) = true) :
    overflow? (rest.dropWhile (· != '\n')) =
      overflow? (rest.dropWhile fun c => !isLineEnd c) := by
  induction rest with
  | nil => rfl
  | cons c rest ih =>
    by_cases lineFeed : c = '\n'
    · subst lineFeed
      rfl
    · have passed : (c :: rest).dropWhile (· != '\n') = rest.dropWhile (· != '\n') :=
        List.dropWhile_cons_of_pos (by simpa using lineFeed)
      by_cases carriageReturn : c = '\r'
      · subst carriageReturn
        rw [passed]
        -- A line feed comes next, and the carriage return is passed over before it.
        obtain ⟨more, rfl⟩ := lineFeed_of_endsLine closed
        exact (lex_break (c := '\r') rfl ('\n' :: more)).2.symm
      · have goesOn : (c :: rest).dropWhile (fun c => !isLineEnd c) =
            rest.dropWhile fun c => !isLineEnd c :=
          List.dropWhile_cons_of_pos (by simp [isLineEnd, lineFeed, carriageReturn])
        rw [passed, goesOn]
        exact ih (goesOn ▸ closed)

/-- What the search does with a number. Directly behind another one it passes over it. -/
theorem overflow?_resume_number (starts : (c == '-' || Numeric.isDigit c) = true) :
    overflow? (resume behindNumber (c :: rest)) =
      if !behindNumber && (!isFloatBefore (rest.dropWhile Numeric.isDigit) &&
          c :: rest.takeWhile Numeric.isDigit != ['-'] &&
          (Numeric.int64? (c :: rest.takeWhile Numeric.isDigit)).isNone) then
        some (c :: rest.takeWhile Numeric.isDigit)
      else overflow? (resume true (rest.dropWhile Numeric.isDigit)) := by
  obtain ⟨-, noComment, noQuote, -, noName⟩ := numberStart_cases starts
  cases behindNumber with
  | false =>
    have noLetter : ¬(isLetter c || c == '_') = true := ne_true_of_eq_false noName
    show overflow? (c :: rest) = _
    rw [overflow?, if_neg noComment, if_neg noQuote, if_neg noLetter, if_pos starts]
    rfl
  | true =>
    have continues : continuesNumberChar c = true := by
      rcases Bool.or_eq_true_iff.1 starts with sign | digit
      · simp [continuesNumberChar, sign]
      · simp [continuesNumberChar, digit]
    have split := List.takeWhile_append_dropWhile (p := Numeric.isDigit) (l := rest)
    show overflow? ((c :: rest).dropWhile continuesNumberChar) =
      overflow? ((rest.dropWhile Numeric.isDigit).dropWhile continuesNumberChar)
    rw [List.dropWhile_cons_of_pos continues]
    nth_rewrite 1 [← split]
    rw [List.dropWhile_append_of_pos
      (List.all_eq_true.1 (all_continues (List.all_takeWhile (p := Numeric.isDigit))))]

theorem isFloatBefore_of_endsNumber (ended : EndsNumber rest) : isFloatBefore rest = false := by
  cases rest with
  | nil => rfl
  | cons c rest =>
    have plain := ended c rfl
    simp only [Bool.or_eq_false_iff, beq_eq_false_iff_ne] at plain
    have differs : ∀ d, isNameStart d = true → c ≠ d := by
      rintro d isName rfl
      rw [isName] at plain
      exact absurd plain.1.1 (by decide)
    simp [isFloatBefore, plain.2, differs 'e' (by decide), differs 'E' (by decide)]

/-- A number is reported if it is a large integer that the search looks at. Else the search goes on
behind it. -/
theorem finds_number (starts : (c == '-' || Numeric.isDigit c) = true)
    (later : EndsNumber (number c rest).2 → Finds true (number c rest).2) :
    Finds behindNumber (c :: rest) := by
  obtain ⟨kept, noComment, -, noPunctuator, noName⟩ := numberStart_cases starts
  have read : next c rest = number c rest := by
    rw [next, if_neg (by simp [noPunctuator]), if_neg (by simp [noName]), if_pos starts]
  have searched := @overflow?_resume_number behindNumber c rest starts
  have cuts := number_cuts starts rest
  generalize number c rest = cut at *
  cases cuts with
  | failed improper => exact finds_failed kept noComment read improper
  | @float text after isFloat continued ended =>
    intro known
    rw [lexes_cons kept noComment, pieces_token kept noComment, read] at known
    have passed : overflow? (resume behindNumber (c :: rest)) = overflow? (resume true after) := by
      rw [searched, isFloat, Bool.not_true, Bool.false_and, Bool.false_and, Bool.and_false,
        if_neg (by decide), resume, if_pos rfl, continued]
      rfl
    rw [pieces_token kept noComment, read, passed]
    exact later ended (known.imp_left And.right)
  | int digits ended =>
    intro known
    rw [lexes_cons kept noComment, pieces_token kept noComment, read] at known
    have signAlone : c :: rest.takeWhile Numeric.isDigit != ['-'] := by
      obtain ⟨d, member, digit⟩ := digits
      refine bne_iff_ne.2 fun same => ?_
      rw [same, List.mem_singleton] at member
      subst member
      exact absurd digit (by decide)
    rw [pieces_token kept noComment, read, searched, isFloatBefore_of_endsNumber ended, signAlone,
      integersAfter, List.find?_cons]
    rw [integersAfter, List.exists_mem_cons_iff] at known
    simp only [Integer.isFound, Integer.isLarge, String.toList_ofList] at known ⊢
    cases found : !behindNumber && (Numeric.int64? (c :: rest.takeWhile Numeric.isDigit)).isNone with
    | true => simp [found]
    | false =>
      simp only [found] at known
      simp only [Bool.not_false, Bool.true_and, found]
      exact later ended (known.imp And.right fun either => either.resolve_left (by decide))

/-- The search keeps in step with the tokens. -/
theorem finds {text : List Char} (behindNumber : Bool) (closed : CommentsClosed text)
    (ended : behindNumber = true → EndsNumber text) : Finds behindNumber text := by
  fun_induction pieces text generalizing behindNumber with
  | case1 =>
    intro _
    rw [pieces]
    cases behindNumber <;> (show overflow? [] = _; rw [overflow?]; rfl)
  | case2 c rest ignored ih =>
    have isBreak : isBreak c = true := by simp [Document.isBreak, ignored]
    have cut : pieces (c :: rest) = .blank :: pieces rest := by rw [pieces, if_pos ignored]
    rw [CommentsClosed, cut] at closed
    refine finds_piece cut (by simp) (by simp) ?_ (ih false closed (by simp))
    rw [resume_cons (continues_break isBreak)]
    exact (lex_break isBreak rest).2
  | case3 c rest kept comment ih =>
    obtain rfl := beq_iff_eq.1 comment
    have cut : pieces ('#' :: rest) = .comment (rest.dropWhile fun c => !isLineEnd c) ::
        pieces (rest.dropWhile fun c => !isLineEnd c) := by
      rw [pieces, if_neg kept, if_pos comment]
    rw [CommentsClosed, cut, List.all_cons, Bool.and_eq_true] at closed
    refine finds_piece cut (by simp) (by simp) ?_ (ih false closed.2 (by simp))
    rw [resume_cons rfl, overflow?, if_pos rfl]
    exact overflow?_comment closed.1
  | case4 c rest kept noComment ih =>
    have isKept : isIgnored c = false := by simpa using kept
    have noHash : c ≠ '#' := by simpa using noComment
    have cut := @pieces_token c rest isKept noHash
    rw [CommentsClosed, cut] at closed
    have later : ∀ b, (b = true → EndsNumber (next c rest).2) → Finds b (next c rest).2 :=
      fun b => ih b closed
    have read := next.eq_1 c rest
    -- One case for each kind of token, as the tokens are told apart.
    split_ifs at read with punctuator name number quote
    · have isBreak : isBreak c = true := by simp [Document.isBreak, punctuator]
      rw [read] at cut later
      refine finds_piece cut (by simp) (by simp) ?_ (later false (by simp))
      rw [resume_cons (continues_break isBreak)]
      exact (lex_break isBreak rest).2
    · rw [read] at cut later
      refine finds_piece cut (by simp) (by simp) ?_ (later false (by simp))
      have exposed : behindNumber = false := by
        by_contra behind
        have plain := ended (by simpa using behind) c rfl
        rw [name] at plain
        exact absurd plain (by simp)
      obtain ⟨-, -, noQuote, -, letter⟩ := isNameStart_cases name
      rw [exposed, resume, if_neg (by decide), overflow?, if_neg noHash, if_neg noQuote,
        if_pos letter, isNameChar_eq]
    · rw [read] at later
      exact finds_number number fun ended => later true fun _ => ended
    · obtain rfl := beq_iff_eq.1 quote
      have cuts := string_cuts rest
      have passed : overflow? (resume behindNumber ('"' :: rest)) = overflow? (afterString rest) := by
        rw [resume_cons rfl, overflow?, if_neg (by decide), if_pos rfl]
      rw [read] at cut later
      generalize string rest = strung at *
      cases cuts with
      | quoted => exact finds_piece cut (by simp) (by simp) passed (later false (by simp))
      | block => exact finds_piece cut (by simp) (by simp) passed (later false (by simp))
      | failed improper => exact finds_failed isKept noHash read improper
    · exact finds_failed isKept noHash read rfl

end

/-- The search finds the first large integer that does not stand directly behind a number, at least
if there is one or the text is cut into tokens to its end. -/
theorem overflow?_eq_find? {text : List Char} (closed : CommentsClosed text)
    (known : Lexes text ∨ ∃ n ∈ integers text, n.isFound = true) :
    overflow? text = ((integers text).find? Integer.isFound).map (·.literal.toList) :=
  finds false closed (by simp) known

theorem scan_eq_of_closed {source : String} (closed : CommentsClosed source.toList)
    (known : Lexes source.toList ∨ ∃ n ∈ integers source.toList, n.isFound = true) :
    scan source = match (integers source.toList).find? Integer.isFound with
      | some n => .error (.outOfRange n.literal)
      | none => .ok () := by
  rw [scan_eq, overflow?_eq_find? closed known]
  cases (integers source.toList).find? Integer.isFound with
  | none => rfl
  | some n => simp [outcome]

theorem parse_of_outOfRange {source literal : String}
    (refused : scan source = .error (.outOfRange literal)) :
    parse source = .error (.error (.integerRange literal)) := by
  rw [parse, refused]

/-- A large integer that does not stand directly behind a number is found: the first of them is
reported. If the grammar crashes on an integer, all large ones stand directly behind a number. -/
theorem scan_of_exposed {source : String} (closed : CommentsClosed source.toList) :
    (∀ n ∈ integers source.toList, n.isLarge = true → n.behindNumber = false →
      ∃ first, (integers source.toList).find? Integer.isFound = some first ∧
        scan source = .error (.outOfRange first.literal) ∧
        parse source = .error (.error (.integerRange first.literal))) ∧
    (parse source = .error (.crash .integerToken) →
      ∃ literal, .int literal ∈ lex source.toList ∧ Numeric.int64? literal.toList = none ∧
        ∀ n ∈ integers source.toList, n.isLarge = true → n.behindNumber = true) := by
  have finds : ∀ n ∈ integers source.toList, n.isLarge = true → n.behindNumber = false →
      ∃ first, (integers source.toList).find? Integer.isFound = some first ∧
        scan source = .error (.outOfRange first.literal) := by
    intro n member large exposed
    have found : ∃ n ∈ integers source.toList, n.isFound = true :=
      ⟨n, member, by simp [Integer.isFound, large, exposed]⟩
    obtain ⟨first, isFirst⟩ := Option.isSome_iff_exists.1 (List.find?_isSome.2 found)
    refine ⟨first, isFirst, ?_⟩
    rw [scan_eq_of_closed closed (.inr found), isFirst]
  constructor
  · intro n member large exposed
    obtain ⟨first, isFirst, refused⟩ := finds n member large exposed
    exact ⟨first, isFirst, refused, parse_of_outOfRange refused⟩
  · intro crashed
    obtain ⟨passed, token, member, literal, rfl, large⟩ := parse_integerToken crashed
    refine ⟨literal, member, large, fun n inText isLarge => ?_⟩
    by_contra exposed
    obtain ⟨first, -, refused⟩ := finds n inText isLarge (by simpa using exposed)
    rw [passed] at refused
    cases refused

/-- A text with two large integers, the first of them directly behind a number. -/
def hiddenAndExposed : String :=
  "type Query \x7b a(b: [Int] = [1-99999999999999999999, 99999999999999999999]): Int \x7d # 1"

theorem scan_of_exposed_second :
    CommentsClosed hiddenAndExposed.toList ∧
      ⟨"99999999999999999999", false⟩ ∈ integers hiddenAndExposed.toList ∧
      parse hiddenAndExposed = .error (.error (.integerRange "99999999999999999999")) := by
  obtain ⟨closed, member⟩ : CommentsClosed hiddenAndExposed.toList ∧
      ⟨"99999999999999999999", false⟩ ∈ integers hiddenAndExposed.toList := by
    decide +kernel
  have isFirst : (integers hiddenAndExposed.toList).find? Integer.isFound =
      some ⟨"99999999999999999999", false⟩ := by decide +kernel
  obtain ⟨first, found, -, refused⟩ :=
    (scan_of_exposed closed).1 _ member (by decide +kernel) rfl
  rw [isFirst] at found
  cases found
  exact ⟨closed, member, refused⟩

/-- A text whose only large integer stands directly behind a number. -/
def hiddenInteger : String :=
  "type Query \x7b a(b: [Int] = [1-99999999999999999999]): Int \x7d"

/-- The search passes over such an integer, and the grammar crashes on it. -/
theorem parse_hidden_integer :
    CommentsClosed hiddenInteger.toList ∧ Lexes hiddenInteger.toList ∧
      .int "-99999999999999999999" ∈ lex hiddenInteger.toList ∧
      Numeric.int64? "-99999999999999999999".toList = none ∧
      scan hiddenInteger = .ok () ∧ parse hiddenInteger = .error (.crash .integerToken) := by
  have crashed : Outcome.error? (parse hiddenInteger) = some (.crash .integerToken) := by
    decide +kernel
  have passed := (parse_integerToken (Outcome.eq_error_of_error? crashed)).1
  refine ⟨?_, ?_, ?_, ?_, passed, Outcome.eq_error_of_error? crashed⟩ <;> decide +kernel

/-- Only large integers are reported: what the search names is one of the tokens, and the first
large integer that does not stand directly behind a number. -/
theorem scan_outOfRange {source : String} {stop : Stop} (closed : CommentsClosed source.toList)
    (lexes : Lexes source.toList) (refused : scan source = .error stop) :
    ∃ literal, stop = .outOfRange literal ∧ .int literal ∈ lex source.toList ∧
      Numeric.int64? literal.toList = none ∧
      (integers source.toList).find? Integer.isFound = some ⟨literal, false⟩ := by
  rw [scan_eq_of_closed closed (.inl lexes)] at refused
  split at refused
  · next n isFirst =>
    cases refused
    have found := List.find?_some isFirst
    simp only [Integer.isFound, Bool.and_eq_true, Bool.not_eq_true'] at found
    obtain ⟨literal, behindNumber⟩ := n
    obtain ⟨rfl, large⟩ := found
    refine ⟨literal, rfl, ?_, by simpa [Integer.isLarge] using large, isFirst⟩
    exact exists_mem_integers.1 ⟨_, List.mem_of_find?_eq_some isFirst, rfl⟩
  · cases refused

/-- A text whose large integer comes after others that are none: in a comment, in strings with
escapes, in a name and in a float. -/
def lookalikes : String :=
  "# 99999999999999999999\r\n" ++
  "\"\"\" 99999999999999999999 \\\"\"\" 99999999999999999999 \"\"\" type Query \x7b\n" ++
  "a99999999999999999999(b: String = \" \\\" 99999999999999999999 \\\\\"\n" ++
  "c: Float = 99999999999999999999.5, " ++
  "d: [Int] = [-99999999999999999998 1-99999999999999999999]): Int \x7d"

theorem scan_outOfRange_lookalikes :
    CommentsClosed lookalikes.toList ∧ Lexes lookalikes.toList ∧
      scan lookalikes = .error (.outOfRange "-99999999999999999998") ∧
      .int "-99999999999999999998" ∈ lex lookalikes.toList ∧
      Numeric.int64? "-99999999999999999998".toList = none := by
  obtain ⟨closed, lexes⟩ : CommentsClosed lookalikes.toList ∧ Lexes lookalikes.toList := by
    decide +kernel
  have refused : scan lookalikes = .error (.outOfRange "-99999999999999999998") :=
    Outcome.eq_error_of_error? (by decide +kernel)
  obtain ⟨literal, same, member, large, -⟩ := scan_outOfRange closed lexes refused
  cases same
  exact ⟨closed, lexes, refused, member, large⟩

end SdlCompiler.Document
