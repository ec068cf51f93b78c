import SdlCompiler.Document.Token
import SdlCompiler.Proofs.Document.Scanning
import SdlCompiler.Proofs.Numeric.Fixed
import SdlCompiler.Text.Quoted

/-!
# Texts that are read as given tokens

A text is read as a list of tokens if that is how it is cut before any text that cannot go on with
its last word, and if the search for large integers passes over it. Texts that start with a blank
or a punctuator can be put after such a text. A block string that holds a character that it may not
hold is read as a crash instead.
-/

namespace SdlCompiler.Document

open Token IntegerScan

/-! ## Breaks -/

/-- A character at which every word ends: one to ignore, or a punctuator. -/
def isBreak (c : Char) : Bool :=
  isIgnored c || isPunctuator c

/-- The characters at which every word ends. -/
def breaks : List Char :=
  [' ', '\t', '\r', '\n', '\x0C', ',', '\uFEFF',
    '&', '@', '}', ']', ')', ':', '$', '=', '!', '{', '[', '(', '|']

theorem mem_breaks {c : Char} (isBreak : isBreak c = true) : c ∈ breaks := by
  rcases Bool.or_eq_true_iff.1 isBreak with ignored | punctuator
  · simp only [isIgnored, Bool.or_eq_true, beq_iff_eq, or_assoc] at ignored
    rcases ignored with rfl | rfl | rfl | rfl | rfl | rfl | rfl <;> decide
  · exact List.mem_append_right [' ', '\t', '\r', '\n', '\x0C', ',', '\uFEFF']
      (List.contains_iff_mem.1 punctuator)

/-- What a look at each break shows. -/
theorem of_all_breaks {p : Char → Bool} (all : breaks.all p = true) {c : Char}
    (isBreak : isBreak c = true) : p c = true :=
  List.all_eq_true.1 all c (mem_breaks isBreak)

/-- Nothing that could go on with a word. -/
def Breaks (rest : List Char) : Prop :=
  ∀ c, rest.head? = some c → isBreak c = true

theorem Breaks.head?_false {rest : List Char} (ends : Breaks rest) (p : Char → Bool)
    (no : breaks.all (!p ·) = true) (c : Char) (first : rest.head? = some c) : p c = false :=
  Bool.not_eq_eq_eq_not.mp (of_all_breaks no (ends c first))

/-- A break is passed over, or is a token by itself. -/
theorem lex_break {c : Char} (isBreak : isBreak c = true) (rest : List Char) :
    lex (c :: rest) = (if isIgnored c then [] else [.punctuator c]) ++ lex rest ∧
      overflow? (c :: rest) = overflow? rest := by
  have plain : breaks.all fun c => c ≠ '#' ∧ c ≠ '"' ∧ ¬(isLetter c || c == '_') = true ∧
      ¬(c == '-' || Numeric.isDigit c) = true := by decide
  obtain ⟨noComment, noQuote, noName, noNumber⟩ := of_decide_eq_true (of_all_breaks plain isBreak)
  constructor
  · rw [lex]
    split
    · rfl
    · rename_i kept
      have punctuator : isPunctuator c = true := by
        simpa [Document.isBreak, kept] using isBreak
      rw [if_neg (by simpa using noComment), next, if_pos punctuator]
      rfl
  · rw [overflow?, if_neg noComment, if_neg noQuote, if_neg noName, if_neg noNumber]

/-! ## Texts -/

/-- Whether a token has only characters that it may have. -/
def isLegible : Token → Bool
  | .block raw => raw.all isBlockChar
  | _ => true

/-- The text before `rest` is cut into the tokens if they are legible, and leads to a crash if not.
It holds no large integer. -/
structure ReadsBefore (text rest : List Char) (tokens : List Token) : Prop where
  lexed : tokens.all isLegible = true → lex (text ++ rest) = tokens ++ lex rest
  crashed : tokens.all isLegible = false → .crash ∈ lex (text ++ rest)
  scanned : overflow? (text ++ rest) = overflow? rest

theorem ReadsBefore.append {text more rest : List Char} {tokens next : List Token}
    (first : ReadsBefore text (more ++ rest) tokens) (second : ReadsBefore more rest next) :
    ReadsBefore (text ++ more) rest (tokens ++ next) := by
  constructor
  · intro legible
    rw [List.all_append, Bool.and_eq_true] at legible
    rw [List.append_assoc, first.lexed legible.1, second.lexed legible.2, List.append_assoc]
  · intro illegible
    rw [List.append_assoc]
    cases here : tokens.all isLegible with
    | false => exact first.crashed here
    | true =>
      rw [List.all_append, here, Bool.true_and] at illegible
      rw [first.lexed here]
      exact List.mem_append_right _ (second.crashed illegible)
  · rw [List.append_assoc, first.scanned, second.scanned]

/-- Tokens that are legible whatever the text. -/
theorem readsBefore_of_legible {text rest : List Char} {tokens : List Token}
    (legible : tokens.all isLegible = true)
    (cut : lex (text ++ rest) = tokens ++ lex rest ∧ overflow? (text ++ rest) = overflow? rest) :
    ReadsBefore text rest tokens :=
  ⟨fun _ => cut.1, fun illegible => absurd (legible.symm.trans illegible) (by decide), cut.2⟩

/-- The text is cut into the tokens before anything that breaks off its last word. -/
def Reads (text : String) (tokens : List Token) : Prop :=
  ∀ rest, Breaks rest → ReadsBefore text.toList rest tokens

/-- The same of a text that breaks off the word before it. -/
structure Follows (text : String) (tokens : List Token) : Prop where
  reads : Reads text tokens
  breaks : ∀ rest, Breaks rest → Breaks (text.toList ++ rest)

/-- Breaks only, at least one. -/
structure Separates (text : String) (tokens : List Token) : Prop where
  nonempty : text.toList ≠ []
  breaks : text.toList.all isBreak = true
  tokens : tokens = (text.toList.filter fun c => !isIgnored c).map .punctuator

theorem Reads.then {text more : String} {tokens next : List Token} (first : Reads text tokens)
    (second : Follows more next) : Reads (text ++ more) (tokens ++ next) := by
  intro rest ends
  rw [String.toList_append]
  exact (first _ (second.breaks rest ends)).append (second.reads rest ends)

theorem Follows.then {text more : String} {tokens next : List Token}
    (first : Follows text tokens) (second : Follows more next) :
    Follows (text ++ more) (tokens ++ next) := by
  refine ⟨first.reads.then second, fun rest ends => ?_⟩
  rw [String.toList_append, List.append_assoc]
  exact first.breaks _ (second.breaks rest ends)

theorem Follows.empty : Follows "" [] :=
  ⟨fun _ _ => readsBefore_of_legible rfl ⟨rfl, rfl⟩, fun _ ends => ends⟩

theorem Separates.readsBefore {text : String} {tokens : List Token}
    (breaks : Separates text tokens) (rest : List Char) :
    ReadsBefore text.toList rest tokens := by
  obtain ⟨-, all, rfl⟩ := breaks
  apply readsBefore_of_legible
  · simp [isLegible]
  generalize text.toList = chars at all ⊢
  induction chars with
  | nil => exact ⟨rfl, rfl⟩
  | cons c chars ih =>
    rw [List.all_cons, Bool.and_eq_true] at all
    obtain ⟨lexed, scanned⟩ := lex_break all.1 (chars ++ rest)
    obtain ⟨lexedRest, scannedRest⟩ := ih all.2
    rw [List.cons_append, lexed, scanned, lexedRest, scannedRest]
    refine ⟨?_, rfl⟩
    cases ignored : isIgnored c <;> simp [ignored]

theorem Separates.before {text more : String} {tokens next : List Token}
    (breaks : Separates text tokens) (word : Reads more next) :
    Follows (text ++ more) (tokens ++ next) := by
  constructor
  · intro rest ends
    rw [String.toList_append]
    exact (breaks.readsBefore (more.toList ++ rest)).append (word rest ends)
  · intro rest _ c first
    obtain ⟨head, tail, chars⟩ := List.exists_cons_of_ne_nil breaks.nonempty
    have all := breaks.breaks
    rw [chars, List.all_cons, Bool.and_eq_true] at all
    rw [String.toList_append, chars] at first
    obtain rfl := Option.some.inj first
    exact all.1

theorem Reads.empty : Reads "" [] :=
  Follows.empty.reads

theorem Separates.follows {text : String} {tokens : List Token} (breaks : Separates text tokens) :
    Follows text tokens := by
  have before := breaks.before Reads.empty
  rwa [String.append_empty, List.append_nil] at before

/-! ## Names -/

/-- A text that is one name. -/
def IsName (text : String) : Prop :=
  ∃ c rest, text.toList = c :: rest ∧ isNameStart c = true ∧ rest.all Token.isNameChar = true

instance (text : String) : Decidable (IsName text) :=
  match chars : text.toList with
  | [] => isFalse (by simp [IsName, chars])
  | c :: rest =>
    decidable_of_iff (isNameStart c = true ∧ rest.all Token.isNameChar = true)
      (by simp [IsName, chars])

theorem takeWhile_break {p : Char → Bool} {word rest : List Char} (all : word.all p = true)
    (ends : Breaks rest) (no : breaks.all (!p ·) = true) :
    (word ++ rest).takeWhile p = word ∧ (word ++ rest).dropWhile p = rest := by
  rw [List.all_eq_true] at all
  rw [List.takeWhile_append_of_pos all, List.dropWhile_append_of_pos all]
  cases rest with
  | nil => simp
  | cons c rest =>
    have stop : ¬p c = true := by simp [ends.head?_false p no c rfl]
    rw [List.takeWhile_cons_of_neg stop, List.dropWhile_cons_of_neg stop, List.append_nil]
    exact ⟨rfl, rfl⟩

theorem isNameChar_eq : IntegerScan.isNameChar = Token.isNameChar := by
  funext c
  rw [IntegerScan.isNameChar, Token.isNameChar, isNameStart, isLetter, Bool.or_right_comm]

/-- What starts a name starts nothing else. -/
theorem isNameStart_cases {c : Char} (starts : isNameStart c = true) :
    isIgnored c = false ∧ c ≠ '#' ∧ c ≠ '"' ∧ isPunctuator c = false ∧
      (isLetter c || c == '_') = true := by
  have differs : ∀ d, isNameStart d = false → c ≠ d := by
    rintro d no rfl
    rw [starts] at no
    exact absurd no (by decide)
  have noBreak : isBreak c = false := by
    cases isBreak : isBreak c with
    | false => rfl
    | true =>
      have no : breaks.all fun d => isNameStart d = false := by decide
      exact absurd rfl (differs c (of_decide_eq_true (of_all_breaks no isBreak)))
  rw [isBreak, Bool.or_eq_false_iff] at noBreak
  exact ⟨noBreak.1, differs '#' (by decide), differs '"' (by decide), noBreak.2, starts⟩

theorem IsName.reads {text : String} (name : IsName text) : Reads text [.name text] := by
  obtain ⟨c, chars, split, starts, all⟩ := name
  obtain ⟨kept, noComment, noQuote, noPunctuator, letter⟩ := isNameStart_cases starts
  intro rest ends
  apply readsBefore_of_legible rfl
  obtain ⟨taken, dropped⟩ := takeWhile_break all ends (by decide)
  have whole : String.ofList (c :: chars) = text := by rw [← split, String.ofList_toList]
  rw [split, List.cons_append]
  constructor
  · rw [lex, if_neg (by simp [kept]), if_neg (by simpa using noComment), next,
      if_neg (by simp [noPunctuator]), if_pos starts, taken, dropped, whole]
    rfl
  · rw [overflow?, if_neg noComment, if_neg noQuote, if_pos letter, isNameChar_eq, dropped]

/-! ## Numbers -/

theorem isWhole_toDigits (n : Nat) : isWhole (Nat.toDigits 10 n) = true := by
  rcases Numeric.toDigits_head n with zero | ⟨c, rest, digits, nonzero⟩
  · rw [zero]
    rfl
  · rw [digits]
    unfold isWhole
    split <;> simp_all

/-- What follows a number that ends at a break is left as it is. -/
theorem number_parts {rest : List Char} (ends : Breaks rest) :
    fractionPart rest = ([], rest) ∧ exponentPart rest = ([], rest) ∧ breaksOff rest = false ∧
      gluesToNumber rest = false := by
  cases rest with
  | nil => exact ⟨rfl, rfl, rfl, rfl⟩
  | cons c rest =>
    have plain : breaks.all fun c =>
        c ≠ '.' ∧ ¬(c = 'e' ∨ c = 'E') ∧ isNameStart c = false := by decide
    obtain ⟨noPoint, noExponent, noName⟩ :=
      of_decide_eq_true (of_all_breaks plain (ends c rfl))
    refine ⟨?_, ?_, ?_, ?_⟩
    · unfold fractionPart
      split
      · rename_i same
        exact absurd (List.cons.inj same).1 noPoint
      · rfl
    · simp only [exponentPart]
      rw [if_neg fun both => noExponent both.1]
    · rw [not_or] at noExponent
      cases rest <;> simp [breaksOff, noExponent.1, noExponent.2]
    · simp [gluesToNumber, noPoint, noName]

/-- The digits of a number, up to the break that ends it. -/
theorem unsigned_int {sign whole rest : List Char} (isWhole : isWhole whole = true)
    (digits : whole.all Numeric.isDigit = true) (ends : Breaks rest) :
    unsigned sign (whole ++ rest) = (.int (String.ofList (sign ++ whole)), rest) := by
  obtain ⟨taken, dropped⟩ := takeWhile_break digits ends (by decide)
  obtain ⟨fraction, exponent, finished, free⟩ := number_parts ends
  simp [unsigned, taken, dropped, fraction, exponent, finished, free, isWhole]

theorem unsigned_float {sign whole fraction rest : List Char} (isWhole : isWhole whole = true)
    (digits : whole.all Numeric.isDigit = true) (nonempty : fraction ≠ [])
    (fractionDigits : fraction.all Numeric.isDigit = true) (ends : Breaks rest) :
    unsigned sign (whole ++ '.' :: (fraction ++ rest)) =
      (.float (String.ofList (sign ++ whole ++ '.' :: fraction)), rest) := by
  obtain ⟨taken, dropped⟩ := Numeric.takeWhile_digits ('.' :: (fraction ++ rest))
    (List.all_eq_true.1 digits) (by
      intro c first
      obtain rfl := Option.some.inj first
      decide)
  obtain ⟨takenFraction, droppedFraction⟩ := takeWhile_break fractionDigits ends (by decide)
  obtain ⟨-, exponent, finished, free⟩ := number_parts ends
  have parts : fractionPart ('.' :: (fraction ++ rest)) = ('.' :: fraction, rest) := by
    rw [fractionPart, takenFraction, if_neg nonempty, droppedFraction]
  simp [unsigned, taken, dropped, parts, exponent, finished, free, isWhole]

/-- What starts a number starts nothing else. -/
theorem numberStart_cases {c : Char} (starts : (c == '-' || Numeric.isDigit c) = true) :
    isIgnored c = false ∧ c ≠ '#' ∧ c ≠ '"' ∧ isPunctuator c = false ∧
      isNameStart c = false := by
  have table : ∀ n < 128, (Char.ofNat n == '-' || Numeric.isDigit (Char.ofNat n)) = true →
      isIgnored (Char.ofNat n) = false ∧ Char.ofNat n ≠ '#' ∧ Char.ofNat n ≠ '"' ∧
        isPunctuator (Char.ofNat n) = false ∧ isNameStart (Char.ofNat n) = false := by
    decide
  have entry := table c.toNat (low_of_number starts)
  rw [Char.ofNat_toNat] at entry
  exact entry starts

/-- The minus sign of a number below zero. -/
def signText (negative : Bool) : List Char :=
  if negative then ['-'] else []

/-- A number is read from its first character on, be it a sign or a digit. -/
theorem lex_number {digits : List Char} (negative : Bool) (nonempty : digits ≠ [])
    (all : digits.all Numeric.isDigit = true) (more : List Char) :
    lex (signText negative ++ digits ++ more) =
      (unsigned (signText negative) (digits ++ more)).1 ::
        lex (unsigned (signText negative) (digits ++ more)).2 := by
  have first : ∀ c rest, (c == '-' || Numeric.isDigit c) = true →
      lex (c :: rest) = (number c rest).1 :: lex (number c rest).2 := by
    intro c rest starts
    obtain ⟨kept, noComment, -, noPunctuator, noName⟩ := numberStart_cases starts
    rw [lex, if_neg (by simp [kept]), if_neg (by simpa using noComment), next,
      if_neg (by simp [noPunctuator]), if_neg (by simp [noName]), if_pos starts]
  cases negative with
  | true => exact first '-' (digits ++ more) rfl
  | false =>
    obtain ⟨c, rest, rfl⟩ := List.exists_cons_of_ne_nil nonempty
    rw [List.all_cons, Bool.and_eq_true] at all
    have noSign : ¬(c == '-') = true := by
      intro sign
      rw [beq_iff_eq.1 sign] at all
      exact absurd all.1 (by decide)
    have read := first c (rest ++ more) (by rw [all.1, Bool.or_true])
    rwa [number, if_neg noSign] at read

/-- The search takes the digits of a number together with its sign. -/
theorem overflow?_number {digits more : List Char} (negative : Bool) (nonempty : digits ≠ [])
    (all : digits.all Numeric.isDigit = true)
    (stop : ∀ c, more.head? = some c → Numeric.isDigit c = false)
    (passes : isFloatBefore more = true ∨
      (Numeric.int64? (signText negative ++ digits)).isNone = false) :
    overflow? (signText negative ++ digits ++ more) =
      overflow? (more.dropWhile continuesNumberChar) := by
  have first : ∀ c tail, (c == '-' || Numeric.isDigit c) = true → tail.all Numeric.isDigit = true →
      (isFloatBefore more = true ∨ (Numeric.int64? (c :: tail)).isNone = false) →
      overflow? (c :: (tail ++ more)) = overflow? (more.dropWhile continuesNumberChar) := by
    intro c tail starts tailDigits passes
    obtain ⟨-, noComment, noQuote, -, noName⟩ := numberStart_cases starts
    have noLetter : ¬(isLetter c || c == '_') = true := ne_true_of_eq_false noName
    obtain ⟨taken, dropped⟩ := Numeric.takeWhile_digits _ (List.all_eq_true.1 tailDigits) stop
    rw [overflow?, if_neg noComment, if_neg noQuote, if_neg noLetter, if_pos starts]
    dsimp only
    rw [taken, dropped, if_neg]
    rcases passes with float | small
    · simp [float]
    · simp [small]
  cases negative with
  | true => exact first '-' digits rfl all passes
  | false =>
    obtain ⟨c, rest, rfl⟩ := List.exists_cons_of_ne_nil nonempty
    rw [List.all_cons, Bool.and_eq_true] at all
    exact first c rest (by rw [all.1, Bool.or_true]) all.2 passes

theorem dropWhile_number {word rest : List Char} (all : word.all continuesNumberChar = true)
    (ends : Breaks rest) : (word ++ rest).dropWhile continuesNumberChar = rest :=
  (takeWhile_break all ends (by decide)).2

theorem reads_int (n : Int64) : Reads (toString n.toInt) [.int (toString n.toInt)] := by
  have text : (toString n.toInt).toList =
      signText (decide (n.toInt < 0)) ++ Nat.toDigits 10 n.toInt.natAbs := by
    rw [Numeric.toList_toString]
    by_cases negative : n.toInt < 0 <;> simp [signText, negative]
  have digits : (Nat.toDigits 10 n.toInt.natAbs).all Numeric.isDigit = true :=
    List.all_eq_true.2 fun c member => Numeric.isDigit_of_mem_toDigits member
  have fits := Numeric.int64?_toString n
  rw [text] at fits
  intro rest ends
  apply readsBefore_of_legible rfl
  constructor
  · rw [text, lex_number _ Nat.toDigits_ne_nil digits,
      unsigned_int (isWhole_toDigits _) digits ends, ← text, String.ofList_toList]
    rfl
  · rw [text, overflow?_number _ Nat.toDigits_ne_nil digits (ends.head?_false _ (by decide))
      (.inr (by rw [fits]; rfl))]
    have nothing : ([] : List Char).all continuesNumberChar = true := rfl
    exact congrArg overflow? (dropWhile_number nothing ends)

/-- Digits with a point between them are one number. -/
theorem reads_decimal (negative : Bool) {whole fraction : List Char} (first : whole ≠ [])
    (isWhole : isWhole whole = true) (digits : whole.all Numeric.isDigit = true)
    (nonempty : fraction ≠ []) (fractionDigits : fraction.all Numeric.isDigit = true) :
    Reads (String.ofList (signText negative ++ whole ++ '.' :: fraction))
      [.float (String.ofList (signText negative ++ whole ++ '.' :: fraction))] := by
  intro rest ends
  apply readsBefore_of_legible rfl
  rw [String.toList_ofList, List.append_assoc, List.cons_append]
  constructor
  · rw [lex_number _ first digits, unsigned_float isWhole digits nonempty fractionDigits ends]
    rfl
  · rw [overflow?_number _ first digits ?_ (.inl rfl)]
    · have continues : ('.' :: fraction).all continuesNumberChar = true := by
        rw [List.all_cons, Bool.and_eq_true, List.all_eq_true]
        refine ⟨rfl, fun c member => ?_⟩
        simp [continuesNumberChar, List.all_eq_true.1 fractionDigits c member]
      exact congrArg overflow? (dropWhile_number continues ends)
    · intro c first
      obtain rfl := Option.some.inj first
      decide

open Numeric in
theorem reads_fixed {x : Binary64} (finite : x.isFinite = true) :
    Reads (String.ofList x.fixed) [.float (String.ofList x.fixed)] := by
  obtain ⟨fraction, unsigned, length, fractionDigits, -⟩ := x.unsignedFixed_spec x.isNegative
  have digits : (Nat.toDigits 10 (x.millionths / 10 ^ 6)).all isDigit = true :=
    List.all_eq_true.2 fun c member => isDigit_of_mem_toDigits member
  have signed : ∀ digits : List Char,
      (if x.isNegative then '-' :: digits else digits) = signText x.isNegative ++ digits := by
    intro digits
    cases x.isNegative <;> rfl
  have text : x.fixed = signText x.isNegative ++
      Nat.toDigits 10 (x.millionths / 10 ^ 6) ++ '.' :: fraction := by
    rw [Binary64.fixed, if_neg (by simp [Binary64.isNaN_of_isFinite finite]), if_pos finite,
      unsigned, signed, List.append_assoc]
  have nonempty : fraction ≠ [] := by
    rintro rfl
    exact absurd length (by decide)
  rw [text]
  exact reads_decimal _ Nat.toDigits_ne_nil (isWhole_toDigits _) digits nonempty
    (List.all_eq_true.2 fractionDigits)

/-! ## Strings -/

/-- What an escape is in a text between quotes: a backslash and a character that may follow it,
a backslash and the digits of a character, or a character for itself. -/
inductive IsEscape : List Char → Char → Prop
  | short {c d : Char} (known : Text.Quoted.unescaped? d = some c) (notUnicode : d ≠ 'u') :
      IsEscape ['\\', d] c
  | unicode {c : Char} {a b d e : Char} (hex : [a, b, d, e].all isHexDigit = true)
      (value : Text.Quoted.codePoint? a b d e = some c) : IsEscape ['\\', 'u', a, b, d, e] c
  | plain {c : Char} (line : isLineChar c = true) (noQuote : c ≠ '"') (noBackslash : c ≠ '\\') :
      IsEscape [c] c

/-- Every control character has four digits that name it. -/
theorem isEscape_control {n : Nat} (small : n < 0xA0) :
    (Text.Quoted.hex4 n).all isHexDigit = true ∧
      ∃ a b c d, Text.Quoted.hex4 n = [a, b, c, d] ∧
        Text.Quoted.codePoint? a b c d = some (Char.ofNat n) := by
  have table : ∀ n < 0xA0, (Text.Quoted.hex4 n).all isHexDigit = true ∧
      Text.Quoted.codePoint? (Text.Quoted.hexDigit (n / 4096 % 16))
        (Text.Quoted.hexDigit (n / 256 % 16)) (Text.Quoted.hexDigit (n / 16 % 16))
        (Text.Quoted.hexDigit (n % 16)) = some (Char.ofNat n) := by
    decide +kernel
  exact ⟨(table n small).1, _, _, _, _, rfl, (table n small).2⟩

theorem isEscape_escape {c : Char} (basic : c.toNat ≤ 0xFFFF) :
    IsEscape (Text.Quoted.escape c) c := by
  unfold Text.Quoted.escape
  -- Five characters have an escape of their own, other control characters are named by number.
  split
  · exact .short rfl (by decide)
  · exact .short rfl (by decide)
  · exact .short rfl (by decide)
  · exact .short rfl (by decide)
  · exact .short rfl (by decide)
  · rename_i noQuote noBackslash _ _ _
    split
    · rename_i control
      have small : c.toNat < 0xA0 := by
        simp only [Text.Quoted.isControl, Bool.or_eq_true, Bool.and_eq_true,
          decide_eq_true_eq] at control
        omega
      obtain ⟨hex, a, b, d, e, digits, value⟩ := isEscape_control small
      rw [Char.ofNat_toNat] at value
      rw [digits] at hex ⊢
      exact .unicode hex value
    · rename_i free
      refine .plain ?_ noQuote noBackslash
      simp only [Text.Quoted.isControl, Bool.or_eq_true, Bool.and_eq_true, decide_eq_true_eq,
        not_or, not_and] at free
      simp only [isLineChar, Bool.or_eq_true, Bool.and_eq_true, decide_eq_true_eq]
      exact .inr ⟨by omega, basic⟩

/-- No escape starts with a quote. -/
theorem IsEscape.head {text : List Char} {c : Char} (isEscape : IsEscape text c) :
    ∃ first tail, text = first :: tail ∧ first ≠ '"' := by
  cases isEscape with
  | short known notUnicode => exact ⟨_, _, rfl, by decide⟩
  | unicode hex value => exact ⟨_, _, rfl, by decide⟩
  | plain line noQuote noBackslash => exact ⟨_, _, rfl, noQuote⟩

theorem isHexDigit_plain {c : Char} (hex : isHexDigit c = true) :
    c ≠ '"' ∧ c ≠ '\n' ∧ c ≠ '\\' := by
  refine ⟨?_, ?_, ?_⟩ <;>
  · rintro rfl
    exact absurd hex (by decide)

theorem afterQuoted_plain {c : Char} (noQuote : c ≠ '"') (noLineFeed : c ≠ '\n')
    (noBackslash : c ≠ '\\') (more : List Char) : afterQuoted (c :: more) = afterQuoted more := by
  conv_lhs => unfold afterQuoted
  rw [if_neg (by simp [noQuote, noLineFeed]), if_neg noBackslash]

theorem IsEscape.afterQuoted {text : List Char} {c : Char} (isEscape : IsEscape text c)
    (more : List Char) :
    IntegerScan.afterQuoted (text ++ more) = IntegerScan.afterQuoted more := by
  cases isEscape with
  | short known notUnicode => rfl
  | @unicode _ a b d e hex value =>
    simp only [List.all_cons, List.all_nil, Bool.and_true, Bool.and_eq_true] at hex
    have skips : ∀ c, isHexDigit c = true → ∀ more,
        IntegerScan.afterQuoted (c :: more) = IntegerScan.afterQuoted more := by
      intro c hex more
      obtain ⟨noQuote, noLineFeed, noBackslash⟩ := isHexDigit_plain hex
      exact afterQuoted_plain noQuote noLineFeed noBackslash more
    have covered : IntegerScan.afterQuoted ('\\' :: 'u' :: a :: b :: d :: e :: more) =
        IntegerScan.afterQuoted (a :: b :: d :: e :: more) := rfl
    exact covered.trans (by rw [skips a hex.1, skips b hex.2.1, skips d hex.2.2.1,
      skips e hex.2.2.2])
  | plain line noQuote noBackslash =>
    refine afterQuoted_plain noQuote ?_ noBackslash more
    rintro rfl
    exact absurd line (by decide)

theorem isEscape_of_unescaped {c d : Char} (known : Text.Quoted.unescaped? d = some c) :
    Token.isEscape d = true := by
  unfold Text.Quoted.unescaped? at known
  split at known <;> first | rfl | cases known

theorem IsEscape.quotedBody {text : List Char} {c : Char} (isEscape : IsEscape text c)
    (more : List Char) :
    Token.quotedBody (text ++ more) =
      (Token.quotedBody more).map fun (raw, rest) => (text ++ raw, rest) := by
  cases isEscape with
  | short known notUnicode =>
    -- The equation for a backslash and one character asks that it be no `u` with digits.
    rw [List.cons_append, List.cons_append, Token.quotedBody,
      if_pos (isEscape_of_unescaped known)]
    · rfl
    · intro a b c d rest same
      exact absurd same notUnicode
  | unicode hex value =>
    simp only [List.all_cons, List.all_nil, Bool.and_true, ← Bool.and_assoc] at hex
    simp only [List.cons_append, List.nil_append, Token.quotedBody, if_pos hex]
  | plain line noQuote noBackslash =>
    rw [List.cons_append, Token.quotedBody, if_pos (by simp [line, noBackslash])]
    · rfl
    · exact noQuote
    · intro a b c d rest same
      exact absurd same noBackslash
    · intro d rest same
      exact absurd same noBackslash

theorem IsEscape.decode {text : List Char} {c : Char} (isEscape : IsEscape text c)
    (more : List Char) :
    Text.Quoted.decode (text ++ more) = (Text.Quoted.decode more).map (c :: ·) := by
  cases isEscape with
  | short known notUnicode =>
    rw [List.cons_append, List.cons_append, List.nil_append, Text.Quoted.decode, known]
    · cases Text.Quoted.decode more <;> rfl
    · intro a b c d rest same
      exact absurd same notUnicode
  | unicode hex value =>
    simp only [List.cons_append, List.nil_append, Text.Quoted.decode, value]
    cases Text.Quoted.decode more <;> rfl
  | plain line noQuote noBackslash =>
    rw [List.cons_append, List.nil_append, Text.Quoted.decode]
    · cases Text.Quoted.decode more <;> rfl
    · intro a b c d rest same
      exact absurd same noBackslash
    · intro d rest same
      exact absurd same noBackslash
    · intro same
      exact absurd same noBackslash

/-- A text of characters up to U+FFFF, which is all that a string can hold. -/
def IsBasic (text : List Char) : Prop :=
  ∀ c ∈ text, c.toNat ≤ 0xFFFF

theorem hexValue?_lt {c : Char} {n : Nat} (value : Text.Quoted.hexValue? c = some n) :
    n < 16 := by
  unfold Text.Quoted.hexValue? at value
  split at value
  · next digit =>
    obtain rfl := Option.some.inj value
    have bound : c.toNat ≤ '9'.toNat := digit.2
    have last : '9'.toNat - '0'.toNat = 9 := rfl
    omega
  · split at value
    · next digit =>
      obtain rfl := Option.some.inj value
      have bound : c.toNat ≤ 'f'.toNat := digit.2
      have last : 'f'.toNat - 'a'.toNat = 5 := rfl
      omega
    · split at value
      · next digit =>
        obtain rfl := Option.some.inj value
        have bound : c.toNat ≤ 'F'.toNat := digit.2
        have last : 'F'.toNat - 'A'.toNat = 5 := rfl
        omega
      · cases value

/-- Four digits name no character beyond the basic ones. -/
theorem codePoint?_basic {a b c d e : Char} (value : Text.Quoted.codePoint? a b c d = some e) :
    e.toNat ≤ 0xFFFF := by
  simp only [Text.Quoted.codePoint?, Option.bind_eq_bind, Option.bind_eq_some_iff] at value
  obtain ⟨i, first, j, second, k, third, l, fourth, named⟩ := value
  split at named
  · cases named
  · obtain rfl := Option.some.inj named
    have firstDigit := hexValue?_lt first
    have secondDigit := hexValue?_lt second
    have thirdDigit := hexValue?_lt third
    have fourthDigit := hexValue?_lt fourth
    have kept : ∀ n, (Char.ofNat n).toNat ≤ n := by
      intro n
      by_cases valid : n.isValidChar
      · rw [Char.ofNat, dif_pos valid]
        exact Nat.le_refl n
      · rw [Char.ofNat, dif_neg valid]
        exact Nat.zero_le n
    exact Nat.le_trans (kept _) (by omega)

theorem unescaped?_basic {c d : Char} (known : Text.Quoted.unescaped? c = some d) :
    d.toNat ≤ 0xFFFF := by
  unfold Text.Quoted.unescaped? at known
  split at known <;> cases known <;> decide

theorem IsBasic.decode {raw text : List Char} (basic : IsBasic raw)
    (decoded : Text.Quoted.decode raw = some text) : IsBasic text := by
  fun_induction Text.Quoted.decode raw generalizing text with
  | case1 =>
    cases decoded
    exact basic
  | case2 a b c d rest ih =>
    simp only [Option.bind_eq_bind, Option.bind_eq_some_iff] at decoded
    obtain ⟨char, value, others, decodedRest, same⟩ := decoded
    cases same
    have rest := ih (fun c member => basic c (by simp [member])) decodedRest
    exact List.forall_mem_cons.2 ⟨codePoint?_basic value, rest⟩
  | case3 c rest _ ih =>
    simp only [Option.bind_eq_bind, Option.bind_eq_some_iff] at decoded
    obtain ⟨char, known, others, decodedRest, same⟩ := decoded
    cases same
    have rest := ih (fun c member => basic c (by simp [member])) decodedRest
    exact List.forall_mem_cons.2 ⟨unescaped?_basic known, rest⟩
  | case4 => cases decoded
  | case5 c rest _ _ _ ih =>
    simp only [Option.bind_eq_bind, Option.bind_eq_some_iff] at decoded
    obtain ⟨others, decodedRest, same⟩ := decoded
    cases same
    have rest := ih (fun c member => basic c (by simp [member])) decodedRest
    exact List.forall_mem_cons.2 ⟨basic c List.mem_cons_self, rest⟩

theorem IsBasic.escaped {text : List Char} (basic : IsBasic text) :
    Text.Quoted.decode (text.flatMap Text.Quoted.escape) = some text ∧
      ∀ rest, quotedBody (text.flatMap Text.Quoted.escape ++ '"' :: rest) =
          some (text.flatMap Text.Quoted.escape, rest) ∧
        afterQuoted (text.flatMap Text.Quoted.escape ++ '"' :: rest) = rest := by
  induction text with
  | nil =>
    refine ⟨rfl, fun rest => ⟨rfl, ?_⟩⟩
    show IntegerScan.afterQuoted ('"' :: rest) = rest
    unfold IntegerScan.afterQuoted
    rw [if_pos (.inl rfl)]
  | cons c text ih =>
    have isEscape := isEscape_escape (basic c List.mem_cons_self)
    obtain ⟨decoded, read⟩ := ih fun c member => basic c (List.mem_cons_of_mem _ member)
    rw [List.flatMap_cons, isEscape.decode, decoded]
    refine ⟨rfl, fun rest => ?_⟩
    rw [List.append_assoc, isEscape.quotedBody, isEscape.afterQuoted, (read rest).1, (read rest).2]
    exact ⟨rfl, rfl⟩

/-- A quoted string is not taken for a block string: what follows its quotes is no third one. -/
theorem IsBasic.string {text rest : List Char} (basic : IsBasic text) (ends : Breaks rest) :
    Token.string (text.flatMap Text.Quoted.escape ++ '"' :: rest) =
        (.quoted (text.flatMap Text.Quoted.escape), rest) ∧
      afterString (text.flatMap Text.Quoted.escape ++ '"' :: rest) = rest := by
  obtain ⟨body, after⟩ := basic.escaped.2 rest
  have single : ∀ more, text.flatMap Text.Quoted.escape ++ '"' :: rest ≠ '"' :: '"' :: more := by
    intro more same
    -- In an empty string the second quote closes, and a third one would have to follow it.
    cases text with
    | nil =>
      have third : rest.head? = some '"' := by
        rw [(List.cons.inj same).2]
        rfl
      exact absurd (ends _ third) (by decide)
    | cons c text =>
      obtain ⟨first, tail, escaped, noQuote⟩ :=
        (isEscape_escape (basic c List.mem_cons_self)).head
      rw [List.flatMap_cons, escaped] at same
      exact noQuote (List.cons.inj same).1
  constructor
  · rw [Token.string, body]
    exact single
  · rw [afterString, after]
    exact single

theorem lex_quote (rest : List Char) :
    lex ('"' :: rest) = (string rest).1 :: lex (string rest).2 := by
  rw [lex, if_neg (by decide), if_neg (by decide), next, if_neg (by decide), if_neg (by decide),
    if_neg (by decide), if_pos (by decide)]

theorem IsBasic.reads {text : List Char} (basic : IsBasic text) :
    Reads (String.ofList (Text.Quoted.encode text))
      [.quoted (text.flatMap Text.Quoted.escape)] := by
  intro rest ends
  apply readsBefore_of_legible rfl
  obtain ⟨read, after⟩ := basic.string ends
  rw [String.toList_ofList, Text.Quoted.encode, List.cons_append, List.append_assoc,
    List.singleton_append]
  constructor
  · rw [lex_quote, read]
    rfl
  · rw [overflow?, if_neg (by decide), if_pos rfl, after]

end SdlCompiler.Document
