/-!
# File patterns

A pattern is a path in which some characters stand for others. `?` stands for one character, `*`
for any number of them, and a set between brackets for one that is in it, or, after `!`, for one
that is not. `**` is a component of its own and stands for any number of directories.
-/

namespace SdlCompiler.Pattern

/-- One or more characters that a set holds. -/
inductive Member where
  | single (c : Char)
  | range (low high : Char)
deriving DecidableEq, Repr

inductive Token where
  | literal (c : Char)
  | any
  | sequence
  | within (members : List Member)
  | except (members : List Member)
  | recursive
deriving DecidableEq, Repr

/-- What is wrong with a pattern. -/
inductive Fault where
  | wildcards
  | recursive
  | range
deriving DecidableEq, Repr

structure PatternError where
  /-- The number of characters before the place of the fault. -/
  position : Nat
  fault : Fault
deriving DecidableEq, Repr

def Fault.text : Fault → String
  | wildcards => "wildcards are either regular `*` or recursive `**`"
  | recursive => "recursive wildcards must form a single path component"
  | range => "invalid range pattern"

def PatternError.message (e : PatternError) : String :=
  s!"Pattern syntax error near position {e.position}: " ++ e.fault.text

/-! ## Reading -/

/-- The members of a set. A dash between two characters makes a range of them. -/
def members : List Char → List Member
  | low :: '-' :: high :: rest => .range low high :: members rest
  | c :: rest => .single c :: members rest
  | [] => []

/-- The text up to the end of a set, and the text after it. -/
def closeSet? (text : List Char) : Option (List Char × List Char) :=
  match text.dropWhile (· ≠ ']') with
  | [] => none
  | _ :: after => some (text.takeWhile (· ≠ ']'), after)

theorem closeSet?_length_lt {text inside after : List Char}
    (closed : closeSet? text = some (inside, after)) : after.length < text.length := by
  unfold closeSet? at closed
  split at closed
  · simp at closed
  · rename_i rest found
    simp only [Option.some.injEq, Prod.mk.injEq] at closed
    obtain ⟨-, rfl⟩ := closed
    have shorter := (text.dropWhile_sublist (· ≠ ']')).length_le
    rw [found, List.length_cons] at shorter
    omega

/-- The set that begins after a bracket. Its first member may be a bracket that closes. -/
def set? (text : List Char) : Option (Token × List Char) :=
  match text with
  | '!' :: first :: rest =>
    (closeSet? rest).map fun (inside, after) => (.except (members (first :: inside)), after)
  | '!' :: [] => none
  | first :: rest =>
    (closeSet? rest).map fun (inside, after) => (.within (members (first :: inside)), after)
  | [] => none

theorem set?_length_lt {text after : List Char} {token : Token}
    (found : set? text = some (token, after)) : after.length < text.length := by
  unfold set? at found
  split at found
  · obtain ⟨⟨inside, rest⟩, closed, equal⟩ := Option.map_eq_some_iff.1 found
    cases equal
    have shorter := closeSet?_length_lt closed
    simp only [List.length_cons]
    omega
  · simp at found
  · obtain ⟨⟨inside, rest⟩, closed, equal⟩ := Option.map_eq_some_iff.1 found
    cases equal
    have shorter := closeSet?_length_lt closed
    simp only [List.length_cons]
    omega
  · simp at found

/-- The tokens of a pattern from a position on, where `previous` is the character before it. -/
def tokens (position : Nat) (previous : Option Char) (text : List Char) :
    Except PatternError (List Token) :=
  match text with
  | [] => .ok []
  | '?' :: rest => do return .any :: (← tokens (position + 1) (some '?') rest)
  | '*' :: '*' :: '*' :: _ => .error ⟨position + 2, .wildcards⟩
  | '*' :: '*' :: rest =>
    if previous = none ∨ previous = some '/' then
      match rest with
      | [] => .ok [.recursive]
      | '/' :: more => do return .recursive :: (← tokens (position + 3) (some '/') more)
      | _ :: _ => .error ⟨position + 2, .recursive⟩
    else .error ⟨position - 1, .recursive⟩
  | '*' :: rest => do return .sequence :: (← tokens (position + 1) (some '*') rest)
  | '[' :: rest =>
    match found : set? rest with
    | none => .error ⟨position, .range⟩
    | some (token, after) =>
      have := set?_length_lt found
      do return token :: (← tokens (position + 1 + (rest.length - after.length)) (some ']') after)
  | c :: rest => do return .literal c :: (← tokens (position + 1) (some c) rest)
termination_by text.length

/-- The tokens of a whole pattern. -/
def parse (text : List Char) : Except PatternError (List Token) :=
  tokens 0 none text

/-! ## Matching -/

def Member.holds (c : Char) : Member → Bool
  | .single c' => c == c'
  | .range low high => low ≤ c && c ≤ high

/-- A token stands for the one character. -/
def Token.accepts (c : Char) : Token → Bool
  | .literal c' => c == c'
  | .any => true
  | .within ms => ms.any (Member.holds c)
  | .except ms => !ms.any (Member.holds c)
  | .sequence | .recursive => false

/-- For each ending of a name, the longest first, whether something holds of it or of an ending of
it. -/
def someEnding : List Bool → List Bool
  | [] => []
  | holds :: shorter =>
    let rest := someEnding shorter
    (holds || rest.head?.any id) :: rest

/-- For each ending of a name, the longest first, whether a token and the tokens after it stand
for it, from the answers for the tokens after it. -/
def Token.endings (name : List Char) (token : Token) (after : List Bool) : List Bool :=
  match token with
  | .sequence | .recursive => someEnding after
  | _ => List.zipWith (fun c holds => token.accepts c && holds) name after.tail ++ [false]

/-- For each ending of a name, the longest first, whether the tokens stand for it. -/
def endings (name : List Char) (ts : List Token) : List Bool :=
  ts.foldr (Token.endings name) (name.map (fun _ => false) ++ [true])

/-- A name is one that the tokens stand for. -/
def matchesName (ts : List Token) (name : List Char) : Bool :=
  (endings name ts).head?.any id

/-- The text that tokens stand for, if it is a single one. -/
def literal? (ts : List Token) : Option (List Char) :=
  ts.mapM fun
    | .literal c => some c
    | _ => none

end SdlCompiler.Pattern
