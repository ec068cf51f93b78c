import SdlCompiler.Document.Grammar
import SdlCompiler.Proofs.Document.Lexing
import SdlCompiler.Proofs.Outcome

/-!
# What rules of the grammar do

`Yields` says what a rule can give at all, whatever tokens it meets; `Accepts` says that a rule
takes given tokens, and what it makes of them. Both are put together from those of the rules that
a rule is made of.
-/

namespace SdlCompiler.Document

/-- A token as they are cut from a text. -/
def Token.Lexed : Token → Prop
  | .name text => IsName text
  | .quoted raw | .block raw => IsBasic raw
  | _ => True

/-- Tokens as they are cut from a text, and no description so far that lacks a value for the sake
of an integer. -/
structure Cursor.Lexed (cursor : Cursor) : Prop where
  tokens : ∀ token ∈ cursor.tokens, token.Lexed
  defect : cursor.defect ≠ some .integerToken

/-- An integer that 64 bits do not hold. -/
def Token.IsLarge (token : Token) : Prop :=
  ∃ text, token = .int text ∧ Numeric.int64? text.toList = none

namespace Rule

variable {α β : Type} {P : α → Prop} {Q : β → Prop}

theorem bind_eq_ok {rule : Rule α} {next : α → Rule β} {cursor after : Cursor} {b : β}
    (ran : (rule >>= next) cursor = .ok (b, after)) :
    ∃ a middle, rule cursor = .ok (a, middle) ∧ next a middle = .ok (b, after) := by
  simp only [Bind.bind] at ran
  cases result : rule cursor with
  | error abort =>
    rw [result] at ran
    cases ran
  | ok pair =>
    rw [result] at ran
    exact ⟨pair.1, pair.2, rfl, ran⟩

theorem bind_eq_error {rule : Rule α} {next : α → Rule β} {cursor : Cursor}
    {abort : Abort SchemaError} (ran : (rule >>= next) cursor = .error abort) :
    rule cursor = .error abort ∨
      ∃ a middle, rule cursor = .ok (a, middle) ∧ next a middle = .error abort := by
  simp only [Bind.bind] at ran
  cases result : rule cursor with
  | error other =>
    rw [result] at ran
    cases ran
    exact .inl rfl
  | ok pair =>
    rw [result] at ran
    exact .inr ⟨pair.1, pair.2, rfl, ran⟩

/-! ## What a rule gives -/

/-- A token that a rule can take. -/
def isProper : Token → Bool
  | .invalid | .unfinished | .crash => false
  | _ => true

/-- Tokens at the front are taken, all of them proper, and others left. -/
def Takes (tokens rest : List Token) : Prop :=
  ∃ taken, tokens = taken ++ rest ∧ ∀ token ∈ taken, isProper token = true

theorem Takes.refl (tokens : List Token) : Takes tokens tokens :=
  ⟨[], rfl, fun _ member => absurd member List.not_mem_nil⟩

theorem Takes.trans {tokens middle rest : List Token} (first : Takes tokens middle)
    (second : Takes middle rest) : Takes tokens rest := by
  obtain ⟨taken, rfl, proper⟩ := first
  obtain ⟨more, rfl, properToo⟩ := second
  exact ⟨taken ++ more, (List.append_assoc _ _ _).symm, List.forall_mem_append.2 ⟨proper, properToo⟩⟩

theorem Takes.one {token : Token} (proper : isProper token = true) (rest : List Token) :
    Takes (token :: rest) rest :=
  ⟨[token], rfl, by simpa using proper⟩

theorem Takes.mem {tokens rest : List Token} (takes : Takes tokens rest) {token : Token}
    (member : token ∈ rest) : token ∈ tokens := by
  obtain ⟨taken, rfl, -⟩ := takes
  exact List.mem_append_right taken member

theorem Takes.lexed {cursor after : Cursor} (takes : Takes cursor.tokens after.tokens)
    (lexed : cursor.Lexed) (defect : after.defect ≠ some .integerToken) : after.Lexed :=
  ⟨fun token member => lexed.tokens token (takes.mem member), defect⟩

theorem Takes.length_le {tokens rest : List Token} (takes : Takes tokens rest) :
    rest.length ≤ tokens.length := by
  obtain ⟨taken, rfl, -⟩ := takes
  simp

/-- What a rule does, if all tokens are cut from a text: it gives only results with a property, and
takes only proper tokens. It fails at an integer that 64 bits do not hold only if such an integer
is `met` before or is one of the tokens, and it refuses a text only for not being well-formed. -/
structure YieldsHaving (met : Prop) (rule : Rule α) (P : α → Prop) : Prop where
  gives : ∀ {cursor : Cursor} {a : α} {after : Cursor}, cursor.Lexed →
    rule cursor = .ok (a, after) → P a ∧ Takes cursor.tokens after.tokens ∧ after.Lexed
  fails : ∀ {cursor : Cursor}, cursor.Lexed → rule cursor = .error (.crash .integerToken) →
    met ∨ ∃ token ∈ cursor.tokens, token.IsLarge
  refuses : ∀ {cursor : Cursor} {e : SchemaError}, cursor.Lexed →
    rule cursor = .error (.error e) → e = .malformed

/-- The same of a rule that starts afresh. -/
abbrev Yields (rule : Rule α) (P : α → Prop) : Prop :=
  YieldsHaving False rule P

theorem Yields.having {rule : Rule α} (yields : Yields rule P) (met : Prop) :
    YieldsHaving met rule P :=
  ⟨yields.gives, fun lexed ran => .inr ((yields.fails lexed ran).resolve_left id), yields.refuses⟩

theorem Yields.mono {P' : α → Prop} {rule : Rule α} (yields : Yields rule P)
    (implies : ∀ a, P a → P' a) : Yields rule P' where
  gives lexed ran := by
    obtain ⟨holds, takes⟩ := yields.gives lexed ran
    exact ⟨implies _ holds, takes⟩
  fails := yields.fails
  refuses := yields.refuses

/-- What may come of a rule at a cursor. -/
def ComesTo (met : Prop) (cursor : Cursor) (P : α → Prop) :
    Except (Abort SchemaError) (α × Cursor) → Prop
  | .ok (a, after) => P a ∧ Takes cursor.tokens after.tokens ∧ after.Lexed
  | .error (.crash defect) =>
    defect = .integerToken → met ∨ ∃ token ∈ cursor.tokens, token.IsLarge
  | .error (.error e) => e = .malformed

/-- The same comes of a rule after more tokens. -/
theorem ComesTo.after {met : Prop} {cursor later : Cursor}
    {outcome : Except (Abort SchemaError) (α × Cursor)}
    (taken : Takes cursor.tokens later.tokens) (comes : ComesTo met later P outcome) :
    ComesTo met cursor P outcome := by
  cases outcome with
  | ok result =>
    obtain ⟨holds, takes, lexed⟩ := comes
    exact ⟨holds, taken.trans takes, lexed⟩
  | error abort =>
    cases abort with
    | error e => exact comes
    | crash defect =>
      intro isInteger
      rcases comes isInteger with isMet | ⟨token, member, large⟩
      · exact .inl isMet
      · exact .inr ⟨token, taken.mem member, large⟩

theorem YieldsHaving.comesTo {met : Prop} {rule : Rule α} (yields : YieldsHaving met rule P)
    {cursor : Cursor} (lexed : cursor.Lexed) : ComesTo met cursor P (rule cursor) := by
  cases ran : rule cursor with
  | ok result => exact yields.gives lexed ran
  | error abort =>
    cases abort with
    | error e => exact yields.refuses lexed ran
    | crash defect =>
      rintro rfl
      exact yields.fails lexed ran

theorem yields_of_comesTo {met : Prop} {rule : Rule α}
    (each : ∀ cursor : Cursor, cursor.Lexed → ComesTo met cursor P (rule cursor)) :
    YieldsHaving met rule P where
  gives {cursor _ _} lexed ran := by
    have comes := each cursor lexed
    rwa [ran] at comes
  fails {cursor} lexed ran := by
    have comes := each cursor lexed
    rw [ran] at comes
    exact comes rfl
  refuses {cursor _} lexed ran := by
    have comes := each cursor lexed
    rwa [ran] at comes

/-- A rule that always succeeds, and takes nothing. -/
theorem yields_silent {rule : Rule α}
    (silent : ∀ cursor, ∃ a, P a ∧ rule cursor = .ok (a, cursor)) : Yields rule P := by
  refine yields_of_comesTo fun cursor lexed => ?_
  obtain ⟨a, holds, success⟩ := silent cursor
  rw [success]
  exact ⟨holds, .refl _, lexed⟩

theorem Yields.pure {a : α} (holds : P a) : Yields (pure a) P :=
  yields_silent fun _ => ⟨a, holds, rfl⟩

/-- A rule goes on with what another has met. -/
theorem yields_bind {met : α → Prop} {rule : Rule α} {next : α → Rule β} (first : Yields rule P)
    (meets : ∀ {cursor a after}, rule cursor = .ok (a, after) → met a →
      ∃ token ∈ cursor.tokens, token.IsLarge)
    (second : ∀ a, P a → YieldsHaving (met a) (next a) Q) : Yields (rule >>= next) Q where
  gives {cursor b after} lexed ran := by
    obtain ⟨a, middle, result, ran⟩ := bind_eq_ok ran
    obtain ⟨holds, takes, lexedRest⟩ := first.gives lexed result
    obtain ⟨holdsToo, takesToo, lexedLast⟩ := (second a holds).gives lexedRest ran
    exact ⟨holdsToo, takes.trans takesToo, lexedLast⟩
  fails {cursor} lexed ran := by
    rcases bind_eq_error ran with failed | ⟨a, middle, result, failed⟩
    · exact first.fails lexed failed
    · obtain ⟨holds, takes, lexedRest⟩ := first.gives lexed result
      rcases (second a holds).fails lexedRest failed with met | ⟨token, member, large⟩
      · exact .inr (meets result met)
      · exact .inr ⟨token, takes.mem member, large⟩
  refuses {cursor _} lexed ran := by
    rcases bind_eq_error ran with refused | ⟨a, middle, result, refused⟩
    · exact first.refuses lexed refused
    · obtain ⟨holds, -, lexedRest⟩ := first.gives lexed result
      exact (second a holds).refuses lexedRest refused

theorem Yields.bind {rule : Rule α} {next : α → Rule β} (first : Yields rule P)
    (second : ∀ a, P a → Yields (next a) Q) : Yields (rule >>= next) Q :=
  yields_bind first (fun _ => False.elim) second

theorem Yields.map {rule : Rule α} {f : α → β} (yields : Yields rule P)
    (implies : ∀ a, P a → Q (f a)) : Yields (f <$> rule) Q :=
  yields.bind fun a holds => .pure (implies a holds)

theorem Yields.ite {c : Prop} [Decidable c] {first second : Rule α} (yes : c → Yields first P)
    (no : ¬c → Yields second P) : Yields (if c then first else second) P := by
  split
  · next holds => exact yes holds
  · next fails => exact no fails

theorem yields_malformed : Yields (malformed : Rule α) P :=
  yields_of_comesTo fun _ _ => rfl

theorem next_eq_ok {cursor after : Cursor} {token : Token}
    (ran : next cursor = .ok (token, after)) :
    cursor.tokens = token :: after.tokens ∧ isProper token = true ∧
      after.defect = cursor.defect := by
  obtain ⟨tokens, limit, defect⟩ := cursor
  cases tokens with
  | nil => cases ran
  | cons first rest =>
    cases first with
    | invalid | unfinished | crash => cases ran
    | punctuator | name | int | float | quoted | block =>
      cases ran
      exact ⟨rfl, rfl, rfl⟩

theorem yields_next : Yields next Token.Lexed where
  gives {cursor token after} lexed ran := by
    obtain ⟨tokens, proper, defect⟩ := next_eq_ok ran
    have takes : Takes cursor.tokens after.tokens := tokens ▸ .one proper after.tokens
    exact ⟨lexed.tokens token (by simp [tokens]), takes, takes.lexed lexed (defect ▸ lexed.defect)⟩
  fails {cursor} _ ran := by
    unfold next at ran
    split at ran <;> cases ran
  refuses {cursor _} _ ran := by
    unfold next at ran
    split at ran <;> cases ran <;> rfl

/-- A rule that goes on by the next token, which may be a large integer. -/
theorem Yields.ofToken {go : Token → Rule α}
    (each : ∀ token, token.Lexed → YieldsHaving token.IsLarge (go token) P) :
    Yields (next >>= go) P := by
  refine yields_bind yields_next (fun {cursor token after} ran large => ?_) each
  exact ⟨token, by simp [(next_eq_ok ran).1], large⟩

theorem yields_refuse : Yields (refuse : Rule α) P :=
  yields_next.bind fun _ _ => yields_malformed

/-- What is read without being taken. -/
theorem yields_peek : Yields peek fun _ => True :=
  yields_silent fun _ => ⟨_, trivial, rfl⟩

theorem yields_limit : Yields limit fun _ => True :=
  yields_silent fun _ => ⟨_, trivial, rfl⟩

theorem yields_settle {met : Prop} {outcome : Except (Abort SchemaError) α}
    (holds : ∀ a, outcome = .ok a → P a) (large : outcome = .error (.crash .integerToken) → met)
    (unreadable : ∀ e, outcome = .error (.error e) → e = .malformed) :
    YieldsHaving met (settle outcome) P := by
  refine yields_of_comesTo fun cursor lexed => ?_
  unfold settle
  split
  · rfl
  · rintro ⟨⟩
  · split
    · cases outcome with
      | ok a => exact ⟨holds a rfl, .refl _, lexed⟩
      | error abort =>
        cases abort with
        | error e => exact unreadable e rfl
        | crash defect =>
          rintro rfl
          exact .inl (large rfl)
    · rfl

theorem yields_expect (token : Token) : Yields (expect token) fun _ => True :=
  yields_next.bind fun _ _ => .ite (fun _ => yields_malformed) fun _ => .pure trivial

theorem yields_accept (token : Token) : Yields (accept token) fun _ => True :=
  yields_peek.bind fun _ _ => .ite (fun _ => yields_next.bind fun _ _ => .pure trivial)
    fun _ => .pure trivial

theorem yields_name : Yields name IsName := by
  refine yields_next.bind fun token lexed => ?_
  cases token with
  | name text => exact .pure lexed
  | punctuator | int | float | quoted | block | invalid | unfinished | crash =>
    exact yields_malformed

/-! ## Repetitions -/

theorem yields_upTo {close : Token} {item : Rule α} (yields : Yields item P) (limit : Nat) :
    Yields (upTo close item limit) fun items => ∀ a ∈ items, P a := by
  induction limit with
  | zero => exact yields_refuse
  | succ limit ih =>
    refine (yields_accept close).bind fun _ _ => .ite (fun _ => .pure (by simp)) fun _ => ?_
    refine yields.bind fun a holds => ih.bind fun rest others => ?_
    exact .pure (List.forall_mem_cons.2 ⟨holds, others⟩)

theorem yields_itemsUpTo {close : Token} {item : Rule α} (yields : Yields item P) :
    Yields (itemsUpTo close item) fun items => ∀ a ∈ items, P a :=
  yields_limit.bind fun limit _ => yields_upTo yields limit

theorem yields_someItemsUpTo {close : Token} {item : Rule α} (yields : Yields item P) :
    Yields (someItemsUpTo close item) fun items => ∀ a ∈ items, P a :=
  yields.bind fun _ holds => (yields_itemsUpTo yields).bind fun _ others =>
    .pure (List.forall_mem_cons.2 ⟨holds, others⟩)

theorem yields_eachAfterUpTo {mark : Token} {item : Rule α} (yields : Yields item P)
    (limit : Nat) : Yields (eachAfterUpTo mark item limit) fun items => ∀ a ∈ items, P a := by
  induction limit with
  | zero => exact .pure (by simp)
  | succ limit ih =>
    refine (yields_accept mark).bind fun _ _ => .ite (fun _ => ?_) fun _ => .pure (by simp)
    refine yields.bind fun a holds => ih.bind fun rest others => ?_
    exact .pure (List.forall_mem_cons.2 ⟨holds, others⟩)

theorem yields_eachAfter {mark : Token} {item : Rule α} (yields : Yields item P) :
    Yields (eachAfter mark item) fun items => ∀ a ∈ items, P a :=
  yields_limit.bind fun limit _ => yields_eachAfterUpTo yields limit

theorem yields_separated {mark : Token} {item : Rule α} (yields : Yields item P) :
    Yields (separated mark item) fun items => items ≠ [] ∧ ∀ a ∈ items, P a :=
  (yields_accept mark).bind fun _ _ => yields.bind fun _ holds =>
    (yields_eachAfter yields).bind fun _ others =>
      .pure ⟨List.cons_ne_nil _ _, List.forall_mem_cons.2 ⟨holds, others⟩⟩

theorem Yields.unkept {rule : Rule α} (yields : Yields rule P) {defect : Option Defect}
    (free : defect ≠ some .integerToken) : Yields (unkept defect rule) P := by
  refine yields.bind fun a holds => ⟨fun lexed ran => ?_, fun _ ran => ?_, fun _ ran => ?_⟩
  · cases ran
    exact ⟨holds, .refl _, lexed.tokens, free⟩
  · cases ran
  · cases ran

/-! ## What a rule takes -/

/-- The rule takes the tokens and gives the result before all tokens of some kind, if the limit on
repetitions is no less than the number of tokens. -/
def Accepts (rule : Rule α) (tokens : List Token) (a : α) (follow : List Token → Prop) : Prop :=
  ∀ rest limit defect, follow rest → (tokens ++ rest).length ≤ limit →
    rule ⟨tokens ++ rest, limit, defect⟩ = .ok (a, ⟨rest, limit, defect⟩)

variable {tokens more : List Token} {a : α} {b : β} {follow after : List Token → Prop}

theorem run_bind {rule : Rule α} {next : α → Rule β} {cursor later : Cursor}
    (ran : rule cursor = .ok (a, later)) : (rule >>= next) cursor = next a later := by
  simp only [Bind.bind, ran]

/-- Any tokens, or none. -/
def anything (_ : List Token) : Prop :=
  True

/-- Tokens of which the first, if there is one, has a property. -/
def Starts (p : Token → Bool) (rest : List Token) : Prop :=
  ∀ token, rest.head? = some token → p token = true

/-- At least one token, of which the first has a property. -/
def Meets (p : Token → Bool) (rest : List Token) : Prop :=
  ∃ token, rest.head? = some token ∧ p token = true

theorem Meets.starts {p q : Token → Bool} {rest : List Token} (meets : Meets p rest)
    (implies : ∀ token, p token = true → q token = true) : Starts q rest := by
  obtain ⟨token, first, holds⟩ := meets
  intro other same
  rw [first] at same
  cases same
  exact implies token holds

theorem Accepts.mono {rule : Rule α} (accepts : Accepts rule tokens a follow)
    (implies : ∀ rest, after rest → follow rest) : Accepts rule tokens a after :=
  fun rest limit defect holds enough => accepts rest limit defect (implies rest holds) enough

theorem Accepts.pure (a : α) : Accepts (pure a) [] a follow :=
  fun _ _ _ _ _ => rfl

theorem Accepts.bind {rule : Rule α} {next : α → Rule β} (first : Accepts rule tokens a follow)
    (second : Accepts (next a) more b after)
    (follows : ∀ rest, after rest → follow (more ++ rest)) :
    Accepts (rule >>= next) (tokens ++ more) b after := by
  intro rest limit defect holds enough
  rw [List.append_assoc] at enough ⊢
  have ran := first (more ++ rest) limit defect (follows rest holds) enough
  have less : (more ++ rest).length ≤ limit := by
    rw [List.length_append] at enough
    exact Nat.le_of_add_left_le enough
  rw [run_bind ran]
  exact second rest limit defect holds less

/-- A rule after one that takes no token. -/
theorem Accepts.silent {rule : Rule α} {next : α → Rule β} (first : Accepts rule [] a follow)
    (second : Accepts (next a) tokens b after)
    (follows : ∀ rest, after rest → follow (tokens ++ rest)) :
    Accepts (rule >>= next) tokens b after :=
  first.bind second follows

/-- A rule after which nothing is left to read. -/
theorem Accepts.last {rule : Rule α} {next : α → Rule β} (first : Accepts rule tokens a follow)
    (ends : next a = Pure.pure b) : Accepts (rule >>= next) tokens b follow := by
  have second : Accepts (next a) [] b follow := by
    rw [ends]
    exact .pure b
  have whole := first.bind second fun rest holds => holds
  rwa [List.append_nil] at whole

theorem Accepts.map {rule : Rule α} (accepts : Accepts rule tokens a follow) (f : α → β) :
    Accepts (f <$> rule) tokens (f a) follow :=
  accepts.last rfl

theorem accepts_next {token : Token} (proper : isProper token = true) :
    Accepts next [token] token anything := by
  intro rest limit defect _ _
  cases token with
  | invalid | unfinished | crash => cases proper
  | punctuator | name | int | float | quoted | block => rfl

theorem accepts_expect {token : Token} (proper : isProper token = true) :
    Accepts (expect token) [token] () anything := by
  have last : Accepts (if token ≠ token then malformed else Pure.pure () : Rule Unit) [] ()
      anything := by
    rw [if_neg (by simp)]
    exact .pure ()
  exact (accepts_next proper).bind last fun _ _ => trivial

theorem accepts_name (text : String) : Accepts name [.name text] text anything :=
  (accepts_next rfl).bind (.pure text) fun _ _ => trivial

theorem accept_eq (token : Token) (cursor : Cursor) :
    accept token cursor = if cursor.tokens.head? = some token then
      ((do let _ ← next; return true) : Rule Bool) cursor else .ok (false, cursor) := by
  show (if cursor.tokens.head? = some token then _ else _ : Rule Bool) cursor = _
  split <;> rfl

theorem accepts_accept {token : Token} (proper : isProper token = true) :
    Accepts (accept token) [token] true anything := by
  intro rest limit defect _ enough
  have present : ([token] ++ rest).head? = some token := rfl
  rw [accept_eq, if_pos present]
  have taken : Accepts ((do let _ ← next; return true) : Rule Bool) [token] true anything :=
    (accepts_next proper).bind (.pure true) fun _ _ => trivial
  exact taken rest limit defect trivial enough

/-- Another token is left where it is. -/
theorem accepts_accept_other (token : Token) :
    Accepts (accept token) [] false (Starts fun other => other ≠ token) := by
  intro rest limit defect starts _
  rw [accept_eq, if_neg]
  · rfl
  · intro same
    simpa using starts token same

/-- A rule that reads on after a token that is there. -/
theorem Accepts.afterMark {token : Token} (proper : isProper token = true) {yes no : Rule α}
    (accepts : Accepts yes tokens a follow) :
    Accepts (do if ← accept token then yes else no) (token :: tokens) a follow :=
  (accepts_accept proper).bind accepts fun _ _ => trivial

/-- A rule that reads on where a token is missing. -/
theorem Accepts.withoutMark {token : Token} {yes no : Rule α} (accepts : Accepts no tokens a follow)
    (missing : ∀ rest, follow rest → Starts (fun other => other ≠ token) (tokens ++ rest)) :
    Accepts (do if ← accept token then yes else no) tokens a follow :=
  (accepts_accept_other token).bind accepts missing

/-- A literal has its value before a token that may follow one. -/
theorem accepts_settle (a : α) : Accepts (settle (.ok a)) [] a (Meets mayFollowValue) := by
  intro rest limit defect meets _
  obtain ⟨token, first, follows⟩ := meets
  cases rest with
  | nil => cases first
  | cons other rest =>
    cases first
    cases token with
    | invalid | crash => cases follows
    | punctuator | name | int | float | quoted | block | unfinished =>
      simp only [settle, List.nil_append, if_pos follows]
      rfl

theorem unkept_eq {rule : Rule α} {cursor next : Cursor} (ran : rule cursor = .ok (a, next))
    (defect : Option Defect) :
    unkept defect rule cursor = .ok (a, { next with defect }) :=
  run_bind ran

/-! ## Tokens of repetitions -/

theorem Meets.append {p : Token → Bool} (meets : Meets p tokens) (rest : List Token) :
    Meets p (tokens ++ rest) := by
  obtain ⟨token, first, holds⟩ := meets
  exact ⟨token, by rw [List.head?_append, first]; rfl, holds⟩

theorem Meets.mono {p q : Token → Bool} (meets : Meets p tokens)
    (implies : ∀ token, p token = true → q token = true) : Meets q tokens := by
  obtain ⟨token, first, holds⟩ := meets
  exact ⟨token, first, implies token holds⟩

theorem Meets.length_pos {p : Token → Bool} (meets : Meets p tokens) : 0 < tokens.length := by
  obtain ⟨token, first, -⟩ := meets
  cases tokens with
  | nil => cases first
  | cons => exact Nat.succ_pos _

/-- One of several items before a closing token: it starts with a token that may follow another
item, and is taken before any such token. -/
structure IsItem (rule : Rule α) (close : Token) (follow : Token → Bool) (tokens : List Token)
    (a : α) : Prop where
  meets : Meets (fun token => follow token && token ≠ close) tokens
  accepts : Accepts rule tokens a (Meets follow)

section

variable {γ : Type} {rule : Rule α} {close : Token} {mayFollow : Token → Bool} {xs : List γ}
  {spell : γ → List Token} {result : γ → α}

/-- What follows an item may follow it: another item, or the closing token. -/
theorem meets_items (closes : mayFollow close = true)
    (items : ∀ x ∈ xs, IsItem rule close mayFollow (spell x) (result x)) (rest : List Token) :
    Meets mayFollow (xs.flatMap spell ++ [close] ++ rest) := by
  cases xs with
  | nil => exact ⟨close, rfl, closes⟩
  | cons y ys =>
    have meets := (items y List.mem_cons_self).meets.mono fun token both =>
      (Bool.and_eq_true_iff.1 both).1
    rw [List.flatMap_cons, List.append_assoc, List.append_assoc]
    exact meets.append _

theorem accepts_upTo (proper : isProper close = true) (closes : mayFollow close = true)
    (items : ∀ x ∈ xs, IsItem rule close mayFollow (spell x) (result x)) {limit : Nat}
    (enough : xs.length < limit) :
    Accepts (upTo close rule limit) (xs.flatMap spell ++ [close]) (xs.map result) anything := by
  -- Each item takes one from the limit, and one is left for the closing token.
  induction xs generalizing limit with
  | nil =>
    cases limit with
    | zero => cases enough
    | succ limit => exact .afterMark proper (.pure [])
  | cons x xs ih =>
    cases limit with
    | zero => cases enough
    | succ limit =>
      obtain ⟨item, items⟩ := List.forall_mem_cons.1 items
      have others := ih items (Nat.lt_of_succ_lt_succ enough)
      rw [List.flatMap_cons, List.append_assoc]
      refine .withoutMark ?_ fun rest _ => ?_
      · exact item.accepts.bind (others.last rfl) fun rest _ => meets_items closes items rest
      · rw [List.append_assoc]
        exact (item.meets.append _).starts fun token both => (Bool.and_eq_true_iff.1 both).2

theorem length_le_flatMap (nonempty : ∀ x ∈ xs, 0 < (spell x).length) :
    xs.length ≤ (xs.flatMap spell).length := by
  induction xs with
  | nil => exact Nat.zero_le _
  | cons x xs ih =>
    have first := nonempty x List.mem_cons_self
    have others := ih fun y member => nonempty y (List.mem_cons_of_mem _ member)
    rw [List.flatMap_cons, List.length_append, List.length_cons]
    omega

theorem accepts_itemsUpTo (proper : isProper close = true) (closes : mayFollow close = true)
    (items : ∀ x ∈ xs, IsItem rule close mayFollow (spell x) (result x)) :
    Accepts (itemsUpTo close rule) (xs.flatMap spell ++ [close]) (xs.map result) anything := by
  intro rest limit defect _ enough
  -- No item is without tokens, so a limit for the tokens is one for the items too.
  have count := length_le_flatMap fun x member => (items x member).meets.length_pos
  have less : xs.length < limit := by
    simp only [List.length_append, List.length_singleton] at enough
    omega
  exact accepts_upTo proper closes items less rest limit defect trivial enough

theorem accepts_someItemsUpTo {x : γ} (proper : isProper close = true)
    (closes : mayFollow close = true)
    (items : ∀ y ∈ x :: xs, IsItem rule close mayFollow (spell y) (result y)) :
    Accepts (someItemsUpTo close rule) ((x :: xs).flatMap spell ++ [close])
      ((x :: xs).map result) anything := by
  obtain ⟨item, items⟩ := List.forall_mem_cons.1 items
  rw [List.flatMap_cons, List.append_assoc]
  exact item.accepts.bind ((accepts_itemsUpTo proper closes items).last rfl)
    fun rest _ => meets_items closes items rest

/-- What follows items that are introduced by a mark, or what follows one of them. -/
theorem starts_marked {mark : Token} {p : Token → Bool} (marks : p mark = true) {rest : List Token}
    (starts : Starts p rest) : Starts p (xs.flatMap (fun x => mark :: spell x) ++ rest) := by
  cases xs with
  | nil => exact starts
  | cons x xs =>
    intro token first
    cases first
    exact marks

theorem accepts_eachAfterUpTo {mark : Token} (proper : isProper mark = true)
    (marks : mayFollow mark = true)
    (items : ∀ x ∈ xs, Accepts rule (spell x) (result x) (Starts mayFollow)) {limit : Nat}
    (enough : xs.length ≤ limit) :
    Accepts (eachAfterUpTo mark rule limit) (xs.flatMap fun x => mark :: spell x)
      (xs.map result) (Starts fun token => mayFollow token && token ≠ mark) := by
  induction xs generalizing limit with
  | nil =>
    cases limit with
    | zero => exact .pure []
    | succ limit =>
      refine .withoutMark (.pure []) fun rest starts token first => ?_
      exact (Bool.and_eq_true_iff.1 (starts token first)).2
  | cons x xs ih =>
    cases limit with
    | zero => cases enough
    | succ limit =>
      obtain ⟨item, items⟩ := List.forall_mem_cons.1 items
      have others := ih items (Nat.le_of_succ_le_succ enough)
      rw [List.flatMap_cons, List.cons_append]
      refine .afterMark proper (item.bind (others.last rfl) fun rest starts => ?_)
      refine starts_marked marks fun token first => ?_
      exact (Bool.and_eq_true_iff.1 (starts token first)).1

theorem accepts_eachAfter {mark : Token} (proper : isProper mark = true)
    (marks : mayFollow mark = true)
    (items : ∀ x ∈ xs, Accepts rule (spell x) (result x) (Starts mayFollow)) :
    Accepts (eachAfter mark rule) (xs.flatMap fun x => mark :: spell x) (xs.map result)
      (Starts fun token => mayFollow token && token ≠ mark) := by
  intro rest limit defect starts enough
  have count : xs.length ≤ (xs.flatMap fun x => mark :: spell x).length :=
    length_le_flatMap fun x _ => Nat.succ_pos _
  have less : xs.length ≤ limit := by
    rw [List.length_append] at enough
    omega
  exact accepts_eachAfterUpTo proper marks items less rest limit defect starts enough

/-- Names with a mark between them. -/
theorem accepts_separated_name {mark : Token} {x : String} {xs : List String} {rule : Rule String}
    (proper : isProper mark = true) (noName : ∀ text, mark ≠ .name text)
    (items : ∀ y ∈ x :: xs, Accepts rule [.name y] y anything) :
    Accepts (separated mark rule) (.name x :: xs.flatMap fun y => [mark, .name y]) (x :: xs)
      (Starts fun token => token ≠ mark) := by
  obtain ⟨item, items⟩ := List.forall_mem_cons.1 items
  have others : Accepts (eachAfter mark rule) (xs.flatMap fun y => [mark, .name y]) (xs.map id)
      (Starts fun token => true && token ≠ mark) :=
    accepts_eachAfter proper rfl fun y member => (items y member).mono fun _ _ => trivial
  rw [List.map_id] at others
  refine (accepts_accept_other mark).silent ?_ fun rest _ token first => ?_
  · refine item.bind ((others.mono fun rest starts => ?_).last rfl) fun _ _ => trivial
    exact starts
  · -- A mark before the first name is optional, and there is none.
    cases first
    simpa using (noName x).symm

end

end Rule

end SdlCompiler.Document
