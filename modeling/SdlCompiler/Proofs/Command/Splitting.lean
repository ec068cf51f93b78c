import SdlCompiler.Command.Arguments
import SdlCompiler.Proofs.Text.Split

/-!
# Which arguments are plugin flags

What an argument is depends on those before it: an option may take it as its value, and after two
dashes alone nothing is an option. `Taken`, `Terminates` and `IsFlag` say this of the places of a
command line. Splitting a command line puts the arguments at the places of plugin flags on one side
and all others on the other side, in their order, and finds no flag in what it kept
(`splitArguments_partition`).
-/

namespace SdlCompiler.Command

/-! ## Places -/

/-- The names of the compiler's own options. -/
def ownNames : List String :=
  ["log-filter", "plugin-path", "help", "version"]

/-- The options that take a value, without one. -/
def openOptions : List String :=
  ["--log-filter", "--plugin-path"]

/-- The name of an option: what stands between its two dashes and the first `=`. -/
def optionName (text : String) : String :=
  .ofList ((text.toList.drop 2).takeWhile (· ≠ '='))

section

variable {α : Type} (text? : α → Option String) (arguments : List α)

/-- The text of the argument at a place, if it is one. -/
def textAt? (place : Nat) : Option String :=
  arguments[place]?.bind text?

/-- The argument at a place is the value of the option before it. An option that is itself a value
takes none. -/
def Taken : Nat → Prop
  | 0 => False
  | place + 1 => (∃ text ∈ textAt? text? arguments place, text ∈ openOptions) ∧ ¬Taken place

instance decidableTaken : ∀ place, Decidable (Taken text? arguments place)
  | 0 => .isFalse id
  | place + 1 =>
    have := decidableTaken place
    inferInstanceAs (Decidable (_ ∧ _))

/-- The argument at a place is two dashes that end the options. -/
def Terminates (place : Nat) : Prop :=
  textAt? text? arguments place = some "--" ∧ ¬Taken text? arguments place

instance (place : Nat) : Decidable (Terminates text? arguments place) :=
  inferInstanceAs (Decidable (_ ∧ _))

/-- The argument at a place is a plugin flag. -/
structure IsFlag (place : Nat) : Prop where
  foreign : ∃ text ∈ textAt? text? arguments place,
    "--".toList <+: text.toList ∧ text ≠ "--" ∧ optionName text ∉ ownNames
  unended : ∀ earlier < place, ¬Terminates text? arguments earlier
  untaken : ¬Taken text? arguments place

instance (place : Nat) : Decidable (IsFlag text? arguments place) :=
  decidable_of_iff
    ((∃ text ∈ textAt? text? arguments place,
        "--".toList <+: text.toList ∧ text ≠ "--" ∧ optionName text ∉ ownNames) ∧
      (∀ earlier < place, ¬Terminates text? arguments earlier) ∧ ¬Taken text? arguments place)
    ⟨fun all => ⟨all.1, all.2.1, all.2.2⟩,
      fun flag => ⟨flag.foreign, flag.unended, flag.untaken⟩⟩

end

/-- The arguments at the places with a property, in their order. -/
def atPlaces {α : Type} (p : Nat → Prop) [DecidablePred p] (arguments : List α) : List α :=
  (arguments.zipIdx.filter fun a => p a.2).map Prod.fst

/-! ## Forms -/

/-- What the form of an argument says about its text. -/
inductive Formed (text : String) : Form → Prop
  | separator : text = "--" → Formed text .separator
  | long {name : String} {value : Option String} : "--".toList <+: text.toList → text ≠ "--" →
      name = optionName text → (value = none ↔ text = "--" ++ name) →
      Formed text (.long name value)
  | short {first : Char} : ¬"--".toList <+: text.toList → Formed text (.short first)
  | plain : ¬"--".toList <+: text.toList → Formed text .plain

theorem optionName_eq {text : String} {name rest : List Char}
    (dashes : text.toList = '-' :: '-' :: (name ++ rest)) (noSign : '=' ∉ name) :
    optionName text = .ofList (name ++ rest.takeWhile (· ≠ '=')) := by
  have goesOn : ∀ c ∈ name, decide (c ≠ '=') = true := by
    intro c member
    exact decide_eq_true (ne_of_mem_of_not_mem member noSign)
  rw [optionName, dashes, ← List.takeWhile_append_of_pos goesOn]
  rfl

theorem form_formed (text : String) : Formed text (form text) := by
  unfold form
  split
  · next dashes => exact .separator (String.toList_inj.1 dashes)
  · next contents notAlone dashes =>
    have dashed : "--".toList <+: text.toList := ⟨contents, dashes.symm⟩
    have longer : text ≠ "--" := by
      rintro rfl
      cases dashes
      exact notAlone rfl
    have spelled : ∀ name, text = "--" ++ String.ofList name ↔ contents = name := by
      intro name
      rw [← String.toList_inj, dashes]
      simp
    split
    · next name value found =>
      obtain ⟨rfl, noSign⟩ := Text.splitOnce_singleton_eq_some.1 found
      refine .long dashed longer ?_ (by simp [spelled])
      rw [optionName_eq dashes noSign]
      simp
    · next noSign =>
      rw [Text.splitOnce_singleton_eq_none] at noSign
      refine .long dashed longer ?_ (by simp [spelled])
      rw [← List.append_nil contents] at dashes
      rw [optionName_eq dashes noSign]
      simp
  · next first rest oneDash dashes =>
    refine .short ?_
    rintro ⟨contents, same⟩
    have second := (List.cons.inj (List.cons.inj (same.trans dashes)).2).1
    exact oneDash second.symm
  · next noDash =>
    refine .plain ?_
    rintro ⟨contents, same⟩
    exact noDash '-' contents same.symm

theorem form_eq_separator {text : String} : form text = .separator ↔ text = "--" := by
  constructor
  · intro formed
    cases formed ▸ form_formed text with
    | separator same => exact same
  · rintro rfl
    rfl

theorem ofName?_eq_none {name : String} : Switch.ofName? name = none ↔ name ∉ ownNames := by
  unfold Switch.ofName?
  split <;> simp_all [ownNames]

/-- An option that is none of the compiler's own. -/
theorem form_eq_foreign {text : String} :
    (∃ name value, form text = .long name value ∧ Switch.ofName? name = none) ↔
      "--".toList <+: text.toList ∧ text ≠ "--" ∧ optionName text ∉ ownNames := by
  have formed := form_formed text
  constructor
  · rintro ⟨name, value, isLong, foreign⟩
    rw [isLong] at formed
    cases formed with
    | long dashed longer named _ => exact ⟨dashed, longer, named ▸ ofName?_eq_none.1 foreign⟩
  · rintro ⟨dashed, longer, foreign⟩
    generalize form text = read at formed ⊢
    cases formed with
    | separator same => exact absurd same longer
    | long _ _ named _ => exact ⟨_, _, rfl, ofName?_eq_none.2 (named ▸ foreign)⟩
    | short notDashed | plain notDashed => exact absurd dashed notDashed

/-- An option of the compiler's own that takes the argument after it. -/
theorem form_eq_open {text : String} :
    (∃ name setting, form text = .long name none ∧
      Switch.ofName? name = some (.setting setting)) ↔ text ∈ openOptions := by
  constructor
  · rintro ⟨name, setting, isLong, known⟩
    have formed := form_formed text
    rw [isLong] at formed
    cases formed with
    | long _ _ _ bare =>
      rw [bare.1 rfl]
      unfold Switch.ofName? at known
      split at known
      · decide
      · decide
      all_goals cases known
  · intro member
    simp only [openOptions, List.mem_cons, List.not_mem_nil, or_false] at member
    rcases member with rfl | rfl
    · exact ⟨"log-filter", .logFilter, rfl, rfl⟩
    · exact ⟨"plugin-path", .pluginPath, rfl, rfl⟩

/-! ## The arguments from a place on -/

section

variable {α : Type} {text? : α → Option String} {arguments rest : List α} {argument : α}
  {place : Nat} {split : List α × List String}

theorem textAt?_of_drop (here : arguments.drop place = argument :: rest) :
    textAt? text? arguments place = text? argument := by
  rw [textAt?, ← List.head?_drop, here]
  rfl

theorem drop_succ_of_drop (here : arguments.drop place = argument :: rest) :
    arguments.drop (place + 1) = rest := by
  rw [← List.drop_drop, here]
  rfl

/-- The arguments from a place on are split by whether they are plugin flags. -/
structure Splits (text? : α → Option String) (arguments : List α) (place : Nat) (rest : List α)
    (split : List α × List String) : Prop where
  own : split.1 =
    ((rest.zipIdx place).filter fun a => ¬IsFlag text? arguments a.2).map Prod.fst
  flags : split.2.map some =
    ((rest.zipIdx place).filter fun a => IsFlag text? arguments a.2).map fun a => text? a.1

namespace Splits

theorem nil : Splits text? arguments place [] ([], []) :=
  ⟨rfl, rfl⟩

theorem consOwn (kept : ¬IsFlag text? arguments place)
    (later : Splits text? arguments (place + 1) rest split) :
    Splits text? arguments place (argument :: rest) (consOwn argument split) := by
  constructor
  · simp [Command.consOwn, later.own, kept]
  · simp [Command.consOwn, later.flags, kept]

theorem consFlag {text : String} (flag : IsFlag text? arguments place)
    (isText : text? argument = some text)
    (later : Splits text? arguments (place + 1) rest split) :
    Splits text? arguments place (argument :: rest) (consFlag text split) := by
  constructor
  · simp [Command.consFlag, later.own, flag]
  · simp [Command.consFlag, later.flags, flag, isText]

theorem all (kept : ∀ later, place ≤ later → ¬IsFlag text? arguments later) :
    Splits text? arguments place rest (rest, []) := by
  induction rest generalizing place with
  | nil => exact nil
  | cons argument rest ih =>
    exact consOwn (kept place (Nat.le_refl place))
      (ih fun later after => kept later (Nat.le_of_succ_le after))

end Splits

section

variable {text : String} (here : arguments.drop place = argument :: rest)
include here

theorem unended_succ (unended : ∀ earlier < place, ¬Terminates text? arguments earlier)
    (goesOn : ∀ text, text? argument = some text → form text ≠ .separator) :
    ∀ earlier < place + 1, ¬Terminates text? arguments earlier := by
  refine Nat.forall_lt_succ_right.2 ⟨unended, fun ends => ?_⟩
  exact goesOn "--" ((textAt?_of_drop here).symm.trans ends.1) rfl

theorem isFlag_iff (isText : text? argument = some text)
    (unended : ∀ earlier < place, ¬Terminates text? arguments earlier)
    (untaken : ¬Taken text? arguments place) :
    IsFlag text? arguments place ↔
      ∃ name value, form text = .long name value ∧ Switch.ofName? name = none := by
  have found := (textAt?_of_drop here).trans isText
  rw [form_eq_foreign]
  constructor
  · intro flag
    obtain ⟨other, same, foreign⟩ := flag.foreign
    cases found.symm.trans same
    exact foreign
  · exact fun foreign => ⟨⟨text, found, foreign⟩, unended, untaken⟩

theorem taken_succ_iff (isText : text? argument = some text)
    (untaken : ¬Taken text? arguments place) :
    Taken text? arguments (place + 1) ↔
      ∃ name setting, form text = .long name none ∧
        Switch.ofName? name = some (.setting setting) := by
  rw [form_eq_open, Taken, textAt?_of_drop here, isText]
  simp [untaken]

end

/-- The invariant of the split: no argument before the place has ended the options, and `taken` says
whether the argument at the place is a value. -/
theorem splitFrom_splits {taken : Bool} (here : arguments.drop place = rest)
    (unended : ∀ earlier < place, ¬Terminates text? arguments earlier)
    (current : Taken text? arguments place ↔ taken = true) :
    Splits text? arguments place rest (splitFrom text? taken rest) := by
  fun_induction splitFrom text? taken rest generalizing place with
  | case1 => exact .nil
  | case2 argument rest ih =>
    have isTaken := current.2 rfl
    refine .consOwn (fun flag => flag.untaken isTaken) (ih (drop_succ_of_drop here) ?_ ?_)
    · exact Nat.forall_lt_succ_right.2 ⟨unended, fun ends => ends.2 isTaken⟩
    · simp [Taken, isTaken]
  | case3 argument rest noText ih =>
    have found := (textAt?_of_drop here).trans noText
    refine .consOwn ?_ (ih (drop_succ_of_drop here) (unended_succ here unended ?_) ?_)
    · intro flag
      simpa [found] using flag.foreign
    · simp [noText]
    · simp [Taken, found]
  | case4 argument rest text isText formed =>
    have untaken := mt current.1 Bool.false_ne_true
    have found := (textAt?_of_drop here).trans isText
    rw [form_eq_separator.1 formed] at isText found
    -- The separator itself is no flag, and it ends the options for all that follows.
    refine .all fun later after flag => ?_
    rcases Nat.eq_or_lt_of_le after with rfl | beyond
    · obtain ⟨name, value, isLong, -⟩ := (isFlag_iff here isText unended untaken).1 flag
      cases isLong
    · exact flag.unended place beyond ⟨found, untaken⟩
  | case5 argument rest text isText name value formed known ih =>
    have untaken := mt current.1 Bool.false_ne_true
    refine .consFlag ((isFlag_iff here isText unended untaken).2 ⟨_, _, formed, known⟩) isText
      (ih (drop_succ_of_drop here) (unended_succ here unended ?_) ?_)
    · simp [isText, formed]
    · simp [taken_succ_iff here isText untaken, formed, known]
  | case6 argument rest text isText name value formed setting known ih =>
    have untaken := mt current.1 Bool.false_ne_true
    refine .consOwn ?_ (ih (drop_succ_of_drop here) (unended_succ here unended ?_) ?_)
    · simp [isFlag_iff here isText unended untaken, formed, known]
    · simp [isText, formed]
    · simp [taken_succ_iff here isText untaken, formed, known]
  | case7 argument rest text isText name value formed switch notSetting known ih =>
    have untaken := mt current.1 Bool.false_ne_true
    refine .consOwn ?_ (ih (drop_succ_of_drop here) (unended_succ here unended ?_) ?_)
    · simp [isFlag_iff here isText unended untaken, formed, known]
    · simp [isText, formed]
    · simpa [taken_succ_iff here isText untaken, formed, known] using fun _ => notSetting
  | case8 argument rest text isText first formed ih | case9 argument rest text isText formed ih =>
    have untaken := mt current.1 Bool.false_ne_true
    refine .consOwn ?_ (ih (drop_succ_of_drop here) (unended_succ here unended ?_) ?_)
    · simp [isFlag_iff here isText unended untaken, formed]
    · simp [isText, formed]
    · simp [taken_succ_iff here isText untaken, formed]

/-- There is nothing to set aside in the compiler's own arguments. -/
theorem splitFrom_own (taken : Bool) (arguments : List α) :
    splitFrom text? taken (splitFrom text? taken arguments).1 =
      ((splitFrom text? taken arguments).1, []) := by
  fun_induction splitFrom text? taken arguments with
  | case1 => rfl
  | case2 argument rest ih => simp [consOwn, splitFrom, ih]
  | case3 argument rest noText ih => simp [consOwn, splitFrom, noText, ih]
  | case4 argument rest text isText formed => simp [splitFrom, isText, formed]
  | case5 argument rest text isText name value formed known ih => exact ih
  | case6 argument rest text isText name value formed setting known ih =>
    simp [consOwn, splitFrom, isText, formed, known, ih]
  | case7 argument rest text isText name value formed switch notSetting known ih =>
    simp [consOwn, splitFrom, isText, formed, known, ih]
  | case8 argument rest text isText first formed ih | case9 argument rest text isText formed ih =>
    simp [consOwn, splitFrom, isText, formed, ih]

/-- Splitting a command line: the compiler's own arguments are those at places where no plugin flag
stands, the plugin flags are the texts of the others, and the compiler's own arguments hold no
further plugin flag. -/
theorem splitArguments_partition (text? : α → Option String) (arguments : List α) :
    (splitArguments text? arguments).1 =
        atPlaces (fun place => ¬IsFlag text? arguments place) arguments ∧
      (splitArguments text? arguments).2.map some =
        (atPlaces (IsFlag text? arguments) arguments).map text? ∧
      splitArguments text? (splitArguments text? arguments).1 =
        ((splitArguments text? arguments).1, []) := by
  have splits : Splits text? arguments 0 arguments (splitArguments text? arguments) :=
    splitFrom_splits List.drop_zero (by simp) (by simp [Taken])
  refine ⟨splits.own, ?_, splitFrom_own false arguments⟩
  rw [splits.flags, atPlaces, List.map_map]
  rfl

/-- An option takes a separator as its value, and a separator ends the options. What is no text is
no plugin flag. -/
example :
    splitArguments id [some "--log-filter", some "--", some "--go_out=gen", none, some "--help",
        some "--ts_out=gen", some "--", some "--java_out=gen"] =
      ([some "--log-filter", some "--", none, some "--help", some "--", some "--java_out=gen"],
        ["--go_out=gen", "--ts_out=gen"]) := by
  decide

end

end SdlCompiler.Command
