import SdlCompiler.Proofs.Echo.Reading
import SdlCompiler.Schema.Text

/-!
# How types and values are written

Types and values are written in two places: a resolved file shows them (`Schema.valueText`), and an
echo writes what came over the wire (`Echo.valueText`). What the text of a value is can be said
without either of them (`Renders`). These rules leave no choice (`Renders.unique`) and both texts
follow them, so an echo writes what the file shows.
-/

namespace SdlCompiler

/-! ## Characters of strings -/

namespace Text.Quoted

/-- The characters that have an escape of one letter, each with its letter. -/
def letters : List (Char × Char) :=
  [('"', '"'), ('\\', '\\'), ('\n', 'n'), ('\r', 'r'), ('\t', 't')]

/-- The digits in base sixteen. -/
def digits : List Char :=
  "0123456789ABCDEF".toList

/-- The number that digits in base sixteen write. -/
def number (code : List Char) : Nat :=
  code.foldl (fun n digit => 16 * n + digits.idxOf digit) 0

/-- What may stand for a character between quotes: its letter behind a backslash, if it has one, or
the four digits of its number, if it is another control character, or else the character. -/
inductive Renders : Char → List Char → Prop
  | letter {c letter : Char} : (c, letter) ∈ letters → Renders c ['\\', letter]
  | code {c : Char} {code : List Char} : (∀ letter, (c, letter) ∉ letters) → isControl c = true →
      code.length = 4 → code ⊆ digits → number code = c.toNat → Renders c ('\\' :: 'u' :: code)
  | plain {c : Char} : (∀ letter, (c, letter) ∉ letters) → isControl c = false → Renders c [c]

theorem letter_unique {c letter other : Char} (first : (c, letter) ∈ letters)
    (second : (c, other) ∈ letters) : letter = other := by
  simp only [letters, List.mem_cons, Prod.mk.injEq, List.not_mem_nil, or_false] at first second
  grind

theorem number_append (code : List Char) (digit : Char) :
    number (code ++ [digit]) = 16 * number code + digits.idxOf digit := by
  simp [number]

/-- Digits are told by the number that they write and by how many they are. -/
theorem code_unique {code other : List Char} (sameLength : code.length = other.length)
    (isCode : code ⊆ digits) (isOther : other ⊆ digits) (same : number code = number other) :
    code = other := by
  induction code using List.reverseRecOn generalizing other with
  | nil => exact (List.eq_nil_of_length_eq_zero sameLength.symm).symm
  | append_singleton before digit ih =>
    rcases List.eq_nil_or_concat' other with rfl | ⟨before', digit', rfl⟩
    · simp at sameLength
    · rw [number_append, number_append] at same
      simp only [List.append_subset, List.cons_subset, List.nil_subset, and_true] at isCode isOther
      -- The last digit is the remainder by sixteen.
      have small : digits.idxOf digit < 16 := List.idxOf_lt_length_of_mem isCode.2
      have small' : digits.idxOf digit' < 16 := List.idxOf_lt_length_of_mem isOther.2
      have last : digit = digit' := (List.idxOf_inj isCode.2).1 (by omega)
      rw [ih (by simpa using sameLength) isCode.1 isOther.1 (by omega), last]

theorem Renders.unique {c : Char} {text other : List Char} (first : Renders c text)
    (second : Renders c other) : text = other := by
  cases first with
  | letter isLetter =>
    cases second with
    | letter isLetter' => rw [letter_unique isLetter isLetter']
    | code noLetter | plain noLetter => exact absurd isLetter (noLetter _)
  | code noLetter control long isCode isNumber =>
    cases second with
    | letter isLetter => exact absurd isLetter (noLetter _)
    | code _ _ long' isCode' isNumber' =>
      rw [code_unique (long.trans long'.symm) isCode isCode' (isNumber.trans isNumber'.symm)]
    | plain _ visible => exact absurd control (by simp [visible])
  | plain noLetter visible =>
    cases second with
    | letter isLetter => exact absurd isLetter (noLetter _)
    | code _ control => exact absurd control (by simp [visible])
    | plain => rfl

theorem hexDigit_spec : ∀ n < 16, hexDigit n ∈ digits ∧ digits.idxOf (hexDigit n) = n := by
  decide

theorem hex4_spec {n : Nat} (small : n < 65536) : hex4 n ⊆ digits ∧ number (hex4 n) = n := by
  have digit : ∀ k, hexDigit (k % 16) ∈ digits ∧ digits.idxOf (hexDigit (k % 16)) = k % 16 :=
    fun k => hexDigit_spec (k % 16) (Nat.mod_lt k (by decide))
  constructor
  · simp only [hex4, List.cons_subset, List.nil_subset, and_true]
    exact ⟨(digit _).1, (digit _).1, (digit _).1, (digit _).1⟩
  · simp only [number, hex4, List.foldl_cons, List.foldl_nil, (digit _).2]
    omega

theorem toNat_of_isControl {c : Char} (control : isControl c = true) : c.toNat < 65536 := by
  simp only [isControl, Bool.or_eq_true, Bool.and_eq_true, decide_eq_true_eq] at control
  omega

theorem renders_escape (c : Char) : Renders c (escape c) := by
  unfold escape
  split
  · exact .letter (by decide)
  · exact .letter (by decide)
  · exact .letter (by decide)
  · exact .letter (by decide)
  · exact .letter (by decide)
  · next quote backslash feed carriage tab =>
    have noLetter : ∀ letter, (c, letter) ∉ letters := by
      intro letter
      simp only [letters, List.mem_cons, Prod.mk.injEq, List.not_mem_nil, or_false]
      grind
    split
    · next control =>
      obtain ⟨isCode, isNumber⟩ := hex4_spec (toNat_of_isControl control)
      exact .code noLetter control rfl isCode isNumber
    · next visible => exact .plain noLetter (by simpa using visible)

end Text.Quoted

/-! ## Values -/

namespace Schema

mutual

/-- What the text of a value is. -/
inductive Renders : Value → String → Prop
  | name (name : String) : Renders (.variable name) ("$" ++ name)
  | int (n : Int64) : Renders (.int n) (toString n.toInt)
  | float (x : Numeric.Binary64) : Renders (.float x) (String.ofList x.fixed)
  | string {text : String} {parts : List (List Char)} :
      List.Forall₂ Text.Quoted.Renders text.toList parts →
      Renders (.string text) ("\"" ++ String.ofList parts.flatten ++ "\"")
  | yes : Renders (.boolean true) "true"
  | no : Renders (.boolean false) "false"
  | null : Renders .null "null"
  | enum (symbol : String) : Renders (.enum symbol) symbol
  | list {items : List Value} {text : String} :
      RendersItems items text → Renders (.list items) ("[" ++ text ++ "]")
  | object {fields : List (String × Value)} {text : String} :
      RendersFields fields text → Renders (.object fields) ("\x7b" ++ text ++ "\x7d")

/-- What the text of items is: a comma and a space stand between two of them. -/
inductive RendersItems : List Value → String → Prop
  | none : RendersItems [] ""
  | one {item : Value} {text : String} : Renders item text → RendersItems [item] text
  | more {item next : Value} {rest : List Value} {text others : String} :
      Renders item text → RendersItems (next :: rest) others →
      RendersItems (item :: next :: rest) (text ++ ", " ++ others)

/-- What the text of fields is, each of which has its name before its value. -/
inductive RendersFields : List (String × Value) → String → Prop
  | none : RendersFields [] ""
  | one {name : String} {value : Value} {text : String} :
      Renders value text → RendersFields [(name, value)] (name ++ ": " ++ text)
  | more {name : String} {value : Value} {next : String × Value} {rest : List (String × Value)}
      {text others : String} : Renders value text → RendersFields (next :: rest) others →
      RendersFields ((name, value) :: next :: rest) (name ++ ": " ++ text ++ ", " ++ others)

end

mutual

/-- There is one text at most. -/
theorem Renders.unique {v : Value} {text other : String} (first : Renders v text)
    (second : Renders v other) : text = other := by
  cases first with
  | name | int | float | yes | no | null | enum =>
    cases second
    rfl
  | string written =>
    cases second with
    | string written' =>
      have only : Relator.RightUnique Text.Quoted.Renders := fun _ _ _ =>
        Text.Quoted.Renders.unique
      rw [List.right_unique_forall₂' only written written']
  | list written =>
    cases second with
    | list written' => rw [RendersItems.unique written written']
  | object written =>
    cases second with
    | object written' => rw [RendersFields.unique written written']

theorem RendersItems.unique {items : List Value} {text other : String}
    (first : RendersItems items text) (second : RendersItems items other) : text = other := by
  cases first with
  | none =>
    cases second
    rfl
  | one written =>
    cases second with
    | one written' => exact Renders.unique written written'
  | more written later =>
    cases second with
    | more written' later' =>
      rw [Renders.unique written written', RendersItems.unique later later']

theorem RendersFields.unique {fields : List (String × Value)} {text other : String}
    (first : RendersFields fields text) (second : RendersFields fields other) : text = other := by
  cases first with
  | none =>
    cases second
    rfl
  | one written =>
    cases second with
    | one written' => rw [Renders.unique written written']
  | more written later =>
    cases second with
    | more written' later' =>
      rw [Renders.unique written written', RendersFields.unique later later']

end

theorem renders_encode (text : String) :
    Renders (.string text) (String.ofList (Text.Quoted.encode text.toList)) := by
  have escaped : List.Forall₂ Text.Quoted.Renders text.toList
      (text.toList.map Text.Quoted.escape) :=
    List.forall₂_map_right_iff.2
      (List.forall₂_same.2 fun c _ => Text.Quoted.renders_escape c)
  have quoted : String.ofList (Text.Quoted.encode text.toList) =
      "\"" ++ String.ofList (text.toList.map Text.Quoted.escape).flatten ++ "\"" := by
    apply String.toList_injective
    simp [Text.Quoted.encode, List.flatMap_def]
  rw [quoted]
  exact .string escaped

theorem rendersItems_map {write : Value → String} {items : List Value}
    (each : ∀ item ∈ items, Renders item (write item)) :
    RendersItems items (", ".intercalate (items.map write)) := by
  induction items with
  | nil => exact .none
  | cons item rest ih =>
    obtain ⟨first, others⟩ := List.forall_mem_cons.1 each
    cases rest with
    | nil =>
      rw [List.map_singleton, String.intercalate_singleton]
      exact .one first
    | cons next rest =>
      rw [List.map_cons, List.map_cons, String.intercalate_cons_cons]
      exact .more first (ih others)

theorem rendersFields_map {write : Value → String} {fields : List (String × Value)}
    (each : ∀ field ∈ fields, Renders field.2 (write field.2)) :
    RendersFields fields
      (", ".intercalate (fields.map fun field => field.1 ++ ": " ++ write field.2)) := by
  induction fields with
  | nil => exact .none
  | cons field rest ih =>
    obtain ⟨first, others⟩ := List.forall_mem_cons.1 each
    cases rest with
    | nil =>
      rw [List.map_singleton, String.intercalate_singleton]
      exact .one first
    | cons next rest =>
      rw [List.map_cons, List.map_cons, String.intercalate_cons_cons]
      exact .more first (ih others)

/-! ## Ways to write values -/

/-- A way to write values that writes each kind as it should, if it does so for what is inside. -/
structure Writes (write : Value → String) : Prop where
  name (name : String) : write (.variable name) = "$" ++ name
  int (n : Int64) : write (.int n) = toString n.toInt
  float (x : Numeric.Binary64) : write (.float x) = String.ofList x.fixed
  string (text : String) :
    write (.string text) = String.ofList (Text.Quoted.encode text.toList)
  boolean (value : Bool) : write (.boolean value) = if value then "true" else "false"
  null : write .null = "null"
  enum (symbol : String) : write (.enum symbol) = symbol
  list (items : List Value) :
    write (.list items) = "[" ++ ", ".intercalate (items.map write) ++ "]"
  object (fields : List (String × Value)) :
    write (.object fields) = "\x7b" ++
      ", ".intercalate (fields.map fun field => field.1 ++ ": " ++ write field.2) ++ "\x7d"

mutual

theorem Writes.renders {write : Value → String} (writes : Writes write) (v : Value) :
    Renders v (write v) := by
  cases v with
  | «variable» name =>
    rw [writes.name]
    exact .name name
  | int n =>
    rw [writes.int]
    exact .int n
  | float x =>
    rw [writes.float]
    exact .float x
  | string text =>
    rw [writes.string]
    exact renders_encode text
  | boolean value =>
    rw [writes.boolean]
    cases value with
    | true => exact .yes
    | false => exact .no
  | null =>
    rw [writes.null]
    exact .null
  | enum symbol =>
    rw [writes.enum]
    exact .enum symbol
  | list items =>
    rw [writes.list]
    exact .list (rendersItems_map (writes.items items))
  | object fields =>
    rw [writes.object]
    exact .object (rendersFields_map (writes.fields fields))

theorem Writes.items {write : Value → String} (writes : Writes write) :
    (items : List Value) → ∀ item ∈ items, Renders item (write item)
  | [] => by simp
  | item :: rest => List.forall_mem_cons.2 ⟨writes.renders item, writes.items rest⟩

theorem Writes.fields {write : Value → String} (writes : Writes write) :
    (fields : List (String × Value)) → ∀ field ∈ fields, Renders field.2 (write field.2)
  | [] => by simp
  | (_, value) :: rest => List.forall_mem_cons.2 ⟨writes.renders value, writes.fields rest⟩

end

theorem itemTexts_eq_map (items : List Value) : itemTexts items = items.map valueText := by
  induction items with
  | nil => rfl
  | cons item rest ih => rw [itemTexts, ih, List.map_cons]

theorem fieldTexts_eq_map (fields : List (String × Value)) :
    fieldTexts fields = fields.map fun field => field.1 ++ ": " ++ valueText field.2 := by
  induction fields with
  | nil => rfl
  | cons field rest ih => rw [fieldTexts, ih, List.map_cons]

theorem writes_valueText : Writes valueText where
  name _ := rfl
  int _ := rfl
  float _ := rfl
  string _ := rfl
  boolean value := by cases value <;> rfl
  null := rfl
  enum _ := rfl
  list items := by rw [valueText, itemTexts_eq_map]
  object fields := by rw [valueText, fieldTexts_eq_map]

end Schema

namespace Echo

theorem writes_echo : Schema.Writes fun v => valueText (.ofSchema v) where
  name _ := rfl
  int _ := rfl
  float _ := rfl
  string _ := rfl
  boolean value := by cases value <;> rfl
  null := rfl
  enum _ := rfl
  list items := by rw [Wire.Value.ofSchema, valueText, itemTexts_eq]
  object fields := by rw [Wire.Value.ofSchema, valueText, fieldTexts_eq]

/-! ## Types -/

theorem typeText?_ofSchema (t : Schema.TypeRef) : typeText? (.ofSchema t) = some t.text := by
  induction t with
  | named nonNull type => cases nonNull <;> rfl
  | list nonNull element ih =>
    rw [Wire.TypeRef.ofSchema, typeText?, ih]
    cases nonNull with
    | true => exact congrArg some (String.append_assoc ..)
    | false => rfl

/-! ## Both texts -/

/-- An echo writes every value and every type of a file as the file shows it, and what it shows is
the one text that the rules allow. -/
theorem texts_agree :
    (∀ v : Schema.Value, valueText (.ofSchema v) = Schema.valueText v ∧
      ∀ text, Schema.Renders v text ↔ text = Schema.valueText v) ∧
    ∀ t : Schema.TypeRef, typeText? (.ofSchema t) = some t.text := by
  refine ⟨fun v => ?_, typeText?_ofSchema⟩
  have shown : Schema.Renders v (Schema.valueText v) := Schema.writes_valueText.renders v
  have echoed : Schema.Renders v (valueText (.ofSchema v)) := writes_echo.renders v
  refine ⟨echoed.unique shown, fun text => ⟨fun renders => renders.unique shown, ?_⟩⟩
  rintro rfl
  exact shown

end Echo

end SdlCompiler
