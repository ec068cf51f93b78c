import SdlCompiler.Proofs.Text.Bytes
import SdlCompiler.Proofs.Wire.Records

/-!
# Fields merged back

One law for each kind of field: merging the records that the field is written as puts its value
where there was the default, and takes as many levels as the messages in it nest.
-/

namespace SdlCompiler.Wire

variable {σ τ : Type}

theorem Record.text?_toUTF8 (number : Nat) (text : String) :
    Record.text? ⟨number, .bytes text.toUTF8.toList⟩ = some text := by
  show String.fromUTF8? text.toUTF8.toList.toByteArray = some text
  rw [Text.toList_toUTF8, Text.fromUTF8?_bytesOf, String.ofList_toList]

/-! ## Merging -/

/-- Merging the records turns `before` into `after` if so many levels are left, and fails with
fewer. The records are ones that can be written and read. -/
structure Restores (merge : Nat → σ → Record → Option σ) (levels : Nat) (before : σ)
    (rs : List Record) (after : σ) : Prop where
  writable : ∀ r ∈ rs, r.Writable
  merged : (writeRecords rs).length < 2 ^ 64 → ∀ limit,
    rs.foldlM (merge limit) before = if levels ≤ limit then some after else none

/-- Levels of the messages, each counted with the one that it is itself. -/
def nesting (depth : τ → Nat) (ms : List τ) : Nat :=
  ms.foldr (fun m rest => max (depth m + 1) rest) 0

namespace Restores

variable {merge : Nat → σ → Record → Option σ}

theorem nil {s : σ} : Restores merge 0 s [] s :=
  ⟨nofun, fun _ _ => rfl⟩

theorem append {s t u : σ} {rs more : List Record} {n k : Nat} (first : Restores merge n s rs t)
    (second : Restores merge k t more u) : Restores merge (max n k) s (rs ++ more) u := by
  constructor
  · intro r member
    rcases List.mem_append.1 member with left | right
    · exact first.writable r left
    · exact second.writable r right
  · intro fits limit
    rw [writeRecords_append, List.length_append] at fits
    rw [List.foldlM_append, first.merged (by omega)]
    by_cases room : n ≤ limit
    · simp [room, second.merged (by omega)]
    · simp [room]

/-- A field of which nothing is embedded, after other fields. -/
theorem scalar {s t u : σ} {rs more : List Record} {n : Nat} (first : Restores merge n s rs t)
    (second : Restores merge 0 t more u) : Restores merge n s (rs ++ more) u := by
  have both := first.append second
  rwa [Nat.max_zero] at both

/-! ## Fields without messages -/

/-- One record that embeds no message. -/
theorem single {s t : σ} {number : Nat} {payload : Payload} (valid : ValidNumber number)
    (noGroup : ∀ levels, payload ≠ .group levels)
    (step : ∀ limit, merge limit s ⟨number, payload⟩ = some t) :
    Restores merge 0 s [⟨number, payload⟩] t := by
  constructor
  · intro r member
    obtain rfl := List.mem_singleton.1 member
    exact ⟨valid, noGroup⟩
  · intro _ limit
    simp [step]

theorem ofText (f : String → σ) (number : Nat) (text : String) (valid : ValidNumber number)
    (step : ∀ limit payload, merge limit (f "") ⟨number, payload⟩ =
      do return f (← Record.text? ⟨number, payload⟩)) :
    Restores merge 0 (f "") (Record.ofText number text) (f text) := by
  unfold Record.ofText
  split
  · rename_i empty
    rw [empty]
    exact nil
  · refine single valid nofun fun limit => ?_
    rw [step, Record.text?_toUTF8]
    rfl

theorem ofTexts (f : List String → σ) (number : Nat) (texts before : List String)
    (valid : ValidNumber number)
    (step : ∀ limit before payload, merge limit (f before) ⟨number, payload⟩ =
      do return f (before ++ [← Record.text? ⟨number, payload⟩])) :
    Restores merge 0 (f before) (Record.ofTexts number texts) (f (before ++ texts)) := by
  -- Each record adds to the texts that were there before it.
  induction texts generalizing before with
  | nil =>
    rw [List.append_nil]
    exact nil
  | cons text texts ih =>
    have first : Restores merge 0 (f before) [⟨number, .bytes text.toUTF8.toList⟩]
        (f (before ++ [text])) := by
      refine single valid nofun fun limit => ?_
      rw [step, Record.text?_toUTF8]
      rfl
    have all := first.scalar (ih (before ++ [text]))
    rwa [List.append_assoc] at all

/-- A negative number is written with its sign in all of the upper bits. -/
theorem toInt32_toInt64 (n : Int32) : n.toInt64.toUInt64.toUInt32.toInt32 = n := by
  apply Int32.toBitVec_inj.1
  show (BitVec.signExtend 64 n.toBitVec).setWidth 32 = n.toBitVec
  apply BitVec.eq_of_getLsbD_eq
  intro i within
  have wider : i < 64 := by omega
  rw [BitVec.getLsbD_setWidth, BitVec.getLsbD_signExtend]
  simp [within, wider]

theorem ofInt32 (f : Int32 → σ) (number : Nat) (n : Int32) (valid : ValidNumber number)
    (step : ∀ limit payload, merge limit (f 0) ⟨number, payload⟩ =
      do return f (← Record.int32? ⟨number, payload⟩)) :
    Restores merge 0 (f 0) (Record.ofInt32 number n) (f n) := by
  unfold Record.ofInt32
  split
  · rename_i zero
    rw [zero]
    exact nil
  · refine single valid nofun fun limit => ?_
    rw [step]
    exact congrArg (fun m => some (f m)) (toInt32_toInt64 n)

theorem ofBool (f : Bool → σ) (number : Nat) (b : Bool) (valid : ValidNumber number)
    (step : ∀ limit payload, merge limit (f false) ⟨number, payload⟩ =
      do return f (← Record.bool? ⟨number, payload⟩)) :
    Restores merge 0 (f false) (Record.ofBool number b) (f b) := by
  cases b with
  | false => exact nil
  | true =>
    refine single valid nofun fun limit => ?_
    rw [step]
    rfl

/-! ## Fields with messages -/

/-- A record that embeds the records of a message. Merging it fails with no level left. -/
theorem embedded {inner : Nat → τ → Record → Option τ} {n : Nat} {s : σ} {before after : τ}
    {rs : List Record} (f : τ → σ) (number : Nat) (message : Restores inner n before rs after)
    (valid : ValidNumber number)
    (stop : ∀ payload, merge 0 s ⟨number, payload⟩ = none)
    (step : ∀ limit payload, merge (limit + 1) s ⟨number, payload⟩ =
      do return f (← (← Record.embedded? ⟨number, payload⟩).foldlM (inner limit) before)) :
    Restores merge (n + 1) s [⟨number, .bytes (writeRecords rs)⟩] (f after) := by
  constructor
  · intro r member
    obtain rfl := List.mem_singleton.1 member
    exact ⟨valid, nofun⟩
  · intro fits limit
    -- The contents are shorter than the record around them, so the bound holds for them too.
    have shorter : (writeRecords rs).length < 2 ^ 64 := by
      simp only [writeRecords, List.flatMap_singleton, Record.toBytes, List.length_append] at fits ⊢
      omega
    cases limit with
    | zero => simp [stop]
    | succ limit =>
      have read : Record.embedded? ⟨number, .bytes (writeRecords rs)⟩ = some rs :=
        readRecords?_writeRecords rs message.writable shorter
      rw [List.foldlM_cons, step, read]
      simp only [Option.bind_eq_bind, Option.bind_some, message.merged shorter,
        Nat.add_le_add_iff_right]
      split <;> rfl

/-- The messages of a list, each embedded in a record of its own. -/
theorem embeddedList {inner : Nat → τ → Record → Option τ} {depth : τ → Nat} {empty : τ}
    {records : τ → List Record} (f : List τ → σ) (number : Nat) (ms before : List τ)
    (messages : ∀ m ∈ ms, Restores inner (depth m) empty (records m) m)
    (valid : ValidNumber number)
    (stop : ∀ before payload, merge 0 (f before) ⟨number, payload⟩ = none)
    (step : ∀ limit before payload, merge (limit + 1) (f before) ⟨number, payload⟩ =
      do return f (before ++
        [← (← Record.embedded? ⟨number, payload⟩).foldlM (inner limit) empty])) :
    Restores merge (nesting depth ms) (f before)
      (ms.map fun m => ⟨number, .bytes (writeRecords (records m))⟩) (f (before ++ ms)) := by
  induction ms generalizing before with
  | nil =>
    rw [List.append_nil]
    exact nil
  | cons m ms ih =>
    have first := embedded (fun m => f (before ++ [m])) number (messages m List.mem_cons_self)
      valid (stop before) (fun limit => step limit before)
    have rest := ih (before ++ [m]) fun m member => messages m (List.mem_cons_of_mem _ member)
    have all := first.append rest
    rwa [List.append_assoc] at all

end Restores

/-! ## Messages -/

/-- A type of messages of which every message is merged back from its records, and the number of
levels that messages nest below one of them. -/
class Nested (μ : Type) [Message μ] where
  depth : μ → Nat
  restores : ∀ m : μ, Restores Message.merge (depth m) Message.empty (Message.records m) m

export Nested (depth)

/-- Levels below a message that may be missing. -/
def optionNesting (depth : τ → Nat) (m : Option τ) : Nat :=
  nesting depth m.toList

namespace Restores

variable {μ : Type} [Message μ] [Nested μ] {merge : Nat → σ → Record → Option σ}

theorem ofMessage (f : Option μ → σ) (number : Nat) (m : Option μ) (valid : ValidNumber number)
    (step : ∀ limit payload, merge limit (f none) ⟨number, payload⟩ =
      do return f (some (← Record.into? limit Message.empty ⟨number, payload⟩))) :
    Restores merge (optionNesting depth m) (f none) (Record.ofMessage number m) (f m) := by
  cases m with
  | none => exact nil
  | some m =>
    have one := embedded (fun m => f (some m)) number (Nested.restores m) valid (step 0)
      fun limit payload => (step (limit + 1) payload).trans (Option.bind_assoc _ _ _)
    rwa [← Nat.max_zero (depth m + 1)] at one

theorem ofMessages (f : List μ → σ) (number : Nat) (ms : List μ) (valid : ValidNumber number)
    (step : ∀ limit before payload, merge limit (f before) ⟨number, payload⟩ =
      do return f (before ++ [← Record.message? limit ⟨number, payload⟩])) :
    Restores merge (nesting depth ms) (f []) (Record.ofMessages number ms) (f ms) :=
  embeddedList f number ms [] (fun m _ => Nested.restores m) valid (step 0)
    fun limit before payload => (step (limit + 1) before payload).trans (Option.bind_assoc _ _ _)

end Restores

/-- A message that is written is read back if it does not nest deeper than the limit; if it does,
it is not read at all. -/
theorem Message.decode?_encode {μ : Type} [Message μ] [Nested μ] (m : μ)
    (fits : (Message.encode m).length < 2 ^ 64) :
    Message.decode? (Message.encode m) = if depth m ≤ 100 then some m else none := by
  have law := Nested.restores m
  rw [Message.decode?, Message.encode, readRecords?_writeRecords _ law.writable fits]
  exact law.merged fits 100

end SdlCompiler.Wire
