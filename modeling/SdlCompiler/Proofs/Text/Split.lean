import Mathlib.Data.List.Infix
import SdlCompiler.Text.Split

/-!
# The first place of a text in another

`FirstAt` says where a text stands in another for the first time. That is where `splitOnce` cuts
(`splitOnce_eq_some`), and it cuts nowhere only if the text does not occur (`splitOnce_eq_none`).
-/

namespace SdlCompiler.Text

variable {α : Type} {mark text before after : List α} {c : α} {place : Nat}

/-- The mark stands at a place of the text, and at none before it. -/
structure FirstAt (mark text : List α) (place : Nat) : Prop where
  here : mark <+: text.drop place
  first : ∀ earlier < place, ¬mark <+: text.drop earlier

theorem firstAt_zero : FirstAt mark text 0 ↔ mark <+: text :=
  ⟨fun found => found.here, fun starts => ⟨starts, by simp⟩⟩

theorem firstAt_succ :
    FirstAt mark (c :: text) (place + 1) ↔ ¬mark <+: c :: text ∧ FirstAt mark text place := by
  constructor
  · intro found
    refine ⟨found.first 0 (Nat.succ_pos place), found.here, fun earlier less => ?_⟩
    exact found.first (earlier + 1) (Nat.succ_lt_succ less)
  · rintro ⟨notHere, later⟩
    refine ⟨later.here, fun earlier less => ?_⟩
    cases earlier with
    | zero => exact notHere
    | succ earlier => exact later.first earlier (Nat.lt_of_succ_lt_succ less)

theorem FirstAt.unique {other : Nat} (found : FirstAt mark text place)
    (foundToo : FirstAt mark text other) : place = other := by
  rcases Nat.lt_trichotomy place other with less | same | more
  · exact absurd found.here (foundToo.first place less)
  · exact same
  · exact absurd foundToo.here (found.first other more)

theorem FirstAt.isInfix (found : FirstAt mark text place) : mark <:+: text :=
  found.here.isInfix.trans (List.drop_suffix place text).isInfix

/-- What follows the mark does not matter to where it stands first: an earlier place would be
within the text up to the end of the mark. -/
theorem firstAt_append :
    FirstAt mark (before ++ mark ++ after) before.length ↔
      FirstAt mark (before ++ mark) before.length := by
  have same : ∀ earlier ≤ before.length,
      (mark <+: (before ++ mark ++ after).drop earlier ↔
        mark <+: (before ++ mark).drop earlier) := by
    intro earlier less
    have within : earlier ≤ (before ++ mark).length := by
      rw [List.length_append]
      exact Nat.le_trans less (Nat.le_add_right _ _)
    rw [List.drop_append_of_le_length within]
    constructor
    · intro starts
      refine List.prefix_of_prefix_length_le starts (List.prefix_append _ _) ?_
      rw [List.length_drop, List.length_append]
      omega
    · exact fun starts => starts.trans (List.prefix_append _ _)
  constructor
  · exact fun found => ⟨(same _ (Nat.le_refl _)).1 found.here, fun earlier less starts =>
      found.first earlier less ((same _ (Nat.le_of_lt less)).2 starts)⟩
  · exact fun found => ⟨(same _ (Nat.le_refl _)).2 found.here, fun earlier less starts =>
      found.first earlier less ((same _ (Nat.le_of_lt less)).1 starts)⟩

/-- A text without some character does not reach beyond that character. -/
theorem isPrefix_of_not_mem {tail : List α} (absent : c ∉ tail)
    (starts : tail <+: before ++ c :: after) : tail <+: before := by
  rcases Nat.lt_or_ge before.length tail.length with longer | fits
  · have reached : before ++ [c] <+: before ++ c :: after :=
      (List.prefix_append_right_inj before).2 (by simp)
    have within := List.prefix_of_prefix_length_le reached starts
      (by rw [List.length_append]; exact longer)
    exact absurd (within.subset (by simp)) absent
  · exact (List.isPrefix_append_of_length fits).1 starts

/-- A mark that holds its first character only once does not overlap itself. So behind a text it
stands first if it does not occur in the text. -/
theorem firstAt_append_iff {tail : List α} (once : c ∉ tail) :
    FirstAt (c :: tail) (before ++ c :: tail ++ after) before.length ↔
      ¬c :: tail <:+: before := by
  induction before with
  | nil => simp [firstAt_zero]
  | cons d before ih =>
    have same : c :: tail <+: d :: before ++ c :: tail ++ after ↔ c :: tail <+: d :: before := by
      rw [List.append_assoc, List.cons_append, List.cons_prefix_cons, List.cons_prefix_cons]
      refine and_congr_right fun _ => ⟨isPrefix_of_not_mem once, fun starts => ?_⟩
      exact starts.trans (List.prefix_append _ _)
    rw [List.length_cons, List.cons_append, List.cons_append, firstAt_succ, ih,
      ← List.cons_append, ← List.cons_append, same, List.infix_cons_iff, not_or]

variable [DecidableEq α]

theorem splitOnce_eq_some :
    splitOnce mark text = some (before, after) ↔
      text = before ++ mark ++ after ∧ FirstAt mark text before.length := by
  induction text generalizing before with
  | nil =>
    rw [splitOnce]
    split
    · next empty =>
      subst empty
      simp only [Option.some.injEq, Prod.mk.injEq, List.append_nil, List.nil_eq_append_iff]
      constructor
      · rintro ⟨rfl, rfl⟩
        exact ⟨⟨rfl, rfl⟩, firstAt_zero.2 List.nil_prefix⟩
      · rintro ⟨⟨rfl, rfl⟩, -⟩
        exact ⟨rfl, rfl⟩
    · next nonempty => simp [nonempty]
  | cons c rest ih =>
    rw [splitOnce]
    split
    · next starts =>
      rw [List.isPrefixOf_iff_prefix] at starts
      rw [Option.some.injEq, Prod.mk.injEq]
      constructor
      · rintro ⟨rfl, rfl⟩
        exact ⟨List.prefix_append_drop starts, firstAt_zero.2 starts⟩
      · rintro ⟨cut, found⟩
        obtain rfl := List.length_eq_zero_iff.1 (found.unique (firstAt_zero.2 starts))
        exact ⟨rfl, by rw [cut, List.nil_append, List.drop_left]⟩
    · next notHere =>
      rw [List.isPrefixOf_iff_prefix] at notHere
      rw [Option.map_eq_some_iff]
      constructor
      · rintro ⟨⟨inner, later⟩, found, same⟩
        cases same
        obtain ⟨cut, first⟩ := ih.1 found
        exact ⟨by rw [List.cons_append, List.cons_append, ← cut], firstAt_succ.2 ⟨notHere, first⟩⟩
      · rintro ⟨cut, first⟩
        cases before with
        | nil => exact absurd (firstAt_zero.1 first) notHere
        | cons d inner =>
          rw [List.cons_append, List.cons_append, List.cons.injEq] at cut
          obtain ⟨rfl, cut⟩ := cut
          exact ⟨(inner, after), ih.2 ⟨cut, (firstAt_succ.1 first).2⟩, rfl⟩

theorem splitOnce_eq_none : splitOnce mark text = none ↔ ¬mark <:+: text := by
  induction text with
  | nil => simp [splitOnce]
  | cons c rest ih =>
    rw [splitOnce, List.infix_cons_iff]
    split
    · next starts => simp [List.isPrefixOf_iff_prefix.1 starts]
    · next notHere =>
      rw [List.isPrefixOf_iff_prefix] at notHere
      simp [ih, notHere]

/-- Cutting at a mark that does not overlap itself. -/
theorem splitOnce_cons_eq_some {tail : List α} (once : c ∉ tail) :
    splitOnce (c :: tail) text = some (before, after) ↔
      text = before ++ c :: tail ++ after ∧ ¬c :: tail <:+: before := by
  rw [splitOnce_eq_some]
  constructor
  · rintro ⟨rfl, found⟩
    exact ⟨rfl, (firstAt_append_iff once).1 found⟩
  · rintro ⟨rfl, absent⟩
    exact ⟨rfl, (firstAt_append_iff once).2 absent⟩

theorem splitOnce_singleton_eq_some :
    splitOnce [c] text = some (before, after) ↔ text = before ++ c :: after ∧ c ∉ before := by
  rw [splitOnce_cons_eq_some List.not_mem_nil, List.singleton_infix_iff, List.append_assoc]
  rfl

theorem splitOnce_singleton_eq_none : splitOnce [c] text = none ↔ c ∉ text := by
  rw [splitOnce_eq_none, List.singleton_infix_iff]

/-- A text that occurs in another stands somewhere for the first time. -/
theorem exists_firstAt (occurs : mark <:+: text) :
    ∃ before after, text = before ++ mark ++ after ∧ FirstAt mark text before.length := by
  cases found : splitOnce mark text with
  | none => exact absurd occurs (splitOnce_eq_none.1 found)
  | some pieces => exact ⟨pieces.1, pieces.2, splitOnce_eq_some.1 found⟩

end SdlCompiler.Text
