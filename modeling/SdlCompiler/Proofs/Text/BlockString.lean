import SdlCompiler.Proofs.Outcome
import SdlCompiler.Text.BlockString

/-!
# The characters of a block string

The value of a block string has no character that is not written in it, apart from the line feeds
between its lines.
-/

namespace SdlCompiler.Text

theorem mem_of_mem_lines {text line : List Char} {c : Char} (isLine : line ∈ lines text)
    (member : c ∈ line) : c ∈ text := by
  fun_induction lines text generalizing line with
  | case1 => cases isLine
  | case2 rest ih | case3 rest ih =>
    rcases List.mem_cons.1 isLine with rfl | later
    · cases member
    · simp [ih later member]
  | case4 d rest _ _ found ih =>
    rw [List.mem_singleton.1 isLine] at member
    rw [List.mem_singleton.1 member]
    exact List.mem_cons_self
  | case5 d rest _ _ first others found ih =>
    rcases List.mem_cons.1 isLine with rfl | later
    · rcases List.mem_cons.1 member with rfl | inLine
      · exact List.mem_cons_self
      · exact List.mem_cons_of_mem _ (ih (found ▸ List.mem_cons_self) inLine)
    · exact List.mem_cons_of_mem _ (ih (found ▸ List.mem_cons_of_mem _ later) member)

theorem mem_joinLines {ls : List (List Char)} {c : Char} (member : c ∈ joinLines ls) :
    c = '\n' ∨ ∃ line ∈ ls, c ∈ line := by
  fun_induction joinLines ls with
  | case1 => cases member
  | case2 line => exact .inr ⟨line, List.mem_cons_self, member⟩
  | case3 line more _ ih =>
    rcases List.mem_append.1 member with inLine | later
    · exact .inr ⟨line, List.mem_cons_self, inLine⟩
    · rcases List.mem_cons.1 later with isFeed | inMore
      · exact .inl isFeed
      · rcases ih inMore with isFeed | ⟨other, isLine, inOther⟩
        · exact .inl isFeed
        · exact .inr ⟨other, List.mem_cons_of_mem _ isLine, inOther⟩

namespace BlockString

open Outcome

theorem mem_of_mem_unescape {text : List Char} {c : Char} (member : c ∈ unescape text) :
    c ∈ text := by
  fun_induction unescape text with
  | case1 => cases member
  | case2 rest ih =>
    simp only [List.mem_cons] at member ⊢
    tauto
  | case3 d rest _ ih =>
    rcases List.mem_cons.1 member with rfl | later
    · exact List.mem_cons_self
    · exact List.mem_cons_of_mem _ (ih later)

theorem mem_of_mem_dropBytes {n : Nat} {text rest : List Char} {c : Char}
    (dropped : dropBytes? n text = some rest) (member : c ∈ rest) : c ∈ text := by
  fun_induction dropBytes? n text with
  | case1 =>
    cases dropped
    exact member
  | case2 =>
    cases dropped
    exact member
  | case3 n d text _ ih => exact List.mem_cons_of_mem _ (ih dropped)
  | case4 => cases dropped

theorem mem_of_mem_cutIndentation {n : Nat} {line rest : List Char} {c : Char}
    (cut : cutIndentation n line = .ok rest) (member : c ∈ rest) : c ∈ line := by
  unfold cutIndentation at cut
  split at cut
  · next dropped =>
    cases cut
    exact mem_of_mem_dropBytes dropped member
  · cases cut

theorem mem_of_mem_dropBlankEnd {ls : List (List Char)} {line : List Char}
    (member : line ∈ dropBlankEnd ls) : line ∈ ls := by
  unfold dropBlankEnd at member
  exact List.mem_reverse.1 ((List.dropWhile_sublist _).mem (List.mem_reverse.1 member))

/-- The lines that are left have only characters of the lines that were there. -/
theorem mem_of_mem_cutLines {n : Nat} {ls cut : List (List Char)} {line : List Char} {c : Char}
    (success : ls.mapM (cutIndentation n) = .ok cut) (isLine : line ∈ cut) (member : c ∈ line) :
    ∃ whole ∈ ls, c ∈ whole := by
  obtain ⟨whole, present, cutLine⟩ := exists_of_forall₂ (mapM_eq_ok.1 success).flip isLine
  exact ⟨whole, present, mem_of_mem_cutIndentation cutLine member⟩

theorem mem_of_mem_dedent {ls left : List (List Char)} {line : List Char} {c : Char}
    (success : dedent ls = .ok left) (isLine : line ∈ left) (member : c ∈ line) :
    ∃ whole ∈ ls, c ∈ whole := by
  cases ls with
  | nil =>
    cases success
    cases isLine
  | cons opening others =>
    rw [dedent] at success
    split at success
    · obtain ⟨whole, present, inWhole⟩ := mem_of_mem_cutLines success isLine member
      have isOther := (List.dropWhile_sublist _).mem (mem_of_mem_dropBlankEnd present)
      exact ⟨whole, List.mem_cons_of_mem _ isOther, inWhole⟩
    · obtain ⟨cut, cutOthers, same⟩ := bind_eq_ok.1 success
      obtain rfl := pure_eq_ok.1 same
      rcases List.mem_cons.1 isLine with rfl | later
      · exact ⟨line, List.mem_cons_self, member⟩
      · obtain ⟨whole, present, inWhole⟩ := mem_of_mem_cutLines cutOthers later member
        exact ⟨whole, List.mem_cons_of_mem _ (mem_of_mem_dropBlankEnd present), inWhole⟩

theorem mem_of_mem_value {raw text : List Char} {c : Char} (success : value raw = .ok text)
    (member : c ∈ text) : c = '\n' ∨ c ∈ raw := by
  rw [value] at success
  split at success
  · cases success
    cases member
  · split at success
    · cases success
    · obtain ⟨left, dedented, same⟩ := bind_eq_ok.1 success
      obtain rfl := pure_eq_ok.1 same
      rcases mem_joinLines member with isFeed | ⟨line, isLine, inLine⟩
      · exact .inl isFeed
      · obtain ⟨escaped, present, rfl⟩ := List.mem_map.1 isLine
        obtain ⟨whole, isWhole, inWhole⟩ :=
          mem_of_mem_dedent dedented present (mem_of_mem_unescape inLine)
        exact .inr (mem_of_mem_lines isWhole inWhole)

end BlockString

end SdlCompiler.Text
