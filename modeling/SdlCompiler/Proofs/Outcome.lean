import Mathlib.Data.List.Forall2

/-!
# Computations that may fail

When a chain of computations succeeds: each of its links does. When a list of them succeeds:
each member does, and the results stand in the order of the members. What they fail with, if each
link and each member fails with errors of one kind.
-/

namespace SdlCompiler.Outcome

variable {ε δ α β : Type}

theorem bind_eq_ok {outcome : Except ε α} {next : α → Except ε β} {b : β} :
    (outcome >>= next) = .ok b ↔ ∃ a, outcome = .ok a ∧ next a = .ok b := by
  cases outcome with
  | error e => simp [bind, Except.bind]
  | ok a => simp [bind, Except.bind]

theorem pure_eq_ok {a b : α} : (pure a : Except ε α) = .ok b ↔ a = b := by
  simp [pure, Except.pure]

theorem map_eq_ok {outcome : Except ε α} {f : α → β} {b : β} :
    outcome.map f = .ok b ↔ ∃ a, outcome = .ok a ∧ f a = b := by
  cases outcome <;> simp [Except.map]

theorem map_eq_error {outcome : Except ε α} {f : α → β} {e : ε} :
    outcome.map f = .error e ↔ outcome = .error e := by
  cases outcome <;> simp [Except.map]

theorem mapError_eq_ok {outcome : Except ε α} {f : ε → δ} {a : α} :
    outcome.mapError f = .ok a ↔ outcome = .ok a := by
  cases outcome <;> simp [Except.mapError]

theorem exists_of_isOk {outcome : Except ε α} (success : outcome.isOk = true) :
    ∃ a, outcome = .ok a := by
  cases outcome with
  | error e => cases success
  | ok a => exact ⟨a, rfl⟩

/-- The error of a computation that fails. -/
def error? : Except ε α → Option ε
  | .error e => some e
  | .ok _ => none

theorem eq_error_of_error? {outcome : Except ε α} {e : ε} (failed : error? outcome = some e) :
    outcome = .error e := by
  cases outcome with
  | error other =>
    cases failed
    rfl
  | ok a => cases failed

theorem mapM_eq_ok {f : α → Except ε β} {xs : List α} {ys : List β} :
    xs.mapM f = .ok ys ↔ List.Forall₂ (fun x y => f x = .ok y) xs ys := by
  induction xs generalizing ys with
  | nil => cases ys <;> simp [pure_eq_ok]
  | cons x xs ih =>
    simp only [List.mapM_cons, bind_eq_ok, pure_eq_ok, List.forall₂_cons_left_iff, ih]
    constructor
    · rintro ⟨y, head, ys, tail, rfl⟩
      exact ⟨y, ys, head, tail, rfl⟩
    · rintro ⟨y, ys, head, tail, rfl⟩
      exact ⟨y, head, ys, tail, rfl⟩

/-- A list of computations fails with the error of the first that does. -/
theorem mapM_eq_error {f : α → Except ε β} {before after : List α} {x : α} {e : ε}
    (passed : ∀ y ∈ before, ∃ b, f y = .ok b) (failed : f x = .error e) :
    (before ++ x :: after).mapM f = .error e := by
  induction before with
  | nil =>
    rw [List.nil_append, List.mapM_cons, failed]
    rfl
  | cons y before ih =>
    obtain ⟨⟨b, first⟩, later⟩ := List.forall_mem_cons.1 passed
    rw [List.cons_append, List.mapM_cons, first, ih later]
    rfl

theorem forall₂_of_forall_exists {R : α → β → Prop} {xs : List α}
    (related : ∀ x ∈ xs, ∃ y, R x y) : ∃ ys, List.Forall₂ R xs ys := by
  induction xs with
  | nil => exact ⟨[], .nil⟩
  | cons x xs ih =>
    obtain ⟨y, head⟩ := related x (by simp)
    obtain ⟨ys, tail⟩ := ih fun z member => related z (by simp [member])
    exact ⟨y :: ys, .cons head tail⟩

theorem exists_of_forall₂ {R : α → β → Prop} {xs : List α} {ys : List β}
    (related : List.Forall₂ R xs ys) {x : α} (member : x ∈ xs) : ∃ y ∈ ys, R x y := by
  induction related with
  | nil => simp at member
  | cons head _ ih =>
    rcases List.mem_cons.mp member with rfl | inTail
    · exact ⟨_, by simp, head⟩
    · obtain ⟨y, present, holds⟩ := ih inTail
      exact ⟨y, by simp [present], holds⟩

theorem exists_getElem?_of_forall₂ {R : α → β → Prop} {xs : List α} {ys : List β}
    (related : List.Forall₂ R xs ys) {place : Nat} {x : α} (found : xs[place]? = some x) :
    ∃ y, ys[place]? = some y ∧ R x y := by
  induction related generalizing place with
  | nil => cases found
  | cons head _ ih =>
    cases place with
    | zero =>
      cases found
      exact ⟨_, rfl, head⟩
    | succ place => exact ih found

/-- A list of computations succeeds in the same way, if each of them does. -/
theorem mapM_mono {f g : α → Except ε β} {xs : List α} {ys : List β}
    (success : xs.mapM f = .ok ys) (each : ∀ x ∈ xs, ∀ y, f x = .ok y → g x = .ok y) :
    xs.mapM g = .ok ys := by
  rw [mapM_eq_ok] at success ⊢
  induction success with
  | nil => exact .nil
  | cons head _ ih =>
    obtain ⟨first, later⟩ := List.forall_mem_cons.1 each
    exact .cons (first _ head) (ih later)

theorem exists_mapM_eq_ok {f : α → Except ε β} {xs : List α} :
    (∃ ys, xs.mapM f = .ok ys) ↔ ∀ x ∈ xs, ∃ y, f x = .ok y := by
  simp only [mapM_eq_ok]
  constructor
  · rintro ⟨ys, related⟩ x member
    obtain ⟨y, -, holds⟩ := exists_of_forall₂ related member
    exact ⟨y, holds⟩
  · exact forall₂_of_forall_exists

/-- A list of computations that each succeed with a property. -/
theorem exists_mapM_of_forall {f : α → Except ε β} {P : α → β → Prop} {xs : List α}
    (each : ∀ x ∈ xs, ∃ y, f x = .ok y ∧ P x y) :
    ∃ ys, xs.mapM f = .ok ys ∧ List.Forall₂ P xs ys := by
  obtain ⟨ys, related⟩ := forall₂_of_forall_exists each
  exact ⟨ys, mapM_eq_ok.2 (related.imp fun _ _ both => both.1), related.imp fun _ _ both => both.2⟩

theorem map_eq_of_forall₂ {γ : Type} {f : α → γ} {g : β → γ} {xs : List α} {ys : List β}
    (related : List.Forall₂ (fun x y => g y = f x) xs ys) : ys.map g = xs.map f := by
  induction related with
  | nil => rfl
  | cons head _ ih => rw [List.map_cons, List.map_cons, head, ih]

theorem option_mapM_eq_ok {f : α → Except ε β} {x : Option α} {y : Option β} :
    x.mapM f = .ok y ↔
      (x = none ∧ y = none) ∨ ∃ a b, x = some a ∧ f a = .ok b ∧ y = some b := by
  cases x with
  | none => cases y <;> simp [pure_eq_ok]
  | some a =>
    simp only [Option.mapM_some, Functor.map, map_eq_ok]
    constructor
    · rintro ⟨b, built, rfl⟩
      exact .inr ⟨a, b, rfl, built, rfl⟩
    · rintro (⟨absurd, -⟩ | ⟨_, b, equal, built, rfl⟩)
      · cases absurd
      · cases equal
        exact ⟨b, built, rfl⟩

theorem exists_option_mapM_eq_ok {f : α → Except ε β} {x : Option α} :
    (∃ y, x.mapM f = .ok y) ↔ ∀ a, x = some a → ∃ b, f a = .ok b := by
  cases x with
  | none => simp [pure_eq_ok]
  | some a => simp [Functor.map, map_eq_ok]

/-- What comes after the first computation succeeds in one case, whatever the first gives. -/
theorem exists_bind_eq_ok {outcome : Except ε α} {next : α → Except ε β} {possible : Prop}
    (after : ∀ a, (∃ b, next a = .ok b) ↔ possible) :
    (∃ b, (outcome >>= next) = .ok b) ↔ (∃ a, outcome = .ok a) ∧ possible := by
  cases outcome with
  | error e => simp [bind, Except.bind]
  | ok a => simpa [bind, Except.bind] using after a

theorem exists_bind_pure_eq_ok {outcome : Except ε α} {f : α → β} :
    (∃ b, (outcome >>= fun a => pure (f a)) = .ok b) ↔ ∃ a, outcome = .ok a := by
  cases outcome <;> simp [bind, Except.bind, pure, Except.pure]

/-! ## Results that may be missing -/

/-- What comes after the first computation lacks a result in one case, whatever the first gives. -/
theorem bind_eq_none {x : Option α} {next : α → Option β} {missing : Prop}
    (after : ∀ a, next a = none ↔ missing) : (x >>= next) = none ↔ x = none ∨ missing := by
  cases x with
  | none => simp
  | some a => simp [after a]

theorem bind_pure_eq_none {x : Option α} {f : α → β} :
    (x >>= fun a => pure (f a)) = none ↔ x = none := by
  cases x <;> simp

theorem map_bind {γ : Type} {x : Option α} {next : α → Option β} (f : β → γ) :
    (x >>= next).map f = x >>= fun a => (next a).map f := by
  cases x <;> rfl

theorem map_pure (a : α) (f : α → β) : (pure a : Option α).map f = pure (f a) :=
  rfl

theorem mapM_congr {f g : α → Option β} {xs : List α}
    (same : ∀ x ∈ xs, f x = g x) : xs.mapM f = xs.mapM g := by
  induction xs with
  | nil => rfl
  | cons x xs ih =>
    obtain ⟨first, others⟩ := List.forall_mem_cons.1 same
    rw [List.mapM_cons, List.mapM_cons, first, ih others]

theorem mapM_eq_none {f : α → Option β} {xs : List α} :
    xs.mapM f = none ↔ ∃ x ∈ xs, f x = none := by
  induction xs with
  | nil => simp
  | cons x xs ih =>
    rw [List.mapM_cons, bind_eq_none fun _ => bind_pure_eq_none, ih]
    simp

theorem mapM_eq_some {f : α → Option β} {xs : List α} {ys : List β} :
    xs.mapM f = some ys ↔ List.Forall₂ (fun x y => f x = some y) xs ys := by
  induction xs generalizing ys with
  | nil => cases ys <;> simp
  | cons x xs ih =>
    simp only [List.mapM_cons, Option.bind_eq_bind, Option.bind_eq_some_iff, Option.pure_def,
      Option.some_inj, List.forall₂_cons_left_iff, ih]
    constructor
    · rintro ⟨y, head, ys, tail, rfl⟩
      exact ⟨y, ys, head, tail, rfl⟩
    · rintro ⟨y, ys, head, tail, rfl⟩
      exact ⟨y, head, ys, tail, rfl⟩

/-! ## Errors -/

/-- A computation that fails, if at all, with an error of some kind. -/
def FailsWith (E : ε → Prop) (outcome : Except ε α) : Prop :=
  ∀ e, outcome = .error e → E e

variable {E : ε → Prop}

theorem failsWith_ok (a : α) : FailsWith E (.ok a) := by
  rintro e ⟨⟩

theorem failsWith_error {e : ε} (holds : E e) : FailsWith E (.error e : Except ε α) := by
  rintro e' ⟨⟩
  exact holds

theorem FailsWith.bind {outcome : Except ε α} {next : α → Except ε β}
    (first : FailsWith E outcome) (second : ∀ a, FailsWith E (next a)) :
    FailsWith E (outcome >>= next) := by
  cases outcome with
  | error e =>
    rintro e' ⟨⟩
    exact first e rfl
  | ok a => exact second a

theorem failsWith_mapM {f : α → Except ε β} {xs : List α}
    (each : ∀ x ∈ xs, FailsWith E (f x)) : FailsWith E (xs.mapM f) := by
  induction xs with
  | nil => exact failsWith_ok []
  | cons x xs ih =>
    obtain ⟨first, later⟩ := List.forall_mem_cons.1 each
    rw [List.mapM_cons]
    exact first.bind fun y => (ih later).bind fun ys => failsWith_ok (y :: ys)

theorem failsWith_foldlM {f : β → α → Except ε β} (each : ∀ s x, FailsWith E (f s x))
    (xs : List α) (start : β) : FailsWith E (xs.foldlM f start) := by
  induction xs generalizing start with
  | nil => exact failsWith_ok start
  | cons x xs ih =>
    rw [List.foldlM_cons]
    exact (each start x).bind ih

end SdlCompiler.Outcome
