import Mathlib.Algebra.Order.Field.Basic
import Mathlib.Data.List.TakeWhile
import SdlCompiler.Proofs.Numeric.Decimals

/-!
# The shortest text reads back

Seventeen significant digits tell any two finite numbers apart, so that the search for the fewest
digits ends, and the text it ends with is read as the number it was made from.
-/

namespace SdlCompiler.Numeric.Binary64

/-! ## Positional texts -/

theorem read?_unsigned {text : List Char} {d : Decimal} (negative : Bool)
    (starts : ∃ c rest, text = c :: rest ∧ isDigit c = true)
    (unsigned : Decimal.unsigned? negative text = some d) :
    read? (if negative then '-' :: text else text) = some d.toBinary64 := by
  obtain ⟨c, rest, rfl, digit⟩ := starts
  obtain ⟨positive, signed⟩ := read?_of_digit rest digit
  cases negative with
  | false => rw [if_neg Bool.false_ne_true, positive, unsigned, Option.map_some]
  | true => rw [if_pos rfl, signed, unsigned, Option.map_some]

theorem exists_cons_of_digits {digits : List Char} (nonempty : digits ≠ [])
    (all : ∀ c ∈ digits, isDigit c = true) (rest : List Char) :
    ∃ c more, digits ++ rest = c :: more ∧ isDigit c = true := by
  obtain ⟨c, more, rfl⟩ := List.exists_cons_of_ne_nil nonempty
  exact ⟨c, more ++ rest, rfl, all c List.mem_cons_self⟩

/-- Digits in positional form are read with the point where it was. -/
theorem unsigned?_positional (negative : Bool) (d : Digits) (nonempty : d.digits ≠ [])
    (all : ∀ c ∈ d.digits, isDigit c = true) :
    (∃ c rest, d.positional = c :: rest ∧ isDigit c = true) ∧
    ∃ decimal : Decimal, Decimal.unsigned? negative d.positional = some decimal ∧
      decimal.negative = negative ∧
      decimal.value = digitsValue d.digits * (10 : ℚ) ^ (d.point - d.digits.length) := by
  have zeros : ∀ count, ∀ c ∈ List.replicate count '0', isDigit c = true := by
    intro count c member
    rw [List.eq_of_mem_replicate member]
    decide
  unfold Digits.positional
  dsimp only
  split
  · -- The point is before all digits, with zeros between it and the first one.
    rename_i small
    have fraction : ∀ c ∈ List.replicate (-d.point).toNat '0' ++ d.digits, isDigit c = true :=
      List.forall_mem_append.2 ⟨zeros _, all⟩
    refine ⟨⟨'0', _, rfl, by decide⟩, _, Decimal.unsigned?_point negative
      (List.cons_ne_nil '0' []) (List.forall_mem_singleton.2 rfl) fraction, rfl, ?_⟩
    have digits : digitsValue (['0'] ++ (List.replicate (-d.point).toNat '0' ++ d.digits)) =
        digitsValue d.digits := by
      rw [← List.append_assoc]
      exact digitsValue_zeros_append ((-d.point).toNat + 1) d.digits
    have exponent : -((List.replicate (-d.point).toNat '0' ++ d.digits).length : Int) =
        d.point - d.digits.length := by
      rw [List.length_append, List.length_replicate]
      omega
    rw [Decimal.value, digits, exponent]
  split
  · -- The point is after all digits, with zeros between the last one and it.
    rename_i positive whole
    have digits : ∀ c ∈ d.digits ++ List.replicate (d.point.toNat - d.digits.length) '0',
        isDigit c = true :=
      List.forall_mem_append.2 ⟨all, zeros _⟩
    refine ⟨exists_cons_of_digits nonempty all _, _, Decimal.unsigned?_digits negative
      (List.append_ne_nil_of_left_ne_nil nonempty _) digits, rfl, ?_⟩
    have exponent :
        d.point - d.digits.length = ((d.point.toNat - d.digits.length : Nat) : Int) := by
      omega
    rw [Decimal.value, digitsValue_append, digitsValue_zeros, List.length_replicate, exponent,
      zpow_natCast]
    push_cast
    ring
  · -- The point is between two digits.
    rename_i positive short
    have wholeDigits : ∀ c ∈ d.digits.take d.point.toNat, isDigit c = true :=
      fun c member => all c (List.mem_of_mem_take member)
    have fractionDigits : ∀ c ∈ d.digits.drop d.point.toNat, isDigit c = true :=
      fun c member => all c (List.mem_of_mem_drop member)
    have first : d.digits.take d.point.toNat ≠ [] := by
      rw [Ne, List.take_eq_nil_iff, not_or]
      exact ⟨by omega, nonempty⟩
    refine ⟨exists_cons_of_digits first wholeDigits _, _, Decimal.unsigned?_point negative first
      wholeDigits fractionDigits, rfl, ?_⟩
    have exponent : -((d.digits.drop d.point.toNat).length : Int) =
        d.point - d.digits.length := by
      rw [List.length_drop]
      omega
    rw [Decimal.value, List.take_append_drop, exponent]

/-! ## The place of the point -/

/-- Among the counts of zeros that are tried, one is large enough. -/
theorem exists_zeros {x : Binary64} (nonzero : x.magnitude ≠ 0) :
    ∃ k, ((List.range 330).find? fun k => unitsPerOne ≤ x.magnitude * Nat.pow 10 (k + 1)) = some k ∧
      unitsPerOne ≤ x.magnitude * 10 ^ (k + 1) := by
  have last : ∀ k, 329 ≤ k → unitsPerOne ≤ x.magnitude * 10 ^ (k + 1) := by
    intro k large
    calc unitsPerOne ≤ 2 * unitsPerOne := Nat.le_mul_of_pos_left _ (by decide)
      _ ≤ 10 ^ 330 := unitsPerOne_bounds.1
      _ ≤ 10 ^ (k + 1) := pow_le_pow_right₀ (by decide) (by omega)
      _ ≤ x.magnitude * 10 ^ (k + 1) := Nat.le_mul_of_pos_left _ (Nat.pos_of_ne_zero nonzero)
  cases found : (List.range 330).find? fun k => unitsPerOne ≤ x.magnitude * Nat.pow 10 (k + 1) with
  | none =>
    rw [List.find?_eq_none] at found
    obtain ⟨k, large, tried⟩ : ∃ k, 329 ≤ k ∧ k < 330 := ⟨329, by decide⟩
    exact absurd (decide_eq_true (last k large)) (found k (List.mem_range.2 tried))
  | some k =>
    have enough := List.find?_some found
    exact ⟨k, rfl, of_decide_eq_true enough⟩

/-- The first digit of a number other than zero is at the place that `pointOf` gives. -/
theorem pointOf_le {x : Binary64} (nonzero : x.magnitude ≠ 0) :
    (10 : ℚ) ^ (x.pointOf - 1) * unitsPerOne ≤ x.magnitude := by
  unfold pointOf
  dsimp only
  rw [unitsPerOne_eq]
  split
  · rename_i whole
    have bound := (toDigits_bounds (Nat.ne_of_gt whole)).1
    have positive : 0 < (Nat.toDigits 10 (x.magnitude / unitsPerOne)).length :=
      Nat.length_toDigits_pos
    generalize (Nat.toDigits 10 (x.magnitude / unitsPerOne)).length = count at bound positive ⊢
    have exponent : (count : Int) - 1 = ((count - 1 : Nat) : Int) := by omega
    rw [exponent, zpow_natCast]
    exact_mod_cast (Nat.mul_le_mul_right unitsPerOne bound).trans (Nat.div_mul_le_self _ _)
  · obtain ⟨k, found, enough⟩ := exists_zeros nonzero
    have exponent : Int.negOfNat k - 1 = -((k + 1 : Nat) : Int) := by
      rw [Int.negOfNat_eq, Int.ofNat_eq_natCast]
      omega
    rw [found, Option.getD_some, exponent, zpow_neg, zpow_natCast,
      inv_mul_le_iff₀ (by positivity), mul_comm]
    exact_mod_cast enough

/-! ## Enough digits -/

/-- One step of the grid of decimals with so many digits, over `gridScale`, in quarters of a
unit. -/
def gridStep (x : Binary64) (count : Nat) : Nat :=
  4 * unitsPerOne * 10 ^ (-((count : Int) - x.pointOf)).toNat

def gridScale (x : Binary64) (count : Nat) : Nat :=
  10 ^ ((count : Int) - x.pointOf).toNat

theorem gridScale_pos (x : Binary64) (count : Nat) : 0 < x.gridScale count := by
  unfold gridScale
  positivity

theorem grid_eq (x : Binary64) (count n : Nat) :
    ((n * x.gridStep count : Nat) : ℚ) / x.gridScale count =
      quarters (n * (10 : ℚ) ^ (x.pointOf - count)) := by
  have power : (10 : ℚ) ^ (x.pointOf - count) =
      10 ^ (-((count : Int) - x.pointOf)).toNat / 10 ^ ((count : Int) - x.pointOf).toNat := by
    rw [← zpow_natCast, ← zpow_natCast, ← zpow_sub₀ (by norm_num)]
    congr 1
    omega
  rw [gridStep, gridScale, quarters, power]
  push_cast
  ring

/-- The decimals around a number with so many digits. -/
def gridBelow (x : Binary64) (count : Nat) : Nat :=
  4 * x.magnitude * x.gridScale count / x.gridStep count

/-- Whether a decimal with so many digits is nearest to the number. -/
def gridHolds (x : Binary64) (count n : Nat) : Bool :=
  x.readsBack (n * x.gridStep count) (x.gridScale count)

theorem withDigits?_eq (x : Binary64) (count : Nat) :
    x.withDigits? count =
      let low := x.gridBelow count
      let value := 4 * x.magnitude * x.gridScale count
      if x.gridHolds count low && x.gridHolds count (low + 1) then
        if value - low * x.gridStep count < (low + 1) * x.gridStep count - value then some low
        else some (low + 1)
      else if x.gridHolds count low then some low
      else if x.gridHolds count (low + 1) then some (low + 1)
      else none := by
  unfold withDigits?
  rw [unitsPerOne_eq]
  rfl

/-- What the search finds lies between the midpoints around the number. -/
theorem holds_of_withDigits? {x : Binary64} {count n : Nat}
    (found : x.withDigits? count = some n) :
    x.Holds (quarters (n * (10 : ℚ) ^ (x.pointOf - count))) := by
  rw [← grid_eq, ← readsBack_iff_holds x (x.gridScale_pos count)]
  show x.gridHolds count n = true
  rw [withDigits?_eq] at found
  dsimp only at found
  split at found
  · rename_i both
    rw [Bool.and_eq_true] at both
    split at found
    · exact Option.some.inj found ▸ both.1
    · exact Option.some.inj found ▸ both.2
  split at found
  · rename_i lower
    exact Option.some.inj found ▸ lower
  split at found
  · rename_i upper
    exact Option.some.inj found ▸ upper
  · exact absurd found nofun

/-- Seventeen digits are so many that a step of their grid is less than the gap between two
numbers. -/
theorem gridStep_le {x : Binary64} (nonzero : x.magnitude ≠ 0) :
    x.gridStep 17 * 10 ^ 16 ≤ 4 * x.magnitude * x.gridScale 17 := by
  have point := pointOf_le nonzero
  have scale : (0 : ℚ) < x.gridScale 17 := by exact_mod_cast x.gridScale_pos 17
  have step := x.grid_eq 17 1
  rw [Nat.one_mul, Nat.cast_one, one_mul, div_eq_iff scale.ne'] at step
  have power : (10 : ℚ) ^ (x.pointOf - 17) * 10 ^ 16 = (10 : ℚ) ^ (x.pointOf - 1) := by
    rw [← zpow_natCast, ← zpow_add₀ (by norm_num)]
    congr 1
    omega
  rw [← power] at point
  have scaled := mul_le_mul_of_nonneg_right point scale.le
  have bound : (x.gridStep 17 : ℚ) * 10 ^ 16 ≤ 4 * x.magnitude * x.gridScale 17 := by
    rw [step, quarters]
    push_cast
    linarith
  exact_mod_cast bound

/-- The gap below a number, from the midpoint, in quarters of a unit. -/
def gapBelow (x : Binary64) : Nat :=
  if x.fraction = 0 ∧ 0 < x.scale then 2 ^ x.scale else 2 * 2 ^ x.scale

theorem lowerEnd_add {x : Binary64} (nonzero : x.magnitude ≠ 0) :
    x.lowerEnd + x.gapBelow = 4 * x.magnitude := by
  have power : Nat.pow 2 x.scale = 2 ^ x.scale := rfl
  have least := two_pow_scale_le nonzero
  unfold lowerEnd gapBelow
  dsimp only
  split <;> omega

/-- A step of the grid is less than the two midpoints are apart. -/
theorem gridStep_lt {x : Binary64} (nonzero : x.magnitude ≠ 0) :
    x.gridStep 17 < 2 * (x.gapBelow * x.gridScale 17) ∧
      x.gapBelow * x.gridScale 17 ≤ 2 * 2 ^ x.scale * x.gridScale 17 := by
  have step := gridStep_le nonzero
  have gap : 0 < 2 ^ x.scale * x.gridScale 17 :=
    Nat.mul_pos (Nat.two_pow_pos _) (x.gridScale_pos 17)
  have product : 4 * x.magnitude * x.gridScale 17 =
      4 * (x.significand * (2 ^ x.scale * x.gridScale 17)) := by
    rw [magnitude, Nat.pow_eq]
    ring
  rw [product] at step
  unfold gapBelow
  split
  · rename_i first
    have normal : x.significand = 2 ^ 52 := by
      rw [significand_of_scale_pos first.2, first.1, Nat.add_zero]
    rw [normal] at step
    rw [Nat.mul_assoc 2]
    omega
  · have bound : x.significand * (2 ^ x.scale * x.gridScale 17) ≤
        (2 ^ 53 - 1) * (2 ^ x.scale * x.gridScale 17) :=
      Nat.mul_le_mul_right _ (Nat.le_sub_one_of_lt x.significand_lt)
    rw [Nat.mul_assoc 2]
    omega

/-- With seventeen digits, one of the decimals around a number reads back. -/
theorem withDigits?_seventeen {x : Binary64} (nonzero : x.magnitude ≠ 0) :
    x.withDigits? 17 ≠ none := by
  obtain ⟨step, gap⟩ := gridStep_lt nonzero
  have stepPos : 0 < x.gridStep 17 := by
    have units := zero_lt_unitsPerOne
    unfold gridStep
    positivity
  have gapPos : 0 < x.gapBelow * x.gridScale 17 := by omega
  have lower : x.lowerEnd * x.gridScale 17 + x.gapBelow * x.gridScale 17 =
      4 * x.magnitude * x.gridScale 17 := by
    rw [← Nat.add_mul, lowerEnd_add nonzero]
  have upper : x.upperEnd * x.gridScale 17 =
      4 * x.magnitude * x.gridScale 17 + 2 * 2 ^ x.scale * x.gridScale 17 := by
    rw [← Nat.add_mul]
    rfl
  have below := Nat.div_mul_le_self (4 * x.magnitude * x.gridScale 17) (x.gridStep 17)
  have above := Nat.lt_div_mul_add (a := 4 * x.magnitude * x.gridScale 17) stepPos
  have strict : ∀ n, x.lowerEnd * x.gridScale 17 < n * x.gridStep 17 →
      n * x.gridStep 17 < x.upperEnd * x.gridScale 17 → x.gridHolds 17 n = true :=
    fun n low high => (x.readsBack_iff _ _).2
      ⟨Nat.le_of_lt low, Nat.le_of_lt high, .inr ⟨low, high⟩⟩
  -- The nearer of the two decimals around the number is at most half a step away from it.
  have one : x.gridHolds 17 (x.gridBelow 17) = true ∨
      x.gridHolds 17 (x.gridBelow 17 + 1) = true := by
    unfold gridBelow
    generalize 4 * x.magnitude * x.gridScale 17 / x.gridStep 17 = low at below above ⊢
    by_cases nearer : 2 * (4 * x.magnitude * x.gridScale 17) ≤
        2 * (low * x.gridStep 17) + x.gridStep 17
    · exact .inl (strict low (by omega) (by omega))
    · refine .inr (strict (low + 1) ?_ ?_)
      · rw [Nat.add_mul, Nat.one_mul]
        omega
      · rw [Nat.add_mul, Nat.one_mul]
        omega
  rw [withDigits?_eq]
  dsimp only
  rcases one with holds | holds
  · split_ifs <;> simp_all
  · split_ifs <;> simp_all

/-! ## The text -/

/-- The search ends with digits that read back. -/
theorem exists_withDigits? {x : Binary64} (nonzero : x.magnitude ≠ 0) :
    ∃ count n, x.withDigits? count = some n ∧
      ((List.range 17).findSome? fun k => (x.withDigits? (k + 1)).map fun n => (k + 1, n)) =
        some (count, n) := by
  cases searched : (List.range 17).findSome? fun k =>
      (x.withDigits? (k + 1)).map fun n => (k + 1, n) with
  | none =>
    rw [List.findSome?_eq_none_iff] at searched
    have last := searched 16 (List.mem_range.2 (by decide))
    exact absurd (Option.map_eq_none_iff.1 last) (withDigits?_seventeen nonzero)
  | some found =>
    obtain ⟨k, -, mapped⟩ := List.exists_of_findSome?_eq_some searched
    obtain ⟨n, digits, rfl⟩ := Option.map_eq_some_iff.1 mapped
    exact ⟨k + 1, n, digits, rfl⟩

theorem exists_trailing_zeros (digits : List Char) :
    ∃ count, digits =
      (digits.reverse.dropWhile (· == '0')).reverse ++ List.replicate count '0' := by
  refine ⟨(digits.reverse.takeWhile (· == '0')).length, ?_⟩
  have zeros : digits.reverse.takeWhile (· == '0') =
      List.replicate (digits.reverse.takeWhile (· == '0')).length '0' :=
    List.eq_replicate_of_mem fun c member => by simpa using List.mem_takeWhile_imp member
  calc digits = digits.reverse.reverse := digits.reverse_reverse.symm
    _ = (digits.reverse.takeWhile (· == '0') ++ digits.reverse.dropWhile (· == '0')).reverse := by
      rw [List.takeWhile_append_dropWhile]
    _ = _ := by
      rw [List.reverse_append, zeros, List.reverse_replicate, List.length_replicate]

/-- The digits that the search ends with, and their value. -/
theorem shortestDigits_spec {x : Binary64} (nonzero : x.magnitude ≠ 0) :
    x.shortestDigits.digits ≠ [] ∧ (∀ c ∈ x.shortestDigits.digits, isDigit c = true) ∧
      digitsValue x.shortestDigits.digits ≠ 0 ∧
      x.Holds (quarters (digitsValue x.shortestDigits.digits *
        (10 : ℚ) ^ (x.shortestDigits.point - x.shortestDigits.digits.length))) := by
  obtain ⟨count, n, found, searched⟩ := exists_withDigits? nonzero
  have holds := holds_of_withDigits? found
  have positive : n ≠ 0 := by
    rintro rfl
    have low := holds.1
    rw [Nat.cast_zero, zero_mul, quarters, zero_mul, mul_zero] at low
    have atLeast := lowerEnd_pos nonzero
    have zero : x.lowerEnd ≤ 0 := by exact_mod_cast low
    omega
  -- Zeros at the end are left out, and the place of the point makes up for them.
  obtain ⟨zeros, split⟩ := exists_trailing_zeros (Nat.toDigits 10 n)
  unfold shortestDigits
  rw [searched]
  dsimp only
  generalize ((Nat.toDigits 10 n).reverse.dropWhile (· == '0')).reverse = digits at split ⊢
  have value : n = 10 ^ zeros * digitsValue digits := by
    have all := digitsValue_toDigits n
    rw [split, digitsValue_append, digitsValue_zeros, List.length_replicate] at all
    omega
  have nonzeroDigits : digitsValue digits ≠ 0 := by
    intro zero
    rw [zero, Nat.mul_zero] at value
    exact positive value
  refine ⟨?_, ?_, nonzeroDigits, ?_⟩
  · rintro rfl
    exact nonzeroDigits rfl
  · intro c member
    exact isDigit_of_mem_toDigits (n := n) (split ▸ List.mem_append_left _ member)
  · convert holds using 2
    have exponent : x.pointOf + (((Nat.toDigits 10 n).length : Int) - count) - digits.length =
        zeros + (x.pointOf - count) := by
      rw [split, List.length_append, List.length_replicate]
      omega
    rw [exponent, zpow_add₀ (by norm_num), zpow_natCast, value]
    push_cast
    ring

/-- A zero is one of the two. -/
theorem zero_eq {x : Binary64} (finite : x.isFinite) (zero : x.magnitude = 0) :
    Binary64.zero x.isNegative = x := by
  have significand : x.significand = 0 := by
    rcases Nat.mul_eq_zero.1 zero with none | power
    · exact none
    · exact absurd power (Nat.ne_of_gt (Nat.two_pow_pos _))
  have scale : x.scale = 0 := by
    by_contra positive
    have first := significand_of_scale_pos (Nat.pos_of_ne_zero positive)
    omega
  have parts := ofParts_parts finite
  rwa [significand, scale] at parts

theorem isNaN_of_isFinite {x : Binary64} (finite : x.isFinite) : x.isNaN = false := by
  have exponent : ¬x.exponent = 2047 := by simpa [isFinite] using finite
  simp [isNaN, exponent]

/-- The shortest text of a finite number reads back as that number. -/
theorem read?_shortest {x : Binary64} (finite : x.isFinite) : read? x.shortest = some x := by
  unfold shortest
  simp only [isNaN_of_isFinite finite, finite, Bool.false_eq_true, Bool.not_true, if_false]
  by_cases zero : x.magnitude = 0
  · rw [if_pos zero]
    have unsigned := Decimal.unsigned?_digits x.isNegative (List.cons_ne_nil '0' [])
      (List.forall_mem_singleton.2 rfl)
    have read := read?_unsigned x.isNegative ⟨'0', [], rfl, by decide⟩ unsigned
    rw [read]
    exact congrArg some (zero_eq finite zero)
  · rw [if_neg zero]
    obtain ⟨nonempty, all, nonzeroDigits, holds⟩ := shortestDigits_spec zero
    obtain ⟨starts, decimal, unsigned, sign, value⟩ :=
      unsigned?_positional x.isNegative x.shortestDigits nonempty all
    have digits : decimal.digits ≠ 0 := by
      intro none
      rw [Decimal.value, none, Nat.cast_zero, zero_mul] at value
      have power : (0 : ℚ) < 10 ^ (x.shortestDigits.point - x.shortestDigits.digits.length) := by
        positivity
      rcases mul_eq_zero.1 value.symm with zeroDigits | zeroPower
      · exact nonzeroDigits (by exact_mod_cast zeroDigits)
      · exact power.ne' zeroPower
    rw [read?_unsigned x.isNegative starts unsigned]
    exact congrArg some (Decimal.toBinary64_eq finite zero sign digits (value ▸ holds))

end SdlCompiler.Numeric.Binary64
