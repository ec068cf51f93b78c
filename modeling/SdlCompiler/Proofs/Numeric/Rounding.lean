import Mathlib.Algebra.Order.Group.Nat
import Mathlib.Tactic.Linarith
import Mathlib.Tactic.Ring
import SdlCompiler.Numeric.Shortest

/-!
# Rounding to the nearest number

A finite number is made of its parts, and it is the one that `nearest` gives for every quotient
between the two midpoints around it.
-/

namespace SdlCompiler.Numeric

/-- The natural number that a quotient is nearest to, of two equally near the even one. -/
theorem roundDiv_eq {num den n : Nat} (positive : 0 < den)
    (lower : 2 * (n * den) ≤ 2 * num + den) (upper : 2 * num ≤ 2 * (n * den) + den)
    (even : n % 2 = 0 ∨ (2 * (n * den) < 2 * num + den ∧ 2 * num < 2 * (n * den) + den)) :
    roundDiv num den = n := by
  have split := Nat.div_add_mod num den
  have small := Nat.mod_lt num positive
  have atMost : num / den ≤ n := by
    by_contra above
    have more : (n + 1) * den ≤ num / den * den := Nat.mul_le_mul_right den (by omega)
    rw [Nat.add_mul, Nat.mul_comm (num / den)] at more
    omega
  have atLeast : n ≤ num / den + 1 := by
    by_contra below
    have more : (num / den + 2) * den ≤ n * den := Nat.mul_le_mul_right den (by omega)
    rw [Nat.add_mul, Nat.mul_comm (num / den)] at more
    omega
  unfold roundDiv
  dsimp only
  rcases Nat.eq_or_lt_of_le atMost with same | more
  · rw [← same, Nat.mul_comm (num / den)] at lower upper even
    split_ifs <;> omega
  · have next : n = num / den + 1 := by omega
    rw [next, Nat.add_mul, Nat.mul_comm (num / den)] at lower upper even
    split_ifs <;> omega

namespace Binary64

/-! ## The parts of a number -/

theorem fraction_lt (x : Binary64) : x.fraction < 2 ^ 52 :=
  Nat.mod_lt _ (by decide)

theorem exponent_lt (x : Binary64) : x.exponent < 2 ^ 11 :=
  Nat.mod_lt _ (by decide)

theorem significand_lt (x : Binary64) : x.significand < 2 ^ 53 := by
  have bound := x.fraction_lt
  have power : Nat.pow 2 52 = 2 ^ 52 := rfl
  unfold significand
  split <;> omega

/-- The last scale of a finite number. -/
theorem scale_le {x : Binary64} (finite : x.isFinite) : x.scale ≤ 2045 := by
  have bound := x.exponent_lt
  have notLast : x.exponent ≠ 2047 := by simpa [isFinite] using finite
  unfold scale
  omega

/-- Beyond the least scale, the first bit of the significand is set. -/
theorem significand_of_scale_pos {x : Binary64} (positive : 0 < x.scale) :
    x.significand = 2 ^ 52 + x.fraction := by
  have normal : x.exponent ≠ 0 := by
    unfold scale at positive
    omega
  rw [significand, if_neg normal]
  rfl

theorem ofParts_parts {x : Binary64} (finite : x.isFinite) :
    ofParts x.isNegative x.significand x.scale = x := by
  have fractionBound := x.fraction_lt
  have scaleBound := scale_le finite
  have bits := x.bits.toNat_lt
  have value : (if x.isNegative then 2 ^ 63 else 0) +
      (if x.significand < 2 ^ 52 then x.significand
        else if x.scale ≤ 2045 then (x.scale + 1) * 2 ^ 52 + (x.significand - 2 ^ 52)
        else 2047 * 2 ^ 52) = x.bits.toNat := by
    have sign : x.isNegative = decide (x.bits.toNat / 2 ^ 63 = 1) := rfl
    have exponent : x.exponent = x.bits.toNat / 2 ^ 52 % 2 ^ 11 := rfl
    have fraction : x.fraction = x.bits.toNat % 2 ^ 52 := rfl
    rw [sign]
    unfold significand scale at *
    by_cases subnormal : x.exponent = 0
    · rw [if_pos subnormal] at *
      simp only [decide_eq_true_eq]
      split_ifs <;> omega
    · rw [if_neg subnormal] at *
      have power : Nat.pow 2 52 = 2 ^ 52 := rfl
      rw [power] at *
      simp only [decide_eq_true_eq]
      split_ifs <;> omega
  obtain ⟨bits⟩ := x
  unfold ofParts
  exact congrArg Binary64.mk ((congrArg UInt64.ofNat value).trans (UInt64.ofNat_toNat))

/-! ## The nearest number -/

theorem ofParts_normal (negative : Bool) {significand scale : Nat} (first : 2 ^ 52 ≤ significand)
    (bound : scale ≤ 2045) :
    ofParts negative significand scale = ⟨UInt64.ofNat ((if negative then 2 ^ 63 else 0) +
      ((scale + 1) * 2 ^ 52 + (significand - 2 ^ 52)))⟩ := by
  have normal : ¬significand < Nat.pow 2 52 := Nat.not_lt.2 first
  simp only [ofParts, if_neg normal, if_pos bound]
  rfl

/-- A significand that is rounded up to the next power of two belongs to the next scale. -/
theorem ofParts_carry (negative : Bool) {scale : Nat} (bound : scale + 1 ≤ 2045) :
    ofParts negative (2 ^ 53) scale = ofParts negative (2 ^ 52) (scale + 1) := by
  have unsigned : (scale + 1) * 2 ^ 52 + (2 ^ 53 - 2 ^ 52) =
      (scale + 1 + 1) * 2 ^ 52 + (2 ^ 52 - 2 ^ 52) := by omega
  rw [ofParts_normal negative (by decide) (by omega), ofParts_normal negative (by decide) bound,
    unsigned]

/-- The two midpoints around a number, in quarters of a unit, as `readsBack` compares them. -/
theorem readsBack_iff (x : Binary64) (num den : Nat) :
    x.readsBack num den ↔ x.lowerEnd * den ≤ num ∧ num ≤ x.upperEnd * den ∧
      (x.significand % 2 = 0 ∨ (x.lowerEnd * den < num ∧ num < x.upperEnd * den)) := by
  unfold readsBack
  split
  · rename_i even
    simp [even]
  · rename_i odd
    simp only [Bool.and_eq_true, decide_eq_true_eq, odd, false_or]
    constructor
    · rintro ⟨lower, upper⟩
      exact ⟨Nat.le_of_lt lower, Nat.le_of_lt upper, lower, upper⟩
    · exact fun ⟨_, _, strict⟩ => strict

theorem log2_eq {n k : Nat} (lower : 2 ^ k ≤ n) (upper : n < 2 ^ (k + 1)) : n.log2 = k := by
  have nonzero : n ≠ 0 := by
    have positive := Nat.two_pow_pos k
    omega
  have below := (Nat.log2_lt nonzero).2 upper
  have above := (Nat.le_log2 nonzero).2 lower
  omega

theorem log2_lt_of_lt {n k : Nat} (positive : 0 < k) (less : n < 2 ^ k) : n.log2 < k := by
  by_cases zero : n = 0
  · rwa [zero]
  · exact (Nat.log2_lt zero).2 less

/-- Between the two midpoints around it, a number is the nearest one, at its own scale. -/
theorem roundDiv_significand {x : Binary64} {units den : Nat} (positive : 0 < den)
    (reads : x.readsBack (4 * units) den) :
    roundDiv units (den * 2 ^ x.scale) = x.significand := by
  obtain ⟨lower, upper, strict⟩ := (x.readsBack_iff _ _).1 reads
  have magnitude : x.magnitude = x.significand * 2 ^ x.scale := rfl
  have above : x.upperEnd = 4 * x.magnitude + 2 * 2 ^ x.scale := rfl
  have below : 4 * x.magnitude ≤ x.lowerEnd + 2 * 2 ^ x.scale := by
    have power : Nat.pow 2 x.scale = 2 ^ x.scale := rfl
    unfold lowerEnd
    dsimp only
    split <;> omega
  have low := Nat.mul_le_mul_right den below
  rw [above] at upper strict
  rw [Nat.add_mul] at low
  have product : x.significand * (den * 2 ^ x.scale) = x.magnitude * den := by
    rw [magnitude]
    ring
  have gap : 2 * 2 ^ x.scale * den = 2 * (den * 2 ^ x.scale) := by ring
  rw [Nat.add_mul, gap, Nat.mul_assoc] at upper strict
  rw [gap, Nat.mul_assoc] at low
  refine roundDiv_eq (Nat.mul_pos positive (Nat.two_pow_pos _)) ?_ ?_ ?_
  · rw [product]
    omega
  · rw [product]
    omega
  · rw [product]
    omega

/-- Below the upper midpoint, a quotient is less than the first number of the next scale. -/
theorem div_lt_of_upper {x : Binary64} {units den : Nat} (positive : 0 < den)
    (upper : 4 * units ≤ x.upperEnd * den) : units / den < 2 ^ (52 + x.scale + 1) := by
  have pos := Nat.two_pow_pos x.scale
  have above : x.upperEnd = 4 * (x.significand * 2 ^ x.scale) + 2 * 2 ^ x.scale := rfl
  have most : x.upperEnd < 4 * 2 ^ (52 + x.scale + 1) := by
    have grown : (x.significand + 1) * 2 ^ x.scale ≤ 2 ^ 53 * 2 ^ x.scale :=
      Nat.mul_le_mul_right _ x.significand_lt
    rw [show 52 + x.scale + 1 = 53 + x.scale by omega, Nat.pow_add, above]
    rw [Nat.add_mul] at grown
    omega
  have scaled := Nat.mul_lt_mul_of_pos_right most positive
  rw [Nat.mul_assoc] at scaled
  rw [Nat.div_lt_iff_lt_mul positive]
  omega

/-- Above the lower midpoint of a number that is not the first of its scale, a quotient is no less
than that first one. -/
theorem le_div_of_lower {x : Binary64} {units den : Nat} (positive : 0 < den)
    (lower : x.lowerEnd * den ≤ 4 * units) (scalePos : 0 < x.scale) (later : x.fraction ≠ 0) :
    2 ^ (52 + x.scale) ≤ units / den := by
  have power : Nat.pow 2 x.scale = 2 ^ x.scale := rfl
  have magnitude : x.magnitude = x.significand * 2 ^ x.scale := rfl
  have normal := significand_of_scale_pos scalePos
  have least : 4 * 2 ^ (52 + x.scale) ≤ x.lowerEnd := by
    have grown : (2 ^ 52 + 1) * 2 ^ x.scale ≤ x.significand * 2 ^ x.scale :=
      Nat.mul_le_mul_right _ (by omega)
    unfold lowerEnd
    dsimp only
    rw [if_neg (fun both => later both.1), magnitude, Nat.pow_add]
    rw [Nat.add_mul] at grown
    omega
  have scaled := Nat.mul_le_mul_right den least
  rw [Nat.mul_assoc] at scaled
  rw [Nat.le_div_iff_mul_le positive]
  omega

/-- Between its midpoints, a quotient has the scale of the number, unless the number is the first
of its scale and the quotient is less than it. -/
theorem log2_units {x : Binary64} {units den : Nat} (positive : 0 < den)
    (reads : x.readsBack (4 * units) den)
    (notBelow : 0 < x.scale → x.fraction = 0 → 2 ^ (52 + x.scale) ≤ units / den) :
    (units / den).log2 - 52 = x.scale := by
  obtain ⟨lower, upper, -⟩ := (x.readsBack_iff _ _).1 reads
  have small := div_lt_of_upper positive upper
  by_cases least : x.scale = 0
  · -- Numbers of the least scale have any number of digits up to 53.
    rw [least] at small ⊢
    have bound : (units / den).log2 < 53 := log2_lt_of_lt (by decide) small
    omega
  · have scalePos : 0 < x.scale := Nat.pos_of_ne_zero least
    have large : 2 ^ (52 + x.scale) ≤ units / den := by
      by_cases first : x.fraction = 0
      · exact notBelow scalePos first
      · exact le_div_of_lower positive lower scalePos first
    rw [log2_eq large small]
    omega

/-- Just below a power of two, a quotient has the scale before it and is rounded up. -/
theorem roundDiv_below_first {x : Binary64} {units den : Nat} (positive : 0 < den)
    (reads : x.readsBack (4 * units) den) (scalePos : 0 < x.scale) (first : x.fraction = 0)
    (below : units / den < 2 ^ (52 + x.scale)) :
    (units / den).log2 - 52 = x.scale - 1 ∧
      roundDiv units (den * 2 ^ (x.scale - 1)) = 2 ^ 53 := by
  obtain ⟨lower, -, -⟩ := (x.readsBack_iff _ _).1 reads
  obtain ⟨scale, next⟩ : ∃ scale, x.scale = scale + 1 := ⟨x.scale - 1, by omega⟩
  have normal : x.significand = 2 ^ 52 := by
    rw [significand_of_scale_pos scalePos, first, Nat.add_zero]
  have half : 2 ^ (scale + 1) = 2 * 2 ^ scale := Nat.pow_succ'
  have lowerEnd : x.lowerEnd = (8 * 2 ^ 52 - 2) * 2 ^ scale := by
    have magnitude : x.magnitude = 2 ^ 52 * 2 ^ (scale + 1) := by
      rw [← normal, ← next]
      rfl
    have power : Nat.pow 2 x.scale = 2 ^ (scale + 1) := congrArg (2 ^ ·) next
    unfold Binary64.lowerEnd
    dsimp only
    rw [if_pos ⟨first, scalePos⟩, magnitude, power, half]
    omega
  rw [lowerEnd, Nat.mul_assoc, Nat.mul_comm (2 ^ scale)] at lower
  rw [next, show 52 + (scale + 1) = 53 + scale by omega] at below
  have upper := below
  rw [Nat.div_lt_iff_lt_mul positive, Nat.pow_add, Nat.mul_assoc, Nat.mul_comm (2 ^ scale)] at upper
  rw [next, Nat.add_sub_cancel]
  constructor
  · have large : 2 ^ (52 + scale) ≤ units / den := by
      rw [Nat.le_div_iff_mul_le positive, Nat.pow_add, Nat.mul_assoc, Nat.mul_comm (2 ^ scale)]
      omega
    rw [log2_eq large (by rwa [show 52 + scale + 1 = 53 + scale by omega])]
    omega
  · exact roundDiv_eq (Nat.mul_pos positive (Nat.two_pow_pos _)) (by omega) (by omega)
      (.inl (by decide))

/-- The number one in the units that magnitudes are counted in. -/
def unitsPerOne : Nat :=
  Nat.pow 2 1074

/-- A quotient in units. -/
theorem nearest_eq_ofParts (negative : Bool) (num den : Nat) :
    ∃ units, units = num * unitsPerOne ∧ nearest negative num den = ofParts negative
      (roundDiv units (den * 2 ^ ((units / den).log2 - 52))) ((units / den).log2 - 52) := by
  refine ⟨num * unitsPerOne, rfl, ?_⟩
  unfold nearest unitsPerOne
  simp only [Nat.pow_eq]

theorem unitsPerOne_eq : Nat.pow 2 1074 = unitsPerOne := by
  unfold unitsPerOne
  rfl

theorem zero_lt_unitsPerOne : 0 < unitsPerOne :=
  Nat.two_pow_pos 1074

attribute [irreducible] unitsPerOne

/-- Every quotient between the midpoints around a number is nearest to it. -/
theorem nearest_eq {x : Binary64} (finite : x.isFinite) {num den : Nat} (positive : 0 < den)
    (reads : x.readsBack (4 * (num * unitsPerOne)) den) :
    nearest x.isNegative num den = x := by
  obtain ⟨units, counted, parts⟩ := nearest_eq_ofParts x.isNegative num den
  rw [← counted] at reads
  rw [parts]
  by_cases below : (0 < x.scale ∧ x.fraction = 0) ∧ units / den < 2 ^ (52 + x.scale)
  · obtain ⟨⟨scalePos, first⟩, less⟩ := below
    obtain ⟨scale, rounded⟩ := roundDiv_below_first positive reads scalePos first less
    have bound := scale_le finite
    have next : x.scale - 1 + 1 = x.scale := by omega
    have normal : x.significand = 2 ^ 52 := by
      rw [significand_of_scale_pos scalePos, first, Nat.add_zero]
    rw [scale, rounded, ofParts_carry _ (by omega), next, ← normal]
    exact ofParts_parts finite
  · have scale := log2_units positive reads fun scalePos first =>
      Nat.not_lt.1 fun less => below ⟨⟨scalePos, first⟩, less⟩
    rw [scale, roundDiv_significand positive reads]
    exact ofParts_parts finite

/-! ## Numbers within the range -/

theorem roundDiv_le {num den n : Nat} (positive : 0 < den) (bound : num ≤ n * den) :
    roundDiv num den ≤ n := by
  have quotient : num / den ≤ n := Nat.div_le_of_le_mul (by rwa [Nat.mul_comm])
  have split := Nat.div_add_mod num den
  have small := Nat.mod_lt num positive
  unfold roundDiv
  dsimp only
  rcases Nat.eq_or_lt_of_le quotient with same | less
  · rw [same, Nat.mul_comm] at split
    have exact : num % den = 0 := by omega
    rw [exact]
    split_ifs <;> omega
  · split_ifs <;> omega

/-- The largest finite number, in units. -/
def largest : Nat :=
  (2 ^ 53 - 1) * 2 ^ 2045

theorem isFinite_ofParts (negative : Bool) {significand scale : Nat} (bound : scale ≤ 2045)
    (fits : significand ≤ 2 ^ 53) (last : scale = 2045 → significand < 2 ^ 53) :
    (ofParts negative significand scale).isFinite := by
  have sign : (if negative then 2 ^ 63 else 0 : Nat) = 0 ∨
      (if negative then 2 ^ 63 else 0 : Nat) = 2 ^ 63 := by cases negative <;> simp
  have notLast : ∀ unsigned, unsigned < 2047 * 2 ^ 52 →
      (⟨UInt64.ofNat ((if negative then 2 ^ 63 else 0) + unsigned)⟩ : Binary64).isFinite := by
    intro unsigned less
    have exponent : (⟨UInt64.ofNat ((if negative then 2 ^ 63 else 0) + unsigned)⟩ :
        Binary64).exponent ≠ 2047 := by
      show (UInt64.ofNat ((if negative then 2 ^ 63 else 0) + unsigned)).toNat / 2 ^ 52 % 2 ^ 11 ≠ _
      rw [UInt64.toNat_ofNat']
      rcases sign with positive | negative
      · rw [positive]
        omega
      · rw [negative]
        omega
    simpa [isFinite] using exponent
  -- Only the last exponent is kept for what is not finite.
  by_cases normal : 2 ^ 52 ≤ significand
  · rw [ofParts_normal negative normal bound]
    apply notLast
    by_cases atLast : scale = 2045
    · have less := last atLast
      omega
    · omega
  · have subnormal : significand < Nat.pow 2 52 := Nat.not_le.1 normal
    simp only [ofParts, if_pos subnormal]
    apply notLast
    omega

/-- The parts that a quotient is rounded to, if it is at most the largest finite number. -/
theorem nearest_fits {units den : Nat} (positive : 0 < den) (bound : units ≤ largest * den) :
    (units / den).log2 - 52 ≤ 2045 ∧
      roundDiv units (den * 2 ^ ((units / den).log2 - 52)) ≤ 2 ^ 53 ∧
      ((units / den).log2 - 52 = 2045 →
        roundDiv units (den * 2 ^ ((units / den).log2 - 52)) < 2 ^ 53) := by
  rw [largest] at bound
  have quotient : units / den ≤ (2 ^ 53 - 1) * 2 ^ 2045 :=
    Nat.div_le_of_le_mul (by rwa [Nat.mul_comm])
  have less : units / den < 2 ^ (53 + 2045) := by
    have positive := Nat.two_pow_pos 2045
    rw [Nat.pow_add]
    omega
  have log : (units / den).log2 < 53 + 2045 := log2_lt_of_lt (by decide) less
  have room : units < 2 ^ 53 * (den * 2 ^ ((units / den).log2 - 52)) := by
    have grown : units / den < 2 ^ (53 + ((units / den).log2 - 52)) :=
      Nat.lt_of_lt_of_le Nat.lt_log2_self (Nat.pow_le_pow_right (by decide) (by omega))
    rw [Nat.div_lt_iff_lt_mul positive, Nat.pow_add] at grown
    rwa [Nat.mul_comm den, ← Nat.mul_assoc]
  have scalePos := Nat.mul_pos positive (Nat.two_pow_pos ((units / den).log2 - 52))
  refine ⟨Nat.sub_le_of_le_add (Nat.le_of_lt_succ log), roundDiv_le scalePos (Nat.le_of_lt room), ?_⟩
  intro last
  rw [← last, Nat.mul_assoc, Nat.mul_comm (2 ^ _) den] at bound
  exact Nat.lt_of_le_of_lt (roundDiv_le scalePos bound) (by decide)

/-- What is nearest to a quotient that is at most the largest finite number is finite. -/
theorem isFinite_nearest (negative : Bool) {num den : Nat} (positive : 0 < den)
    (bound : num * unitsPerOne ≤ largest * den) : (nearest negative num den).isFinite := by
  obtain ⟨units, counted, parts⟩ := nearest_eq_ofParts negative num den
  rw [← counted] at bound
  obtain ⟨scale, fits, last⟩ := nearest_fits positive bound
  rw [parts]
  exact isFinite_ofParts negative scale fits last

theorem magnitude_le {x : Binary64} (finite : x.isFinite) : x.magnitude ≤ largest := by
  unfold magnitude largest
  rw [Nat.pow_eq]
  gcongr
  · exact Nat.le_sub_one_of_lt x.significand_lt
  · decide
  · exact scale_le finite

attribute [irreducible] largest

end Binary64

end SdlCompiler.Numeric
