import Mathlib.Data.Nat.Dist
import SdlCompiler.Proofs.Numeric.Fixed

/-!
# Printing again what was read

The number that `nearest` gives is no farther from a quotient than any other finite number. So
what is printed with six decimal places, read and printed again is the same text, although the
number between may be another one.
-/

namespace SdlCompiler.Numeric

/-- A rounded quotient is off by half the divisor at most, and by that much only if it is even. -/
theorem roundDiv_bounds (num : Nat) {den : Nat} (positive : 0 < den) :
    2 * (roundDiv num den * den) ≤ 2 * num + den ∧
      2 * num ≤ 2 * (roundDiv num den * den) + den ∧
      (roundDiv num den % 2 = 0 ∨
        (2 * (roundDiv num den * den) < 2 * num + den ∧
          2 * num < 2 * (roundDiv num den * den) + den)) := by
  have split := Nat.div_add_mod num den
  have small := Nat.mod_lt num positive
  rw [Nat.mul_comm] at split
  unfold roundDiv
  dsimp only
  split_ifs with less more
  · omega
  · rw [Nat.add_mul]
    omega
  · rcases Nat.mod_two_eq_zero_or_one (num / den) with even | odd
    · rw [even, Nat.add_zero]
      omega
    · rw [odd, Nat.add_mul]
      omega

/-- No multiple of the divisor is nearer than the rounded quotient's. -/
theorem roundDiv_closest (num : Nat) {den : Nat} (positive : 0 < den) (n : Nat) :
    Nat.dist (roundDiv num den * den) num ≤ Nat.dist (n * den) num := by
  obtain ⟨lower, upper, -⟩ := roundDiv_bounds num positive
  unfold Nat.dist
  rcases Nat.lt_trichotomy n (roundDiv num den) with below | same | above
  · have apart : (n + 1) * den ≤ roundDiv num den * den := Nat.mul_le_mul_right den below
    rw [Nat.add_mul] at apart
    omega
  · rw [same]
  · have apart : (roundDiv num den + 1) * den ≤ n * den := Nat.mul_le_mul_right den above
    rw [Nat.add_mul] at apart
    omega

/-- What is no farther from a rounded quotient's multiple is rounded to it as well. -/
theorem roundDiv_eq_of_dist {num num' den : Nat} (positive : 0 < den)
    (near : Nat.dist num' (roundDiv num den * den) ≤ Nat.dist num (roundDiv num den * den)) :
    roundDiv num' den = roundDiv num den := by
  obtain ⟨lower, upper, tie⟩ := roundDiv_bounds num positive
  unfold Nat.dist at near
  exact roundDiv_eq positive (by omega) (by omega) (by omega)

theorem le_roundDiv {num den n : Nat} (positive : 0 < den) (bound : n * den ≤ num) :
    n ≤ roundDiv num den := by
  have quotient : n ≤ num / den := (Nat.le_div_iff_mul_le positive).2 bound
  unfold roundDiv
  dsimp only
  split_ifs <;> omega

namespace Binary64

/-! ## The number that parts make -/

/-- The fields of a number whose bits below the sign are known. -/
theorem fields_mk (negative : Bool) {unsigned : Nat} (bound : unsigned < 2 ^ 63) :
    (mk (UInt64.ofNat ((if negative then 2 ^ 63 else 0) + unsigned))).isNegative = negative ∧
      (mk (UInt64.ofNat ((if negative then 2 ^ 63 else 0) + unsigned))).exponent =
        unsigned / 2 ^ 52 ∧
      (mk (UInt64.ofNat ((if negative then 2 ^ 63 else 0) + unsigned))).fraction =
        unsigned % 2 ^ 52 := by
  have bits : (UInt64.ofNat ((if negative then 2 ^ 63 else 0) + unsigned)).toNat =
      (if negative then 2 ^ 63 else 0) + unsigned := by
    rw [UInt64.toNat_ofNat']
    cases negative <;> simp <;> omega
  unfold isNegative exponent fraction
  simp only [bits, Nat.pow_eq, beq_eq_decide]
  cases negative <;> simp <;> omega

theorem ofParts_subnormal (negative : Bool) {significand : Nat} (less : significand < 2 ^ 52)
    (scale : Nat) :
    ofParts negative significand scale =
      ⟨UInt64.ofNat ((if negative then 2 ^ 63 else 0) + significand)⟩ := by
  have subnormal : significand < Nat.pow 2 52 := less
  simp only [ofParts, if_pos subnormal]
  rfl

/-- The value of a significand whose first bit is set. -/
theorem ofParts_normal_spec (negative : Bool) {significand scale : Nat} (bound : scale ≤ 2045)
    (first : 2 ^ 52 ≤ significand) (fits : significand < 2 ^ 53) :
    (ofParts negative significand scale).isNegative = negative ∧
      (ofParts negative significand scale).magnitude = significand * 2 ^ scale := by
  obtain ⟨sign, exponent, fraction⟩ := fields_mk negative
    (by omega : (scale + 1) * 2 ^ 52 + (significand - 2 ^ 52) < 2 ^ 63)
  have quotient : ((scale + 1) * 2 ^ 52 + (significand - 2 ^ 52)) / 2 ^ 52 = scale + 1 := by omega
  have remainder : ((scale + 1) * 2 ^ 52 + (significand - 2 ^ 52)) % 2 ^ 52 =
      significand - 2 ^ 52 := by omega
  have whole : Nat.pow 2 52 + (significand - 2 ^ 52) = significand := Nat.add_sub_cancel' first
  rw [ofParts_normal negative first bound, magnitude, Binary64.significand, Binary64.scale, sign,
    exponent, fraction, quotient, remainder, if_neg (Nat.succ_ne_zero scale), whole]
  exact ⟨rfl, rfl⟩

/-- The value of parts, where a significand of more than the least scale has its first bit set. -/
theorem ofParts_spec (negative : Bool) {significand scale : Nat} (bound : scale ≤ 2045)
    (fits : significand ≤ 2 ^ 53) (last : scale = 2045 → significand < 2 ^ 53)
    (normal : 0 < scale → 2 ^ 52 ≤ significand) :
    (ofParts negative significand scale).isNegative = negative ∧
      (ofParts negative significand scale).magnitude = significand * 2 ^ scale := by
  by_cases small : significand < 2 ^ 52
  · have least : scale = 0 := by omega
    obtain ⟨sign, exponent, fraction⟩ := fields_mk negative (by omega : significand < 2 ^ 63)
    rw [ofParts_subnormal negative small, magnitude, Binary64.significand, Binary64.scale, sign,
      exponent, fraction, Nat.div_eq_of_lt small, Nat.mod_eq_of_lt small, least]
    exact ⟨rfl, rfl⟩
  · have first : 2 ^ 52 ≤ significand := Nat.not_lt.1 small
    rcases Nat.eq_or_lt_of_le fits with carry | less
    · have room : scale + 1 ≤ 2045 := by omega
      obtain ⟨sign, magnitude⟩ :=
        ofParts_normal_spec negative room (Nat.le_refl (2 ^ 52)) (by decide)
      rw [carry, ofParts_carry negative room, sign, magnitude, ← Nat.pow_add, ← Nat.pow_add,
        Nat.add_comm scale, ← Nat.add_assoc]
      exact ⟨rfl, rfl⟩
    · exact ofParts_normal_spec negative bound first less

/-! ## No number is nearer -/

/-- Above the least scale, the quotient has 53 binary digits. -/
theorem two_pow_le_quotient {quotient : Nat} (above : 0 < quotient.log2 - 52) :
    2 ^ 52 * 2 ^ (quotient.log2 - 52) ≤ quotient := by
  have nonzero : quotient ≠ 0 := by
    rintro rfl
    simp at above
  rw [← Nat.pow_add, Nat.add_sub_cancel' (by omega)]
  exact Nat.log2_self_le nonzero

/-- The number nearest to a quotient in units: its sign, and its distance to the quotient against
that of any finite number. -/
theorem nearest_spec (negative : Bool) {num den : Nat} (positive : 0 < den)
    (bound : num * unitsPerOne ≤ largest * den) :
    (nearest negative num den).isNegative = negative ∧ ∀ x : Binary64,
      Nat.dist ((nearest negative num den).magnitude * den) (num * unitsPerOne) ≤
        Nat.dist (x.magnitude * den) (num * unitsPerOne) := by
  obtain ⟨units, counted, parts⟩ := nearest_eq_ofParts negative num den
  rw [← counted] at bound ⊢
  obtain ⟨scaleBound, fits, last⟩ := nearest_fits positive bound
  rw [parts]
  generalize scaled : (units / den).log2 - 52 = scale at *
  have scalePos : 0 < den * 2 ^ scale := Nat.mul_pos positive (Nat.two_pow_pos scale)
  have long : 0 < scale → 2 ^ 52 * (den * 2 ^ scale) ≤ units := by
    intro above
    have most := two_pow_le_quotient (scaled ▸ above)
    rw [scaled, Nat.le_div_iff_mul_le positive] at most
    rwa [Nat.mul_comm den, ← Nat.mul_assoc]
  obtain ⟨sign, magnitude⟩ := ofParts_spec negative scaleBound fits last fun above =>
    le_roundDiv scalePos (long above)
  refine ⟨sign, fun x => ?_⟩
  rw [magnitude, Nat.mul_assoc, Nat.mul_comm (2 ^ scale), Binary64.magnitude, Nat.pow_eq]
  by_cases coarse : scale ≤ x.scale
  · -- The other number counts in the same steps.
    have steps : x.significand * 2 ^ x.scale * den =
        x.significand * 2 ^ (x.scale - scale) * (den * 2 ^ scale) := by
      rw [← Nat.add_sub_cancel' coarse, Nat.pow_add, Nat.add_sub_cancel_left]
      ring
    rw [steps]
    exact roundDiv_closest units scalePos _
  · -- The other number is below the least one that counts in these steps.
    have least := long (by omega)
    have below : x.significand * 2 ^ x.scale * den ≤ 2 ^ 52 * (den * 2 ^ scale) := by
      have grown : 2 ^ 53 * 2 ^ x.scale ≤ 2 ^ 52 * 2 ^ scale := by
        rw [← Nat.pow_add, ← Nat.pow_add]
        exact Nat.pow_le_pow_right (by decide) (by omega)
      have less := Nat.mul_le_mul_right (2 ^ x.scale) (Nat.le_of_lt x.significand_lt)
      rw [Nat.mul_comm den, ← Nat.mul_assoc]
      exact Nat.mul_le_mul_right den (less.trans grown)
    refine (roundDiv_closest units scalePos (2 ^ 52)).trans ?_
    rw [Nat.dist_eq_sub_of_le least, Nat.dist_eq_sub_of_le (below.trans least)]
    exact Nat.sub_le_sub_left below units

/-! ## Six decimal places -/

/-- The six decimal places of a number are those of the number that they are read as. -/
theorem millionths_nearest {x : Binary64} (finite : x.isFinite) (negative : Bool) :
    (nearest negative x.millionths (10 ^ 6)).millionths = x.millionths := by
  have bound := millionths_units_le (millionths_le finite)
  have rounded : ∀ y : Binary64, y.millionths = roundDiv (y.magnitude * 10 ^ 6) unitsPerOne := by
    intro y
    rw [millionths, unitsPerOne_eq, Nat.pow_eq]
  have near := (nearest_spec negative (by decide) bound).2 x
  rw [rounded, rounded x] at *
  exact roundDiv_eq_of_dist zero_lt_unitsPerOne near

theorem fixed_eq {x y : Binary64} (finite : x.isFinite) (finite' : y.isFinite)
    (sign : y.isNegative = x.isNegative) (same : y.millionths = x.millionths) :
    y.fixed = x.fixed := by
  simp only [fixed, isNaN_of_isFinite, finite, finite', sign, unsignedFixed, same]

/-- What is printed, read and printed again is the same text. -/
theorem fixed_of_read? {x y : Binary64} (finite : x.isFinite) (read : read? x.fixed = some y) :
    y.fixed = x.fixed := by
  have finite' : y.isFinite := by
    obtain ⟨z, again, finite'⟩ := read?_fixed finite
    rw [read] at again
    cases again
    exact finite'
  have bound := millionths_le finite
  rw [read?_fixed_toBinary64 finite, toBinary64_millionths _ bound] at read
  split at read
  · next zero =>
    cases read
    obtain ⟨sign, magnitude⟩ :=
      @ofParts_spec x.isNegative 0 0 (by decide) (by decide) (by decide) (by decide)
    refine fixed_eq finite finite' sign ?_
    rw [zero, millionths, Binary64.zero, magnitude]
    decide +kernel
  · cases read
    exact fixed_eq finite finite'
      (nearest_spec x.isNegative (by decide) (millionths_units_le bound)).1
      (millionths_nearest finite x.isNegative)

end Binary64

end SdlCompiler.Numeric
