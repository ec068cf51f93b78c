import Mathlib.Algebra.Order.Field.Power
import Mathlib.Algebra.Order.Field.Rat
import Mathlib.Tactic.FieldSimp
import Mathlib.Tactic.Positivity
import SdlCompiler.Numeric.Decimal
import SdlCompiler.Proofs.Numeric.Rounding

/-!
# Decimal texts and the numbers nearest to them

Digits with or without a point are read as the number nearest to their value.
-/

namespace SdlCompiler.Numeric

/-! ## Digits -/

theorem digitsValue_append (high low : List Char) :
    digitsValue (high ++ low) = 10 ^ low.length * digitsValue high + digitsValue low :=
  (Nat.ofDigitChars_append 0).trans Nat.ofDigitChars_eq_ofDigitChars_zero

theorem digitsValue_toDigits (n : Nat) : digitsValue (Nat.toDigits 10 n) = n :=
  Nat.ofDigitChars_ten_toDigits

theorem digitsValue_zeros (count : Nat) : digitsValue (List.replicate count '0') = 0 := by
  show Nat.ofDigitChars 10 _ 0 = 0
  rw [Nat.ofDigitChars_replicate_zero, Nat.mul_zero]

/-- Zeros before a number do not count. -/
theorem digitsValue_zeros_append (count : Nat) (digits : List Char) :
    digitsValue (List.replicate count '0' ++ digits) = digitsValue digits := by
  rw [digitsValue_append, digitsValue_zeros, Nat.mul_zero, Nat.zero_add]

theorem isDigit_of_mem_toDigits {n : Nat} {c : Char} (member : c ∈ Nat.toDigits 10 n) :
    isDigit c = true :=
  Nat.isDigit_of_mem_toDigits (by decide) (by decide) member

/-- The digits of a number bound it from both sides. -/
theorem toDigits_bounds {n : Nat} (nonzero : n ≠ 0) :
    10 ^ ((Nat.toDigits 10 n).length - 1) ≤ n ∧ n < 10 ^ (Nat.toDigits 10 n).length := by
  have positive : 0 < (Nat.toDigits 10 n).length := Nat.length_toDigits_pos
  constructor
  · by_cases one : (Nat.toDigits 10 n).length = 1
    · rw [one]
      exact Nat.one_le_iff_ne_zero.2 nonzero
    · by_contra less
      have fewer := (Nat.length_toDigits_le_iff (b := 10) (n := n)
        (k := (Nat.toDigits 10 n).length - 1) (by decide) (by omega)).2 (Nat.not_le.1 less)
      omega
  · exact (Nat.length_toDigits_le_iff (by decide) positive).1 (Nat.le_refl _)

theorem takeWhile_digits {digits : List Char} (rest : List Char)
    (all : ∀ c ∈ digits, isDigit c = true)
    (stop : ∀ c, rest.head? = some c → isDigit c = false) :
    (digits ++ rest).takeWhile isDigit = digits ∧ (digits ++ rest).dropWhile isDigit = rest := by
  rw [List.takeWhile_append_of_pos all, List.dropWhile_append_of_pos all]
  cases rest with
  | nil => simp
  | cons c rest =>
    have notDigit : ¬isDigit c = true := by simp [stop c rfl]
    rw [List.takeWhile_cons_of_neg notDigit, List.dropWhile_cons_of_neg notDigit]
    simp

/-! ## Texts -/

namespace Decimal

theorem unsigned?_digits (negative : Bool) {digits : List Char} (nonempty : digits ≠ [])
    (all : ∀ c ∈ digits, isDigit c = true) :
    unsigned? negative digits = some ⟨negative, digitsValue digits, 0⟩ := by
  have whole := takeWhile_digits [] all nofun
  rw [List.append_nil] at whole
  simp [unsigned?, whole, nonempty, exponentPart?]

theorem unsigned?_point (negative : Bool) {whole fraction : List Char} (nonempty : whole ≠ [])
    (wholeDigits : ∀ c ∈ whole, isDigit c = true)
    (fractionDigits : ∀ c ∈ fraction, isDigit c = true) :
    unsigned? negative (whole ++ '.' :: fraction) =
      some ⟨negative, digitsValue (whole ++ fraction), -(fraction.length : Int)⟩ := by
  have before := takeWhile_digits ('.' :: fraction) wholeDigits (by
    intro c first
    obtain rfl := Option.some.inj first
    decide)
  have after := takeWhile_digits [] fractionDigits nofun
  rw [List.append_nil] at after
  simp [unsigned?, before, after, nonempty, exponentPart?]

end Decimal

namespace Binary64

theorem toLower_of_digit {c : Char} (digit : isDigit c = true) : c.toLower = c := by
  have range : 48 ≤ c.toNat ∧ c.toNat ≤ 57 := by
    simpa [isDigit, Char.le_def, UInt32.le_iff_toNat_le] using digit
  unfold Char.toLower
  rw [dif_neg]
  rw [ge_iff_le, UInt32.le_iff_toNat_le, UInt32.le_iff_toNat_le]
  show ¬(65 ≤ c.toNat ∧ c.toNat ≤ 90)
  omega

theorem takeSign_of_digit {c : Char} (rest : List Char) (digit : isDigit c = true) :
    Decimal.takeSign (c :: rest) = (false, c :: rest) := by
  unfold Decimal.takeSign
  split
  · rename_i same
    rw [(List.cons.inj same).1] at digit
    exact absurd digit (by decide)
  · rename_i same
    rw [(List.cons.inj same).1] at digit
    exact absurd digit (by decide)
  · rfl

/-- A text that starts with a digit is no word. -/
theorem read?_of_digit {c : Char} (rest : List Char) (digit : isDigit c = true) :
    read? (c :: rest) = (Decimal.unsigned? false (c :: rest)).map Decimal.toBinary64 ∧
      read? ('-' :: c :: rest) = (Decimal.unsigned? true (c :: rest)).map Decimal.toBinary64 := by
  have notWord : ∀ first word, isDigit first = false →
      String.ofList ((c :: rest).map Char.toLower) ≠ String.ofList (first :: word) := by
    intro first word letter same
    have equal := String.ofList_injective same
    rw [List.map_cons, toLower_of_digit digit] at equal
    rw [(List.cons.inj equal).1, letter] at digit
    exact absurd digit (by decide)
  have noInf : String.ofList ((c :: rest).map Char.toLower) ≠ "inf" :=
    notWord 'i' ['n', 'f'] (by decide)
  have noInfinity : String.ofList ((c :: rest).map Char.toLower) ≠ "infinity" :=
    notWord 'i' ['n', 'f', 'i', 'n', 'i', 't', 'y'] (by decide)
  have noNan : String.ofList ((c :: rest).map Char.toLower) ≠ "nan" :=
    notWord 'n' ['a', 'n'] (by decide)
  constructor
  · unfold read?
    rw [takeSign_of_digit rest digit]
    dsimp only
    rw [if_neg (not_or.2 ⟨noInf, noInfinity⟩), if_neg noNan]
  · have sign : Decimal.takeSign ('-' :: c :: rest) = (true, c :: rest) := rfl
    unfold read?
    rw [sign]
    dsimp only
    rw [if_neg (not_or.2 ⟨noInf, noInfinity⟩), if_neg noNan]

/-! ## Values -/

/-- The number is the nearest one to a value, given in quarters of a unit. -/
def Holds (x : Binary64) (quarters : ℚ) : Prop :=
  x.lowerEnd ≤ quarters ∧ quarters ≤ x.upperEnd ∧
    (x.significand % 2 = 0 ∨ (x.lowerEnd < quarters ∧ quarters < x.upperEnd))

theorem readsBack_iff_holds (x : Binary64) {num den : Nat} (positive : 0 < den) :
    x.readsBack num den ↔ x.Holds (num / den : ℚ) := by
  have pos : (0 : ℚ) < den := by exact_mod_cast positive
  rw [readsBack_iff, Holds, le_div_iff₀ pos, div_le_iff₀ pos, lt_div_iff₀ pos, div_lt_iff₀ pos]
  norm_cast

theorem two_pow_scale_le {x : Binary64} (nonzero : x.magnitude ≠ 0) :
    2 ^ x.scale ≤ x.magnitude := by
  refine Nat.le_mul_of_pos_left _ (Nat.pos_of_ne_zero fun zero => nonzero ?_)
  rw [magnitude, zero, Nat.zero_mul]

theorem lowerEnd_pos {x : Binary64} (nonzero : x.magnitude ≠ 0) : 2 ≤ x.lowerEnd := by
  have power : Nat.pow 2 x.scale = 2 ^ x.scale := rfl
  have gap := Nat.two_pow_pos x.scale
  have least := two_pow_scale_le nonzero
  unfold lowerEnd
  dsimp only
  split <;> omega

/-- Powers of two against powers of ten, at both ends of the range. -/
theorem unitsPerOne_bounds :
    2 * unitsPerOne ≤ 10 ^ 330 ∧ 2 ^ 53 * 2 ^ 2045 ≤ 10 ^ 310 * unitsPerOne := by
  decide +kernel

theorem upperEnd_lt {x : Binary64} (finite : x.isFinite) :
    x.upperEnd < 4 * (10 ^ 310 * unitsPerOne) := by
  have above : x.upperEnd = 4 * (x.significand * 2 ^ x.scale) + 2 * 2 ^ x.scale := rfl
  have gap := Nat.two_pow_pos x.scale
  have grown : (x.significand + 1) * 2 ^ x.scale ≤ 2 ^ 53 * 2 ^ 2045 :=
    Nat.mul_le_mul x.significand_lt (pow_le_pow_right₀ (by decide) (scale_le finite))
  have bound := grown.trans unitsPerOne_bounds.2
  rw [Nat.add_mul] at bound
  omega

/-- A value in quarters of a unit. -/
def quarters (value : ℚ) : ℚ :=
  4 * (value * unitsPerOne)

theorem unitsPerOne_pos : (0 : ℚ) < unitsPerOne := by
  exact_mod_cast zero_lt_unitsPerOne

/-- Decimals near a finite number are less than `10 ^ 310`. -/
theorem Holds.top_le {x : Binary64} (finite : x.isFinite) {value : ℚ} {top : Int}
    (holds : x.Holds (quarters value)) (least : (10 : ℚ) ^ (top - 1) ≤ value) : top ≤ 310 := by
  have upper : quarters value < 4 * (10 ^ 310 * unitsPerOne) :=
    lt_of_le_of_lt holds.2.1 (by exact_mod_cast upperEnd_lt finite)
  have small : value < (10 : ℚ) ^ 310 :=
    lt_of_mul_lt_mul_right (by simpa [quarters] using upper) unitsPerOne_pos.le
  have exponents : (10 : ℚ) ^ (top - 1) < (10 : ℚ) ^ (310 : Int) := lt_of_le_of_lt least small
  have less := (zpow_lt_zpow_iff_right₀ (by norm_num)).1 exponents
  omega

/-- Decimals near a number other than zero are more than `10 ^ -330`. -/
theorem Holds.le_top {x : Binary64} (nonzero : x.magnitude ≠ 0) {value : ℚ} {top : Int}
    (holds : x.Holds (quarters value)) (less : value < (10 : ℚ) ^ top) : -330 ≤ top := by
  have lower : (2 : ℚ) ≤ quarters value :=
    le_trans (by exact_mod_cast lowerEnd_pos nonzero) holds.1
  have units : (2 * unitsPerOne : ℚ) ≤ 10 ^ 330 := by
    exact_mod_cast unitsPerOne_bounds.1
  by_contra low
  have tiny : value < (10 : ℚ) ^ (-330 : Int) :=
    less.trans ((zpow_lt_zpow_iff_right₀ (by norm_num)).2 (by omega))
  have product : quarters value < 2 := by
    have bound : value * (2 * unitsPerOne) < (10 : ℚ) ^ (-330 : Int) * 10 ^ 330 := by
      apply mul_lt_mul tiny units
      · have positive := unitsPerOne_pos
        positivity
      · positivity
    have one : (10 : ℚ) ^ (-330 : Int) * 10 ^ 330 = 1 := by
      rw [zpow_neg]
      exact inv_mul_cancel₀ (by positivity)
    rw [one] at bound
    rw [quarters]
    linarith
  linarith

end Binary64

namespace Decimal

/-- The number that a decimal writes, without its sign. -/
def value (d : Decimal) : ℚ :=
  d.digits * (10 : ℚ) ^ d.exponent

theorem value_bounds {d : Decimal} (nonzero : d.digits ≠ 0) :
    (10 : ℚ) ^ (((Nat.toDigits 10 d.digits).length : Int) + d.exponent - 1) ≤ d.value ∧
      d.value < (10 : ℚ) ^ (((Nat.toDigits 10 d.digits).length : Int) + d.exponent) := by
  obtain ⟨lower, upper⟩ := toDigits_bounds nonzero
  have positive : 0 < (Nat.toDigits 10 d.digits).length := Nat.length_toDigits_pos
  have shift : (0 : ℚ) < (10 : ℚ) ^ d.exponent := by positivity
  generalize (Nat.toDigits 10 d.digits).length = count at *
  constructor
  · have exponent : (count : Int) + d.exponent - 1 = ((count - 1 : Nat) : Int) + d.exponent := by
      omega
    rw [exponent, zpow_add₀ (by norm_num), zpow_natCast]
    exact mul_le_mul_of_nonneg_right (by exact_mod_cast lower) shift.le
  · rw [zpow_add₀ (by norm_num), zpow_natCast]
    exact mul_lt_mul_of_pos_right (by exact_mod_cast upper) shift

/-- A decimal between the midpoints around a number is read as that number. -/
theorem toBinary64_eq {d : Decimal} {x : Binary64} (finite : x.isFinite)
    (nonzero : x.magnitude ≠ 0) (sign : d.negative = x.isNegative) (digits : d.digits ≠ 0)
    (holds : x.Holds (Binary64.quarters d.value)) : d.toBinary64 = x := by
  obtain ⟨lower, upper⟩ := value_bounds digits
  have atMost := holds.top_le finite lower
  have atLeast := holds.le_top nonzero upper
  have inRange : ¬(d.digits = 0 ∨ ((Nat.toDigits 10 d.digits).length : Int) + d.exponent < -330) :=
    not_or.2 ⟨digits, by omega⟩
  unfold toBinary64
  dsimp only
  rw [if_neg inRange, if_neg (by omega), sign]
  split
  · rename_i whole
    refine Binary64.nearest_eq finite one_pos ((Binary64.readsBack_iff_holds x one_pos).2 ?_)
    have power : (10 : ℚ) ^ d.exponent = (10 ^ d.exponent.toNat : Nat) := by
      rw [Nat.cast_pow, Nat.cast_ofNat, ← zpow_natCast, Int.toNat_of_nonneg whole]
    rw [Binary64.quarters, value, power] at holds
    rw [Nat.cast_one, div_one, Nat.pow_eq]
    exact_mod_cast holds
  · rename_i fraction
    have positive : 0 < 10 ^ (-d.exponent).toNat := by positivity
    refine Binary64.nearest_eq finite positive ((Binary64.readsBack_iff_holds x positive).2 ?_)
    have power : (10 : ℚ) ^ d.exponent = ((10 ^ (-d.exponent).toNat : Nat) : ℚ)⁻¹ := by
      rw [Nat.cast_pow, Nat.cast_ofNat, ← zpow_natCast, Int.toNat_of_nonneg (by omega), zpow_neg,
        inv_inv]
    convert holds using 1
    rw [Binary64.quarters, value, power, div_eq_mul_inv]
    push_cast
    ring

end Decimal

end SdlCompiler.Numeric
