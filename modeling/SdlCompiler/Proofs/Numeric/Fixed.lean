import SdlCompiler.Numeric.Fixed
import SdlCompiler.Proofs.Numeric.Shortest

/-!
# Numbers as a schema is printed with them

Integers, and numbers with six decimal places. The first read back as they were; the second as a
finite number, which may be another one.
-/

namespace SdlCompiler.Numeric

/-! ## Integers -/

/-- The digits of an integer after its sign. -/
theorem toList_toString (n : Int) :
    (toString n).toList =
      if n < 0 then '-' :: Nat.toDigits 10 n.natAbs else Nat.toDigits 10 n.natAbs := by
  cases n with
  | ofNat n =>
    rw [if_neg (by simp)]
    show (Nat.repr n).toList = _
    rw [Nat.repr_eq_ofList_toDigits, String.toList_ofList]
    rfl
  | negSucc n =>
    rw [if_pos (Int.negSucc_lt_zero n)]
    show ("-" ++ Nat.repr (n + 1)).toList = _
    rw [String.toList_append, Nat.repr_eq_ofList_toDigits]
    exact congrArg ('-' :: ·) String.toList_ofList

theorem digits?_toDigits (n : Nat) : digits? (Nat.toDigits 10 n) = some n := by
  have digits : (Nat.toDigits 10 n).all isDigit :=
    List.all_eq_true.2 fun c member => isDigit_of_mem_toDigits member
  rw [digits?, if_pos ⟨Nat.toDigits_ne_nil, digits⟩, digitsValue_toDigits]

theorem signed?_toString (n : Int) : signed? (toString n).toList = some n := by
  rw [toList_toString]
  split
  · rename_i negative
    rw [signed?, digits?_toDigits]
    show some (-(n.natAbs : Int)) = some n
    rw [show -(n.natAbs : Int) = n by omega]
  · rename_i nonnegative
    have unsigned : signed? (Nat.toDigits 10 n.natAbs) =
        (digits? (Nat.toDigits 10 n.natAbs)).map Int.ofNat := by
      have digit : ∀ c rest, Nat.toDigits 10 n.natAbs = c :: rest → isDigit c = true :=
        fun c rest first => isDigit_of_mem_toDigits (first ▸ List.mem_cons_self)
      unfold signed?
      split
      · rename_i first
        exact absurd (digit _ _ first) (by decide)
      · rename_i first
        exact absurd (digit _ _ first) (by decide)
      · rfl
    rw [unsigned, digits?_toDigits]
    show some (n.natAbs : Int) = some n
    rw [show (n.natAbs : Int) = n by omega]

/-- A 64-bit integer reads back as it was. -/
theorem int64?_toString (n : Int64) : int64? (toString n.toInt).toList = some n := by
  rw [int64?, signed?_toString]
  show (if _ then _ else _) = _
  rw [if_pos ⟨Int64.le_toInt n, Int64.toInt_le n⟩, Int64.ofInt_toInt]

theorem digitsValue_lt {digits : List Char} (all : ∀ c ∈ digits, isDigit c = true) :
    digitsValue digits < 10 ^ digits.length := by
  induction digits with
  | nil => decide
  | cons c rest ih =>
    have range : c.toNat ≤ 57 := by
      have digit := all c List.mem_cons_self
      simp only [isDigit, Bool.and_eq_true, decide_eq_true_eq, Char.le_def,
        UInt32.le_iff_toNat_le] at digit
      exact digit.2
    have less := ih fun c member => all c (List.mem_cons_of_mem _ member)
    have first : digitsValue [c] ≤ 9 := by
      show 10 * 0 + (c.toNat - 48) ≤ 9
      omega
    have product := Nat.mul_le_mul_left (10 ^ rest.length) first
    rw [← List.singleton_append, digitsValue_append, List.length_append, List.length_singleton,
      Nat.pow_add]
    omega

/-- Digits are written without a leading zero, unless zero is the only digit. -/
theorem toDigits_head (n : Nat) :
    Nat.toDigits 10 n = ['0'] ∨ ∃ c rest, Nat.toDigits 10 n = c :: rest ∧ c ≠ '0' := by
  by_cases zero : n = 0
  · rw [zero]
    exact .inl rfl
  · right
    obtain ⟨c, rest, first⟩ := List.exists_cons_of_ne_nil (Nat.toDigits_ne_nil (n := n) (b := 10))
    refine ⟨c, rest, first, ?_⟩
    rintro rfl
    -- A leading zero would make the number smaller than its count of digits tells.
    have lower := (toDigits_bounds zero).1
    have value := digitsValue_toDigits n
    have digits : ∀ c ∈ rest, isDigit c = true := fun c member =>
      isDigit_of_mem_toDigits (n := n) (first ▸ List.mem_cons_of_mem _ member)
    have less := digitsValue_lt digits
    rw [first] at lower value
    have noZero : digitsValue ('0' :: rest) = digitsValue rest := digitsValue_zeros_append 1 rest
    rw [List.length_cons, Nat.add_sub_cancel] at lower
    omega

/-! ## Six decimal places -/

namespace Binary64

theorem padded_six {n : Nat} (less : n < 10 ^ 6) :
    (padded 6 n).length = 6 ∧ (∀ c ∈ padded 6 n, isDigit c = true) ∧
      digitsValue (padded 6 n) = n := by
  have count : (Nat.toDigits 10 n).length ≤ 6 :=
    (Nat.length_toDigits_le_iff (by decide) (by decide)).2 less
  unfold padded
  refine ⟨?_, ?_, ?_⟩
  · simp only [List.length_append, List.length_replicate]
    omega
  · intro c member
    rcases List.mem_append.1 member with zero | digit
    · rw [List.eq_of_mem_replicate zero]
      decide
    · exact isDigit_of_mem_toDigits digit
  · rw [digitsValue_zeros_append, digitsValue_toDigits]

/-- The text of a finite number, and the decimal that it is read as. -/
theorem unsignedFixed_spec (x : Binary64) (negative : Bool) :
    ∃ fraction, x.unsignedFixed =
        Nat.toDigits 10 (x.millionths / 10 ^ 6) ++ '.' :: fraction ∧
      fraction.length = 6 ∧ (∀ c ∈ fraction, isDigit c = true) ∧
      Decimal.unsigned? negative x.unsignedFixed = some ⟨negative, x.millionths, -6⟩ := by
  obtain ⟨count, digits, value⟩ := padded_six (Nat.mod_lt x.millionths (by decide : 10 ^ 6 > 0))
  have read := Decimal.unsigned?_point negative (Nat.toDigits_ne_nil (n := x.millionths / 10 ^ 6))
    (fun c member => isDigit_of_mem_toDigits member) digits
  refine ⟨_, rfl, count, digits, read.trans ?_⟩
  rw [digitsValue_append, count, digitsValue_toDigits, value, Nat.div_add_mod]
  rfl

/-- The largest number is a whole one, and has 310 digits at most. -/
theorem largest_millionths :
    largest * 10 ^ 6 = (2 ^ 53 - 1) * 2 ^ 971 * 10 ^ 6 * unitsPerOne ∧
      (2 ^ 53 - 1) * 2 ^ 971 * 10 ^ 6 < 10 ^ 316 := by
  decide +kernel

/-- Rounding at the sixth place stays within the range. -/
theorem millionths_le {x : Binary64} (finite : x.isFinite) :
    x.millionths ≤ (2 ^ 53 - 1) * 2 ^ 971 * 10 ^ 6 := by
  unfold millionths
  rw [unitsPerOne_eq]
  apply roundDiv_le zero_lt_unitsPerOne
  rw [← largest_millionths.1]
  exact Nat.mul_le_mul_right _ (magnitude_le finite)

/-- A finite number is read as what its six decimal places say. -/
theorem read?_fixed_toBinary64 {x : Binary64} (finite : x.isFinite) :
    read? x.fixed = some (Decimal.toBinary64 ⟨x.isNegative, x.millionths, -6⟩) := by
  obtain ⟨fraction, text, -, -, unsigned⟩ := x.unsignedFixed_spec x.isNegative
  have starts : ∃ c rest, x.unsignedFixed = c :: rest ∧ isDigit c = true := by
    obtain ⟨c, rest, first⟩ := List.exists_cons_of_ne_nil
      (Nat.toDigits_ne_nil (n := x.millionths / 10 ^ 6) (b := 10))
    exact ⟨c, rest ++ '.' :: fraction, by rw [text, first, List.cons_append],
      isDigit_of_mem_toDigits (first ▸ List.mem_cons_self)⟩
  rw [fixed, if_neg (by simp [isNaN_of_isFinite finite]), if_pos finite,
    read?_unsigned x.isNegative starts unsigned]

/-- Six decimal places within the range are far from where the count of digits decides. -/
theorem toBinary64_millionths (negative : Bool) {n : Nat}
    (bound : n ≤ (2 ^ 53 - 1) * 2 ^ 971 * 10 ^ 6) :
    Decimal.toBinary64 ⟨negative, n, -6⟩ =
      if n = 0 then zero negative else nearest negative n (10 ^ 6) := by
  have count : (Nat.toDigits 10 n).length ≤ 316 := by
    rw [Nat.length_toDigits_le_iff (by decide) (by decide)]
    exact Nat.lt_of_le_of_lt bound largest_millionths.2
  have positive := Nat.length_toDigits_pos (n := n) (b := 10)
  unfold Decimal.toBinary64
  dsimp only
  by_cases isZero : n = 0
  · rw [if_pos (.inl isZero), if_pos isZero]
  · rw [if_neg (by omega), if_neg (by omega), if_neg (by decide), if_neg isZero]
    rfl

theorem millionths_units_le {n : Nat} (bound : n ≤ (2 ^ 53 - 1) * 2 ^ 971 * 10 ^ 6) :
    n * unitsPerOne ≤ largest * 10 ^ 6 :=
  (Nat.mul_le_mul_right unitsPerOne bound).trans (Nat.le_of_eq largest_millionths.1.symm)

/-- A finite number is printed with a text that reads as a finite number. -/
theorem read?_fixed {x : Binary64} (finite : x.isFinite) :
    ∃ y : Binary64, read? x.fixed = some y ∧ y.isFinite := by
  refine ⟨_, read?_fixed_toBinary64 finite, ?_⟩
  have bound := millionths_le finite
  rw [toBinary64_millionths _ bound]
  split
  · exact isFinite_ofParts _ (by decide) (by decide) (by decide)
  · exact isFinite_nearest _ (by decide) (millionths_units_le bound)

/-! ## Integers as numbers -/

theorem isFinite_whole (negative : Bool) {n : Nat} (bound : n ≤ 2 ^ 63) :
    (Decimal.toBinary64 ⟨negative, n, 0⟩).isFinite := by
  have count : (Nat.toDigits 10 n).length ≤ 19 := by
    rw [Nat.length_toDigits_le_iff (by decide) (by decide)]
    exact Nat.lt_of_le_of_lt bound (by decide)
  have fits : n * 10 ^ 0 * unitsPerOne ≤ largest * 1 := by
    have small : 2 ^ 63 * unitsPerOne ≤ largest * 1 := by decide +kernel
    rw [Nat.pow_zero, Nat.mul_one]
    exact (Nat.mul_le_mul_right unitsPerOne bound).trans small
  unfold Decimal.toBinary64
  dsimp only
  split
  · exact isFinite_ofParts _ (by decide) (by decide) (by decide)
  · rw [if_neg (by omega), if_pos (by decide)]
    exact isFinite_nearest _ Nat.one_pos fits

/-- A 64-bit integer is read as a finite number as well. -/
theorem exists_readFinite?_toString (n : Int64) :
    ∃ x, readFinite? (toString n.toInt).toList = some x := by
  have digits : ∀ c ∈ Nat.toDigits 10 n.toInt.natAbs, isDigit c = true :=
    fun c member => isDigit_of_mem_toDigits member
  have starts := exists_cons_of_digits Nat.toDigits_ne_nil digits []
  rw [List.append_nil] at starts
  have read := read?_unsigned (decide (n.toInt < 0)) starts
    (Decimal.unsigned?_digits _ Nat.toDigits_ne_nil digits)
  rw [digitsValue_toDigits] at read
  simp only [decide_eq_true_eq] at read
  have bound : n.toInt.natAbs ≤ 2 ^ 63 := by
    have lower := Int64.le_toInt n
    have upper := Int64.toInt_lt n
    omega
  refine ⟨_, Option.filter_eq_some_iff.2 ⟨?_, isFinite_whole (decide (n.toInt < 0)) bound⟩⟩
  rw [toList_toString, read]

end Binary64

end SdlCompiler.Numeric
