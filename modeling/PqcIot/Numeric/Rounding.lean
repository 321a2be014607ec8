import Mathlib.Algebra.Order.Floor.Ring
import Mathlib.Data.Int.Log
import Mathlib.Data.Rat.Floor
import Mathlib.Tactic.Linarith

/-!
# Rounding to doubles

Rational numbers rounded to double precision, to the nearest double and to the even one of two. Only
the 53 bits of the significand are looked at: numbers that are too large or too small for a double
are left out.

* `le_roundRat` and `roundRat_le`: rounding does not move a number past an integer of at most 53
  bits, so that a comparison with one holds of the number if it holds of its double;
* `roundRat_intCast`: such an integer is a double.
-/

namespace Numeric

/-! ## Rounding to integers -/

/-- The nearest integer, and the even one of two. -/
def roundEven (q : ℚ) : ℤ :=
  let rest := q - ⌊q⌋
  if rest < 1 / 2 ∨ (rest = 1 / 2 ∧ ⌊q⌋ % 2 = 0) then ⌊q⌋ else ⌊q⌋ + 1

/-- An integer is not larger than what a larger number is rounded to. -/
theorem le_roundEven {n : ℤ} {q : ℚ} (h : (n : ℚ) ≤ q) : n ≤ roundEven q := by
  have hfloor : n ≤ ⌊q⌋ := Int.le_floor.mpr h
  rw [roundEven]
  split <;> omega

/-- An integer is not smaller than what a smaller number is rounded to. -/
theorem roundEven_le {n : ℤ} {q : ℚ} (h : q ≤ n) : roundEven q ≤ n := by
  rw [roundEven]
  split
  · exact_mod_cast (Int.floor_le q).trans h
  · next hup =>
    -- There is a rest, so that the integer above is no larger than `n`.
    have hlt : (⌊q⌋ : ℚ) < n := by
      refine lt_of_lt_of_le (lt_of_le_of_ne (Int.floor_le q) fun heq => hup (.inl ?_)) h
      rw [heq, sub_self]
      norm_num
    exact_mod_cast hlt

/-! ## Rounding to doubles -/

/-- The distance of neighbouring doubles at a number. -/
def doubleUnit (q : ℚ) : ℚ := 2 ^ (Int.log 2 |q| - 52)

/-- The nearest double. -/
def roundRat (q : ℚ) : ℚ := roundEven (q / doubleUnit q) * doubleUnit q

theorem doubleUnit_pos (q : ℚ) : 0 < doubleUnit q := zpow_pos (by norm_num) _

/-- Rounding does not move a number past a multiple of the unit. -/
private theorem mul_unit_le_roundRat {n : ℤ} {q : ℚ} (h : n * doubleUnit q ≤ q) :
    n * doubleUnit q ≤ roundRat q := by
  have hn : n ≤ roundEven (q / doubleUnit q) :=
    le_roundEven ((le_div_iff₀ (doubleUnit_pos q)).mpr h)
  exact mul_le_mul_of_nonneg_right (by exact_mod_cast hn) (doubleUnit_pos q).le

private theorem roundRat_le_mul_unit {n : ℤ} {q : ℚ} (h : q ≤ n * doubleUnit q) :
    roundRat q ≤ n * doubleUnit q := by
  have hn : roundEven (q / doubleUnit q) ≤ n :=
    roundEven_le ((div_le_iff₀ (doubleUnit_pos q)).mpr h)
  exact mul_le_mul_of_nonneg_right (by exact_mod_cast hn) (doubleUnit_pos q).le

/-- At a number below `2 ^ 53`, every integer is a multiple of the unit. -/
private theorem exists_mul_unit {q : ℚ} (hlog : Int.log 2 |q| ≤ 52) (n : ℤ) :
    ∃ m : ℤ, (n : ℚ) = m * doubleUnit q := by
  obtain ⟨k, hk⟩ : ∃ k : ℕ, Int.log 2 |q| - 52 = -(k : ℤ) := ⟨(52 - Int.log 2 |q|).toNat, by omega⟩
  refine ⟨n * 2 ^ k, ?_⟩
  rw [doubleUnit, hk, zpow_neg, zpow_natCast]
  push_cast
  field_simp

/-- From there on, `2 ^ 53` is, and lies between the number and zero. -/
private theorem exists_pow_mul_unit {q : ℚ} (hlog : ¬ Int.log 2 |q| ≤ 52) :
    ∃ m : ℤ, (2 ^ 53 : ℚ) ≤ m * doubleUnit q ∧ m * doubleUnit q ≤ |q| := by
  have hq : |q| ≠ 0 := by
    intro hzero
    rw [hzero, Int.log_zero_right] at hlog
    omega
  refine ⟨2 ^ 52, ?_, ?_⟩
  · have hpow : (2 : ℚ) ^ (1 : ℤ) ≤ doubleUnit q :=
      zpow_le_zpow_right₀ (by norm_num) (by omega)
    push_cast
    rw [zpow_one] at hpow
    linarith
  · have hself := Int.zpow_log_le_self (b := 2) (by norm_num)
      (lt_of_le_of_ne (abs_nonneg q) hq.symm)
    have hunit : ((2 ^ 52 : ℤ) : ℚ) * doubleUnit q = 2 ^ Int.log 2 |q| := by
      rw [doubleUnit, zpow_sub₀ (by norm_num)]
      push_cast
      field_simp
    rw [hunit]
    exact_mod_cast hself

/-- Rounding does not move a number below an integer of at most 53 bits. -/
theorem le_roundRat {n : ℤ} {q : ℚ} (hn : |n| ≤ 2 ^ 53) (h : (n : ℚ) ≤ q) :
    (n : ℚ) ≤ roundRat q := by
  by_cases hlog : Int.log 2 |q| ≤ 52
  · obtain ⟨m, hm⟩ := exists_mul_unit hlog n
    rw [hm] at h ⊢
    exact mul_unit_le_roundRat h
  · obtain ⟨m, hlow, hhigh⟩ := exists_pow_mul_unit hlog
    have hn' : -(2 ^ 53 : ℚ) ≤ n ∧ (n : ℚ) ≤ 2 ^ 53 := by exact_mod_cast abs_le.mp hn
    rcases abs_cases q with ⟨habs, -⟩ | ⟨habs, -⟩
    · rw [habs] at hhigh
      linarith [mul_unit_le_roundRat hhigh]
    · -- A negative number this large is `-2 ^ 53` at most, as is `n`.
      have hle : ((-m : ℤ) : ℚ) * doubleUnit q ≤ q := by
        push_cast
        linarith
      have hround := mul_unit_le_roundRat hle
      push_cast at hround
      linarith

/-- Nor above one. -/
theorem roundRat_le {n : ℤ} {q : ℚ} (hn : |n| ≤ 2 ^ 53) (h : q ≤ n) : roundRat q ≤ n := by
  by_cases hlog : Int.log 2 |q| ≤ 52
  · obtain ⟨m, hm⟩ := exists_mul_unit hlog n
    rw [hm] at h ⊢
    exact roundRat_le_mul_unit h
  · obtain ⟨m, hlow, hhigh⟩ := exists_pow_mul_unit hlog
    have hn' : -(2 ^ 53 : ℚ) ≤ n ∧ (n : ℚ) ≤ 2 ^ 53 := by exact_mod_cast abs_le.mp hn
    rcases abs_cases q with ⟨habs, -⟩ | ⟨habs, -⟩
    · rw [habs] at hhigh
      have hround := roundRat_le_mul_unit (n := m) (q := q) (by linarith)
      linarith
    · have hle : q ≤ ((-m : ℤ) : ℚ) * doubleUnit q := by
        push_cast
        linarith
      have hround := roundRat_le_mul_unit hle
      push_cast at hround
      linarith

/-- What is rounded to something below such an integer is below it. -/
theorem lt_of_roundRat_lt {n : ℤ} {q : ℚ} (hn : |n| ≤ 2 ^ 53) (h : roundRat q < n) : q < n :=
  lt_of_not_ge fun hle => absurd (le_roundRat hn hle) (not_le.mpr h)

theorem lt_of_lt_roundRat {n : ℤ} {q : ℚ} (hn : |n| ≤ 2 ^ 53) (h : n < roundRat q) : n < q :=
  lt_of_not_ge fun hle => absurd (roundRat_le hn hle) (not_le.mpr h)

/-- An integer of at most 53 bits is a double. -/
theorem roundRat_intCast {n : ℤ} (hn : |n| ≤ 2 ^ 53) : roundRat n = n :=
  le_antisymm (roundRat_le hn le_rfl) (le_roundRat hn le_rfl)

/-- An integer that is rounded to so small a number is that number. -/
theorem roundRat_intCast_of_lt {n : ℤ} (hpos : 0 < roundRat n) (hlt : roundRat n < 2 ^ 53) :
    0 < n ∧ roundRat n = n := by
  have hpos' : ((0 : ℤ) : ℚ) < n := lt_of_lt_roundRat (by decide) (by rwa [Int.cast_zero])
  have hlt' : (n : ℚ) < ((2 ^ 53 : ℤ) : ℚ) :=
    lt_of_roundRat_lt (by decide) (by rwa [Int.cast_pow, Int.cast_ofNat])
  rw [Int.cast_lt] at hpos' hlt'
  exact ⟨hpos', roundRat_intCast (abs_le.mpr ⟨by omega, hlt'.le⟩)⟩

end Numeric
