import Mathlib.Algebra.Order.BigOperators.Group.List
import Mathlib.Algebra.Order.Ring.Nat
import Mathlib.Data.List.Sort
import Mathlib.Data.UInt
import Mathlib.Tactic.Common

/-!
# Samples of a counter

What a program needs that takes samples of a wrapping counter and reports on them: differences of
the counter, sums in double precision, and what stands in a sorted list of the samples.
-/

namespace Numeric

/-! ## Differences of a counter -/

/-- The difference of two readings of a 32-bit counter is the time between them, if that fits. -/
theorem toNat_ofNat_sub_ofNat {start stop : ℕ} (hle : start ≤ stop) (hlt : stop - start < 2 ^ 32) :
    (UInt32.ofNat stop - UInt32.ofNat start).toNat = stop - start := by
  rw [UInt32.toNat_sub, UInt32.toNat_ofNat', UInt32.toNat_ofNat']
  omega

/-! ## Sums in double precision -/

/-- A natural number rounded to a double: 53 significant bits, the even one of two nearest. -/
def roundDouble (n : ℕ) : ℕ :=
  let unit := 2 ^ (n.log2 - 52)
  let quotient := n / unit
  let rest := n % unit
  if 2 * rest < unit ∨ (2 * rest = unit ∧ quotient % 2 = 0) then quotient * unit
  else (quotient + 1) * unit

/-- Up to 53 bits, every natural number is a double. -/
theorem roundDouble_of_lt {n : ℕ} (h : n < 2 ^ 53) : roundDouble n = n := by
  have hlog : n.log2 - 52 = 0 := by
    by_cases hn : n = 0
    · rw [hn]
      rfl
    · have hlt := (Nat.log2_lt hn).mpr h
      omega
  rw [roundDouble, hlog]
  simp [Nat.mod_one]

/-- A sum, added up in double precision. -/
def sumDouble (samples : List ℕ) : ℕ :=
  samples.foldl (fun sum sample => roundDouble (sum + roundDouble sample)) 0

/-- Sums that stay below 53 bits are exact. -/
theorem sumDouble_eq {samples : List ℕ} (h : samples.sum < 2 ^ 53) :
    sumDouble samples = samples.sum := by
  -- What has been added so far is exact, and what remains keeps the sum below the bound.
  have hfold (start : ℕ) (hstart : start + samples.sum < 2 ^ 53) :
      samples.foldl (fun sum sample => roundDouble (sum + roundDouble sample)) start =
        start + samples.sum := by
    clear h
    induction samples generalizing start with
    | nil => simp
    | cons sample samples ih =>
      rw [List.sum_cons] at hstart
      rw [List.foldl_cons, roundDouble_of_lt (n := sample) (by omega),
        roundDouble_of_lt (n := start + sample) (by omega), ih _ (by omega), List.sum_cons]
      omega
  have hsum := hfold 0 (by omega)
  rwa [Nat.zero_add] at hsum

/-- The sum of numbers below a bound. -/
theorem sum_le_of_forall_lt {samples : List ℕ} {bound : ℕ} (h : ∀ x ∈ samples, x < bound) :
    samples.sum ≤ samples.length * bound := by
  have hsum := List.sum_le_card_nsmul samples bound fun x hx => (h x hx).le
  rwa [Nat.nsmul_eq_mul] at hsum

/-! ## Sorted lists -/

section Sorted

variable {α : Type} [LinearOrder α] {l : List α}

theorem getElem_le_getElem (hl : l.Pairwise (· ≤ ·)) {i j : ℕ} (hij : i ≤ j) (hj : j < l.length) :
    l[i] ≤ l[j] := by
  rcases hij.eq_or_lt with rfl | hlt
  · exact le_refl _
  · exact List.pairwise_iff_getElem.mp hl i j (by omega) hj hlt

/-- The first element is the smallest one. -/
theorem first_le (hl : l.Pairwise (· ≤ ·)) (h0 : 0 < l.length) : ∀ x ∈ l, l[0] ≤ x := by
  intro x hx
  obtain ⟨i, hi, rfl⟩ := List.mem_iff_getElem.mp hx
  exact getElem_le_getElem hl (Nat.zero_le i) hi

/-- The last element is the largest one. -/
theorem le_last (hl : l.Pairwise (· ≤ ·)) (h0 : 0 < l.length) : ∀ x ∈ l, x ≤ l[l.length - 1] := by
  intro x hx
  obtain ⟨i, hi, rfl⟩ := List.mem_iff_getElem.mp hx
  exact getElem_le_getElem hl (by omega) (by omega)

/-- The elements up to an index are not larger than the one at it. -/
theorem lt_countP_le (hl : l.Pairwise (· ≤ ·)) {k : ℕ} (hk : k < l.length) :
    k < l.countP (· ≤ l[k]) := by
  have hprefix : (l.take (k + 1)).countP (· ≤ l[k]) = k + 1 := by
    rw [List.countP_eq_length.mpr, List.length_take_of_le hk]
    intro x hx
    obtain ⟨i, hi, rfl⟩ := List.mem_take_iff_getElem.mp hx
    simpa using getElem_le_getElem hl (i := i) (j := k) (by omega) hk
  have hle := (List.take_sublist (k + 1) l).countP_le (p := (· ≤ l[k]))
  omega

/-- The elements from an index on are not smaller than the one at it. -/
theorem sub_le_countP_ge (hl : l.Pairwise (· ≤ ·)) {k : ℕ} (hk : k < l.length) :
    l.length - k ≤ l.countP (l[k] ≤ ·) := by
  have hsuffix : (l.drop k).countP (l[k] ≤ ·) = l.length - k := by
    rw [List.countP_eq_length.mpr, List.length_drop]
    intro x hx
    obtain ⟨i, hi, rfl⟩ := List.mem_drop_iff_getElem.mp hx
    simpa using getElem_le_getElem hl (i := k) (j := k + i) (by omega) (by omega)
  have hle := (List.drop_sublist k l).countP_le (p := (l[k] ≤ ·))
  omega

end Sorted

end Numeric
