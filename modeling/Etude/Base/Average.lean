import Mathlib.Algebra.BigOperators.Expect
import Mathlib.Algebra.Order.BigOperators.Expect
import Mathlib.Algebra.BigOperators.Field
import Mathlib.Order.Preorder.Finite
import Mathlib.Tactic.FieldSimp
import Mathlib.Tactic.Ring

/-!
# Average — means, and the mean of all values but one

Replacing every value by the mean of the others keeps the mean and turns the distance from it round,
divided by the number of the others.
-/

namespace Etude
namespace Base

open Finset

universe u v

variable {ι : Type u} {K : Type v} [Fintype ι] [Field K]

/-- The arithmetic mean. -/
def mean (x : ι → K) : K :=
  (∑ i, x i) / Fintype.card ι

/-- The mean of the values at the other places. -/
def meanOfOthers [DecidableEq ι] (x : ι → K) (i : ι) : K :=
  (∑ j ∈ univ.erase i, x j) / (Fintype.card ι - 1)

section Others

variable [CharZero K] (h : 2 ≤ Fintype.card ι)

include h

theorem card_sub_one_ne_zero : (Fintype.card ι : K) - 1 ≠ 0 := by
  have hone : Fintype.card ι ≠ 1 := by omega
  exact sub_ne_zero.mpr (Nat.cast_ne_one.mpr hone)

variable [DecidableEq ι]

theorem meanOfOthers_eq (x : ι → K) (i : ι) :
    meanOfOthers x i = mean x + -1 / (Fintype.card ι - 1) * (x i - mean x) := by
  have hcard : (Fintype.card ι : K) ≠ 0 := Nat.cast_ne_zero.mpr (by omega)
  have hothers : (Fintype.card ι : K) - 1 ≠ 0 := card_sub_one_ne_zero h
  rw [meanOfOthers, mean, sum_erase_eq_sub (mem_univ i)]
  field_simp
  ring

theorem sum_meanOfOthers (x : ι → K) : ∑ i, meanOfOthers x i = ∑ i, x i := by
  have hothers : (Fintype.card ι : K) - 1 ≠ 0 := card_sub_one_ne_zero h
  calc
    ∑ i, meanOfOthers x i = (∑ i, (∑ j, x j - x i)) / (Fintype.card ι - 1) := by
      rw [sum_div]
      exact sum_congr rfl fun i _ => by rw [meanOfOthers, sum_erase_eq_sub (mem_univ i)]
    _ = (Fintype.card ι * ∑ j, x j - ∑ j, x j) / (Fintype.card ι - 1) := by
      rw [sum_sub_distrib, Finset.sum_const, card_univ, nsmul_eq_mul]
    _ = ∑ j, x j := by
      field_simp

theorem mean_meanOfOthers (x : ι → K) : mean (meanOfOthers x) = mean x := by
  rw [mean, sum_meanOfOthers h, mean]

/-- The distance from the mean after a number of replacements. -/
theorem iterate_meanOfOthers (x : ι → K) (k : ℕ) (i : ι) :
    (meanOfOthers^[k] x) i = mean x + (-1 / (Fintype.card ι - 1)) ^ k * (x i - mean x) := by
  induction k generalizing x with
  | zero =>
      simp
  | succ k ih =>
      rw [Function.iterate_succ_apply, ih, mean_meanOfOthers h, meanOfOthers_eq h]
      ring

theorem sum_iterate_meanOfOthers (x : ι → K) (k : ℕ) : ∑ i, (meanOfOthers^[k] x) i = ∑ i, x i := by
  induction k generalizing x with
  | zero =>
      rfl
  | succ k ih =>
      rw [Function.iterate_succ_apply, ih, sum_meanOfOthers h]

end Others

section Order

variable [LinearOrder K] [IsStrictOrderedRing K] [Nonempty ι]

/-- The mean lies between a smallest and a largest value. -/
theorem exists_le_mean_le (x : ι → K) :
    ∃ i j, (∀ k, x i ≤ x k ∧ x k ≤ x j) ∧ x i ≤ mean x ∧ mean x ≤ x j := by
  rcases exists_min_image univ x univ_nonempty with ⟨i, -, hi⟩
  rcases exists_max_image univ x univ_nonempty with ⟨j, -, hj⟩
  refine ⟨i, j, fun k => ⟨hi k (mem_univ k), hj k (mem_univ k)⟩, ?_, ?_⟩
  · rw [mean, ← Fintype.expect_eq_sum_div_card]
    exact le_expect univ_nonempty hi
  · rw [mean, ← Fintype.expect_eq_sum_div_card]
    exact expect_le univ_nonempty hj

end Order

end Base
end Etude
