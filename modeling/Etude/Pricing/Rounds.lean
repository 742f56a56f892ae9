import Etude.Pricing.Model
import Mathlib.Algebra.BigOperators.Fin

/-!
# Rounds — prices drawn to their mean

A round writes one list and reads the other, so its prices are the averages of the others as they
were before it.
-/

namespace Etude
namespace Pricing

open Base

variable {len : ℕ}

/-! ## Loops -/

theorem foldl_add (f : Fin len → ℚ) (is : List (Fin len)) (a : ℚ) :
    is.foldl (fun price i => price + f i) a = a + (is.map f).sum := by
  induction is generalizing a with
  | nil =>
      exact (add_zero a).symm
  | cons i is ih =>
      rw [List.foldl_cons, ih, List.map_cons, List.sum_cons, add_assoc]

theorem foldl_finRange (f : Fin len → ℚ) :
    (List.finRange len).foldl (fun price i => price + f i) 0 = ∑ i, f i := by
  rw [foldl_add, zero_add, Fin.sum_univ_def]

theorem quotient_eq (h : 2 ≤ len) (price : ℚ) :
    quotient price (len - 1) = some (price / (Fintype.card (Fin len) - 1)) := by
  rw [quotient, if_neg (by omega), Fintype.card_fin]
  push_cast
  rfl

theorem calcPriceFromList_eq (h : 2 ≤ len) (index : Fin len) (list : PriceList len) :
    calcPriceFromList index list = some (meanOfOthers list index) := by
  have hloop : (List.finRange len).foldl
      (fun price i => if i ≠ index then price + list i else price) 0 =
        ∑ i ∈ Finset.univ.erase index, list i := by
    have hstep : (fun (price : ℚ) i => if i ≠ index then price + list i else price) =
        fun price i => price + if i ≠ index then list i else 0 := by
      funext price i
      split_ifs
      · rfl
      · exact (add_zero price).symm
    rw [hstep, foldl_finRange, ← Finset.sum_filter, Finset.filter_ne' Finset.univ index]
  rw [calcPriceFromList, hloop, quotient_eq h, meanOfOthers]

/-! ## One round -/

theorem input_ne_output (i : ℕ) : input i ≠ output i := by
  rw [output]
  split_ifs with h
  · rw [h]
    decide
  · exact h

/-- The list that a round writes is the one that the next round reads. -/
theorem input_succ (i : ℕ) : input (i + 1) = output i := by
  have hparity : ∀ n : ℕ, (input n).val = n % 2 := fun n => rfl
  have hnext := hparity (i + 1)
  have hthis := hparity i
  apply Fin.ext
  rw [output]
  split_ifs with h
  · rw [h, Fin.val_zero] at hthis
    rw [hnext, Fin.val_one]
    omega
  · have hone : (input i).val ≠ 0 := fun hzero => h (Fin.ext hzero)
    rw [hnext, Fin.val_zero]
    omega

/-- After the prices of some places the list has these, and the other list is as it was. -/
theorem foldlM_writePrice (h : 2 ≤ len) (i : ℕ) (is : List (Fin len))
    (priceLists : PriceLists len) :
    is.foldlM (writePrice i) priceLists =
      some (Function.update priceLists (output i) fun index =>
        if index ∈ is then meanOfOthers (priceLists (input i)) index
          else priceLists (output i) index) := by
  induction is generalizing priceLists with
  | nil =>
      simp
  | cons index is ih =>
      have hwrite : writePrice i priceLists index =
          some (Function.update priceLists (output i) (Function.update (priceLists (output i)) index
            (meanOfOthers (priceLists (input i)) index))) := by
        rw [writePrice, calcPriceFromList_eq h]
        rfl
      rw [List.foldlM_cons, hwrite, Option.bind_eq_bind, Option.bind_some, ih,
        Function.update_of_ne (input_ne_output i), Function.update_self, Function.update_idem]
      congr 2
      funext j
      by_cases hj : j = index
      · subst hj
        simp
      · simp [hj]

theorem round_eq (h : 2 ≤ len) (priceLists : PriceLists len) (i : ℕ) :
    round priceLists i =
      some (Function.update priceLists (output i) (meanOfOthers (priceLists (input i)))) := by
  rw [round, foldlM_writePrice h]
  simp only [List.mem_finRange, if_true]

/-! ## All rounds -/

theorem rounds_succ (k : ℕ) (priceLists : PriceLists len) :
    rounds (k + 1) priceLists = (rounds k priceLists).bind fun lists => round lists k := by
  rw [rounds, List.range_succ, List.foldlM_append, ← rounds]
  cases rounds k priceLists with
  | none =>
      rfl
  | some lists =>
      rw [Option.bind_eq_bind, Option.bind_some, Option.bind_some, List.foldlM_cons]
      cases round lists k with
      | none => rfl
      | some lists => rfl

theorem rounds_eq (h : 2 ≤ len) (k : ℕ) (priceLists : PriceLists len) :
    ∃ lists, rounds k priceLists = some lists ∧
      lists (input k) = meanOfOthers^[k] (priceLists 0) := by
  induction k with
  | zero =>
      exact ⟨priceLists, rfl, rfl⟩
  | succ k ih =>
      rcases ih with ⟨lists, hlists, hinput⟩
      refine ⟨_, by rw [rounds_succ, hlists, Option.bind_some, round_eq h], ?_⟩
      rw [input_succ, Function.update_self, hinput, Function.iterate_succ_apply']

/-- After any number of rounds a price is at the mean plus a power of `-1 / (n - 1)` times its first
distance, every round writes just the averages of the other prices of the list it reads, and the sum
and the mean stay. -/
theorem prices_after_rounds (h : 2 ≤ len) (priceLists : PriceLists len) (k : ℕ) :
    ∃ lists, rounds k priceLists = some lists ∧
      (∀ i, lists (input k) i = mean (priceLists 0) +
        (-1 / (len - 1)) ^ k * (priceLists 0 i - mean (priceLists 0))) ∧
      ∑ i, lists (input k) i = ∑ i, priceLists 0 i ∧
      mean (lists (input k)) = mean (priceLists 0) ∧
      ∃ next, round lists k = some next ∧ next (input k) = lists (input k) ∧
        ∀ i, calcPriceFromList i (lists (input k)) = some (next (output k) i) := by
  have hcard : 2 ≤ Fintype.card (Fin len) := by
    rw [Fintype.card_fin]
    exact h
  rcases rounds_eq h k priceLists with ⟨lists, hlists, hinput⟩
  have hsum := sum_iterate_meanOfOthers hcard (priceLists 0) k
  refine ⟨lists, hlists, ?_, by rw [hinput, hsum], by rw [hinput, mean, hsum, mean], _,
    round_eq h lists k, ?_, ?_⟩
  · intro i
    rw [hinput, iterate_meanOfOthers hcard, Fintype.card_fin]
  · exact Function.update_of_ne (input_ne_output k) _ _
  · intro i
    rw [Function.update_self, calcPriceFromList_eq h]

/-- The first of the prices 1, 2 and 6 after three rounds. -/
theorem first_price_after_three_rounds :
    ∃ lists, rounds 3 ![![1, 2, 6], ![0, 0, 0]] = some lists ∧ lists 1 0 = 13 / 4 := by
  rcases prices_after_rounds (by decide) ![![1, 2, 6], ![0, 0, 0]] 3 with ⟨lists, hlists, hprice, -⟩
  have hmean : mean ((![![1, 2, 6], ![0, 0, 0]] : PriceLists 3) 0) = 3 := by
    have hlast : ((![![1, 2, 6], ![0, 0, 0]] : PriceLists 3) 0) 2 = 6 := rfl
    rw [mean, Fin.sum_univ_three, Fintype.card_fin, hlast]
    norm_num
  refine ⟨lists, hlists, ?_⟩
  calc
    lists 1 0 = 3 + (-1 / ((3 : ℕ) - 1)) ^ 3 * (1 - 3) := by
      rw [← hmean]
      exact hprice 0
    _ = 13 / 4 := by norm_num

end Pricing
end Etude
