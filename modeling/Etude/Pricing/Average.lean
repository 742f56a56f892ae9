import Etude.Pricing.Rounds

/-!
# Average — the average that is printed

`print_average_price` adds up all prices and divides by one less than their number, as
`calc_price_from_list` does, which leaves one of them out.
-/

namespace Etude
namespace Pricing

open Base

variable {len : ℕ}

theorem printAveragePrice_eq (h : 2 ≤ len) (list : PriceList len) :
    printAveragePrice list = some ((∑ i, list i) / (len - 1)) := by
  rw [printAveragePrice, foldl_finRange, quotient_eq h, Fintype.card_fin]

/-- The quotient of a single price has no value. -/
theorem printAveragePrice_one (list : PriceList 1) : printAveragePrice list = none := by
  rw [printAveragePrice, quotient, if_pos (by decide)]

/-- What is printed does not change from round to round. -/
theorem printAveragePrice_rounds (h : 2 ≤ len) {k : ℕ} {priceLists lists : PriceLists len}
    (hrounds : rounds k priceLists = some lists) :
    printAveragePrice (lists (input k)) = printAveragePrice (priceLists 0) := by
  have hcard : 2 ≤ Fintype.card (Fin len) := by
    rw [Fintype.card_fin]
    exact h
  rcases rounds_eq h k priceLists with ⟨lists', hlists', hinput⟩
  rw [hrounds] at hlists'
  cases hlists'
  rw [printAveragePrice_eq h, printAveragePrice_eq h, hinput, sum_iterate_meanOfOthers hcard]

/-! ## What an average has to be -/

/-- A number is printed, it is the arithmetic mean, and so between a smallest and a largest
price. -/
def PrintsMean (list : PriceList len) : Prop :=
  ∃ price, printAveragePrice list = some price ∧ price = mean list ∧
    ∃ i j, (∀ k, list i ≤ list k ∧ list k ≤ list j) ∧ list i ≤ price ∧ price ≤ list j

/-- The same is printed after any number of rounds. -/
def PrintsSame (list : PriceList len) : Prop :=
  ∀ (priceLists lists : PriceLists len) (k : ℕ), priceLists (input 0) = list →
    rounds k priceLists = some lists →
    printAveragePrice (lists (input k)) = printAveragePrice list

/-- The sum over one less than the number is the mean only if the sum is zero. -/
theorem mean_eq_iff (h : 2 ≤ len) (list : PriceList len) :
    (∑ i, list i) / (len - 1) = mean list ↔ ∑ i, list i = 0 := by
  have hlen : (len : ℚ) ≠ 0 := Nat.cast_ne_zero.mpr (by omega)
  have hone : len ≠ 1 := by omega
  have hothers : (len : ℚ) - 1 ≠ 0 := sub_ne_zero.mpr (Nat.cast_ne_one.mpr hone)
  rw [mean, Fintype.card_fin, div_eq_div_iff hothers hlen, mul_sub, mul_one, eq_comm,
    sub_eq_self]

/-- The printed number is the average exactly if there are two prices or more and their sum
is zero. -/
theorem printsMean_iff (h : 1 ≤ len) (list : PriceList len) :
    (PrintsMean list ∧ (2 ≤ len → PrintsSame list)) ↔ 2 ≤ len ∧ ∑ i, list i = 0 := by
  have hsame : 2 ≤ len → PrintsSame list := by
    rintro htwo priceLists lists k rfl hrounds
    exact printAveragePrice_rounds htwo hrounds
  rw [and_iff_left hsame]
  constructor
  · rintro ⟨price, hprice, hmean, -⟩
    have htwo : 2 ≤ len := by
      by_contra hlt
      obtain rfl : len = 1 := by omega
      rw [printAveragePrice_one] at hprice
      cases hprice
    rw [printAveragePrice_eq htwo] at hprice
    cases hprice
    exact ⟨htwo, (mean_eq_iff htwo list).mp hmean⟩
  · rintro ⟨htwo, hsum⟩
    have : Nonempty (Fin len) := ⟨⟨0, h⟩⟩
    refine ⟨mean list, ?_, rfl, exists_le_mean_le list⟩
    rw [printAveragePrice_eq htwo, (mean_eq_iff htwo list).mpr hsum]

theorem printsMean_zero_sum :
    (PrintsMean ![1, -1] ∧ (2 ≤ 2 → PrintsSame ![1, -1])) ↔
      2 ≤ 2 ∧ ∑ i, (![1, -1] : PriceList 2) i = 0 :=
  printsMean_iff (by decide) _

/-- The average of the prices 1 and 3 is printed as 4. -/
theorem not_printsMean :
    printAveragePrice ![1, 3] = some 4 ∧
      ¬ (PrintsMean ![1, 3] ∧ (2 ≤ 2 → PrintsSame ![1, 3])) := by
  have hprinted : printAveragePrice ![1, 3] = some 4 := by
    rw [printAveragePrice_eq (by decide), Fin.sum_univ_two]
    norm_num
  refine ⟨hprinted, ?_⟩
  rintro ⟨⟨price, hprice, -, i, j, -, -, hle⟩, -⟩
  rw [hprinted] at hprice
  cases hprice
  -- both prices are below it
  have hbelow : ∀ j : Fin 2, (![1, 3] : PriceList 2) j < 4 := by decide
  exact absurd hle (not_le.mpr (hbelow j))

end Pricing
end Etude
