import Etude.Base.Average
import Mathlib.Data.List.FinRange
import Mathlib.Algebra.Field.Rat
import Mathlib.Algebra.Order.Ring.Rat

/-!
# Model — rounds of prices

`pricing.c` replaces every price by the average of the others, round after round, between two lists.
The prices are rational numbers here, and a division by zero has no result.
-/

namespace Etude
namespace Pricing

/-- `double list[]` with its length -/
abbrev PriceList (len : ℕ) :=
  Fin len → ℚ

def quotient (price : ℚ) (n : ℤ) : Option ℚ :=
  if n = 0 then none else some (price / n)

variable {len : ℕ}

/-- The number that `print_average_price` prints. -/
def printAveragePrice (list : PriceList len) : Option ℚ :=
  let price := (List.finRange len).foldl (fun price i => price + list i) 0
  quotient price (len - 1)

def calcPriceFromList (index : Fin len) (list : PriceList len) : Option ℚ :=
  let price := (List.finRange len).foldl
    (fun price i => if i ≠ index then price + list i else price) 0
  quotient price (len - 1)

/-! ## The loop of `main` -/

abbrev PriceLists (len : ℕ) :=
  Fin 2 → PriceList len

/-- `i % 2` -/
def input (i : ℕ) : Fin 2 :=
  Fin.ofNat 2 i

/-- `!input` -/
def output (i : ℕ) : Fin 2 :=
  if input i = 0 then 1 else 0

/-- One price of the list that is written, from the list that is read as it is then. -/
def writePrice (i : ℕ) (priceLists : PriceLists len) (index : Fin len) :
    Option (PriceLists len) := do
  let price ← calcPriceFromList index (priceLists (input i))
  return Function.update priceLists (output i)
    (Function.update (priceLists (output i)) index price)

def round (priceLists : PriceLists len) (i : ℕ) : Option (PriceLists len) :=
  (List.finRange len).foldlM (writePrice i) priceLists

/-- The lists after `k` rounds. -/
def rounds (k : ℕ) (priceLists : PriceLists len) : Option (PriceLists len) :=
  (List.range k).foldlM round priceLists

end Pricing
end Etude
