import Etude.Base.HaskellInt
import Mathlib.Algebra.Ring.Int.Parity

/-!
# Odds — the odd numbers up to a bound

`odds n` counts the odd numbers up to `n`, generates so many and filters them.  Near the largest
`Int` the last of them is computed from a product that wraps around, and is right nevertheless.
-/

namespace Etude
namespace Odds

open Base.HaskellInt

/-! ## The code -/

/-- `f` of `odds` -/
def f (x : Int64) : Int64 :=
  x * 2 - 1

/-- `m` of `odds` -/
def m (n : Int64) : Int64 :=
  div n 2 + mod n 2

def odds (n : Int64) : List Int64 :=
  ((enumFromTo 1 (m n)).map f).filter fun x => x ≤ n

/-! ## The number of terms and the terms -/

theorem toInt_m (n : Int64) : (m n).toInt = (n.toInt + 1) / 2 := by
  have hlow := Int64.le_toInt n
  have hhigh := Int64.toInt_lt n
  have htwo : (2 : Int64).toInt = 2 := rfl
  rw [m, Int64.toInt_add, toInt_div (by omega), toInt_mod (by omega), htwo]
  have hsum : n.toInt / 2 + n.toInt % 2 = (n.toInt + 1) / 2 := by omega
  rw [hsum]
  apply Int.bmod_eq_of_le
  · omega
  · omega

/-- The product may leave the range, but the term itself does not. -/
theorem toInt_f {n x : Int64} (hpos : 1 ≤ x) (hx : x ≤ m n) : (f x).toInt = 2 * x.toInt - 1 := by
  have hhigh := Int64.toInt_lt n
  have htwo : (2 : Int64).toInt = 2 := rfl
  rw [Int64.le_iff_toInt_le, Int64.toInt_one] at hpos
  rw [Int64.le_iff_toInt_le, toInt_m] at hx
  rw [f, Int64.toInt_sub, Int64.toInt_mul, Int64.toInt_one, htwo, Int.bmod_sub_bmod]
  have hterm : x.toInt * 2 - 1 = 2 * x.toInt - 1 := by omega
  rw [hterm]
  apply Int.bmod_eq_of_le
  · omega
  · omega

theorem f_le {n x : Int64} (hpos : 1 ≤ x) (hx : x ≤ m n) : f x ≤ n := by
  have hterm := toInt_f hpos hx
  rw [Int64.le_iff_toInt_le, toInt_m] at hx
  rw [Int64.le_iff_toInt_le, hterm]
  omega

/-- The filter keeps every term. -/
theorem odds_eq (n : Int64) : odds n = (enumFromTo 1 (m n)).map f := by
  rw [odds, List.filter_eq_self]
  intro y hy
  rcases List.mem_map.mp hy with ⟨x, hx, rfl⟩
  rcases mem_enumFromTo.mp hx with ⟨hpos, hle⟩
  exact decide_eq_true (f_le hpos hle)

theorem odds_ascending (n : Int64) : (odds n).Pairwise fun x y => x < y := by
  rw [odds_eq, List.pairwise_map]
  apply (enumFromTo_ascending 1 (m n)).imp_of_mem
  intro x y hx hy hlt
  rcases mem_enumFromTo.mp hx with ⟨hxpos, hxle⟩
  rcases mem_enumFromTo.mp hy with ⟨hypos, hyle⟩
  rw [Int64.lt_iff_toInt_lt] at hlt
  rw [Int64.lt_iff_toInt_lt, toInt_f hxpos hxle, toInt_f hypos hyle]
  omega

theorem mem_odds {n x : Int64} : x ∈ odds n ↔ Odd x.toInt ∧ 1 ≤ x ∧ x ≤ n := by
  rw [odds_eq, List.mem_map]
  constructor
  · rintro ⟨y, hy, rfl⟩
    rcases mem_enumFromTo.mp hy with ⟨hpos, hle⟩
    have hterm := toInt_f hpos hle
    refine ⟨⟨y.toInt - 1, by omega⟩, ?_, f_le hpos hle⟩
    rw [Int64.le_iff_toInt_le, Int64.toInt_one] at *
    omega
  · rintro ⟨⟨k, hk⟩, hpos, hle⟩
    have hrange := Int64.toInt_lt x
    rw [Int64.le_iff_toInt_le, Int64.toInt_one] at hpos
    rw [Int64.le_iff_toInt_le] at hle
    -- The odd number `2 * k + 1` is the term of index `k + 1`.
    have hindex : (Int64.ofInt (k + 1)).toInt = k + 1 :=
      Int64.toInt_ofInt_of_le (by omega) (by omega)
    have hfirst : 1 ≤ Int64.ofInt (k + 1) := by
      rw [Int64.le_iff_toInt_le, hindex, Int64.toInt_one]
      omega
    have hlast : Int64.ofInt (k + 1) ≤ m n := by
      rw [Int64.le_iff_toInt_le, hindex, toInt_m]
      omega
    refine ⟨Int64.ofInt (k + 1), mem_enumFromTo.mpr ⟨hfirst, hlast⟩, ?_⟩
    rw [← Int64.toInt_inj, toInt_f hfirst hlast, hindex]
    omega

/-- For every bound: exactly the odd numbers from 1 up to it, in ascending order. -/
theorem odds_spec (n : Int64) :
    ((odds n).Pairwise fun x y => x < y) ∧
      ∀ x, x ∈ odds n ↔ Odd x.toInt ∧ 1 ≤ x ∧ x ≤ n :=
  ⟨odds_ascending n, fun _ => mem_odds⟩

/-- The last term of the largest bound: its product is the least `Int`. -/
example : m Int64.maxValue * 2 = Int64.minValue ∧ f (m Int64.maxValue) = Int64.maxValue := by
  decide

end Odds
end Etude
