import Mathlib.Data.Int.Basic
import Mathlib.Data.List.Basic

/-!
# HaskellInt — `Int` of 64 bits

Division of `Int` rounds down, and the remainder has the sign of the divisor.  Sums and products
are those of `Int64`, which wrap around; `[m..n]` does not go past `n`.
-/

namespace Etude
namespace Base
namespace HaskellInt

/-- `div`, by a number that is positive. -/
def div (a b : Int64) : Int64 :=
  Int64.ofInt (a.toInt.fdiv b.toInt)

/-- `mod`, by a number that is positive. -/
def mod (a b : Int64) : Int64 :=
  Int64.ofInt (a.toInt.fmod b.toInt)

/-- `[m..n]` -/
def enumFromTo (m n : Int64) : List Int64 :=
  (List.range (n.toInt + 1 - m.toInt).toNat).map fun i => m + Int64.ofNat i

section Division

variable {a b : Int64}

theorem toInt_div (hb : 0 < b.toInt) : (div a b).toInt = a.toInt / b.toInt := by
  have hlow := Int64.le_toInt a
  have hhigh := Int64.toInt_lt a
  rw [div, Int.fdiv_eq_ediv_of_nonneg _ (Int.le_of_lt hb)]
  apply Int64.toInt_ofInt_of_le
  · apply Int.le_ediv_of_mul_le hb
    omega
  · apply Int.ediv_lt_of_lt_mul hb
    omega

theorem toInt_mod (hb : 0 < b.toInt) : (mod a b).toInt = a.toInt % b.toInt := by
  have hnonneg := Int.emod_nonneg a.toInt (Int.ne_of_gt hb)
  have hlt := Int.emod_lt_of_pos a.toInt hb
  have hhigh := Int64.toInt_lt b
  rw [mod, Int.fmod_eq_emod_of_nonneg _ (Int.le_of_lt hb)]
  exact Int64.toInt_ofInt_of_le (by omega) (by omega)

end Division

section Ranges

variable {m n x : Int64}

theorem toInt_element {i : ℕ} (hi : i < (n.toInt + 1 - m.toInt).toNat) :
    (m + Int64.ofNat i).toInt = m.toInt + i := by
  have hlow := Int64.le_toInt m
  have hhigh := Int64.toInt_lt n
  have helement : m + Int64.ofNat i = Int64.ofInt (m.toInt + i) := by
    rw [Int64.ofInt_add, Int64.ofInt_toInt, Int64.ofInt_eq_ofNat]
  rw [helement]
  exact Int64.toInt_ofInt_of_le (by omega) (by omega)

theorem mem_enumFromTo : x ∈ enumFromTo m n ↔ m ≤ x ∧ x ≤ n := by
  rw [enumFromTo, List.mem_map, Int64.le_iff_toInt_le, Int64.le_iff_toInt_le]
  constructor
  · rintro ⟨i, hi, rfl⟩
    have hlt := List.mem_range.mp hi
    rw [toInt_element hlt]
    omega
  · rintro ⟨hm, hn⟩
    have hlt : (x.toInt - m.toInt).toNat < (n.toInt + 1 - m.toInt).toNat := by omega
    refine ⟨(x.toInt - m.toInt).toNat, List.mem_range.mpr hlt, ?_⟩
    rw [← Int64.toInt_inj, toInt_element hlt]
    omega

theorem enumFromTo_ascending (m n : Int64) : (enumFromTo m n).Pairwise fun a b => a < b := by
  rw [enumFromTo, List.pairwise_map]
  apply List.pairwise_lt_range.imp_of_mem
  intro i j hi hj hlt
  rw [Int64.lt_iff_toInt_lt, toInt_element (List.mem_range.mp hi),
    toInt_element (List.mem_range.mp hj)]
  omega

end Ranges

end HaskellInt
end Base
end Etude
