import Etude.Base.Sieve
import Mathlib.Data.Int.Basic
import Mathlib.Data.List.Sort
import Mathlib.Algebra.Order.Group.Int

/-!
# Primes — the sieve of two programs

`primes-sieve` and `data-001` have the same `primes` and `sieve`, and the second has the factors
by trial division as well.  An `Int` is an integer here: nothing that is computed leaves the range
of the given number.
-/

namespace Etude
namespace PrimesSieve

open Base

/-! ## The code -/

/-- `[m..n]` -/
def enumFromTo (m n : ℤ) : List ℤ :=
  (List.range (n + 1 - m).toNat).map fun i : ℕ => m + i

def factors (n : ℤ) : List ℤ :=
  (enumFromTo 1 n).filter fun x => n.fmod x = 0

/-- `ps` of `sieve` -/
def ps (p : ℤ) (xs : List ℤ) : List ℤ :=
  xs.filter fun x => !(x.fmod p = 0)

def sieve : List ℤ → List ℤ
  | [] => []
  | p :: xs => [p] ++ sieve (ps p xs)
termination_by xs => xs.length
decreasing_by exact Nat.lt_succ_of_le (List.length_filter_le _ xs)

def primes (n : ℤ) : List ℤ :=
  if n < 2 then [] else sieve (enumFromTo 2 n)

/-! ## Ranges -/

theorem mem_enumFromTo {m n x : ℤ} : x ∈ enumFromTo m n ↔ m ≤ x ∧ x ≤ n := by
  rw [enumFromTo, List.mem_map]
  constructor
  · rintro ⟨i, hi, rfl⟩
    have hlt := List.mem_range.mp hi
    omega
  · rintro ⟨hm, hn⟩
    exact ⟨(x - m).toNat, List.mem_range.mpr (by omega), by omega⟩

theorem enumFromTo_ascending (m n : ℤ) : (enumFromTo m n).Pairwise fun a b => a < b := by
  rw [enumFromTo, List.pairwise_map]
  exact List.pairwise_lt_range.imp fun h => by omega

/-! ## The sieve -/

/-- The sieve strikes out the multiples of each head. -/
theorem sieve_eq (xs : List ℤ) : sieve xs = Base.sieve (fun p x => x.fmod p = 0) xs := by
  induction xs using sieve.induct with
  | case1 =>
      rw [sieve, sieve_nil]
  | case2 p xs ih =>
      rw [sieve, sieve_cons, ih]
      rfl

theorem fmod_trans (a b c : ℤ) (hab : decide (b.fmod a = 0) = true)
    (hbc : decide (c.fmod b = 0) = true) : decide (c.fmod a = 0) = true := by
  rw [decide_eq_true_eq] at *
  have hdvd := Int.dvd_trans (Int.dvd_of_fmod_eq_zero hab) (Int.dvd_of_fmod_eq_zero hbc)
  exact Int.fmod_eq_zero_of_dvd hdvd

theorem primes_eq (n : ℤ) :
    primes n = Base.sieve (fun p x => x.fmod p = 0) (enumFromTo 2 n) := by
  by_cases hn : n < 2
  · have hempty : enumFromTo 2 n = [] := by
      apply List.eq_nil_iff_forall_not_mem.mpr
      intro x hx
      have hrange := mem_enumFromTo.mp hx
      omega
    rw [primes, if_pos hn, hempty, sieve_nil]
  · rw [primes, if_neg hn, sieve_eq]

/-- `p` has no divisors but `1` and itself. -/
def OnlyTrivialDivisors (p : ℤ) : Prop :=
  ∀ d, 0 < d → d ∣ p → d = 1 ∨ d = p

theorem mem_primes {n p : ℤ} : p ∈ primes n ↔ 2 ≤ p ∧ p ≤ n ∧ OnlyTrivialDivisors p := by
  rw [primes_eq, mem_sieve_iff fmod_trans (enumFromTo_ascending 2 n), mem_enumFromTo, and_assoc]
  refine and_congr_right fun htwo => and_congr_right fun hn => ?_
  constructor
  · intro hfree d hd hdvd
    have hle := Int.le_of_dvd (by omega) hdvd
    by_contra hcases
    rw [not_or] at hcases
    have hstruck := hfree d (mem_enumFromTo.mpr (by omega)) (by omega)
    exact absurd (Int.fmod_eq_zero_of_dvd hdvd) (of_decide_eq_false hstruck)
  · intro hdivisors y hy hlt
    have hrange := mem_enumFromTo.mp hy
    rw [decide_eq_false_iff_not]
    intro hmod
    have hy := hdivisors y (by omega) (Int.dvd_of_fmod_eq_zero hmod)
    omega

/-! ## Trial division -/

theorem mem_factors {n x : ℤ} : x ∈ factors n ↔ 1 ≤ x ∧ x ≤ n ∧ x ∣ n := by
  rw [factors, List.mem_filter, mem_enumFromTo, and_assoc, decide_eq_true_eq]
  refine and_congr_right fun _ => and_congr_right fun _ => ?_
  exact ⟨Int.dvd_of_fmod_eq_zero, Int.fmod_eq_zero_of_dvd⟩

theorem factors_eq_iff {p : ℤ} : factors p = [1, p] ↔ 2 ≤ p ∧ OnlyTrivialDivisors p := by
  have hascending : (factors p).Pairwise fun a b => a < b := (enumFromTo_ascending 1 p).filter _
  constructor
  · intro h
    have hone : 1 < p := by
      rw [h] at hascending
      exact (List.pairwise_cons.mp hascending).1 p List.mem_cons_self
    refine ⟨hone, ?_⟩
    intro d hd hdvd
    have hmem : d ∈ factors p := mem_factors.mpr ⟨hd, Int.le_of_dvd (by omega) hdvd, hdvd⟩
    rw [h] at hmem
    simpa using hmem
  · rintro ⟨htwo, hdivisors⟩
    have hpair : [1, p].Pairwise fun a b => a < b := by
      rw [List.pairwise_pair]
      omega
    apply List.Pairwise.eq_of_mem_iff hascending hpair
    intro x
    rw [mem_factors, List.mem_cons, List.mem_singleton]
    constructor
    · rintro ⟨hpos, -, hdvd⟩
      exact hdivisors x hpos hdvd
    · rintro (rfl | rfl)
      · exact ⟨Int.le_refl 1, by omega, Int.one_dvd p⟩
      · exact ⟨by omega, Int.le_refl x, Int.dvd_refl x⟩

/-- The sieve computes the primes up to a number, in ascending order, and trial division agrees
with it. -/
theorem primes_spec (n : ℤ) :
    ((primes n).Pairwise fun p q => p < q) ∧
      (∀ p, p ∈ primes n ↔ 2 ≤ p ∧ p ≤ n ∧ ∀ d, 0 < d → d ∣ p → d = 1 ∨ d = p) ∧
      ∀ p, p ∈ primes n ↔ 2 ≤ p ∧ p ≤ n ∧ factors p = [1, p] := by
  refine ⟨?_, fun p => mem_primes, ?_⟩
  · rw [primes_eq]
    exact (enumFromTo_ascending 2 n).sublist (sieve_sublist _ _)
  · intro p
    rw [mem_primes, factors_eq_iff]
    constructor
    · rintro ⟨htwo, hn, hdivisors⟩
      exact ⟨htwo, hn, htwo, hdivisors⟩
    · rintro ⟨htwo, hn, -, hdivisors⟩
      exact ⟨htwo, hn, hdivisors⟩

end PrimesSieve
end Etude
