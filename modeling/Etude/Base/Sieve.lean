import Mathlib.Order.Defs.PartialOrder
import Mathlib.Data.List.Basic

/-!
# Sieve — striking out by each head in turn

Every element that is left strikes out later ones.  When the relation is transitive, the elements
that stay are those that no earlier element strikes, struck out or not.
-/

namespace Etude
namespace Base

universe u

variable {α : Type u}

/-- The elements that `p` does not strike out. -/
def kept (strikes : α → α → Bool) (p : α) (xs : List α) : List α :=
  xs.filter fun x => !strikes p x

def sieve (strikes : α → α → Bool) : List α → List α
  | [] => []
  | p :: xs => p :: sieve strikes (kept strikes p xs)
termination_by xs => xs.length
decreasing_by exact Nat.lt_succ_of_le (List.length_filter_le _ xs)

theorem sieve_nil (strikes : α → α → Bool) : sieve strikes [] = [] := by
  rw [sieve]

theorem sieve_cons (strikes : α → α → Bool) (p : α) (xs : List α) :
    sieve strikes (p :: xs) = p :: sieve strikes (kept strikes p xs) := by
  rw [sieve]

theorem sieve_sublist (strikes : α → α → Bool) (xs : List α) :
    (sieve strikes xs).Sublist xs := by
  induction xs using sieve.induct strikes with
  | case1 =>
      rw [sieve_nil]
  | case2 p xs ih =>
      rw [sieve_cons]
      exact (ih.trans List.filter_sublist).cons_cons p

theorem mem_sieve_iff [Preorder α] {strikes : α → α → Bool}
    (htrans : ∀ a b c, strikes a b = true → strikes b c = true → strikes a c = true)
    {xs : List α} (hxs : xs.Pairwise fun a b => a < b) (x : α) :
    x ∈ sieve strikes xs ↔ x ∈ xs ∧ ∀ y ∈ xs, y < x → strikes y x = false := by
  induction xs using sieve.induct strikes with
  | case1 =>
      rw [sieve_nil]
      simp
  | case2 p xs ih =>
      rw [List.pairwise_cons] at hxs
      rw [sieve_cons, List.mem_cons, ih (hxs.2.filter _), kept, List.mem_filter, List.mem_cons]
      constructor
      · rintro (rfl | ⟨⟨hx, hpx⟩, hstay⟩)
        · refine ⟨Or.inl rfl, ?_⟩
          intro y hy hlt
          rcases List.mem_cons.mp hy with rfl | hy
          · exact absurd hlt (lt_irrefl y)
          · exact absurd hlt (lt_asymm (hxs.1 y hy))
        · refine ⟨Or.inr hx, ?_⟩
          intro y hy hlt
          rw [Bool.not_eq_true'] at hpx
          rcases List.mem_cons.mp hy with rfl | hy
          · exact hpx
          · -- what struck `y` out strikes whatever `y` would
            by_contra hyx
            rw [Bool.not_eq_false] at hyx
            cases hpy : strikes p y with
            | false =>
                have hfree := hstay y (List.mem_filter.mpr ⟨hy, by rw [hpy]; rfl⟩) hlt
                rw [hyx] at hfree
                cases hfree
            | true =>
                rw [htrans p y x hpy hyx] at hpx
                cases hpx
      · rintro ⟨rfl | hx, hstay⟩
        · exact Or.inl rfl
        · right
          have hpx := hstay p List.mem_cons_self (hxs.1 x hx)
          refine ⟨⟨hx, by rw [hpx]; rfl⟩, ?_⟩
          intro y hy hlt
          exact hstay y (List.mem_cons_of_mem p (List.mem_filter.mp hy).1) hlt

end Base
end Etude
