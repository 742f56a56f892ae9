import Mathlib.Algebra.BigOperators.Group.List.Basic
import Mathlib.Algebra.GroupWithZero.Nat
import Etude.Base.Run

/-!
# Potential — runs that a potential bounds

Every step uses up one unit of a potential, and some events add to it.  A run is then no longer than
the potential at its start and what its events add.  `P` says which events the run consists of.
-/

namespace Etude
namespace Base

universe u v

variable {σ : Type u} {ε : Type v} {step : σ → ε → Option σ} {I : σ → Prop}
variable {potential : σ → ℕ} {gain : ε → ℕ}

theorem run_potential {P : ε → Prop}
    (hkeep : ∀ s e t, I s → step s e = some t → I t)
    (hstep : ∀ s e t, I s → P e → step s e = some t → potential t + 1 ≤ potential s + gain e)
    {s t : σ} {es : List ε} (hs : I s) (hes : ∀ e ∈ es, P e) (hrun : run step s es = some t) :
    potential t + es.length ≤ potential s + (es.map gain).sum := by
  induction es generalizing s with
  | nil =>
      cases hrun
      exact Nat.le_refl _
  | cons e es ih =>
      rw [List.forall_mem_cons] at hes
      rcases Option.bind_eq_some_iff.mp hrun with ⟨u, hu, hut⟩
      have hone := hstep s e u hs hes.1 hu
      have hrest := ih (hkeep s e u hs hu) hes.2 hut
      rw [List.length_cons, List.map_cons, List.sum_cons]
      omega

/-- Where no event adds to the potential, it bounds the run alone. -/
theorem length_le_potential {P : ε → Prop}
    (hkeep : ∀ s e t, I s → step s e = some t → I t)
    (hstep : ∀ s e t, I s → P e → step s e = some t → potential t + 1 ≤ potential s)
    {s t : σ} {es : List ε} (hs : I s) (hes : ∀ e ∈ es, P e) (hrun : run step s es = some t) :
    es.length ≤ potential s := by
  have h : potential t + es.length ≤ potential s + (es.map fun _ => 0).sum :=
    run_potential hkeep hstep hs hes hrun
  have hsum : (es.map fun _ => 0).sum = 0 := by simp
  omega

end Base
end Etude
