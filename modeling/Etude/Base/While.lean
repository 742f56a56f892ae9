import Mathlib.Data.Nat.Basic

/-!
# While — fuelled loops

`whileLoop c body fuel s` runs `while (c s) s := body s`.  The body may fail (a memory fault),
and `none` is also the answer when `fuel` tests of the condition are not enough, so a statement
that the loop returns has to bound its number of rounds.  `heads c body n s` are the states in which
the loop tests its condition, whether it returns or not.
-/

namespace Etude
namespace Base

variable {σ : Type*}

def whileLoop (c : σ → Bool) (body : σ → Option σ) : ℕ → σ → Option σ
  | 0, _ => none
  | fuel + 1, s => if c s then (body s).bind (whileLoop c body fuel) else some s

/-- Total correctness: an invariant `I` under which the body succeeds and makes the variant `m`
smaller gives a final state that satisfies `I` and fails the condition. -/
theorem whileLoop_spec {c : σ → Bool} {body : σ → Option σ} {I : σ → Prop} {m : σ → ℕ}
    (hbody : ∀ s, I s → c s = true → ∃ t, body s = some t ∧ I t ∧ m t < m s) :
    ∀ (fuel : ℕ) (s : σ), I s → m s < fuel →
      ∃ t, whileLoop c body fuel s = some t ∧ I t ∧ c t = false := by
  -- Fuel above the variant is enough.
  intro fuel
  induction fuel with
  | zero =>
      intro s _ hm
      omega
  | succ fuel ih =>
      intro s hI hm
      cases hc : c s with
      | false =>
          exact ⟨s, by simp [whileLoop, hc], hI, hc⟩
      | true =>
          rcases hbody s hI hc with ⟨t, ht, hIt, hmt⟩
          rcases ih t hIt (by omega) with ⟨t', ht', hIt', hc'⟩
          exact ⟨t', by simp [whileLoop, hc, ht, ht'], hIt', hc'⟩

/-! ## The states in the middle -/

/-- The states in which the condition is tested, in the first `n` tests. -/
def heads (c : σ → Bool) (body : σ → Option σ) : ℕ → σ → List σ
  | 0, _ => []
  | n + 1, s => s :: if c s then (body s).elim [] (heads c body n) else []

section Invariant

variable {c : σ → Bool} {body : σ → Option σ} {I : σ → Prop} {m : σ → ℕ}

/-- An invariant holds at every test of the condition, and a variant bounds their number. -/
theorem heads_spec (hkeep : ∀ s t, I s → c s = true → body s = some t → I t ∧ m t < m s) (n : ℕ)
    {s : σ} (hs : I s) :
    (∀ t ∈ heads c body n s, I t) ∧ (heads c body n s).length ≤ m s + 1 := by
  induction n generalizing s with
  | zero =>
      simp [heads]
  | succ n ih =>
      cases hc : c s with
      | false =>
          simp [heads, hc, hs]
      | true =>
          cases hbody : body s with
          | none =>
              simp [heads, hc, hbody, hs]
          | some t =>
              rcases hkeep s t hs hc hbody with ⟨ht, hlt⟩
              rcases ih ht with ⟨hall, hlen⟩
              have hheads : heads c body (n + 1) s = s :: heads c body n t := by
                simp [heads, hc, hbody]
              rw [hheads]
              constructor
              · intro u hu
                rcases List.mem_cons.mp hu with rfl | hu
                · exact hs
                · exact hall u hu
              · rw [List.length_cons]
                omega

/-- Partial correctness: what the body keeps holds when the loop returns. -/
theorem whileLoop_keeps (hkeep : ∀ s t, I s → c s = true → body s = some t → I t) {fuel : ℕ}
    {s t : σ} (hs : I s) (h : whileLoop c body fuel s = some t) : I t ∧ c t = false := by
  induction fuel generalizing s with
  | zero =>
      cases h
  | succ fuel ih =>
      cases hc : c s with
      | false =>
          rw [whileLoop, hc, if_neg Bool.false_ne_true] at h
          cases h
          exact ⟨hs, hc⟩
      | true =>
          rw [whileLoop, hc, if_pos rfl] at h
          rcases Option.bind_eq_some_iff.mp h with ⟨u, hu, hrest⟩
          exact ih (hkeep s u hs hc hu) hrest

end Invariant

end Base
end Etude
