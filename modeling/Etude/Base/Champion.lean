import Mathlib.Data.List.Basic
import Mathlib.Data.List.Induction
import Mathlib.Data.Nat.Notation

/-!
# Champion — the first of the greatest elements

A fold keeps an element until a greater one comes.  The elements are compared by keys that may not
be there, and the fold fails with the first that is missing.
-/

namespace Etude
namespace Base

universe u v

variable {α : Type u} {β : Type u} {ε : Type v}

section Keys

variable [LT β] [DecidableLT β]

/-- The challenger wins if it is greater. -/
def challenge (key : α → Except ε β) (a x : α) : Except ε α := do
  let b ← key x
  let c ← key a
  return if b > c then x else a

variable {key : α → Except ε β}

theorem challenge_of_keys {a x : α} {b c : β} (hx : key x = .ok b) (ha : key a = .ok c) :
    challenge key a x = .ok (if b > c then x else a) := by
  rw [challenge, hx, ha]
  rfl

theorem keys_of_challenge {a x r : α} (h : challenge key a x = .ok r) :
    (∃ b, key x = .ok b) ∧ ∃ c, key a = .ok c := by
  rw [challenge] at h
  cases hx : key x with
  | error e =>
      rw [hx] at h
      cases h
  | ok b =>
      cases ha : key a with
      | error e =>
          rw [hx, ha] at h
          cases h
      | ok c =>
          exact ⟨⟨b, rfl⟩, ⟨c, rfl⟩⟩

/-- A fold that succeeds has looked at all keys, unless there is nothing to compare. -/
theorem keys_of_foldlM_challenge {a r : α} {xs : List α} (hne : xs ≠ [])
    (h : xs.foldlM (challenge key) a = .ok r) : ∀ x ∈ a :: xs, ∃ b, key x = .ok b := by
  induction xs generalizing a with
  | nil =>
      exact absurd rfl hne
  | cons x xs ih =>
      rw [List.foldlM_cons] at h
      cases hstep : challenge key a x with
      | error e =>
          rw [hstep] at h
          cases h
      | ok a' =>
          rw [hstep] at h
          have hkeys := keys_of_challenge hstep
          refine List.forall_mem_cons.mpr ⟨hkeys.2, List.forall_mem_cons.mpr ⟨hkeys.1, ?_⟩⟩
          intro y hy
          exact ih (List.ne_nil_of_mem hy) h y (List.mem_cons_of_mem a' hy)

end Keys

section Greatest

variable [LT β] [LE β]

/-- The element `i` of the list, which no other surpasses and no earlier one equals. -/
def FirstGreatest (key : α → Except ε β) (l : List α) (i : ℕ) (r : α) : Prop :=
  l[i]? = some r ∧
    ∀ j y, j ≠ i → l[j]? = some y →
      ∃ b c, key r = .ok b ∧ key y = .ok c ∧ c ≤ b ∧ (j < i → c < b)

theorem firstGreatest_singleton (key : α → Except ε β) (a : α) : FirstGreatest key [a] 0 a := by
  refine ⟨rfl, ?_⟩
  intro j y hj hy
  cases j with
  | zero =>
      exact absurd rfl hj
  | succ j =>
      cases hy

variable [DecidableLT β] [Std.IsLinearOrder β] [Std.LawfulOrderLT β] {key : α → Except ε β}

/-- One more element either stays behind or becomes the greatest. -/
theorem lt_or_eq_of_getElem?_concat {l : List α} {x y : α} {j : ℕ}
    (hy : (l ++ [x])[j]? = some y) : j < l.length ∧ l[j]? = some y ∨ j = l.length ∧ x = y := by
  by_cases hjlt : j < l.length
  · rw [List.getElem?_append_left hjlt] at hy
    exact Or.inl ⟨hjlt, hy⟩
  · have hlength := (List.getElem?_eq_some_iff.mp hy).1
    rw [List.length_append, List.length_singleton] at hlength
    have hjeq : j = l.length := by omega
    rw [hjeq, List.getElem?_concat_length] at hy
    exact Or.inr ⟨hjeq, Option.some.inj hy⟩

omit [DecidableLT β] in
/-- An entry above the greatest so far is the greatest of all. -/
theorem FirstGreatest.concat_new {l : List α} {i : ℕ} {r x : α} {b c : β}
    (h : FirstGreatest key l i r) (hx : key x = .ok b) (hr : key r = .ok c) (hlt : b > c) :
    FirstGreatest key (l ++ [x]) l.length x := by
  refine ⟨List.getElem?_concat_length, ?_⟩
  intro j y hj hy
  rcases lt_or_eq_of_getElem?_concat hy with ⟨-, hy⟩ | ⟨hjeq, -⟩
  · by_cases hji : j = i
    · subst hji
      rw [h.1] at hy
      cases hy
      exact ⟨b, c, hx, hr, Std.le_of_lt hlt, fun _ => hlt⟩
    · rcases h.2 j y hji hy with ⟨c', d, hr', hy', hle, -⟩
      rw [hr] at hr'
      cases hr'
      have hless : d < b := Std.lt_of_le_of_lt hle hlt
      exact ⟨b, d, hx, hy', Std.le_of_lt hless, fun _ => hless⟩
  · exact absurd hjeq hj

omit [DecidableLT β] in
/-- An entry that is not above it leaves the greatest so far. -/
theorem FirstGreatest.concat_old {l : List α} {i : ℕ} {r x : α} {b c : β}
    (h : FirstGreatest key l i r) (hx : key x = .ok b) (hr : key r = .ok c) (hnot : ¬ b > c) :
    FirstGreatest key (l ++ [x]) i r := by
  have hi : i < l.length := (List.getElem?_eq_some_iff.mp h.1).1
  refine ⟨by rw [List.getElem?_append_left hi, h.1], ?_⟩
  intro j y hj hy
  rcases lt_or_eq_of_getElem?_concat hy with ⟨-, hy⟩ | ⟨hjeq, rfl⟩
  · exact h.2 j y hj hy
  · have hafter : ¬ j < i := by omega
    exact ⟨c, b, hr, hx, Std.not_lt.mp hnot, fun hji => absurd hji hafter⟩

theorem FirstGreatest.concat {l : List α} {i : ℕ} {r x : α} {b c : β}
    (h : FirstGreatest key l i r) (hx : key x = .ok b) (hr : key r = .ok c) :
    ∃ i', FirstGreatest key (l ++ [x]) i' (if b > c then x else r) := by
  split_ifs with hlt
  · exact ⟨l.length, h.concat_new hx hr hlt⟩
  · exact ⟨i, h.concat_old hx hr hlt⟩

theorem exists_foldlM_challenge {a : α} (xs : List α)
    (h : ∀ x ∈ a :: xs, ∃ b, key x = .ok b) :
    ∃ r i, xs.foldlM (challenge key) a = .ok r ∧ FirstGreatest key (a :: xs) i r := by
  induction xs using List.reverseRecOn with
  | nil =>
      exact ⟨a, 0, rfl, firstGreatest_singleton key a⟩
  | append_singleton xs x ih =>
      rw [← List.cons_append, List.forall_mem_append] at h
      rcases ih h.1 with ⟨r, i, hr, hgreatest⟩
      rcases h.2 x List.mem_cons_self with ⟨b, hb⟩
      rcases h.1 r (List.mem_of_getElem? hgreatest.1) with ⟨c, hc⟩
      rcases hgreatest.concat hb hc with ⟨i', hi'⟩
      refine ⟨_, i', ?_, hi'⟩
      have hlast : List.foldlM (challenge key) r [x] = .ok (if b > c then x else r) := by
        rw [List.foldlM_cons, challenge_of_keys hb hc]
        rfl
      rw [List.foldlM_append, hr]
      exact hlast

end Greatest

end Base
end Etude
