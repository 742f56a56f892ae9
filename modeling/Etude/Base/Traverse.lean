import Mathlib.Data.List.Basic

/-!
# Traverse — a computation on every entry of a list

`mapM` gives a list exactly when the computation, which may fail, gives its entries one by one.  A
recursion that puts the lists of the entries behind one another is a `flatMap`.
-/

namespace Etude
namespace Base

universe u v w

variable {α : Type u} {β : Type v} {γ : Type w} {f : α → Option β}

theorem mapM_eq_some_iff {as : List α} {bs : List β} :
    as.mapM f = some bs ↔ as.map f = bs.map some := by
  induction as generalizing bs with
  | nil =>
      cases bs with
      | nil => simp
      | cons b bs => simp
  | cons a as ih =>
      rw [List.mapM_cons, List.map_cons]
      cases ha : f a with
      | none =>
          cases bs with
          | nil => simp
          | cons b bs => simp
      | some b =>
          cases bs with
          | nil =>
              cases as.mapM f with
              | none => simp
              | some bs => simp
          | cons b' bs =>
              rw [List.map_cons, List.cons.injEq, ← ih, Option.some.injEq]
              cases as.mapM f with
              | none => simp
              | some bs' => simp

/-- An action on every entry of a list, one after the other, gives what it gives for each. -/
theorem mapM_map_eq_some_iff {g : γ → α} {h : γ → β} (l : List γ) :
    (l.map g).mapM f = some (l.map h) ↔ ∀ c ∈ l, f (g c) = some (h c) := by
  rw [mapM_eq_some_iff, List.map_map, List.map_map]
  exact List.map_inj_left

/-- Every entry of the result is that of an entry of the list. -/
theorem exists_of_mem_mapM {as : List α} {bs : List β} (h : as.mapM f = some bs) {b : β}
    (hb : b ∈ bs) : ∃ a ∈ as, f a = some b := by
  have hmem : some b ∈ as.map f := by
    rw [mapM_eq_some_iff.mp h]
    exact List.mem_map_of_mem hb
  exact List.mem_map.mp hmem

/-- A recursion that is also part of a recursion over trees, where `flatMap` cannot stand. -/
theorem eq_flatMap {g : List α → List β} {h : α → List β} (hnil : g [] = [])
    (hcons : ∀ a as, g (a :: as) = h a ++ g as) (as : List α) : g as = as.flatMap h := by
  induction as with
  | nil =>
      rw [hnil, List.flatMap_nil]
  | cons a as ih =>
      rw [hcons, List.flatMap_cons, ih]

end Base
end Etude
