import Mathlib.Algebra.BigOperators.Group.List.Basic
import Mathlib.Data.List.AList

/-!
# Tally — amounts summed by key

A tally is a finite map from keys to sums, built from a list of keyed amounts one at a time.  What
it holds for a key is the sum of the amounts under that key, and all it holds adds up to the sum
of all amounts, whatever the order of the list.
-/

namespace Etude
namespace Base

universe u v

variable {κ : Type u} {M : Type v} [DecidableEq κ]

abbrev Tally (κ : Type u) (M : Type v) :=
  AList fun _ : κ => M

namespace Tally

/-! ## Maps from lists -/

/-- The map with the entries of `l` written in order. -/
def ofList (l : List (κ × M)) : Tally κ M :=
  l.foldl (fun m x => m.insert x.1 x.2) ∅

theorem lookup_foldl_insert {l : List (κ × M)} (hl : (l.map Prod.fst).Nodup) (m : Tally κ M)
    (k : κ) (v : M) :
    (l.foldl (fun m x => m.insert x.1 x.2) m).lookup k = some v ↔
      (k, v) ∈ l ∨ k ∉ l.map Prod.fst ∧ m.lookup k = some v := by
  induction l generalizing m with
  | nil =>
      simp
  | cons x l ih =>
      rw [List.map_cons, List.nodup_cons] at hl
      rw [List.foldl_cons, ih hl.2]
      have hkey : (k, v) ∈ l → k ∈ l.map Prod.fst := fun h => List.mem_map_of_mem (f := Prod.fst) h
      by_cases hk : k = x.1
      · subst hk
        have hnew : (x.1, v) ∉ l := fun h => hl.1 (hkey h)
        have hhead : (x.1, v) = x ↔ x.2 = v := by
          constructor
          · intro h
            rw [← h]
          · rintro rfl
            rfl
        rw [AList.lookup_insert, List.mem_cons, List.map_cons, List.mem_cons, hhead]
        simp only [hnew, hl.1, Option.some.injEq, not_true_eq_false, false_and, or_false,
          false_or, not_false_eq_true, true_and]
      · have hne : (k, v) ≠ x := fun h => hk (congrArg Prod.fst h)
        rw [AList.lookup_insert_ne hk, List.mem_cons, List.map_cons, List.mem_cons]
        simp only [hne, hk, false_or]

theorem lookup_ofList {l : List (κ × M)} (hl : (l.map Prod.fst).Nodup) (k : κ) (v : M) :
    (ofList l).lookup k = some v ↔ (k, v) ∈ l := by
  rw [ofList, lookup_foldl_insert hl, AList.lookup_empty]
  simp

theorem entries_perm_of_lookup {m n : Tally κ M}
    (h : ∀ k v, m.lookup k = some v ↔ n.lookup k = some v) : m.entries.Perm n.entries :=
  List.lookup_ext m.nodupKeys n.nodupKeys fun k v => h k v

/-! ## Sums by key -/

section Sums

variable [AddCommMonoid M]

/-- `m` with the amount of `x` added under its key. -/
def bump (m : Tally κ M) (x : κ × M) : Tally κ M :=
  m.insert x.1 ((m.lookup x.1).getD 0 + x.2)

/-- The sum of the amounts under `k`. -/
def amount (k : κ) (l : List (κ × M)) : M :=
  ((l.filter fun x => x.1 = k).map Prod.snd).sum

/-- The sum of the values of a map. -/
def total (m : Tally κ M) : M :=
  (m.entries.map fun e => e.2).sum

theorem amount_cons_self (k : κ) (a : M) (l : List (κ × M)) :
    amount k ((k, a) :: l) = a + amount k l := by
  simp [amount]

theorem amount_cons_ne {k : κ} {x : κ × M} (h : x.1 ≠ k) (l : List (κ × M)) :
    amount k (x :: l) = amount k l := by
  simp [amount, h]

theorem lookup_foldl_bump (l : List (κ × M)) (m : Tally κ M) (k : κ) (v : M) :
    (l.foldl bump m).lookup k = some v ↔
      (k ∈ m ∨ k ∈ l.map Prod.fst) ∧ v = (m.lookup k).getD 0 + amount k l := by
  induction l generalizing m with
  | nil =>
      cases hm : m.lookup k with
      | none =>
          have hk : k ∉ m := AList.lookup_eq_none.mp hm
          simp [hm, hk]
      | some w =>
          have hk : k ∈ m := by
            rw [← AList.lookup_isSome, hm]
            rfl
          simp [hm, hk, amount, eq_comm]
  | cons x l ih =>
      obtain ⟨j, a⟩ := x
      rw [List.foldl_cons, ih, bump, AList.mem_insert, List.map_cons, List.mem_cons]
      by_cases hk : k = j
      · subst hk
        rw [AList.lookup_insert, Option.getD_some, amount_cons_self, add_assoc]
        simp only [true_or, or_true]
      · rw [AList.lookup_insert_ne hk, amount_cons_ne (Ne.symm hk)]
        simp only [hk, false_or]

/-- What a tally holds for a key. -/
theorem lookup_tally (l : List (κ × M)) (k : κ) (v : M) :
    (l.foldl bump ∅).lookup k = some v ↔ k ∈ l.map Prod.fst ∧ v = amount k l := by
  rw [lookup_foldl_bump, AList.lookup_empty, Option.getD_none, zero_add]
  simp only [AList.notMem_empty, false_or]

/-- A key's old value is replaced by its sum with the amount: the total grows by the amount. -/
theorem total_bump (m : Tally κ M) (x : κ × M) : total (bump m x) = total m + x.2 := by
  have hentries : (bump m x).entries =
      ⟨x.1, (m.lookup x.1).getD 0 + x.2⟩ :: m.entries.kerase x.1 := AList.entries_insert
  rw [total, hentries, List.map_cons, List.sum_cons]
  by_cases hk : x.1 ∈ m
  · obtain ⟨b, l₁, l₂, hfresh, hsplit, herase⟩ := List.exists_of_kerase (AList.mem_keys.mp hk)
    have hvalue : m.lookup x.1 = some b := by
      apply AList.mem_lookup_iff.mpr
      rw [hsplit]
      exact List.mem_append_right l₁ List.mem_cons_self
    rw [hvalue, Option.getD_some, herase, total, hsplit]
    simp only [List.map_append, List.map_cons, List.sum_append, List.sum_cons]
    ac_rfl
  · have hkeys : x.1 ∉ m.entries.keys := fun h => hk (AList.mem_keys.mpr h)
    rw [AList.lookup_eq_none.mpr hk, Option.getD_none, zero_add,
      List.kerase_of_notMem_keys hkeys, add_comm]
    rfl

theorem total_foldl_bump (l : List (κ × M)) (m : Tally κ M) :
    total (l.foldl bump m) = total m + (l.map Prod.snd).sum := by
  induction l generalizing m with
  | nil =>
      simp
  | cons x l ih =>
      calc
        total ((x :: l).foldl bump m) = total (bump m x) + (l.map Prod.snd).sum := ih _
        _ = total m + x.2 + (l.map Prod.snd).sum := by rw [total_bump]
        _ = total m + ((x :: l).map Prod.snd).sum := by
          rw [List.map_cons, List.sum_cons, add_assoc]

theorem total_tally (l : List (κ × M)) :
    total (l.foldl bump (∅ : Tally κ M)) = (l.map Prod.snd).sum := by
  rw [total_foldl_bump]
  simp [total]

theorem amount_perm {l l' : List (κ × M)} (h : l.Perm l') (k : κ) : amount k l = amount k l' :=
  ((h.filter _).map _).sum_eq

end Sums

end Tally

end Base
end Etude
