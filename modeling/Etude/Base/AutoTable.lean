import Mathlib.Data.Int.Notation
import Mathlib.Data.List.Nodup
import Mathlib.Data.List.Pairwise
import Mathlib.Logic.Function.Basic
import Mathlib.Order.Basic

/-!
# AutoTable — tables whose key numbers the rows

A table whose primary key is filled in by a counter.  The rows are kept in the order of their keys,
and no key is as large as the counter, which are fields of the table: what the statements do to the
contents follows from them.  The counter need not only grow: a server may compute it again from the
keys that are left.
-/

namespace Etude
namespace Base

universe u

variable {α : Type u}

structure AutoTable (α : Type u) where
  rows : List (ℤ × α)
  next : ℤ
  ascending : rows.Pairwise fun r q => r.1 < q.1
  below : ∀ r ∈ rows, r.1 < next

namespace AutoTable

/-! ## Statements -/

def empty (next : ℤ) : AutoTable α :=
  { rows := []
    next := next
    ascending := List.Pairwise.nil
    below := fun r hr => by cases hr }

/-- `INSERT`, with the next key. -/
def insert (t : AutoTable α) (a : α) : AutoTable α :=
  { rows := t.rows ++ [(t.next, a)]
    next := t.next + 1
    ascending := by
      rw [List.pairwise_append]
      refine ⟨t.ascending, List.pairwise_singleton _ _, ?_⟩
      intro r hr q hq
      rw [List.mem_singleton.mp hq]
      exact t.below r hr
    below := by
      intro r hr
      rcases List.mem_append.mp hr with hr | hr
      · exact Int.lt_add_one_of_le (Int.le_of_lt (t.below r hr))
      · rw [List.mem_singleton.mp hr]
        exact Int.lt_succ t.next }

def setIf (p : ℤ → Bool) (a : α) (r : ℤ × α) : ℤ × α :=
  if p r.1 then (r.1, a) else r

@[simp] theorem setIf_fst (p : ℤ → Bool) (a : α) (r : ℤ × α) : (setIf p a r).1 = r.1 := by
  unfold setIf
  split_ifs <;> rfl

/-- The counter is set anew, which it is only to what is above all keys. -/
def recount (t : AutoTable α) (next : ℤ) : AutoTable α :=
  if h : ∀ r ∈ t.rows, r.1 < next then
    { t with
      next := next
      below := h }
  else
    t

/-- `UPDATE`, of the rows whose keys meet `p`. -/
def update (t : AutoTable α) (p : ℤ → Bool) (a : α) : AutoTable α :=
  { rows := t.rows.map (setIf p a)
    next := t.next
    ascending := by
      rw [List.pairwise_map]
      simpa using t.ascending
    below := by
      intro r hr
      rcases List.mem_map.mp hr with ⟨q, hq, rfl⟩
      simpa using t.below q hq }

/-- `DELETE`, of the rows whose keys meet `p`. -/
def delete (t : AutoTable α) (p : ℤ → Bool) : AutoTable α :=
  { rows := t.rows.filter fun r => !p r.1
    next := t.next
    ascending := t.ascending.filter _
    below := fun r hr => t.below r (List.mem_filter.mp hr).1 }

/-- `SELECT`, of the rows whose keys meet `p`. -/
def select (t : AutoTable α) (p : ℤ → Bool) : List (ℤ × α) :=
  t.rows.filter fun r => p r.1

/-! ## Contents -/

/-- The table as a map from keys. -/
def content (t : AutoTable α) (n : ℤ) : Option α :=
  (t.rows.find? fun r => r.1 = n).map Prod.snd

variable (t : AutoTable α)

theorem eq_of_mem {r q : ℤ × α} (hr : r ∈ t.rows) (hq : q ∈ t.rows) (h : r.1 = q.1) : r = q := by
  have hall : t.rows.Pairwise fun r q => r.1 = q.1 → r = q :=
    t.ascending.imp fun hlt heq => absurd heq (Int.ne_of_lt hlt)
  have hsymm : Std.Symm fun r q : ℤ × α => r.1 = q.1 → r = q :=
    ⟨fun _ _ hrq heq => (hrq heq.symm).symm⟩
  exact hall.forall_of_forall (fun _ _ _ => rfl) hr hq h

theorem mem_rows_iff {n : ℤ} {a : α} : (n, a) ∈ t.rows ↔ t.content n = some a := by
  unfold content
  constructor
  · intro hmem
    cases hfind : t.rows.find? fun r => r.1 = n with
    | none =>
        exact absurd (List.find?_eq_none.mp hfind (n, a) hmem) (by simp)
    | some r =>
        -- The row found has the same key, so it is the same row.
        have hkey : r.1 = n := by simpa using List.find?_some hfind
        rw [t.eq_of_mem (List.mem_of_find?_eq_some hfind) hmem hkey]
        rfl
  · intro h
    rcases Option.map_eq_some_iff.mp h with ⟨r, hfind, rfl⟩
    have hkey : r.1 = n := by simpa using List.find?_some hfind
    rw [← hkey]
    exact List.mem_of_find?_eq_some hfind

theorem content_eq_of_mem_iff {n : ℤ} {o : Option α} (h : ∀ a, (n, a) ∈ t.rows ↔ o = some a) :
    t.content n = o := by
  apply Option.ext
  intro a
  exact (t.mem_rows_iff.symm.trans (h a))

theorem content_next : t.content t.next = none := by
  cases h : t.content t.next with
  | none =>
      rfl
  | some a =>
      exact absurd (t.below _ (t.mem_rows_iff.mpr h)) (Int.lt_irrefl _)

theorem content_recount (next : ℤ) : (t.recount next).content = t.content := by
  unfold recount
  split_ifs <;> rfl

theorem content_insert (a : α) :
    (t.insert a).content = Function.update t.content t.next (some a) := by
  funext n
  apply content_eq_of_mem_iff
  intro b
  have hrow : (n, b) ∈ (t.insert a).rows ↔ (n, b) ∈ t.rows ∨ (n, b) = (t.next, a) := by
    simp [insert]
  rw [hrow, mem_rows_iff, Function.update_apply]
  by_cases hn : n = t.next
  · subst hn
    simp [content_next, eq_comm]
  · simp [hn]

theorem content_update (p : ℤ → Bool) (a : α) (n : ℤ) :
    (t.update p a).content n = if p n then (t.content n).map fun _ => a else t.content n := by
  -- An update changes no key, so the row with a key is the updated one.
  have hfind : ∀ rows : List (ℤ × α), ((rows.map (setIf p a)).find? fun r => r.1 = n) =
      (rows.find? fun r => r.1 = n).map (setIf p a) := by
    intro rows
    rw [List.find?_map]
    congr 2
    funext r
    simp
  rw [content, update, hfind, content]
  cases hrow : t.rows.find? fun r => r.1 = n with
  | none =>
      simp
  | some r =>
      have hkey : r.1 = n := by simpa using List.find?_some hrow
      simp only [Option.map_some, setIf, hkey]
      split_ifs <;> rfl

theorem content_delete (p : ℤ → Bool) (n : ℤ) :
    (t.delete p).content n = if p n then none else t.content n := by
  apply content_eq_of_mem_iff
  intro a
  have hrow : (n, a) ∈ (t.delete p).rows ↔ (n, a) ∈ t.rows ∧ p n = false := by
    simp [delete]
  rw [hrow, mem_rows_iff]
  by_cases hp : p n = true
  · simp [hp]
  · simp [hp]

/-- The rows are determined by the contents. -/
theorem rows_eq_of_content {t u : AutoTable α} (h : t.content = u.content) : t.rows = u.rows := by
  have hmem : ∀ r, r ∈ t.rows ↔ r ∈ u.rows := by
    rintro ⟨n, a⟩
    rw [mem_rows_iff, mem_rows_iff, h]
  have hnodup : ∀ v : AutoTable α, v.rows.Nodup := fun v =>
    v.ascending.imp fun hlt heq => absurd (congrArg Prod.fst heq) (Int.ne_of_lt hlt)
  -- The same rows, and in the same order.
  have hperm : t.rows.Perm u.rows := (List.perm_ext_iff_of_nodup (hnodup t) (hnodup u)).mpr hmem
  exact hperm.eq_of_pairwise
    (fun r q _ _ hrq hqr => absurd (Int.lt_trans hrq hqr) (Int.lt_irrefl _)) t.ascending u.ascending

theorem eq_of_content {t u : AutoTable α} (h : t.content = u.content) (hnext : t.next = u.next) :
    t = u := by
  -- The other fields are proofs.
  have hrows := rows_eq_of_content h
  cases t
  cases u
  cases hrows
  cases hnext
  rfl

/-- Rows that are written as they were. -/
theorem update_eq_self {p : ℤ → Bool} {a : α} (h : ∀ n, p n = true → t.content n = some a) :
    t.update p a = t := by
  refine eq_of_content ?_ rfl
  funext n
  rw [content_update]
  split_ifs with hn
  · rw [h n hn, Option.map_some]
  · rfl

/-- At most one row has a given key. -/
theorem select_key {p : ℤ → Bool} {key : Option ℤ} (hp : ∀ n, p n = true ↔ key = some n) :
    t.select p = (key.bind fun n => (t.content n).map fun a => (n, a)).toList := by
  have hmem : ∀ r, r ∈ t.select p ↔ t.content r.1 = some r.2 ∧ key = some r.1 := by
    rintro ⟨n, a⟩
    rw [select, List.mem_filter, mem_rows_iff, hp]
  cases hkey : key.bind fun n => (t.content n).map fun a => (n, a) with
  | none =>
      refine List.eq_nil_iff_forall_not_mem.mpr ?_
      rintro ⟨n, a⟩ hr
      rcases (hmem _).mp hr with ⟨hcontent, rfl⟩
      rw [Option.bind_some, hcontent] at hkey
      cases hkey
  | some r =>
      rcases Option.bind_eq_some_iff.mp hkey with ⟨n, rfl, hrow⟩
      rcases Option.map_eq_some_iff.mp hrow with ⟨a, hcontent, rfl⟩
      have hone : ∀ r, r ∈ t.select p ↔ r ∈ [(n, a)] := by
        rintro ⟨m, b⟩
        rw [hmem, List.mem_singleton, Prod.mk.injEq]
        constructor
        · rintro ⟨hb, hm⟩
          cases hm
          rw [hcontent] at hb
          cases hb
          exact ⟨rfl, rfl⟩
        · rintro ⟨rfl, rfl⟩
          exact ⟨hcontent, rfl⟩
      have hnodup : (t.select p).Nodup := List.Nodup.filter _ (t.ascending.imp fun hlt heq =>
        absurd (congrArg Prod.fst heq) (Int.ne_of_lt hlt))
      exact List.perm_singleton.mp
        ((List.perm_ext_iff_of_nodup hnodup (List.nodup_singleton _)).mpr hone)

end AutoTable

end Base
end Etude
