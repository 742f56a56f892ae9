import Mathlib.Data.List.Induction
import Mathlib.Logic.Function.Basic

/-!
# Table — values kept by key and written one at a time

Each event writes one entry of a table or none.  The entry of a key after some events is what
the last event that wrote it wrote, and events that write other keys do not matter.  So it does
not matter either in which order events of different keys come.
-/

namespace Etude
namespace Base

universe u v w

variable {ε : Type u} {κ : Type v} {α : Type w}

namespace Table

section Writes

variable [DecidableEq κ] (writes : ε → Option (κ × α))

def write (table : κ → α) (e : ε) : κ → α :=
  match writes e with
  | none => table
  | some (k, a) => Function.update table k a

def after (table : κ → α) (es : List ε) : κ → α :=
  es.foldl (write writes) table

end Writes

/-- No event of `es` writes the entry of `k`. -/
def Untouched (writes : ε → Option (κ × α)) (k : κ) (es : List ε) : Prop :=
  ∀ e ∈ es, ∀ a, writes e ≠ some (k, a)

/-- The last event of `es` that writes the entry of `k` writes `a`. -/
def LastWrites (writes : ε → Option (κ × α)) (k : κ) (a : α) (es : List ε) : Prop :=
  ∃ older e newer, es = older ++ e :: newer ∧ writes e = some (k, a) ∧
    Untouched writes k newer

/-- Either no event wrote the entry of `k`, or one of them was the last to write it. -/
theorem untouched_or_lastWrites (writes : ε → Option (κ × α)) (k : κ) (es : List ε) :
    Untouched writes k es ∨ ∃ a, LastWrites writes k a es := by
  induction es with
  | nil =>
      left
      intro e he
      cases he
  | cons e es ih =>
      rcases ih with hnone | ⟨a, older, f, newer, rfl, hf, hnewer⟩
      -- Nothing behind `e` writes the entry, so `e` is the last to write it if it does.
      · by_cases he : ∃ a, writes e = some (k, a)
        · rcases he with ⟨a, he⟩
          exact Or.inr ⟨a, [], e, es, rfl, he, hnone⟩
        · left
          intro f hf a hwrite
          rcases List.mem_cons.mp hf with rfl | hf
          · exact he ⟨a, hwrite⟩
          · exact hnone f hf a hwrite
      · exact Or.inr ⟨a, e :: older, f, newer, rfl, hf, hnewer⟩

section Rules

variable [DecidableEq κ] {writes : ε → Option (κ × α)}

theorem write_self (table : κ → α) {e : ε} {k : κ} {a : α} (h : writes e = some (k, a)) :
    write writes table e k = a := by
  simp [write, h]

theorem write_of_untouched (table : κ → α) {e : ε} {k : κ}
    (h : ∀ a, writes e ≠ some (k, a)) : write writes table e k = table k := by
  cases hw : writes e with
  | none =>
      simp [write, hw]
  | some p =>
      have hne : k ≠ p.1 := by
        intro hk
        subst hk
        exact h p.2 hw
      simp [write, hw, Function.update_of_ne hne]

theorem after_append (table : κ → α) (es fs : List ε) :
    after writes table (es ++ fs) = after writes (after writes table es) fs := by
  simp [after]

theorem after_of_untouched (table : κ → α) {k : κ} {es : List ε} (h : Untouched writes k es) :
    after writes table es k = table k := by
  induction es generalizing table with
  | nil =>
      rfl
  | cons e es ih =>
      -- The rest of the events keeps what the first one left, and that one keeps it too.
      calc
        after writes table (e :: es) k
            = write writes table e k := ih _ fun f hf => h f (List.mem_cons_of_mem e hf)
        _ = table k := write_of_untouched table (h e List.mem_cons_self)

theorem after_of_lastWrites (table : κ → α) {k : κ} {a : α} {es : List ε}
    (h : LastWrites writes k a es) : after writes table es k = a := by
  rcases h with ⟨older, e, newer, rfl, he, hnewer⟩
  rw [after_append]
  calc
    after writes (after writes table older) (e :: newer) k
        = write writes (after writes table older) e k := after_of_untouched _ hnewer
    _ = a := write_self _ he

/-- A value that the table did not start with is there exactly if the last write put it there. -/
theorem after_eq_iff {table : κ → α} {k : κ} {a : α} (hstart : table k ≠ a) (es : List ε) :
    after writes table es k = a ↔ LastWrites writes k a es := by
  constructor
  · intro h
    rcases untouched_or_lastWrites writes k es with hnone | ⟨b, hlast⟩
    · rw [after_of_untouched table hnone] at h
      exact absurd h hstart
    · rw [after_of_lastWrites table hlast] at h
      subst h
      exact hlast
  · exact after_of_lastWrites table

end Rules

/-! ## Events that all write -/

/-- The same events, those of each key in the same order. -/
def SameByKey [DecidableEq κ] (key : ε → κ) (es fs : List ε) : Prop :=
  ∀ k, (es.filter fun e => key e = k) = fs.filter fun e => key e = k

section Total

variable [DecidableEq κ] {key : ε → κ}

/-- Neighbours of different keys may change places. -/
theorem SameByKey.swap (older newer : List ε) {e f : ε} (hne : key e ≠ key f) :
    SameByKey key (older ++ e :: f :: newer) (older ++ f :: e :: newer) := by
  intro k
  rw [List.filter_append, List.filter_append]
  congr 1
  by_cases he : key e = k
  · have hf : key f ≠ k := fun hf => hne (he.trans hf.symm)
    simp [he, hf]
  · simp [List.filter_cons, he]

theorem after_eq_getLast (value : ε → α) (table : κ → α) (es : List ε) (k : κ) :
    after (fun e => some (key e, value e)) table es k =
      (((es.filter fun e => key e = k).getLast?).map value).getD (table k) := by
  induction es using List.reverseRecOn with
  | nil =>
      rfl
  | append_singleton es e ih =>
      rw [after_append, List.filter_append]
      by_cases hk : key e = k
      · subst hk
        simp [after, write]
      · have hne : k ≠ key e := fun h => hk h.symm
        have hlast : [e].filter (fun e => key e = k) = [] := by simp [hk]
        rw [hlast, List.append_nil, ← ih]
        exact Function.update_of_ne hne _ _

end Total

end Table

end Base
end Etude
