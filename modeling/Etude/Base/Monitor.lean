import Mathlib.Data.List.Basic

/-!
# Monitor — the wait set of a monitor

The threads that wait in a monitor, and those whose wait has ended but which have not entered the
monitor again.  Between the two, any thread may pass through the monitor: `notified` counts the
threads for which that makes a difference.
-/

namespace Etude
namespace Base

universe u

/-- How a wait ends. -/
inductive Wake
  | notified | timedOut | spurious | interrupted
  deriving DecidableEq, Repr

structure WaitSet (ι : Type u) where
  waiting : List ι
  woken : List (ι × Wake)

namespace WaitSet

variable {ι : Type u}

def empty : WaitSet ι :=
  { waiting := []
    woken := [] }

/-- How many threads were notified and have not entered the monitor again. -/
def notified (w : WaitSet ι) : ℕ :=
  w.woken.countP fun p => p.2 = .notified

def wait (w : WaitSet ι) (i : ι) : WaitSet ι :=
  { w with waiting := w.waiting ++ [i] }

theorem notified_wait (w : WaitSet ι) (i : ι) : (w.wait i).notified = w.notified :=
  rfl

variable [DecidableEq ι]

/-- The thread has not called `wait`, or has come back from it. -/
def Absent (w : WaitSet ι) (i : ι) : Prop :=
  i ∉ w.waiting ∧ i ∉ w.woken.map Prod.fst

instance (w : WaitSet ι) (i : ι) : Decidable (w.Absent i) :=
  inferInstanceAs (Decidable (_ ∧ _))

/-- The wait of the thread ends. -/
def wake (w : WaitSet ι) (i : ι) (cause : Wake) : Option (WaitSet ι) :=
  if i ∈ w.waiting then
    some
      { waiting := w.waiting.erase i
        woken := w.woken ++ [(i, cause)] }
  else
    none

/-- One of the waiting threads is notified, whichever it is, if there is any. -/
def notify (w : WaitSet ι) : Option ι → Option (WaitSet ι)
  | none => if w.waiting = [] then some w else none
  | some i => w.wake i .notified

/-- The thread enters the monitor again. -/
def resume (w : WaitSet ι) (i : ι) (cause : Wake) : Option (WaitSet ι) :=
  if (i, cause) ∈ w.woken then some { w with woken := w.woken.erase (i, cause) } else none

section Lemmas

variable {w v : WaitSet ι} {i : ι} {cause : Wake}

theorem notified_wake (h : w.wake i cause = some v) :
    v.notified = w.notified + if cause = .notified then 1 else 0 := by
  unfold wake at h
  split_ifs at h
  cases h
  simp [notified, List.countP_append, List.countP_cons]

theorem notified_notify_le {chosen : Option ι} (h : w.notify chosen = some v) :
    v.notified ≤ w.notified + 1 := by
  cases chosen with
  | none =>
      unfold notify at h
      split_ifs at h
      cases h
      exact Nat.le_succ _
  | some i =>
      have hwake : w.wake i .notified = some v := h
      have hcount := notified_wake hwake
      rw [if_pos rfl] at hcount
      exact hcount ▸ Nat.le_refl _

theorem notified_resume (h : w.resume i cause = some v) :
    w.notified = v.notified + if cause = .notified then 1 else 0 := by
  unfold resume at h
  split_ifs at h with hmem
  cases h
  have hcount := (List.perm_cons_erase hmem).countP_eq fun p : ι × Wake => p.2 = .notified
  simpa [notified, List.countP_cons] using hcount

/-- A notified thread can enter at any time. -/
theorem exists_resume (h : 0 < w.notified) : ∃ i v, w.resume i .notified = some v := by
  rcases List.countP_pos_iff.mp h with ⟨⟨i, cause⟩, hmem, hcause⟩
  have heq : cause = .notified := by simpa using hcause
  subst heq
  exact ⟨i, _, if_pos hmem⟩

end Lemmas

end WaitSet

end Base
end Etude
