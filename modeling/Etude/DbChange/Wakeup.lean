import Etude.DbChange.Notification

/-!
# Wakeup — the demos do not miss their notification

The main thread holds the monitor from before it commits until it waits, so the notification of its
own change comes while it waits.  Only when its insertion has failed, which it prints and then
ignores, can it wait without an end.
-/

namespace Etude
namespace DbChange

open Base

/-- The notifications that the listener has in hand. -/
def Listener.busy : Listener → ℕ
  | .idle => 0
  | .printed _ => 1

/-- The notification of the demo's own change is on its way. -/
def State.OwnComing (s : State) : Prop :=
  0 < s.own ∨ s.listener = .printed true

/-- The main thread has committed its change, and its wait has not ended yet. -/
def Main.Expecting (m : Main) : Prop :=
  m = .inserted true ∨ m = .waiting true

instance (m : Main) : Decidable m.Expecting :=
  inferInstanceAs (Decidable (_ ∨ _))

namespace Main

variable {m n : Main} {e : Event}

theorem expecting_of_next (h : m.next e = some n) (hn : n.Expecting) :
    m.Expecting ∨ e.made = 1 := by
  rcases next_cases h with ⟨-, -, rfl⟩ | ⟨b, -, -, rfl⟩ | ⟨-, -, rfl⟩ | ⟨-, rfl, -⟩ | ⟨-, -, rfl⟩ |
    ⟨c, rfl, -, rfl⟩ | ⟨c, -, -, rfl⟩ | ⟨-, -, rfl⟩ | ⟨-, -, rfl⟩ | ⟨b, -, -, rfl⟩
  case inr.inr.inr.inl => exact Or.inr rfl
  -- A commit is not undone by waiting for its notification.
  case inr.inr.inr.inr.inr.inl =>
    left
    simpa [Expecting] using hn
  all_goals exact absurd hn (by simp [Expecting])

theorem not_expecting_notified (m : Main) (h : m.holds = false) : ¬ m.notified.Expecting := by
  cases m <;> simp_all [notified, holds, Expecting]

/-- The registration is closed at the end. -/
theorem ended_of_unregisters (h : m.next e = some n) (he : e.unregisters = true) :
    n = .returned ∨ n = .thrown := by
  rcases next_cases h with ⟨-, rfl, -⟩ | ⟨b, -, -, rfl⟩ | ⟨-, rfl, -⟩ | ⟨-, rfl, -⟩ | ⟨-, rfl, -⟩ |
    ⟨c, -, rfl, -⟩ | ⟨c, -, rfl, -⟩ | ⟨-, rfl, -⟩ | ⟨-, -, rfl⟩ | ⟨b, -, -, rfl⟩
  case inr.inl => exact Or.inr rfl
  case inr.inr.inr.inr.inr.inr.inr.inr.inl => exact Or.inl rfl
  case inr.inr.inr.inr.inr.inr.inr.inr.inr => exact Or.inr rfl
  all_goals cases he

/-- `run` returns only after `unregister`. -/
theorem unregisters_of_returned (h : m.next e = some .returned) : e.unregisters = true := by
  rcases next_cases h with ⟨-, -, hn⟩ | ⟨b, -, -, hn⟩ | ⟨-, -, hn⟩ | ⟨-, -, hn⟩ |
    ⟨-, -, hn⟩ | ⟨c, -, -, hn⟩ | ⟨c, -, -, hn⟩ | ⟨-, -, hn⟩ | ⟨-, rfl, -⟩ | ⟨b, -, -, hn⟩
  case inr.inr.inr.inr.inr.inr.inr.inr.inl => rfl
  all_goals cases hn

/-- Where a step is possible, the main thread has not ended. -/
theorem not_ended_of_next (h : m.next e = some n) : ¬ (m = .returned ∨ m = .thrown) := by
  rintro (rfl | rfl)
  · cases h
  · cases h

/-- A bound for the steps that the main thread has left, with two for the notification that it will
cause. -/
def rank : Main → ℕ
  | .registering => 9
  | .registered => 8
  | .inserting => 7
  | .inserted _ => 4
  | .waiting _ => 3
  | .woken => 2
  | .closing => 1
  | .returned | .thrown => 0

end Main

/-! ## What holds in every state -/

structure Inv (s : State) : Prop where
  expected : s.main.Expecting → s.OwnComing
  opened : s.registration = false → s.main = .returned ∨ s.main = .thrown
  closed : s.main = .returned → s.registration = false

theorem inv_init : Inv init := by
  refine
    { expected := fun h => absurd h (by decide)
      opened := fun h => by cases h
      closed := fun h => by cases h }

/-- What the driver takes is in the hands of the listener. -/
theorem ownComing_take {s : State} {own : Bool} (hidle : s.listener = .idle)
    (h : s.OwnComing) : (s.take own).OwnComing := by
  cases own with
  | true =>
      exact Or.inr rfl
  | false =>
      rcases h with hown | hprinted
      · exact Or.inl hown
      · rw [hidle] at hprinted
        cases hprinted

theorem inv_step {s t : State} {e : Event} (hs : Inv s) (h : step s e = some t) : Inv t := by
  rcases step_eq_some h with ⟨own, -, -, hidle, -, rfl⟩ | ⟨own, -, -, hfree, rfl⟩ | ⟨-, -, rfl⟩ |
    ⟨m, hm, rfl⟩
  · refine
      { expected := fun hm => ownComing_take hidle (hs.expected hm)
        opened := hs.opened
        closed := hs.closed }
  · -- The monitor is free, so if the main thread expects a notification, it waits.
    refine
      { expected := fun hm => absurd hm (Main.not_expecting_notified s.main hfree)
        opened := fun hclosed => ?_
        closed := fun hm => hs.closed ?_ }
    · rcases hs.opened hclosed with hm | hm
      · exact Or.inl (by simp [hm, Main.notified])
      · exact Or.inr (by simp [hm, Main.notified])
    · revert hm
      cases s.main <;> simp [Main.notified]
  · refine
      { expected := hs.expected
        opened := hs.opened
        closed := hs.closed }
  · refine
      { expected := fun hn => ?_
        opened := fun hclosed => ?_
        closed := fun hn => ?_ }
    · -- It expected the notification before, or it has just made it.
      rcases Main.expecting_of_next hm hn with hexpecting | hmade
      · rcases hs.expected hexpecting with hown | hprinted
        · exact Or.inl (Nat.lt_of_lt_of_le hown (Nat.le_add_right _ _))
        · exact Or.inr hprinted
      · exact Or.inl (by rw [hmade]; exact Nat.succ_pos _)
    · have hopen : s.registration ≠ false := fun hfalse =>
        Main.not_ended_of_next hm (hs.opened hfalse)
      rw [Bool.and_eq_false_iff, Bool.not_eq_false'] at hclosed
      exact Main.ended_of_unregisters hm (hclosed.resolve_left hopen)
    · change m = .returned at hn
      subst hn
      rw [Main.unregisters_of_returned hm, Bool.not_true, Bool.and_false]

/-- The listener has nothing to do: it has no notification, and can get none. -/
def Quiet (s : State) : Prop :=
  s.listener = .idle ∧ (s.registration = true → s.own = 0 ∧ s.others = 0)

def potential (s : State) : ℕ :=
  s.main.rank + 2 * (s.own + s.others) + s.listener.busy

/-- What another session does costs three steps: its own, and two for the notification. -/
def Event.gain : Event → ℕ
  | .changed => 3
  | _ => 0

def inserted : State :=
  { main := .waiting true
    listener := .printed false
    own := 1
    others := 0
    registration := true }

end DbChange
end Etude
