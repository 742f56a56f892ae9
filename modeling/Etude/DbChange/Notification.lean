import Etude.Base.Potential

/-!
# Notification — the change notification demos

`DBChangeNotification.java` and `QueryChangeNotification.java` register for changes of a table,
change it themselves and wait for the notification.  Two threads meet in the monitor of the demo
object: the main thread holds it from before its insertion until it waits, and the listener enters
it to notify.  The driver passes notifications on, in any order, while the registration is open.
-/

namespace Etude
namespace DbChange

open Base

/-- Where `run` is. -/
inductive Main
  /-- In the first `try` block. -/
  | registering
  /-- Before `synchronized`. -/
  | registered
  /-- In the monitor, before the insertion is committed. -/
  | inserting
  /-- In the monitor, before `wait`; an `SQLException` of the insertion has only been printed. -/
  | inserted (committed : Bool)
  /-- In `wait`, outside the monitor. -/
  | waiting (committed : Bool)
  /-- Its wait has ended, and it has to enter the monitor again. -/
  | woken
  /-- Out of the monitor, before the registration is closed. -/
  | closing
  | returned
  /-- Ended by an `SQLException`. -/
  | thrown
  deriving DecidableEq, Repr

/-- Where the thread of the driver is. -/
inductive Listener
  /-- Not in `onDatabaseChangeNotification`. -/
  | idle
  /-- It has printed the event, and is before `synchronized`; the event is that of the demo's own
  change, or of another one. -/
  | printed (own : Bool)
  deriving DecidableEq, Repr

/-- The notifications that the database has made and the driver not yet passed on: `own` of the
demo's own change, and `others`. -/
structure State where
  main : Main
  listener : Listener
  own : ℕ
  others : ℕ
  registration : Bool
  deriving DecidableEq, Repr

def init : State :=
  { main := .registering
    listener := .idle
    own := 0
    others := 0
    registration := true }

inductive Event
  | register
  /-- The first `try` block throws; its handler may fail to close the registration. -/
  | registerFails (unregistered : Bool)
  | enter
  | commit
  /-- The insertion throws, and nothing is committed. -/
  | insertFails
  | wait
  /-- The thread enters the monitor again, and leaves it. -/
  | resume
  | unregister
  /-- A call on the third connection throws, perhaps only that of `close`. -/
  | unregisterFails (unregistered : Bool)
  /-- The driver calls the listener, which prints the event. -/
  | deliver (own : Bool)
  /-- The listener enters the monitor, notifies and leaves it. -/
  | notify
  /-- Another session commits a change of the table. -/
  | changed
  /-- The wait ends without a notification, or the thread is interrupted. -/
  | wake
  deriving DecidableEq, Repr

/-- The main thread is in the monitor. -/
def Main.holds : Main → Bool
  | .inserting | .inserted _ => true
  | _ => false

/-- What the main thread does next. -/
def Main.next : Main → Event → Option Main
  | .registering, .register => some .registered
  | .registering, .registerFails _ => some .thrown
  | .registered, .enter => some .inserting
  | .inserting, .commit => some (.inserted true)
  | .inserting, .insertFails => some (.inserted false)
  | .inserted committed, .wait => some (.waiting committed)
  | .waiting _, .wake => some .woken
  | .woken, .resume => some .closing
  | .closing, .unregister => some .returned
  | .closing, .unregisterFails _ => some .thrown
  | _, _ => none

/-- What `notify` does to the main thread: a notification that nobody waits for is lost. -/
def Main.notified : Main → Main
  | .waiting _ => .woken
  | m => m

/-- The notifications of the demo's own change that an event makes. -/
def Event.made : Event → ℕ
  | .commit => 1
  | _ => 0

/-- `unregisterDatabaseChangeNotification` closes the registration. -/
def Event.unregisters : Event → Bool
  | .unregister => true
  | .registerFails unregistered | .unregisterFails unregistered => unregistered
  | _ => false

def State.pending (s : State) (own : Bool) : ℕ :=
  if own then s.own else s.others

/-- The driver takes a notification. -/
def State.take (s : State) (own : Bool) : State :=
  { s with
    listener := .printed own
    own := s.own - own.toNat
    others := s.others - (!own).toNat }

def step (s : State) (e : Event) : Option State :=
  match e with
  -- Closing the registration ends the thread that passes notifications on.
  | .deliver own =>
      if s.registration = true ∧ s.listener = .idle ∧ 0 < s.pending own then
        some (s.take own)
      else
        none
  -- Nothing else happens in the listener's part of the monitor, so that it is one event.
  | .notify =>
      if s.listener ≠ .idle ∧ s.main.holds = false then
        some { s with listener := .idle, main := s.main.notified }
      else
        none
  | .changed =>
      if s.registration = true then
        some { s with others := s.others + 1 }
      else
        none
  | e =>
      (s.main.next e).map fun m =>
        { s with
          main := m
          own := s.own + e.made
          registration := s.registration && !e.unregisters }

/-! ## What a step can do -/

theorem step_eq_some {s t : State} {e : Event} (h : step s e = some t) :
    (∃ own, e = .deliver own ∧ s.registration = true ∧ s.listener = .idle ∧ 0 < s.pending own ∧
        t = s.take own) ∨
      (∃ own, e = .notify ∧ s.listener = .printed own ∧ s.main.holds = false ∧
        t = { s with listener := .idle, main := s.main.notified }) ∨
      (e = .changed ∧ s.registration = true ∧ t = { s with others := s.others + 1 }) ∨
      ∃ m, s.main.next e = some m ∧
        t =
          { s with
            main := m
            own := s.own + e.made
            registration := s.registration && !e.unregisters } := by
  cases e with
  | deliver own =>
      simp only [step] at h
      split_ifs at h with hcan
      cases h
      exact Or.inl ⟨own, rfl, hcan.1, hcan.2.1, hcan.2.2, rfl⟩
  | notify =>
      simp only [step] at h
      split_ifs at h with hcan
      cases h
      cases hlistener : s.listener with
      | idle => exact absurd hlistener hcan.1
      | printed own => exact Or.inr (Or.inl ⟨own, rfl, rfl, hcan.2, rfl⟩)
  | changed =>
      simp only [step] at h
      split_ifs at h with hcan
      cases h
      exact Or.inr (Or.inr (Or.inl ⟨rfl, hcan, rfl⟩))
  | register | registerFails _ | enter | commit | insertFails | wait | resume | unregister
  | unregisterFails _ | wake =>
      rcases Option.map_eq_some_iff.mp h with ⟨m, hm, rfl⟩
      exact Or.inr (Or.inr (Or.inr ⟨m, hm, rfl⟩))

/-- The main thread goes through its places in this order. -/
theorem Main.next_cases {m n : Main} {e : Event} (h : m.next e = some n) :
    (m = .registering ∧ e = .register ∧ n = .registered) ∨
      (∃ b, m = .registering ∧ e = .registerFails b ∧ n = .thrown) ∨
      (m = .registered ∧ e = .enter ∧ n = .inserting) ∨
      (m = .inserting ∧ e = .commit ∧ n = .inserted true) ∨
      (m = .inserting ∧ e = .insertFails ∧ n = .inserted false) ∨
      (∃ committed, m = .inserted committed ∧ e = .wait ∧ n = .waiting committed) ∨
      (∃ committed, m = .waiting committed ∧ e = .wake ∧ n = .woken) ∨
      (m = .woken ∧ e = .resume ∧ n = .closing) ∨
      (m = .closing ∧ e = .unregister ∧ n = .returned) ∨
      (∃ b, m = .closing ∧ e = .unregisterFails b ∧ n = .thrown) := by
  unfold next at h
  split at h <;> simp_all

end DbChange
end Etude
