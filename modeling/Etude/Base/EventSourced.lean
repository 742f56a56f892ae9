import Mathlib.Data.List.Basic

/-!
# EventSourced — entities that persist events and are rebuilt from them

A command handler decides which event to persist and what to reply, an event handler computes the
next state.  Handlers may read the clock, so a run and a recovery of an entity are given the
readings: number `0` is that of the initial state and number `n` that of the handler of event
number `n`.
-/

namespace Etude
namespace Base

universe u v w x y

variable {γ : Type u} {ε : Type v} {σ : Type w} {ρ : Type x} {τ : Type y}

structure Entity (γ : Type u) (ε : Type v) (σ : Type w) (ρ : Type x) (τ : Type y) where
  initialState : τ → σ
  /-- The event to persist, if any, and the reply. -/
  handleCommand : σ → γ → Option ε × ρ
  handleEvent : σ → ε → τ → σ

/-- A loaded entity and the events it has persisted. -/
structure Live (ε : Type v) (σ : Type w) where
  state : σ
  journal : List ε

namespace Entity

variable (entity : Entity γ ε σ ρ τ) (clock : ℕ → τ)

/-- The event handlers on `es`, the first of which is event number `n`. -/
def replay : ℕ → σ → List ε → σ
  | _, s, [] => s
  | n, s, e :: es => replay (n + 1) (entity.handleEvent s e (clock n)) es

def start : Live ε σ :=
  { state := entity.initialState (clock 0)
    journal := [] }

/-- Process a command: persist its event and apply it. -/
def process (l : Live ε σ) (c : γ) : Live ε σ :=
  -- A command without an event is read-only: it moves neither state nor journal.
  match (entity.handleCommand l.state c).1 with
  | none => l
  | some e =>
      { state := entity.handleEvent l.state e (clock (l.journal.length + 1))
        journal := l.journal ++ [e] }

/-- The entity after the commands `cs`. -/
def live (cs : List γ) : Live ε σ :=
  cs.foldl (entity.process clock) (entity.start clock)

/-- The state rebuilt from a journal, from a snapshot and the number of events it covers if
there is one. -/
def recover (snapshot : Option (σ × ℕ)) (journal : List ε) : σ :=
  match snapshot with
  | none => entity.replay clock 1 (entity.initialState (clock 0)) journal
  | some (s, n) => entity.replay clock (n + 1) s (journal.drop n)

/-- A part of the state that the event handler computes without the clock is the same for all
readings. -/
theorem replay_proj {α : Type*} {f : σ → α} {g : α → ε → α}
    (hf : ∀ s e t, f (entity.handleEvent s e t) = g (f s) e) (n : ℕ) (s : σ) (es : List ε) :
    f (entity.replay clock n s es) = es.foldl g (f s) := by
  induction es generalizing n s with
  | nil =>
      rfl
  | cons e es ih =>
      rw [replay, ih, hf, List.foldl_cons]

/-- More commands persist more events and move the state on by their handlers. -/
theorem foldl_process (cs : List γ) (l : Live ε σ) :
    ∃ es, (cs.foldl (entity.process clock) l).journal = l.journal ++ es ∧
      (cs.foldl (entity.process clock) l).state =
        entity.replay clock (l.journal.length + 1) l.state es := by
  induction cs generalizing l with
  | nil =>
      exact ⟨[], by simp, rfl⟩
  | cons c cs ih =>
      rcases ih (entity.process clock l c) with ⟨es, hjournal, hstate⟩
      rw [List.foldl_cons, hjournal, hstate]
      -- The event of this command comes before those of the commands behind it.
      cases hc : (entity.handleCommand l.state c).1 with
      | none =>
          exact ⟨es, by simp [process, hc], by simp [process, hc]⟩
      | some e =>
          exact ⟨e :: es, by simp [process, hc], by simp [process, hc, replay]⟩

theorem live_append (cs ds : List γ) :
    ∃ es, (entity.live clock (cs ++ ds)).journal = (entity.live clock cs).journal ++ es ∧
      (entity.live clock (cs ++ ds)).state =
        entity.replay clock ((entity.live clock cs).journal.length + 1)
          (entity.live clock cs).state es := by
  have h := entity.foldl_process clock ds (entity.live clock cs)
  rwa [live, ← List.foldl_append] at h

/-- The state of a loaded entity is its journal replayed with the readings of the run. -/
theorem live_state (cs : List γ) :
    (entity.live clock cs).state =
      entity.replay clock 1 (entity.initialState (clock 0)) (entity.live clock cs).journal := by
  rcases entity.foldl_process clock cs (entity.start clock) with ⟨es, hjournal, hstate⟩
  have hes : (entity.live clock cs).journal = es := hjournal
  rw [hes]
  exact hstate

end Entity

end Base
end Etude
