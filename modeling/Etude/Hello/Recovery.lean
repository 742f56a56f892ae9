import Etude.Hello.Entity

/-!
# Recovery — when replaying the journal gives the state back

The event handler and the initial state read the clock, so a recovered entity has the message it
had, but the timestamp of the recovery.  It has its old state if no handler runs in the recovery,
or if the reading of the last handler is the one of the run.
-/

namespace Etude
namespace Hello

open Base

/-- The state recovered after the commands `before ++ after`, from the initial state or from a
snapshot that was taken after `before`.  `clock` has the readings of the run, `clock'` those of
the recovery. -/
def recoverAfter {ε : Type} (entity : Entity HelloCommand ε HelloState Reply String)
    (clock clock' : ℕ → String) (snapshot : Bool) (before after : List HelloCommand) :
    HelloState :=
  let taken := entity.live clock before
  entity.recover clock'
    (if snapshot then some (taken.state, taken.journal.length) else none)
    (entity.live clock (before ++ after)).journal

theorem HelloState.eq_iff_of_message {s t : HelloState} (h : s.message = t.message) :
    s = t ↔ s.timestamp = t.timestamp := by
  cases s
  cases t
  simp_all

section Entity

variable {ε : Type} {changed : String → ε} {messageOf : ε → String} {clock clock' : ℕ → String}

theorem recover_initial_iff (cmds : List HelloCommand) :
    (greetingEntity changed messageOf).recover clock' none
        ((greetingEntity changed messageOf).live clock cmds).journal =
      ((greetingEntity changed messageOf).live clock cmds).state ↔
    clock' (messages cmds).length = clock (messages cmds).length := by
  have hmessage : ((greetingEntity changed messageOf).recover clock' none
        ((greetingEntity changed messageOf).live clock cmds).journal).message =
      ((greetingEntity changed messageOf).live clock cmds).state.message := by
    rw [Entity.live_state, Entity.recover, replay_message, replay_message]
    rfl
  -- The messages agree, so the states are equal if the last readings are.
  rw [HelloState.eq_iff_of_message hmessage, live_timestamp, Entity.recover, replay_timestamp,
    journal_live, List.length_map, Nat.zero_add]
  by_cases hnil : (messages cmds).map changed = []
  · rw [if_pos hnil, List.map_eq_nil_iff.mp hnil]
    rfl
  · rw [if_neg hnil]

theorem messages_append (before after : List HelloCommand) :
    messages (before ++ after) = messages before ++ messages after := by
  simp [messages]

theorem recover_snapshot_iff (before after : List HelloCommand) :
    (greetingEntity changed messageOf).recover clock'
        (some (((greetingEntity changed messageOf).live clock before).state,
          ((greetingEntity changed messageOf).live clock before).journal.length))
        ((greetingEntity changed messageOf).live clock (before ++ after)).journal =
      ((greetingEntity changed messageOf).live clock (before ++ after)).state ↔
    messages after = [] ∨
      clock' (messages (before ++ after)).length = clock (messages (before ++ after)).length := by
  rcases (greetingEntity changed messageOf).live_append clock before after with
    ⟨es, hjournal, hstate⟩
  have hes : es = (messages after).map changed := by
    rw [journal_live, journal_live, messages_append, List.map_append] at hjournal
    exact (List.append_cancel_left hjournal).symm
  have hdrop : ((greetingEntity changed messageOf).live clock (before ++ after)).journal.drop
      ((greetingEntity changed messageOf).live clock before).journal.length = es := by
    rw [hjournal, List.drop_left]
  -- Both states come from the snapshot by the events after it.
  rw [Entity.recover, hdrop, hstate, HelloState.eq_iff_of_message (by simp only [replay_message]),
    replay_timestamp, replay_timestamp]
  -- The event numbers go on behind the snapshot.
  have hcount : ((greetingEntity changed messageOf).live clock before).journal.length +
      es.length = (messages (before ++ after)).length := by
    rw [journal_live, hes, messages_append]
    simp
  rw [hcount]
  by_cases hnil : messages after = []
  · have hes' : es = [] := by
      rw [hes, hnil, List.map_nil]
    simp [hes', hnil]
  · have hes' : es ≠ [] := by
      rw [hes]
      exact fun h => hnil (List.map_eq_nil_iff.mp h)
    simp [hes', hnil]

theorem recoverAfter_iff (snapshot : Bool) (before after : List HelloCommand) :
    recoverAfter (greetingEntity changed messageOf) clock clock' snapshot before after =
        ((greetingEntity changed messageOf).live clock (before ++ after)).state ↔
      (snapshot = true ∧ messages after = []) ∨
        clock' (messages (before ++ after)).length =
          clock (messages (before ++ after)).length := by
  cases snapshot with
  | false =>
      simpa [recoverAfter] using recover_initial_iff (before ++ after)
  | true =>
      simpa [recoverAfter] using recover_snapshot_iff before after

end Entity

/-- Either entity recovers the state it had after any commands, from a snapshot taken at any
point or without one, exactly if there is a snapshot and no greeting was set after it, or the
last handler of the recovery reads from the clock what that of the run did. -/
theorem hello_recovery_iff (entityId : String) (clock clock' : ℕ → String) (snapshot : Bool)
    (before after : List HelloCommand) :
    (recoverAfter (helloEntity entityId) clock clock' snapshot before after =
        ((helloEntity entityId).live clock (before ++ after)).state ↔
      (snapshot = true ∧ messages after = []) ∨
        clock' (messages (before ++ after)).length =
          clock (messages (before ++ after)).length) ∧
    (recoverAfter helloscalaEntity clock clock' snapshot before after =
        (helloscalaEntity.live clock (before ++ after)).state ↔
      (snapshot = true ∧ messages after = []) ∨
        clock' (messages (before ++ after)).length =
          clock (messages (before ++ after)).length) :=
  ⟨recoverAfter_iff snapshot before after, recoverAfter_iff snapshot before after⟩

/-- One greeting set at nine o'clock and an entity recovered at ten. -/
theorem hello_recovered_later :
    recoverAfter (helloEntity "world-1") (fun _ => "2019-01-07T09:00")
        (fun _ => "2019-01-07T10:00") false [.useGreetingMessage "Hi"] [] ≠
      ((helloEntity "world-1").live (fun _ => "2019-01-07T09:00")
        ([.useGreetingMessage "Hi"] ++ [])).state := by
  decide

end Hello
end Etude
