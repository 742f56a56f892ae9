import Mathlib.Data.List.Basic
import Etude.Base.Monitor
import Etude.Base.Run

/-!
# Handlers — messages handed from listeners to the callers of `pop`

`MultipleMessageHandler` and `ProtobufMessageListenerDelegate` keep the messages in a list that
their monitor guards.  The system is a handler with its listener threads and the threads that call
`pop`; each synchronized section is one step, and the section of `pop` is two if it waits.
-/

namespace Etude
namespace Jms

open Base

universe u v

inductive Handler
  | multipleMessageHandler
  | protobufMessageListenerDelegate
  deriving DecidableEq, Repr

/-- How a call of `pop` ends. -/
inductive Outcome (α : Type v)
  | message (m : α)
  | null
  | noSuchElementException
  | interruptedException
  deriving DecidableEq, Repr

/-- A call of `pop` that has left the monitor, with how its wait ended if it waited. -/
structure Call (α : Type v) where
  wake : Option Wake
  outcome : Outcome α
  deriving DecidableEq, Repr

/-- `added` and `calls` record what went into the list and how the calls of `pop` ended, in the
order of their sections; no branch reads them. -/
structure State (ι : Type u) (α : Type v) where
  messages : List α
  waitSet : WaitSet ι
  /-- The values that `discard` has had: it is read outside the monitor, so a listener may see an
  old one. -/
  discard : List Bool
  /-- The messages whose listeners have come to the synchronized section. -/
  arrived : List α
  added : List α
  calls : List (Call α)

inductive Event (ι : Type u) (α : Type v)
  | setDiscard (discard : Bool)
  /-- `handleMessage` up to its synchronized section, with the value it reads. -/
  | handleMessage (m : α) (discard : Bool)
  /-- The section for one of the arrived messages, with the thread that is notified. -/
  | add (k : ℕ) (chosen : Option ι)
  /-- `pop`, up to `wait` if there is no message. -/
  | pop (i : ι) (interrupted : Bool)
  /-- A wait ends otherwise than by `notify`. -/
  | wake (i : ι) (cause : Wake)
  /-- The rest of `pop` after `wait`. -/
  | resume (i : ι) (cause : Wake)

def init {ι : Type u} {α : Type v} : State ι α :=
  { messages := []
    waitSet := WaitSet.empty
    discard := [true]
    arrived := []
    added := []
    calls := [] }

section Step

variable {ι : Type u} {α : Type v}

/-- `Queue.poll` -/
def poll : List α → Outcome α × List α
  | [] => (.null, [])
  | m :: messages => (.message m, messages)

/-- `Queue.remove` -/
def remove : List α → Outcome α × List α
  | [] => (.noSuchElementException, [])
  | m :: messages => (.message m, messages)

namespace Handler

/-- What `pop` returns at its end. -/
def take : Handler → List α → Outcome α × List α
  | .multipleMessageHandler => poll
  | .protobufMessageListenerDelegate => remove

/-- Only one of the handlers looks at `discard`. -/
def skips : Handler → Bool → Bool
  | .multipleMessageHandler, discard => discard
  | .protobufMessageListenerDelegate, _ => false

end Handler

/-- A call leaves the monitor. -/
def leave (s : State ι α) (wake : Option Wake) (outcome : Outcome α) : State ι α :=
  { s with calls := s.calls ++ [⟨wake, outcome⟩] }

def takeMessage (handler : Handler) (s : State ι α) (wake : Option Wake) : State ι α :=
  let (outcome, messages) := handler.take s.messages
  leave { s with messages := messages } wake outcome

variable [DecidableEq ι]

def step (handler : Handler) (s : State ι α) : Event ι α → Option (State ι α)
  | .setDiscard discard => some { s with discard := s.discard ++ [discard] }
  | .handleMessage m discard =>
      if discard ∈ s.discard then
        some (if handler.skips discard then s else { s with arrived := s.arrived ++ [m] })
      else
        none
  | .add k chosen =>
      s.arrived[k]?.bind fun m => (s.waitSet.notify chosen).map fun waitSet =>
        { s with
          arrived := s.arrived.eraseIdx k
          messages := s.messages ++ [m]
          added := s.added ++ [m]
          waitSet := waitSet }
  | .pop i interrupted =>
      if s.waitSet.Absent i then
        if s.messages = [] then
          -- `wait` throws at once in a thread that is interrupted.
          if interrupted then some (leave s none .interruptedException)
          else some { s with waitSet := s.waitSet.wait i }
        else
          some (takeMessage handler s none)
      else
        none
  | .wake i cause =>
      if cause = .notified then none
      else (s.waitSet.wake i cause).map fun waitSet => { s with waitSet := waitSet }
  | .resume i cause =>
      (s.waitSet.resume i cause).map fun waitSet =>
        let s' : State ι α := { s with waitSet := waitSet }
        if cause = .interrupted then leave s' (some cause) .interruptedException
        else takeMessage handler s' (some cause)

/-- Nobody passes through the monitor. -/
def Event.IsAside : Event ι α → Prop
  | .setDiscard _ | .handleMessage _ _ | .wake _ _ => True
  | _ => False

/-- What a step does, as far as messages, calls and notified threads are concerned. -/
inductive Effect (handler : Handler) (s t : State ι α) : Event ι α → Prop
  | aside {e : Event ι α} (isAside : e.IsAside) (messages_eq : t.messages = s.messages)
      (added_eq : t.added = s.added) (calls_eq : t.calls = s.calls)
      (notified_eq : t.waitSet.notified = s.waitSet.notified) : Effect handler s t e
  | adds {k : ℕ} {chosen : Option ι} (m : α) (messages_eq : t.messages = s.messages ++ [m])
      (added_eq : t.added = s.added ++ [m]) (calls_eq : t.calls = s.calls)
      (notified_le : t.waitSet.notified ≤ s.waitSet.notified + 1) :
      Effect handler s t (.add k chosen)
  | popWaits {i : ι} (messages_eq : s.messages = [])
      (next_eq : t = { s with waitSet := s.waitSet.wait i }) : Effect handler s t (.pop i false)
  | popThrows {i : ι} (messages_eq : s.messages = [])
      (next_eq : t = leave s none .interruptedException) : Effect handler s t (.pop i true)
  | popTakes {i : ι} {interrupted : Bool} (messages_ne : s.messages ≠ [])
      (next_eq : t = takeMessage handler s none) : Effect handler s t (.pop i interrupted)
  | resumeThrows {i : ι} {w : WaitSet ι} (resume_eq : s.waitSet.resume i .interrupted = some w)
      (next_eq : t = leave { s with waitSet := w } (some .interrupted) .interruptedException) :
      Effect handler s t (.resume i .interrupted)
  | resumeTakes {i : ι} {cause : Wake} {w : WaitSet ι} (cause_ne : cause ≠ .interrupted)
      (resume_eq : s.waitSet.resume i cause = some w)
      (next_eq : t = takeMessage handler { s with waitSet := w } (some cause)) :
      Effect handler s t (.resume i cause)

theorem step_effect {handler : Handler} {s t : State ι α} {e : Event ι α}
    (h : step handler s e = some t) : Effect handler s t e := by
  cases e with
  | setDiscard discard =>
      cases h
      exact .aside trivial rfl rfl rfl rfl
  | handleMessage m discard =>
      simp only [step] at h
      split_ifs at h <;> cases h <;> exact .aside trivial rfl rfl rfl rfl
  | add k chosen =>
      rcases Option.bind_eq_some_iff.mp h with ⟨m, -, h⟩
      rcases Option.map_eq_some_iff.mp h with ⟨w, hw, rfl⟩
      exact .adds m rfl rfl rfl (WaitSet.notified_notify_le hw)
  | pop i interrupted =>
      simp only [step] at h
      by_cases habsent : s.waitSet.Absent i
      · rw [if_pos habsent] at h
        by_cases hempty : s.messages = []
        · rw [if_pos hempty] at h
          cases interrupted with
          | true =>
              cases h
              exact .popThrows hempty rfl
          | false =>
              cases h
              exact .popWaits hempty rfl
        · rw [if_neg hempty] at h
          cases h
          exact .popTakes hempty rfl
      · rw [if_neg habsent] at h
        cases h
  | wake i cause =>
      simp only [step] at h
      by_cases hcause : cause = .notified
      · rw [if_pos hcause] at h
        cases h
      · rw [if_neg hcause] at h
        rcases Option.map_eq_some_iff.mp h with ⟨w, hw, rfl⟩
        have hcount := WaitSet.notified_wake hw
        rw [if_neg hcause, Nat.add_zero] at hcount
        exact .aside trivial rfl rfl rfl hcount
  | resume i cause =>
      rcases Option.map_eq_some_iff.mp h with ⟨w, hw, rfl⟩
      by_cases hcause : cause = .interrupted
      · subst hcause
        exact .resumeThrows hw rfl
      · exact .resumeTakes hcause hw (if_neg hcause)

end Step

/-! ## Nothing is lost or duplicated -/

section HandOff

variable {ι : Type u} {α : Type v}

def Outcome.toList : Outcome α → List α
  | .message m => [m]
  | _ => []

/-- The messages that the calls of `pop` have returned. -/
def returned (s : State ι α) : List α :=
  s.calls.flatMap fun c => c.outcome.toList

/-- What was returned, followed by what is in the list, is what was added. -/
def HandsOver (s : State ι α) : Prop :=
  returned s ++ s.messages = s.added

theorem take_spec (handler : Handler) (messages : List α) :
    (handler.take messages).1.toList ++ (handler.take messages).2 = messages := by
  cases handler <;> cases messages <;> rfl

theorem returned_leave (s : State ι α) (wake : Option Wake) (outcome : Outcome α) :
    returned (leave s wake outcome) = returned s ++ outcome.toList := by
  simp [returned, leave, List.flatMap_append]

theorem HandsOver.takes {s : State ι α} (h : HandsOver s) (handler : Handler)
    (wake : Option Wake) : HandsOver (takeMessage handler s wake) := by
  have htake := take_spec handler s.messages
  calc
    returned (takeMessage handler s wake) ++ (takeMessage handler s wake).messages
        = (returned s ++ (handler.take s.messages).1.toList) ++ (handler.take s.messages).2 :=
          congrArg (· ++ _) (returned_leave _ wake _)
    _ = returned s ++ s.messages := by
          rw [List.append_assoc, htake]
    _ = s.added := h

theorem HandsOver.throws {s : State ι α} (h : HandsOver s) (wake : Option Wake) :
    HandsOver (leave s wake .interruptedException) := by
  have hnone : (Outcome.interruptedException : Outcome α).toList = [] := rfl
  rw [HandsOver, returned_leave, hnone, List.append_nil]
  exact h

variable [DecidableEq ι]

theorem HandsOver.step {handler : Handler} {s t : State ι α} {e : Event ι α} (h : HandsOver s)
    (ht : step handler s e = some t) : HandsOver t := by
  cases step_effect ht with
  | aside _ messages_eq added_eq calls_eq =>
      rw [HandsOver, returned, messages_eq, added_eq, calls_eq]
      exact h
  | adds m messages_eq added_eq calls_eq =>
      rw [HandsOver, returned, messages_eq, added_eq, calls_eq, ← List.append_assoc]
      exact congrArg (· ++ [m]) h
  | popWaits _ next_eq =>
      rw [next_eq]
      exact h
  | popThrows _ next_eq =>
      rw [next_eq]
      exact h.throws none
  | popTakes _ next_eq =>
      rw [next_eq]
      exact h.takes handler none
  | @resumeThrows i w _ next_eq =>
      rw [next_eq]
      have hw : HandsOver { s with waitSet := w } := h
      exact hw.throws (some .interrupted)
  | @resumeTakes i cause w _ _ next_eq =>
      rw [next_eq]
      have hw : HandsOver { s with waitSet := w } := h
      exact hw.takes handler (some cause)

/-- In every run of either handler, with any listeners and any threads that call `pop`. -/
theorem messages_handed_over (handler : Handler) (es : List (Event ι α)) :
    Throughout (Jms.step handler) HandsOver init es :=
  throughout_of_keeps (fun _ _ _ hs ht => hs.step ht) rfl

end HandOff

end Jms
end Etude
