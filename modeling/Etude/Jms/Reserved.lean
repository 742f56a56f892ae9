import Etude.Jms.Handlers

/-!
# Reserved — which calls of `pop` come back without a message

`pop` looks for a message once before it waits and not again afterwards.  Between a notification
and the moment at which the notified thread enters the monitor again, any other thread may come in
and take its message.  All is well as long as the messages for the notified threads are left alone.
-/

namespace Etude
namespace Jms

open Base

universe u v

variable {ι : Type u} {α : Type v}

/-- `pop` returns null, or throws. -/
def Outcome.EmptyHanded : Handler → Outcome α → Prop
  | .multipleMessageHandler, outcome => outcome = .null
  | .protobufMessageListenerDelegate, outcome =>
      outcome = .noSuchElementException ∨ outcome = .interruptedException

/-- Empty-handed only after the timeout, and never after a notification. -/
structure Call.Justified (handler : Handler) (c : Call α) : Prop where
  expired : c.outcome.EmptyHanded handler → c.wake = some .timedOut
  notified : c.wake = some .notified → ∃ m, c.outcome = .message m

def AllJustified (handler : Handler) (s : State ι α) : Prop :=
  ∀ c ∈ s.calls, c.Justified handler

/-- A thread that was not notified leaves a message for each one that was and is not back, one that
woke up spuriously finds such a message, and no call that throws is interrupted. -/
def Reserved (handler : Handler) (s : State ι α) : Event ι α → Prop
  | .pop _ interrupted =>
      if s.messages = [] then interrupted = true → handler = .multipleMessageHandler
      else s.waitSet.notified < s.messages.length
  | .resume _ .timedOut => s.messages ≠ [] → s.waitSet.notified < s.messages.length
  | .resume _ .spurious => s.waitSet.notified < s.messages.length
  | .resume _ .interrupted => handler = .multipleMessageHandler
  | _ => True

instance (handler : Handler) (s : State ι α) : (e : Event ι α) → Decidable (Reserved handler s e)
  | .pop _ _ => inferInstanceAs (Decidable (ite _ _ _))
  | .resume _ .timedOut => inferInstanceAs (Decidable (_ → _))
  | .resume _ .spurious => inferInstanceAs (Decidable (_ < _))
  | .resume _ .interrupted => inferInstanceAs (Decidable (_ = _))
  | .resume _ .notified => isTrue trivial
  | .setDiscard _ => isTrue trivial
  | .handleMessage _ _ => isTrue trivial
  | .add _ _ => isTrue trivial
  | .wake _ _ => isTrue trivial

/-! ## Steps that leave the messages of the notified threads alone -/

structure Inv (handler : Handler) (s : State ι α) : Prop where
  notified_le : s.waitSet.notified ≤ s.messages.length
  justified : AllJustified handler s

section Calls

variable {handler : Handler} {s : State ι α} {wake : Option Wake}

theorem allJustified_leave {outcome : Outcome α} :
    AllJustified handler (leave s wake outcome) ↔
      AllJustified handler s ∧ Call.Justified handler ⟨wake, outcome⟩ := by
  simp only [AllJustified, leave, List.forall_mem_append, List.forall_mem_singleton]

theorem justified_message (handler : Handler) (wake : Option Wake) (m : α) :
    Call.Justified handler ⟨wake, .message m⟩ := by
  refine
    { expired := fun hempty => ?_
      notified := fun _ => ⟨m, rfl⟩ }
  cases handler with
  | multipleMessageHandler =>
      cases hempty
  | protobufMessageListenerDelegate =>
      rcases hempty with hempty | hempty <;> cases hempty

/-- With no message left, `pop` comes back empty-handed. -/
theorem justified_take_nil (handler : Handler) (wake : Option Wake) :
    Call.Justified handler ⟨wake, (handler.take ([] : List α)).1⟩ ↔ wake = some .timedOut := by
  have hempty : (handler.take ([] : List α)).1.EmptyHanded handler := by
    cases handler with
    | multipleMessageHandler =>
        rfl
    | protobufMessageListenerDelegate =>
        exact Or.inl rfl
  refine ⟨fun h => h.expired hempty, ?_⟩
  rintro rfl
  exact
    { expired := fun _ => rfl
      notified := fun h => by cases h }

theorem justified_interrupted (handler : Handler) {wake : Option Wake}
    (hwake : wake = none ∨ wake = some .interrupted) :
    Call.Justified handler (⟨wake, .interruptedException⟩ : Call α) ↔
      handler = .multipleMessageHandler := by
  have hother : wake ≠ some .timedOut ∧ wake ≠ some .notified := by
    rcases hwake with rfl | rfl <;> simp
  cases handler with
  | multipleMessageHandler =>
      refine ⟨fun _ => rfl, fun _ => ?_⟩
      exact
        { expired := fun hempty => by cases hempty
          notified := fun h => absurd h hother.2 }
  | protobufMessageListenerDelegate =>
      exact ⟨fun h => absurd (h.expired (Or.inr rfl)) hother.1, fun h => by cases h⟩

theorem takeMessage_cons {m : α} {messages : List α} (h : s.messages = m :: messages) :
    takeMessage handler s wake = leave { s with messages := messages } wake (.message m) := by
  unfold takeMessage
  rw [h]
  cases handler <;> rfl

theorem takeMessage_nil (h : s.messages = []) :
    takeMessage handler s wake = leave s wake (handler.take []).1 := by
  unfold takeMessage
  rw [h]
  cases handler <;> exact congrArg (leave · _ _) (by rw [← h])

theorem Inv.takes (hall : AllJustified handler s)
    (hlt : s.waitSet.notified < s.messages.length) : Inv handler (takeMessage handler s wake) := by
  cases hmessages : s.messages with
  | nil =>
      rw [hmessages] at hlt
      exact absurd hlt (Nat.not_lt_zero _)
  | cons m messages =>
      rw [takeMessage_cons hmessages]
      rw [hmessages] at hlt
      exact
        { notified_le := Nat.le_of_lt_succ hlt
          justified := allJustified_leave.mpr ⟨hall, justified_message handler wake m⟩ }

/-- A call that comes back without a message, or throws, leaves the messages alone. -/
theorem Inv.leaves {outcome : Outcome α} (h : Inv handler s)
    (hcall : Call.Justified handler ⟨wake, outcome⟩) : Inv handler (leave s wake outcome) :=
  { notified_le := h.notified_le
    justified := allJustified_leave.mpr ⟨h.justified, hcall⟩ }

end Calls

section Runs

variable {handler : Handler}

theorem init_inv : Inv handler (init : State ι α) :=
  { notified_le := Nat.le_refl 0
    justified := fun _ h => by cases h }

variable [DecidableEq ι]

theorem Inv.resumes {s : State ι α} {w : WaitSet ι} {i : ι} {cause : Wake} (h : Inv handler s)
    (hw : s.waitSet.resume i cause = some w) : Inv handler { s with waitSet := w } := by
  have hcount := WaitSet.notified_resume hw
  have hle : w.notified ≤ s.waitSet.notified := by omega
  exact
    { notified_le := Nat.le_trans hle h.notified_le
      justified := h.justified }

theorem Inv.step {s t : State ι α} {e : Event ι α} (h : Inv handler s) (hC : Reserved handler s e)
    (ht : step handler s e = some t) : Inv handler t := by
  have hle := h.notified_le
  cases step_effect ht with
  | aside _ messages_eq _ calls_eq notified_eq =>
      exact
        { notified_le := by rw [messages_eq, notified_eq]; exact hle
          justified := by rw [AllJustified, calls_eq]; exact h.justified }
  | adds m messages_eq _ calls_eq notified_le =>
      exact
        { notified_le := by rw [messages_eq, List.length_append, List.length_singleton]; omega
          justified := by rw [AllJustified, calls_eq]; exact h.justified }
  | @popWaits i _ next_eq =>
      rw [next_eq]
      have hcount := WaitSet.notified_wait s.waitSet i
      exact
        { notified_le := Nat.le_trans (Nat.le_of_eq hcount) hle
          justified := h.justified }
  | popThrows messages_eq next_eq =>
      rw [next_eq]
      have hhandler : handler = .multipleMessageHandler := by
        simpa [Reserved, messages_eq] using hC
      exact h.leaves ((justified_interrupted handler (Or.inl rfl)).mpr hhandler)
  | popTakes messages_ne next_eq =>
      rw [next_eq]
      exact Inv.takes h.justified (by simpa [Reserved, messages_ne] using hC)
  | @resumeThrows i w resume_eq next_eq =>
      rw [next_eq]
      exact (h.resumes resume_eq).leaves ((justified_interrupted handler (Or.inr rfl)).mpr hC)
  | @resumeTakes i cause w cause_ne resume_eq next_eq =>
      rw [next_eq]
      have hw := h.resumes resume_eq
      have hcount := WaitSet.notified_resume resume_eq
      cases cause with
      | notified =>
          -- Its own message is still there.
          rw [if_pos rfl] at hcount
          have hlt : w.notified < s.messages.length := by omega
          exact Inv.takes hw.justified hlt
      | timedOut =>
          rw [if_neg (by decide)] at hcount
          by_cases hmessages : s.messages = []
          · rw [takeMessage_nil (s := { s with waitSet := w }) hmessages]
            exact hw.leaves ((justified_take_nil handler _).mpr rfl)
          · have hreserved : s.waitSet.notified < s.messages.length := hC hmessages
            have hlt : w.notified < s.messages.length := by omega
            exact Inv.takes hw.justified hlt
      | spurious =>
          rw [if_neg (by decide)] at hcount
          have hreserved : s.waitSet.notified < s.messages.length := hC
          have hlt : w.notified < s.messages.length := by omega
          exact Inv.takes hw.justified hlt
      | interrupted =>
          exact absurd rfl cause_ne

/-- Calls of `pop` come back empty-handed only after their timeout in every run in which the
messages for the notified threads are left alone. -/
theorem justified_of_reserved {es : List (Event ι α)}
    (h : Along (Jms.step handler) (Reserved handler) init es) :
    Throughout (Jms.step handler) (AllJustified handler) init es :=
  (throughout_of_along (fun _ _ _ hs hC ht => hs.step hC ht) init_inv h).imp fun _ hs =>
    hs.justified

/-! ## Messages taken from notified threads -/

/-- A notified thread enters the monitor again. -/
def IsReentry (e : Event ι α) : Prop :=
  ∃ i, e = .resume i .notified

/-- With fewer messages than notified threads, one of them comes back without a message. -/
theorem exists_reentries {s : State ι α} (h : s.messages.length < s.waitSet.notified) :
    ∃ fs, (∀ f ∈ fs, IsReentry f) ∧
      ¬ Throughout (Jms.step handler) (AllJustified handler) s fs := by
  -- The notified threads enter one after the other, as long as there are messages.
  induction hmessages : s.messages generalizing s with
  | nil =>
      rcases WaitSet.exists_resume (Nat.zero_lt_of_lt h) with ⟨i, w, hw⟩
      have ht : Jms.step handler s (.resume i .notified) =
          some (leave { s with waitSet := w } (some .notified) (handler.take []).1) := by
        rw [← takeMessage_nil (s := { s with waitSet := w }) hmessages]
        exact Option.map_eq_some_iff.mpr ⟨w, hw, rfl⟩
      refine ⟨[.resume i .notified], by simp [IsReentry], ?_⟩
      rintro ⟨-, hnext⟩
      have hcall := (allJustified_leave.mp (hnext _ ht)).2
      cases (justified_take_nil handler _).mp hcall
  | cons m messages ih =>
      rcases WaitSet.exists_resume (Nat.zero_lt_of_lt h) with ⟨i, w, hw⟩
      have hcount := WaitSet.notified_resume hw
      rw [if_pos rfl] at hcount
      have ht : Jms.step handler s (.resume i .notified) =
          some (leave { s with waitSet := w, messages := messages } (some .notified)
            (.message m)) := by
        rw [← takeMessage_cons (s := { s with waitSet := w }) hmessages]
        exact Option.map_eq_some_iff.mpr ⟨w, hw, rfl⟩
      rw [hmessages, List.length_cons] at h
      have hfewer : messages.length < w.notified := by omega
      rcases ih (s := leave { s with waitSet := w, messages := messages } (some .notified)
        (.message m)) hfewer rfl with ⟨fs, hfs, hnot⟩
      refine ⟨.resume i .notified :: fs, ?_, fun hall => hnot (hall.2 _ ht)⟩
      intro f hf
      rcases List.mem_cons.mp hf with rfl | hf
      · exact ⟨i, rfl⟩
      · exact hfs f hf

/-- Whoever takes a message without being notified, while there are no more messages than notified
threads, takes it from one of them. -/
theorem exists_reentries_of_takes {s : State ι α} {wake : Option Wake} (hne : s.messages ≠ [])
    (hle : s.messages.length ≤ s.waitSet.notified) :
    ∃ fs, (∀ f ∈ fs, IsReentry f) ∧
      ¬ Throughout (Jms.step handler) (AllJustified handler) (takeMessage handler s wake) fs := by
  cases hmessages : s.messages with
  | nil =>
      exact absurd hmessages hne
  | cons m messages =>
      rw [takeMessage_cons hmessages]
      rw [hmessages] at hle
      exact exists_reentries (Nat.lt_of_succ_le hle)

/-- A call that is not justified ends at once. -/
theorem exists_reentries_of_leaves {s : State ι α} {wake : Option Wake} {outcome : Outcome α}
    (hnot : ¬ Call.Justified handler ⟨wake, outcome⟩) :
    ∃ fs, (∀ f ∈ fs, IsReentry f) ∧
      ¬ Throughout (Jms.step handler) (AllJustified handler) (leave s wake outcome) fs :=
  ⟨[], by simp, fun hall => hnot (allJustified_leave.mp hall).2⟩

theorem exists_reentries_of_not_reserved {s t : State ι α} {e : Event ι α}
    (ht : Jms.step handler s e = some t) (hC : ¬ Reserved handler s e) :
    ∃ fs, (∀ f ∈ fs, IsReentry f) ∧
      ¬ Throughout (Jms.step handler) (AllJustified handler) t fs := by
  cases step_effect ht with
  | @aside e isAside =>
      have hreserved : Reserved handler s e := by
        cases e with
        | setDiscard | handleMessage | wake =>
            trivial
        | _ =>
            exact isAside.elim
      exact absurd hreserved hC
  | adds =>
      exact absurd trivial hC
  | popWaits messages_eq =>
      simp [Reserved, messages_eq] at hC
  | popThrows messages_eq next_eq =>
      have hhandler : handler ≠ .multipleMessageHandler := by
        simpa [Reserved, messages_eq] using hC
      rw [next_eq]
      exact exists_reentries_of_leaves fun hcall =>
        hhandler ((justified_interrupted handler (Or.inl rfl)).mp hcall)
  | popTakes messages_ne next_eq =>
      rw [next_eq]
      exact exists_reentries_of_takes messages_ne (by simpa [Reserved, messages_ne] using hC)
  | resumeThrows _ next_eq =>
      rw [next_eq]
      exact exists_reentries_of_leaves fun hcall =>
        hC ((justified_interrupted handler (Or.inr rfl)).mp hcall)
  | @resumeTakes i cause w cause_ne resume_eq next_eq =>
      rw [next_eq]
      have hcount := WaitSet.notified_resume resume_eq
      cases cause with
      | notified =>
          exact absurd trivial hC
      | timedOut =>
          rw [if_neg (by decide)] at hcount
          have hboth : s.messages ≠ [] ∧ ¬ s.waitSet.notified < s.messages.length :=
            Classical.not_imp.mp hC
          have hle : s.messages.length ≤ w.notified := by omega
          exact exists_reentries_of_takes hboth.1 hle
      | spurious =>
          rw [if_neg (by decide)] at hcount
          have hle : ¬ s.waitSet.notified < s.messages.length := hC
          by_cases hmessages : s.messages = []
          · rw [takeMessage_nil (s := { s with waitSet := w }) hmessages]
            refine exists_reentries_of_leaves fun hcall => ?_
            cases (justified_take_nil handler _).mp hcall
          · have htaken : s.messages.length ≤ w.notified := by omega
            exact exists_reentries_of_takes hmessages htaken
      | interrupted =>
          exact absurd rfl cause_ne

/-- The condition is the right one: a run meets it exactly if, wherever it is left off, the
notified threads can come back in any order. -/
theorem reserved_iff_reentries {es : List (Event ι α)} :
    Along (Jms.step handler) (Reserved handler) init es ↔
      ∀ before fs, before <+: es → (∀ f ∈ fs, IsReentry f) →
        Throughout (Jms.step handler) (AllJustified handler) init (before ++ fs) := by
  refine along_iff_continued (fun _ _ _ hs hC ht => hs.step hC ht) (fun _ hs => hs.justified) ?_
    (fun _ _ _ _ ht hC => exists_reentries_of_not_reserved ht hC) init_inv
  rintro s e ⟨i, rfl⟩
  trivial

end Runs

/-! ## Two threads -/

/-- A message is added for the waiting thread 0. -/
def oneAdded : List (Event ℕ ℕ) :=
  [.setDiscard false, .pop 0 false, .handleMessage 7 false, .add 0 (some 0)]

/-- With a second message there is one for thread 1, which later waits until its timeout. -/
def twoAdded : List (Event ℕ ℕ) :=
  oneAdded ++ [.handleMessage 8 false, .add 0 none, .pop 1 false, .resume 0 .notified,
    .pop 1 false, .wake 1 .timedOut, .resume 1 .timedOut]

theorem justified_twoAdded :
    Throughout (step .multipleMessageHandler) (AllJustified .multipleMessageHandler) init
      twoAdded := by
  apply justified_of_reserved
  refine .cons rfl trivial <| .cons rfl (by decide) <| .cons rfl trivial <| .cons rfl trivial <|
    .cons rfl trivial <| .cons rfl trivial <| .cons rfl (by decide) <| .cons rfl trivial <|
    .cons rfl (by decide) <| .cons rfl trivial <| .cons rfl (by decide) trivial

/-- Thread 1 takes the only message before thread 0 is back. -/
def stolen : List (Event ℕ ℕ) :=
  oneAdded ++ [.pop 1 false, .resume 0 .notified]

def afterStolen (outcome : Outcome ℕ) : State ℕ ℕ :=
  { messages := []
    waitSet := WaitSet.empty
    discard := [true, false]
    arrived := []
    added := [7]
    calls := [⟨none, .message 7⟩, ⟨some .notified, outcome⟩] }

theorem not_justified_stolen :
    ¬ Throughout (step .multipleMessageHandler) (AllJustified .multipleMessageHandler) init
        stolen ∧
      ¬ Throughout (step .protobufMessageListenerDelegate)
        (AllJustified .protobufMessageListenerDelegate) init stolen := by
  have hnull : run (step .multipleMessageHandler) init stolen = some (afterStolen .null) := rfl
  have hthrows : run (step .protobufMessageListenerDelegate) init stolen =
      some (afterStolen .noSuchElementException) := rfl
  constructor
  · intro h
    have hend := throughout_iff_prefix.mp h stolen _ List.prefix_rfl hnull
    rcases (hend ⟨some .notified, .null⟩ (by simp [afterStolen])).notified rfl with ⟨m, hm⟩
    cases hm
  · intro h
    have hend := throughout_iff_prefix.mp h stolen _ List.prefix_rfl hthrows
    rcases (hend ⟨some .notified, .noSuchElementException⟩ (by simp [afterStolen])).notified rfl
      with ⟨m, hm⟩
    cases hm

end Jms
end Etude
