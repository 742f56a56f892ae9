import Etude.WinService.Reports

/-!
# Phases — how a service starts and stops

The threads pass `gState` and the stop signal on to each other in one order only.  A phase says who
holds what; every step of every thread stays in the phase or goes to the next one.
-/

namespace Etude
namespace WinService

open Base

/-! ## The abstract protocol -/

def afterRunning : GState :=
  reportedState .running .success 0 initialState

def afterStopPending : GState :=
  reportedState .stopPending .success 3000 afterRunning

def afterStopped : GState :=
  reportedState .stopped .success 0 afterStopPending

inductive Phase
  | starting
  /-- The main thread holds `gState`. -/
  | startingHeld
  /-- `Running` is reported, and the main thread still holds `gState`. -/
  | announced
  | serving
  /-- The callback holds `gState`. -/
  | stopHeld
  /-- `StopPending` is reported, and the callback still holds `gState`. -/
  | stopAnnounced
  | signalling
  | signalled
  | cleaning
  | stoppedHeld
  | stoppedAnnounced
  | finished
  deriving DecidableEq, Repr

namespace Phase

def next : Phase → Phase
  | .starting => .startingHeld
  | .startingHeld => .announced
  | .announced => .serving
  | .serving => .stopHeld
  | .stopHeld => .stopAnnounced
  | .stopAnnounced => .signalling
  | .signalling => .signalled
  | .signalled => .cleaning
  | .cleaning => .stoppedHeld
  | .stoppedHeld => .stoppedAnnounced
  | .stoppedAnnounced => .finished
  | .finished => .finished

def gState : Phase → Option GState
  | .starting => some initialState
  | .serving => some afterRunning
  | .signalling | .signalled | .cleaning => some afterStopPending
  | .finished => some afterStopped
  | _ => none

def mStop : Phase → Option Unit
  | .signalled => some ()
  | _ => none

def reports : Phase → List ServiceStatus
  | .starting | .startingHeld => []
  | .announced | .serving | .stopHeld => [afterRunning.2]
  | .stoppedAnnounced | .finished => [afterRunning.2, afterStopPending.2, afterStopped.2]
  | _ => [afterRunning.2, afterStopPending.2]

/-- Where the main thread is. -/
def MainIn : Phase → Main → Prop
  | .starting, main => main = .reportRunning .take
  | .startingHeld, main => main = .reportRunning (.set initialState)
  | .announced, main => main = .reportRunning (.put afterRunning)
  | .cleaning, main => main = .reportStopped .take ∨ ∃ rest, main = .cleanup rest
  | .stoppedHeld, main => main = .reportStopped (.set afterStopPending)
  | .stoppedAnnounced, main => main = .reportStopped (.put afterStopped)
  | .finished, main => main = .returned
  | _, main => main = .takeStop ∨ ∃ rest, main = .startup rest

/-- Where the callback is. -/
def CallbackIn : Phase → Callback → Prop
  | .announced, callback | .serving, callback =>
      callback = .reportStopPending .take ∨ callback = .idle ∨ ∃ b, callback = .returning b
  | .stopHeld, callback => callback = .reportStopPending (.set afterRunning)
  | .stopAnnounced, callback => callback = .reportStopPending (.put afterStopPending)
  | .signalling, callback => callback = .putStop
  | _, callback => callback = .idle ∨ ∃ b, callback = .returning b

/-! ### The phase, from where a thread is -/

section Inversion

variable {p : Phase} {callback : Callback} {main : Main}

theorem of_putStop (h : p.CallbackIn .putStop) : p = .signalling := by
  cases p <;> simp_all [CallbackIn]

theorem of_reportStopPending {r : Report} (h : p.CallbackIn (.reportStopPending r)) :
    (p = .announced ∨ p = .serving) ∧ r = .take ∨ p = .stopHeld ∧ r = .set afterRunning ∨
      p = .stopAnnounced ∧ r = .put afterStopPending := by
  cases p <;> simp_all [CallbackIn]

/-- Controls other than `Stop` may come at any time. -/
theorem callbackIn_returning_iff {b : Bool} : p.CallbackIn (.returning b) ↔ p.CallbackIn .idle := by
  cases p <;> simp [CallbackIn]

theorem of_reportRunning {r : Report} (h : p.MainIn (.reportRunning r)) :
    p = .starting ∧ r = .take ∨ p = .startingHeld ∧ r = .set initialState ∨
      p = .announced ∧ r = .put afterRunning := by
  cases p <;> simp_all [MainIn]

theorem of_reportStopped {r : Report} (h : p.MainIn (.reportStopped r)) :
    p = .cleaning ∧ r = .take ∨ p = .stoppedHeld ∧ r = .set afterStopPending ∨
      p = .stoppedAnnounced ∧ r = .put afterStopped := by
  cases p <;> simp_all [MainIn]

theorem of_cleanup {rest : List Action} (h : p.MainIn (.cleanup rest)) : p = .cleaning := by
  cases p <;> simp_all [MainIn]

theorem mainIn_startup {rest : List Action} (h : p.MainIn (.startup rest)) (rest' : List Action) :
    p.MainIn (.startup rest') ∧ p.MainIn .takeStop := by
  cases p <;> simp_all [MainIn]

/-- When `Stop` is accepted. -/
theorem of_acceptsStop (h : AcceptsStop p.reports) :
    p = .announced ∨ p = .serving ∨ p = .stopHeld := by
  cases p <;> revert h <;> decide

/-- The main thread takes the signal when it is there. -/
theorem of_takeStop {u : Unit} (hsignal : p.mStop = some u) : p = .signalled := by
  cases p <;> simp_all [mStop]

end Inversion

end Phase

structure InPhase (p : Phase) (s : State) : Prop where
  gState_eq : s.gState = p.gState
  mStop_eq : s.mStop = p.mStop
  reports_eq : s.reports = p.reports
  main : p.MainIn s.main
  callback : p.CallbackIn s.callback

theorem init_inPhase : InPhase .starting init :=
  { gState_eq := rfl
    mStop_eq := rfl
    reports_eq := rfl
    main := rfl
    callback := Or.inl rfl }

/-! ## Simulation -/

section Simulation

variable {p : Phase} {s t : State} {service : Service}

/-! ### The callback -/

theorem InPhase.reportStopPending {r : Report} (h : InPhase p s)
    (hs : s.callback = .reportStopPending r)
    (ht : (reportSvcStatus .stopPending .success 3000 s r).map (fun (t, next) =>
      { t with callback := next.elim .putStop .reportStopPending }) = some t) :
    ∃ q, (q = p ∨ q = p.next) ∧ InPhase q t := by
  have hcallback := h.callback
  rw [hs] at hcallback
  rcases Phase.of_reportStopPending hcallback with ⟨rfl | rfl, rfl⟩ | ⟨rfl, rfl⟩ | ⟨rfl, rfl⟩
  · -- The main thread still holds `gState`.
    simp [reportSvcStatus, h.gState_eq, Phase.gState] at ht
  · simp only [reportSvcStatus, h.gState_eq, Phase.gState, Option.map_some] at ht
    cases ht
    exact ⟨.stopHeld, Or.inr rfl,
      { gState_eq := rfl
        mStop_eq := h.mStop_eq
        reports_eq := h.reports_eq
        main := h.main
        callback := rfl }⟩
  · simp only [reportSvcStatus, Option.map_some] at ht
    cases ht
    exact ⟨.stopAnnounced, Or.inr rfl,
      { gState_eq := h.gState_eq
        mStop_eq := h.mStop_eq
        reports_eq := congrArg (· ++ _) h.reports_eq
        main := h.main
        callback := rfl }⟩
  · simp only [reportSvcStatus, h.gState_eq, Phase.gState, Option.map_some] at ht
    cases ht
    exact ⟨.signalling, Or.inr rfl,
      { gState_eq := rfl
        mStop_eq := h.mStop_eq
        reports_eq := h.reports_eq
        main := h.main
        callback := rfl }⟩

theorem InPhase.callbackStep (h : InPhase p s) (ht : svcCtrlStep s = some t) :
    ∃ q, (q = p ∨ q = p.next) ∧ InPhase q t := by
  have hcallback := h.callback
  unfold svcCtrlStep at ht
  cases hs : s.callback with
  | idle =>
      rw [hs] at ht
      cases ht
  | reportStopPending r =>
      rw [hs] at ht
      exact h.reportStopPending hs ht
  | putStop =>
      rw [hs] at ht hcallback
      have hp := Phase.of_putStop hcallback
      subst hp
      simp only [h.mStop_eq, Phase.mStop] at ht
      cases ht
      exact ⟨.signalled, Or.inr rfl,
        { gState_eq := h.gState_eq
          mStop_eq := rfl
          reports_eq := h.reports_eq
          main := h.main
          callback := Or.inr ⟨true, rfl⟩ }⟩
  | returning b =>
      rw [hs] at ht hcallback
      cases ht
      exact ⟨p, Or.inl rfl, { h with callback := Phase.callbackIn_returning_iff.mp hcallback }⟩

/-! ### The main thread -/

theorem InPhase.reportRunning {r : Report} (h : InPhase p s) (hs : s.main = .reportRunning r)
    (ht : (reportSvcStatus .running .success 0 s r).map (fun (t, next) =>
      { t with main := next.elim (.startup service.startup) .reportRunning }) = some t) :
    ∃ q, (q = p ∨ q = p.next) ∧ InPhase q t := by
  have hmain := h.main
  rw [hs] at hmain
  rcases Phase.of_reportRunning hmain with ⟨rfl, rfl⟩ | ⟨rfl, rfl⟩ | ⟨rfl, rfl⟩
  · simp only [reportSvcStatus, h.gState_eq, Phase.gState, Option.map_some] at ht
    cases ht
    exact ⟨.startingHeld, Or.inr rfl,
      { gState_eq := rfl
        mStop_eq := h.mStop_eq
        reports_eq := h.reports_eq
        main := rfl
        callback := h.callback }⟩
  · simp only [reportSvcStatus, Option.map_some] at ht
    cases ht
    -- From now on the service manager may deliver `Stop`.
    exact ⟨.announced, Or.inr rfl,
      { gState_eq := h.gState_eq
        mStop_eq := h.mStop_eq
        reports_eq := congrArg (· ++ _) h.reports_eq
        main := rfl
        callback := Or.inr h.callback }⟩
  · simp only [reportSvcStatus, h.gState_eq, Phase.gState, Option.map_some] at ht
    cases ht
    exact ⟨.serving, Or.inr rfl,
      { gState_eq := rfl
        mStop_eq := h.mStop_eq
        reports_eq := h.reports_eq
        main := Or.inr ⟨service.startup, rfl⟩
        callback := h.callback }⟩

theorem InPhase.reportStopped {r : Report} (h : InPhase p s) (hs : s.main = .reportStopped r)
    (ht : (reportSvcStatus .stopped .success 0 s r).map (fun (t, next) =>
      { t with main := next.elim .returned .reportStopped }) = some t) :
    ∃ q, (q = p ∨ q = p.next) ∧ InPhase q t := by
  have hmain := h.main
  rw [hs] at hmain
  rcases Phase.of_reportStopped hmain with ⟨rfl, rfl⟩ | ⟨rfl, rfl⟩ | ⟨rfl, rfl⟩
  · simp only [reportSvcStatus, h.gState_eq, Phase.gState, Option.map_some] at ht
    cases ht
    exact ⟨.stoppedHeld, Or.inr rfl,
      { gState_eq := rfl
        mStop_eq := h.mStop_eq
        reports_eq := h.reports_eq
        main := rfl
        callback := h.callback }⟩
  · simp only [reportSvcStatus, Option.map_some] at ht
    cases ht
    exact ⟨.stoppedAnnounced, Or.inr rfl,
      { gState_eq := h.gState_eq
        mStop_eq := h.mStop_eq
        reports_eq := congrArg (· ++ _) h.reports_eq
        main := rfl
        callback := h.callback }⟩
  · simp only [reportSvcStatus, h.gState_eq, Phase.gState, Option.map_some] at ht
    cases ht
    exact ⟨.finished, Or.inr rfl,
      { gState_eq := rfl
        mStop_eq := h.mStop_eq
        reports_eq := h.reports_eq
        main := rfl
        callback := h.callback }⟩

theorem InPhase.mainStep (h : InPhase p s) (ht : svcMain service s = some t) :
    ∃ q, (q = p ∨ q = p.next) ∧ InPhase q t := by
  have hmain := h.main
  have hcallback := h.callback
  unfold svcMain at ht
  cases hs : s.main with
  | reportRunning r =>
      rw [hs] at ht
      exact h.reportRunning hs ht
  | startup rest =>
      rw [hs] at ht hmain
      cases rest with
      | nil =>
          cases ht
          exact ⟨p, Or.inl rfl, { h with main := (Phase.mainIn_startup hmain []).2 }⟩
      | cons action rest =>
          rcases Option.map_eq_some_iff.mp ht with ⟨server, -, rfl⟩
          exact ⟨p, Or.inl rfl,
            { gState_eq := h.gState_eq
              mStop_eq := h.mStop_eq
              reports_eq := h.reports_eq
              main := (Phase.mainIn_startup hmain rest).1
              callback := hcallback }⟩
  | takeStop =>
      rw [hs] at ht
      rcases Option.map_eq_some_iff.mp ht with ⟨u, hsignal, rfl⟩
      have hp := Phase.of_takeStop (h.mStop_eq ▸ hsignal)
      subst hp
      exact ⟨.cleaning, Or.inr rfl,
        { gState_eq := h.gState_eq
          mStop_eq := rfl
          reports_eq := h.reports_eq
          main := Or.inr ⟨service.cleanup, rfl⟩
          callback := hcallback }⟩
  | cleanup rest =>
      rw [hs] at ht hmain
      have hp := Phase.of_cleanup hmain
      subst hp
      cases rest with
      | nil =>
          cases ht
          exact ⟨.cleaning, Or.inl rfl, { h with main := Or.inl rfl }⟩
      | cons action rest =>
          rcases Option.map_eq_some_iff.mp ht with ⟨server, -, rfl⟩
          exact ⟨.cleaning, Or.inl rfl,
            { gState_eq := h.gState_eq
              mStop_eq := h.mStop_eq
              reports_eq := h.reports_eq
              main := Or.inr ⟨rest, rfl⟩
              callback := hcallback }⟩
  | reportStopped r =>
      rw [hs] at ht
      exact h.reportStopped hs ht
  | returned =>
      rw [hs] at ht
      cases ht

/-! ### All threads -/

theorem InPhase.control {c : ServiceControl} (h : InPhase p s) (hidle : s.callback = .idle)
    (haccepts : c = .stop → AcceptsStop s.reports) :
    InPhase p { s with callback := svcCtrlHandler c } := by
  have hcallback := h.callback
  rw [hidle] at hcallback
  refine { h with callback := ?_ }
  cases c with
  | stop =>
      have hstop := haccepts rfl
      rw [h.reports_eq] at hstop
      rcases Phase.of_acceptsStop hstop with rfl | rfl | rfl
      · exact Or.inl rfl
      · exact Or.inl rfl
      · -- The callback is busy in this phase.
        cases hcallback
  | _ =>
      exact Phase.callbackIn_returning_iff.mpr hcallback

/-- Every step stays in the phase or goes to the next one. -/
theorem InPhase.step {e : Event} (h : InPhase p s) (ht : step service s e = some t) :
    ∃ q, (q = p ∨ q = p.next) ∧ InPhase q t := by
  unfold WinService.step at ht
  split_ifs at ht with hended
  cases e with
  | main =>
      exact h.mainStep ht
  | control c =>
      simp only at ht
      split_ifs at ht with hcontrol
      cases ht
      exact ⟨p, Or.inl rfl, h.control hcontrol.1 hcontrol.2⟩
  | callback =>
      exact h.callbackStep ht
  | serve answer =>
      rcases Option.map_eq_some_iff.mp ht with ⟨server, -, rfl⟩
      exact ⟨p, Or.inl rfl, { h with }⟩
  | exit =>
      cases ht
      exact ⟨p, Or.inl rfl, { h with }⟩

end Simulation

end WinService
end Etude
