import Etude.WinService.Phases

/-!
# Protocol — what the service manager sees

In every interleaving the callback can always put its signal, the statuses come in their order and
are consistent, and when `rsyslog` reports `Stopped` its server has been told to stop and its
socket is closed.
-/

namespace Etude
namespace WinService

open Base

/-! ## The server is closed before `Stopped` is reported -/

/-- `terminate` is set and the socket that the server works on is closed. -/
def Server.ShutDown (server : Server) : Prop :=
  server.terminate = some true ∧ ∃ sock, server.svrSock = some sock ∧ sock ∈ server.closed

/-- What has been done when these actions of `Service.cleanup` are left. -/
inductive Cleaned (server : Server) : List Action → Prop
  | begun : Cleaned server [.takeTerminate, .putTerminate, .readSock, .closeSock]
  | taken : Cleaned server [.putTerminate, .readSock, .closeSock]
  | told (terminate_eq : server.terminate = some true) : Cleaned server [.readSock, .closeSock]
  | found {sock : Socket} (terminate_eq : server.terminate = some true)
      (svrSock_eq : server.svrSock = some sock) (sock_eq : server.sock = some sock) :
      Cleaned server [.closeSock]
  | shutDown (down : server.ShutDown) : Cleaned server []

def Cleaning (server : Server) : Main → Prop
  | .cleanup rest => Cleaned server rest
  | .reportStopped _ => server.ShutDown
  | .returned => server.ShutDown
  | _ => True

section Cleaning

variable {server server' : Server} {s t : State}

/-- The server thread fills `svrSock` once and leaves the rest to the main thread. -/
theorem Server.serve_spec {answer : Option Socket} (h : server.serve answer = some server') :
    server'.terminate = server.terminate ∧ server'.sock = server.sock ∧
      server'.closed = server.closed ∧
        ∀ sock, server.svrSock = some sock → server'.svrSock = some sock := by
  unfold Server.serve at h
  cases hthread : server.thread with
  | notStarted | ended =>
      rw [hthread] at h
      cases h
  | starting | handling =>
      rw [hthread] at h
      cases h
      exact ⟨rfl, rfl, rfl, fun _ hsock => hsock⟩
  | bound sock =>
      rw [hthread] at h
      cases hsvrSock : server.svrSock with
      | some sock' =>
          simp only [hsvrSock] at h
          cases h
      | none =>
          simp only [hsvrSock] at h
          cases h
          exact ⟨rfl, rfl, rfl, fun _ hsock => by cases hsock⟩
  | receiving sock =>
      rw [hthread] at h
      simp only at h
      split_ifs at h <;> cases h <;> exact ⟨rfl, rfl, rfl, fun _ hsock => hsock⟩
  | checking sock =>
      rw [hthread] at h
      rcases Option.map_eq_some_iff.mp h with ⟨stop, -, rfl⟩
      exact ⟨rfl, rfl, rfl, fun _ hsock => hsock⟩

theorem Server.ShutDown.serve {answer : Option Socket} (hdown : server.ShutDown)
    (h : server.serve answer = some server') : server'.ShutDown := by
  rcases Server.serve_spec h with ⟨hterminate, -, hclosed, hsvrSock⟩
  rcases hdown with ⟨hset, sock, hsock, hmem⟩
  exact ⟨hterminate.trans hset, sock, hsvrSock sock hsock, hclosed ▸ hmem⟩

theorem Cleaned.serve {rest : List Action} {answer : Option Socket}
    (hcleaned : Cleaned server rest) (h : server.serve answer = some server') :
    Cleaned server' rest := by
  rcases Server.serve_spec h with ⟨hterminate, hvariable, -, hsvrSock⟩
  cases hcleaned with
  | begun =>
      exact .begun
  | taken =>
      exact .taken
  | told terminate_eq =>
      exact .told (hterminate.trans terminate_eq)
  | found terminate_eq svrSock_eq sock_eq =>
      exact .found (hterminate.trans terminate_eq) (hsvrSock _ svrSock_eq)
        (hvariable.trans sock_eq)
  | shutDown down =>
      exact .shutDown (down.serve h)

theorem Cleaning.serve {main : Main} {answer : Option Socket} (hcleaning : Cleaning server main)
    (h : server.serve answer = some server') : Cleaning server' main := by
  cases main with
  | cleanup rest =>
      exact Cleaned.serve hcleaning h
  | reportStopped r =>
      exact Server.ShutDown.serve hcleaning h
  | returned =>
      exact Server.ShutDown.serve hcleaning h
  | _ =>
      trivial

theorem Cleaned.perform {action : Action} {rest : List Action}
    (hcleaned : Cleaned server (action :: rest)) (h : action.perform server = some server') :
    Cleaned server' rest := by
  cases hcleaned with
  | begun =>
      exact .taken
  | taken =>
      cases hterminate : server.terminate with
      | none =>
          simp only [Action.perform, hterminate] at h
          cases h
          exact .told rfl
      | some b =>
          simp only [Action.perform, hterminate] at h
          cases h
  | told terminate_eq =>
      rcases Option.map_eq_some_iff.mp h with ⟨sock, hsock, rfl⟩
      exact .found terminate_eq hsock rfl
  | found terminate_eq svrSock_eq sock_eq =>
      rcases Option.map_eq_some_iff.mp h with ⟨sock, hsock, rfl⟩
      rw [sock_eq] at hsock
      cases hsock
      exact .shutDown ⟨terminate_eq, _, svrSock_eq, List.mem_cons_self⟩

theorem reportSvcStatus_server {state : ServiceState} {win32ExitCode : ErrCode}
    {waitHint : UInt32} {r : Report} {next : Option Report}
    (h : reportSvcStatus state win32ExitCode waitHint s r = some (t, next)) :
    t.server = s.server ∧ t.main = s.main := by
  cases r with
  | take =>
      rcases Option.map_eq_some_iff.mp h with ⟨old, -, heq⟩
      cases heq
      exact ⟨rfl, rfl⟩
  | set old =>
      cases h
      exact ⟨rfl, rfl⟩
  | put new =>
      cases hgState : s.gState with
      | none =>
          simp only [reportSvcStatus, hgState] at h
          cases h
          exact ⟨rfl, rfl⟩
      | some g =>
          simp only [reportSvcStatus, hgState] at h
          cases h

theorem Cleaning.mainStep (hcleaning : Cleaning s.server s.main)
    (ht : svcMain .rsyslog s = some t) : Cleaning t.server t.main := by
  unfold svcMain at ht
  cases hs : s.main with
  | reportRunning r =>
      rw [hs] at ht
      rcases Option.map_eq_some_iff.mp ht with ⟨⟨u, next⟩, -, rfl⟩
      cases next <;> trivial
  | startup rest =>
      rw [hs] at ht
      cases rest with
      | nil =>
          cases ht
          trivial
      | cons action rest =>
          rcases Option.map_eq_some_iff.mp ht with ⟨server, -, rfl⟩
          trivial
  | takeStop =>
      rw [hs] at ht
      rcases Option.map_eq_some_iff.mp ht with ⟨u, -, rfl⟩
      exact Cleaned.begun
  | cleanup rest =>
      rw [hs] at ht hcleaning
      cases rest with
      | nil =>
          cases ht
          cases hcleaning with
          | shutDown down => exact down
      | cons action rest =>
          rcases Option.map_eq_some_iff.mp ht with ⟨server, hserver, rfl⟩
          exact Cleaned.perform hcleaning hserver
  | reportStopped r =>
      rw [hs] at ht hcleaning
      rcases Option.map_eq_some_iff.mp ht with ⟨⟨u, next⟩, hreport, rfl⟩
      have hserver := (reportSvcStatus_server hreport).1
      have hdown : u.server.ShutDown := hserver ▸ hcleaning
      cases next <;> exact hdown
  | returned =>
      rw [hs] at ht
      cases ht

/-- The callback does not touch the server. -/
theorem svcCtrlStep_server (ht : svcCtrlStep s = some t) :
    t.server = s.server ∧ t.main = s.main := by
  unfold svcCtrlStep at ht
  cases hs : s.callback with
  | idle =>
      rw [hs] at ht
      cases ht
  | reportStopPending r =>
      rw [hs] at ht
      rcases Option.map_eq_some_iff.mp ht with ⟨⟨u, next⟩, hreport, rfl⟩
      have hsame := reportSvcStatus_server hreport
      exact hsame
  | putStop =>
      rw [hs] at ht
      cases hmStop : s.mStop with
      | none =>
          simp only [hmStop] at ht
          cases ht
          exact ⟨rfl, rfl⟩
      | some u =>
          simp only [hmStop] at ht
          cases ht
  | returning b =>
      rw [hs] at ht
      cases ht
      exact ⟨rfl, rfl⟩

theorem Cleaning.step {e : Event} (hcleaning : Cleaning s.server s.main)
    (ht : step .rsyslog s e = some t) : Cleaning t.server t.main := by
  unfold WinService.step at ht
  split_ifs at ht with hended
  cases e with
  | main =>
      exact hcleaning.mainStep ht
  | control c =>
      simp only at ht
      split_ifs at ht with hcontrol
      cases ht
      exact hcleaning
  | callback =>
      rcases svcCtrlStep_server ht with ⟨hserver, hmain⟩
      rw [hserver, hmain]
      exact hcleaning
  | serve answer =>
      rcases Option.map_eq_some_iff.mp ht with ⟨server, hserver, rfl⟩
      exact hcleaning.serve hserver
  | exit =>
      cases ht
      exact hcleaning

end Cleaning

/-! ## The protocol -/

/-- What holds at every moment of every run. -/
structure Protocol (service : Service) (s : State) : Prop where
  /-- `putMVar mStop` does not find it full. -/
  putStop_free : s.callback = .putStop → s.mStop = none
  ordered : s.reports.map ServiceStatus.currentState <+: [.running, .stopPending, .stopped]
  once : (s.reports.map ServiceStatus.currentState).count .stopped ≤ 1
  shutDown : service = .rsyslog → .stopped ∈ s.reports.map ServiceStatus.currentState →
    s.server.ShutDown
  reported : WellReported s.reports

namespace Phase

/-- The three reports, in their order. -/
def allReports : List ServiceStatus :=
  reportAll initialState
    [(.running, .success, 0), (.stopPending, .success, 3000), (.stopped, .success, 0)]

theorem reports_prefix (p : Phase) : p.reports <+: allReports := by
  cases p with
  | starting | startingHeld =>
      exact List.nil_prefix
  | announced | serving | stopHeld =>
      exact ⟨[afterStopPending.2, afterStopped.2], rfl⟩
  | stoppedAnnounced | finished =>
      exact List.prefix_rfl
  | _ =>
      exact ⟨[afterStopped.2], rfl⟩

/-- `Stopped` has been reported only at the end of the main thread. -/
theorem of_stopped_mem {p : Phase} {main : Main}
    (h : .stopped ∈ p.reports.map ServiceStatus.currentState) (hmain : p.MainIn main) :
    main = .reportStopped (.put afterStopped) ∨ main = .returned := by
  have hp : p = .stoppedAnnounced ∨ p = .finished := by
    cases p <;> revert h <;> decide
  rcases hp with rfl | rfl
  · exact Or.inl hmain
  · exact Or.inr hmain

end Phase

theorem InPhase.protocol {p : Phase} {s : State} {service : Service} (h : InPhase p s)
    (hcleaning : service = .rsyslog → Cleaning s.server s.main) : Protocol service s := by
  have hprefix := Phase.reports_prefix p
  have hstates : p.reports.map ServiceStatus.currentState <+:
      [.running, .stopPending, .stopped] := hprefix.map ServiceStatus.currentState
  have hwell : WellReported Phase.allReports := (reportAll_spec (by decide)).1
  refine
    { putStop_free := fun hput => ?_
      ordered := h.reports_eq ▸ hstates
      once := h.reports_eq ▸ hstates.sublist.count_le .stopped
      shutDown := fun hservice hstopped => ?_
      reported := h.reports_eq ▸ hwell.of_prefix hprefix }
  · have hcallback := h.callback
    rw [hput] at hcallback
    have hp := Phase.of_putStop hcallback
    subst hp
    exact h.mStop_eq
  · have hdown := hcleaning hservice
    rw [h.reports_eq] at hstopped
    rcases Phase.of_stopped_mem hstopped h.main with hmain | hmain <;> rw [hmain] at hdown <;>
      exact hdown

/-- The service control protocol of both programs, for every interleaving of the main thread, the
server thread and the callbacks. -/
theorem protocol_throughout (service : Service) (es : List Event) :
    Throughout (step service) (Protocol service) init es := by
  have hkeep : Throughout (step service) (fun s =>
      (∃ p, InPhase p s) ∧ (service = .rsyslog → Cleaning s.server s.main)) init es := by
    refine throughout_of_keeps ?_ ⟨⟨.starting, init_inPhase⟩, fun _ => trivial⟩
    rintro s e t ⟨⟨p, hp⟩, hcleaning⟩ ht
    rcases hp.step ht with ⟨q, -, hq⟩
    refine ⟨⟨q, hq⟩, ?_⟩
    rintro rfl
    exact (hcleaning rfl).step ht
  exact hkeep.imp fun s hs => by
    rcases hs with ⟨⟨p, hp⟩, hcleaning⟩
    exact hp.protocol hcleaning

/-- `Stop` comes before the socket is bound, and the main thread waits for it. -/
example :
    (run (step .rsyslog) init
      ([.main, .main, .main, .main, .main, .control .stop, .callback, .callback, .callback,
        .callback, .callback, .main, .main, .main, .main, .serve (some 5), .serve none, .main,
        .main, .main, .main, .main, .main, .exit])).map
      (fun s => (s.reports.map ServiceStatus.currentState, s.server.closed)) =
    some ([.running, .stopPending, .stopped], [5]) := by
  decide

end WinService
end Etude
