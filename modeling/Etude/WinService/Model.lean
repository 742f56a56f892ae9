import Etude.Base.Run

/-!
# Model — the Windows services `rsyslog` and `hello-service`

The two programs share how they report their status and how they are told to stop.  Their threads
are the main thread of the service, the server thread of `rsyslog`, and the callbacks of the
service manager.  Each action on an `MVar`, each report and each call of the network is one step.
-/

namespace Etude
namespace WinService

open Base

/-! ## The status -/

inductive ServiceType
  | fileSystemDriver | kernelDriver | win32OwnProcess | win32ShareProcess
  deriving DecidableEq, Repr

inductive ServiceState
  | continuePending | pausePending | paused | running | startPending | stopPending | stopped
  deriving DecidableEq, Repr

inductive ServiceAccept
  | acceptNetBindChange | acceptParamChange | acceptPauseContinue | acceptPreshutdown
  | acceptShutdown | acceptStop
  deriving DecidableEq, Repr

inductive ServiceControl
  | «continue» | interrogate | netBindAdd | netBindDisable | netBindEnable | netBindRemove
  | paramChange | pause | preShutdown | shutdown | stop
  deriving DecidableEq, Repr

/-- `ErrCode`, as far as it is used. -/
inductive ErrCode
  | success
  | other (code : UInt32)
  deriving DecidableEq, Repr

structure ServiceStatus where
  serviceType : ServiceType
  currentState : ServiceState
  controlsAccepted : List ServiceAccept
  win32ExitCode : ErrCode
  serviceSpecificExitCode : UInt32
  checkPoint : UInt32
  waitHint : UInt32
  deriving DecidableEq, Repr

/-- The next check point, and the last status. -/
abbrev GState := UInt32 × ServiceStatus

def nextState : GState → GState
  | (checkPoint, svcStatus) =>
      match svcStatus.currentState with
      | .startPending =>
          (checkPoint + 1,
            { svcStatus with controlsAccepted := [], checkPoint := checkPoint + 1 })
      | .running =>
          (checkPoint, { svcStatus with controlsAccepted := [.acceptStop], checkPoint := 0 })
      | .stopped => (checkPoint, { svcStatus with controlsAccepted := [], checkPoint := 0 })
      | _ =>
          (checkPoint + 1,
            { svcStatus with controlsAccepted := [], checkPoint := checkPoint + 1 })

/-- What `main` puts into `gState`. -/
def initialState : GState :=
  (1,
    { serviceType := .win32OwnProcess
      currentState := .startPending
      controlsAccepted := []
      win32ExitCode := .success
      serviceSpecificExitCode := 0
      checkPoint := 0
      waitHint := 3000 })

/-- What is reported, and left in `gState`, by `reportSvcStatus`. -/
def reportedState (state : ServiceState) (win32ExitCode : ErrCode) (waitHint : UInt32)
    (gState : GState) : GState :=
  nextState
    (gState.1,
      { gState.2 with
        win32ExitCode := win32ExitCode
        waitHint := waitHint
        currentState := state })

/-! ## The server of `rsyslog` -/

/-- A socket, by its number. -/
abbrev Socket := ℕ

/-- Where the thread that runs `serveLog` is. -/
inductive ServeLog
  | notStarted
  /-- Before `getAddrInfo` and `socket`. -/
  | starting
  /-- The options are set and the socket is bound, before `putMVar (svrSock state)`. -/
  | bound (sock : Socket)
  /-- Before `recvFrom`. -/
  | receiving (sock : Socket)
  /-- In the handler. -/
  | handling (sock : Socket)
  /-- Before `readMVar (terminate state)`. -/
  | checking (sock : Socket)
  /-- Told to stop, or an exception was raised. -/
  | ended
  deriving DecidableEq, Repr

/-- `terminate` and `svrSock` are the `MVar`s of the `ServerState`; `sock` is the variable of the
main thread, and `closed` the sockets that were closed. -/
structure Server where
  terminate : Option Bool
  svrSock : Option Socket
  thread : ServeLog
  sock : Option Socket
  closed : List Socket
  deriving DecidableEq, Repr

/-- The actions of the main thread between its reports. -/
inductive Action
  | createServer
  /-- `forkIO $ startServe opts state` -/
  | forkServe
  /-- The two halves of `modifyMVar_ (terminate state)`. -/
  | takeTerminate
  | putTerminate
  | readSock
  | closeSock
  /-- What `hello-service` does with its logger and `hello-service.log`. -/
  | initLogger
  deriving DecidableEq, Repr

/-- `none` where the thread is blocked. -/
def Action.perform (server : Server) : Action → Option Server
  | .createServer => some { server with terminate := some false, svrSock := none }
  | .forkServe => some { server with thread := .starting }
  | .takeTerminate => server.terminate.map fun _ => { server with terminate := none }
  | .putTerminate =>
      match server.terminate with
      | none => some { server with terminate := some true }
      | some _ => none
  | .readSock => server.svrSock.map fun sock => { server with sock := some sock }
  | .closeSock => server.sock.map fun sock => { server with closed := sock :: server.closed }
  | .initLogger => some server

/-- One step of `serveLog`.  Where the system is asked for something, `answer` is what it gives,
and `none` an exception. -/
def Server.serve (server : Server) (answer : Option Socket) : Option Server :=
  match server.thread with
  | .notStarted => none
  | .starting =>
      some { server with thread := (answer.map ServeLog.bound).getD .ended }
  | .bound sock =>
      match server.svrSock with
      | none => some { server with svrSock := some sock, thread := .receiving sock }
      | some _ => none
  | .receiving sock =>
      -- A closed socket receives nothing.
      if answer.isSome ∧ sock ∉ server.closed then some { server with thread := .handling sock }
      else some { server with thread := .ended }
  | .handling sock =>
      some { server with thread := if answer.isSome then .checking sock else .ended }
  | .checking sock =>
      server.terminate.map fun stop =>
        { server with thread := if stop then .ended else .receiving sock }
  | .ended => none

/-! ## The services -/

inductive Service
  | rsyslog
  | helloService
  deriving DecidableEq, Repr

namespace Service

/-- `svcMain` between its first report and `takeMVar mStop`. -/
def startup : Service → List Action
  | .rsyslog => [.createServer, .forkServe]
  | .helloService => [.initLogger]

/-- `svcMain` between `takeMVar mStop` and its last report. -/
def cleanup : Service → List Action
  | .rsyslog => [.takeTerminate, .putTerminate, .readSock, .closeSock]
  | .helloService => []

end Service

/-- Where a thread is in `modifyMVar_` of `reportSvcStatus`, with what it holds. -/
inductive Report
  | take
  | set (old : GState)
  | put (new : GState)
  deriving DecidableEq, Repr

inductive Main
  | reportRunning (r : Report)
  | startup (rest : List Action)
  | takeStop
  | cleanup (rest : List Action)
  | reportStopped (r : Report)
  | returned
  deriving DecidableEq, Repr

/-- The callback `svcCtrlHandler`. -/
inductive Callback
  | idle
  | reportStopPending (r : Report)
  /-- Before `putMVar mStop ()`. -/
  | putStop
  | returning (handled : Bool)
  deriving DecidableEq, Repr

/-- `reports` are the statuses that Windows was given. -/
structure State where
  gState : Option GState
  mStop : Option Unit
  main : Main
  callback : Callback
  server : Server
  reports : List ServiceStatus
  ended : Bool
  deriving DecidableEq, Repr

inductive Event
  /-- The next action of the main thread. -/
  | main
  /-- The service manager delivers a control. -/
  | control (c : ServiceControl)
  /-- The next action of the callback. -/
  | callback
  /-- The next action of the server thread. -/
  | serve (answer : Option Socket)
  /-- The process ends: `exitSuccess`, or an exception in `svcMain` or in the callback. -/
  | exit
  deriving DecidableEq, Repr

def init : State :=
  { gState := some initialState
    mStop := none
    main := .reportRunning .take
    callback := .idle
    server :=
      { terminate := none
        svrSock := none
        thread := .notStarted
        sock := none
        closed := [] }
    reports := []
    ended := false }

/-- One step of `reportSvcStatus`, with where it goes on unless it is at its end. -/
def reportSvcStatus (state : ServiceState) (win32ExitCode : ErrCode) (waitHint : UInt32)
    (s : State) : Report → Option (State × Option Report)
  | .take => s.gState.map fun old => ({ s with gState := none }, some (.set old))
  | .set old =>
      let new := reportedState state win32ExitCode waitHint old
      some ({ s with reports := s.reports ++ [new.2] }, some (.put new))
  | .put new =>
      match s.gState with
      | none => some ({ s with gState := some new }, none)
      | some _ => none

/-- One step of `svcMain`. -/
def svcMain (service : Service) (s : State) : Option State :=
  match s.main with
  | .reportRunning r =>
      (reportSvcStatus .running .success 0 s r).map fun (t, next) =>
        { t with main := next.elim (.startup service.startup) .reportRunning }
  | .startup [] => some { s with main := .takeStop }
  | .startup (action :: rest) =>
      (action.perform s.server).map fun server =>
        { s with server := server, main := .startup rest }
  | .takeStop =>
      s.mStop.map fun _ => { s with mStop := none, main := .cleanup service.cleanup }
  | .cleanup [] => some { s with main := .reportStopped .take }
  | .cleanup (action :: rest) =>
      (action.perform s.server).map fun server =>
        { s with server := server, main := .cleanup rest }
  | .reportStopped r =>
      (reportSvcStatus .stopped .success 0 s r).map fun (t, next) =>
        { t with main := next.elim .returned .reportStopped }
  | .returned => none

/-- What the callback is called for. -/
def svcCtrlHandler : ServiceControl → Callback
  | .stop => .reportStopPending .take
  | .interrogate => .returning true
  | _ => .returning false

/-- One step of the callback. -/
def svcCtrlStep (s : State) : Option State :=
  match s.callback with
  | .idle => none
  | .reportStopPending r =>
      (reportSvcStatus .stopPending .success 3000 s r).map fun (t, next) =>
        { t with callback := next.elim .putStop .reportStopPending }
  | .putStop =>
      match s.mStop with
      | none => some { s with mStop := some (), callback := .returning true }
      | some _ => none
  | .returning _ => some { s with callback := .idle }

/-- The last reported status lists `AcceptStop`. -/
def AcceptsStop (reports : List ServiceStatus) : Prop :=
  ∃ status ∈ reports.getLast?, .acceptStop ∈ status.controlsAccepted

instance (reports : List ServiceStatus) : Decidable (AcceptsStop reports) :=
  inferInstanceAs (Decidable (∃ status ∈ reports.getLast?, _))

def step (service : Service) (s : State) (e : Event) : Option State :=
  if s.ended then none
  else
    match e with
    | .main => svcMain service s
    | .control c =>
        -- One control at a time, and `Stop` only if it is accepted.
        if s.callback = .idle ∧ (c = .stop → AcceptsStop s.reports) then
          some { s with callback := svcCtrlHandler c }
        else
          none
    | .callback => svcCtrlStep s
    | .serve answer => (s.server.serve answer).map fun server => { s with server := server }
    | .exit => some { s with ended := true }

end WinService
end Etude
