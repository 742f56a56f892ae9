import Mathlib.Data.Nat.Digits.Lemmas
import Etude.Base.Decimal

/-!
# Server — the log file of `UDPServer.hs`

The threads of the server and what they share: the two `MVar`s of the `ServerState` that name a
day and hold a handle, and the table of the handles opened so far.  Each action of the main
thread and of the threads that `rotateLogFile` forks is one event; which thread acts next is up
to the run.
-/

namespace Etude
namespace Syslog

open Base

/-! ## Log files -/

/-- `Date` of `Chronos`; January is month 0. -/
structure Date where
  dateYear : ℕ
  dateMonth : Fin 12
  dateDay : Fin 32
  deriving DecidableEq, Repr

/-- `%0wd` -/
def printfDec (w n : ℕ) : List Char :=
  (padDigits w n).map Nat.digitChar

/-- `"%s-%04d-%02d-%02d.log"` -/
def logFileName (basefile : List Char) (date : Date) : List Char :=
  basefile ++ ['-'] ++ printfDec 4 date.dateYear ++ ['-'] ++ printfDec 2 date.dateMonth ++ ['-'] ++
    printfDec 2 date.dateDay ++ ['.', 'l', 'o', 'g']

/-- The two components that `joinPath` joins. -/
structure FilePath where
  dir : List Char
  file : List Char
  deriving DecidableEq, Repr

def logFilePath (dir basefile : List Char) (date : Date) : FilePath :=
  { dir := dir
    file := logFileName basefile date }

/-- What a `Handle` refers to. -/
structure OpenFile where
  path : FilePath
  isOpen : Bool
  deriving DecidableEq, Repr

/-! ## Threads -/

/-- Where the main thread is; `msg` is the packet in hand, `d` what `today` returned for it, and
`h` a handle. -/
inductive Main
  /-- Before `recvFrom`. -/
  | receiving
  /-- In `rotateLogFile`, before `today`. -/
  | rotating (msg : List UInt8)
  /-- A new day: before `forkIO`. -/
  | forking (msg : List UInt8) (d : Date)
  /-- A new day: before `openLogFile`. -/
  | opening (msg : List UInt8) (d : Date)
  /-- The same day: before `readMVar (handle state)`. -/
  | reading (msg : List UInt8) (d : Date)
  /-- Before `hPutStrLn`. -/
  | writing (msg : List UInt8) (d : Date) (h : ℕ)
  /-- Before `readMVar (terminate state)`. -/
  | checking
  /-- Told to stop, or an exception was raised. -/
  | stopped
  deriving DecidableEq, Repr

/-- A thread that runs `closeFile`. -/
inductive Closer
  /-- Before `readMVar (handle state)`. -/
  | started
  /-- Before `hClose`. -/
  | closing (h : ℕ)
  | finished
  deriving DecidableEq, Repr

/-- A call of `hPutStrLn`, with what the handle referred to at that moment, and whether the call
returned. -/
structure Attempt where
  msg : List UInt8
  day : Date
  file : OpenFile
  written : Bool
  deriving DecidableEq, Repr

/-- `logDir` to `handle` are fields of `ServerState`; a handle is an index into `handles`.
`attempts` is read by no branch. -/
structure State where
  logDir : List Char
  baseFile : List Char
  date : Date
  handle : ℕ
  handles : List OpenFile
  main : Main
  closers : List Closer
  attempts : List Attempt
  deriving DecidableEq, Repr

inductive Event
  | recvFrom (msg : List UInt8)
  /-- `today`, and what `rotateLogFile` does with `date`; no other thread looks at it. -/
  | today (d : Date)
  /-- `forkIO $ closeFile` -/
  | forkCloseFile
  /-- `openLogFile`; without `permitted` the system refuses to open the file. -/
  | openLogFile (permitted : Bool)
  | readHandle
  /-- `hPutStrLn`; without `permitted` the system refuses to write. -/
  | hPutStrLn (permitted : Bool)
  | readTerminate (stop : Bool)
  /-- The next action of the forked thread `i`. -/
  | closer (i : ℕ)
  deriving DecidableEq, Repr

/-- A file that is open for writing cannot be opened for writing again. -/
def locked (handles : List OpenFile) (path : FilePath) : Bool :=
  handles.any fun f => f.isOpen && f.path == path

/-- `openLogFile` by the main thread: the new handle, or an exception. -/
def openLogFile (s : State) (msg : List UInt8) (d : Date) (permitted : Bool) : State :=
  let path := logFilePath s.logDir s.baseFile d
  if permitted = true ∧ locked s.handles path = false then
    -- The new handle goes to the message in hand and not into the state.
    { s with
      handles := s.handles ++ [⟨path, true⟩]
      main := .writing msg d s.handles.length }
  else
    { s with main := .stopped }

/-- `hPutStrLn` raises an exception if the handle is closed, or the system refuses. -/
def hPutStrLn (s : State) (msg : List UInt8) (d : Date) (permitted : Bool) (f : OpenFile) :
    State :=
  let written := permitted && f.isOpen
  { s with
    attempts := s.attempts ++ [⟨msg, d, f, written⟩]
    main := if written then .checking else .stopped }

def hClose (f : OpenFile) : OpenFile :=
  { f with isOpen := false }

def step (s : State) : Event → Option State
  | .recvFrom msg =>
      match s.main with
      | .receiving => some { s with main := .rotating msg }
      | _ => none
  | .today d =>
      match s.main with
      | .rotating msg =>
          -- The new day is stored here; the handle of the state is left as it is.
          if d ≠ s.date then
            some { s with
                    date := d
                    main := .forking msg d }
          else
            some { s with main := .reading msg d }
      | _ => none
  | .forkCloseFile =>
      match s.main with
      | .forking msg d =>
          some { s with
                  closers := s.closers ++ [.started]
                  main := .opening msg d }
      | _ => none
  | .openLogFile permitted =>
      match s.main with
      | .opening msg d => some (openLogFile s msg d permitted)
      | _ => none
  | .readHandle =>
      match s.main with
      | .reading msg d => some { s with main := .writing msg d s.handle }
      | _ => none
  | .hPutStrLn permitted =>
      match s.main with
      | .writing msg d h => (s.handles[h]?).map (hPutStrLn s msg d permitted)
      | _ => none
  | .readTerminate stop =>
      match s.main with
      | .checking => some { s with main := if stop then .stopped else .receiving }
      | _ => none
  | .closer i =>
      match s.closers[i]? with
      -- The thread closes whatever handle the state holds when it gets to it.
      | some .started => some { s with closers := s.closers.set i (.closing s.handle) }
      | some (.closing h) =>
          some { s with
                  closers := s.closers.set i .finished
                  handles := s.handles.modify h hClose }
      | _ => none

/-- `createServer` on the day `d`, and the main thread in `procMessages`. -/
def createServer (logDir baseFile : List Char) (d : Date) : State :=
  { logDir := logDir
    baseFile := baseFile
    date := d
    handle := 0
    handles := [⟨logFilePath logDir baseFile d, true⟩]
    main := .receiving
    closers := []
    attempts := [] }

end Syslog
end Etude
