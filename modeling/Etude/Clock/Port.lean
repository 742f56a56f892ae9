import Etude.Base.Decimal
import Etude.Base.Digits
import Etude.Base.Memory
import Etude.Base.Run

/-!
# Port — the port program `clock.c`

The static variables of the program, its standard input and output, and one round of the loop
of `WaitStdIO`.  `none` is a memory fault: a write or a read outside one of the two buffers.
What the system calls return is part of the event that starts a round.
-/

namespace Etude
namespace Clock

open Base

/-! ## What the system calls return -/

/-- `SYSTEMTIME`, without the day of the week. -/
structure SystemTime where
  wYear : UInt16
  wMonth : UInt16
  wDay : UInt16
  wHour : UInt16
  wMinute : UInt16
  wSecond : UInt16
  wMilliseconds : UInt16
  deriving DecidableEq, Repr

/-- What the calls of `HandleRequest` return: `GetWallClockNano`, `GetSteadyClockNano`,
`GetSystemTime`, `GetLocalTime`, the `Bias` of `GetTimeZoneInformation`, and `WriteFile`. -/
structure Env where
  wallClockNano : UInt64
  steadyClockNano : UInt64
  systemTime : SystemTime
  localTime : SystemTime
  bias : Int32
  writeFile : Bool
  deriving DecidableEq, Repr

/-! ## `sprintf` -/

/-- `%0wd` of a number that is not negative. -/
def padDec (w n : ℕ) : List UInt8 :=
  (padDigits w n).map fun d => UInt8.ofNat (48 + d)

/-- `"%04d-%02d-%02d %02d:%02d:%02d.%03d"` -/
def formatTime (st : SystemTime) : List UInt8 :=
  padDec 4 st.wYear.toNat ++ [45] ++ padDec 2 st.wMonth.toNat ++ [45] ++
    padDec 2 st.wDay.toNat ++ [32] ++ padDec 2 st.wHour.toNat ++ [58] ++
    padDec 2 st.wMinute.toNat ++ [58] ++ padDec 2 st.wSecond.toNat ++ [46] ++
    padDec 3 st.wMilliseconds.toNat

/-- The text of request 2; it ends in `Z`. -/
def systemTimeText (env : Env) : List UInt8 :=
  formatTime env.systemTime ++ [90]

/-- The text of request 3: the local time, and sign, hours and minutes of `Bias`. -/
def localTimeText (env : Env) : List UInt8 :=
  let tzBias := env.bias.toInt
  let bias := tzBias.natAbs
  -- `bias/tzBias` is 1 or -1, and `Bias` is UTC minus local time.
  let sign : UInt8 :=
    if 0 = tzBias then 43
    else if 0 ≤ (bias : ℤ).tdiv tzBias then 45
    else 43
  let offsetHour := if 0 = tzBias then 0 else bias / 60
  let offsetMinute := if 0 = tzBias then 0 else bias % 60
  formatTime env.localTime ++ [sign] ++ padDec 2 offsetHour ++ [58] ++ padDec 2 offsetMinute

/-- `bytes = sprintf((lpWriteBuffer + 2), ...); if(0 < bytes) wSize = (0xffff & bytes);` -/
def sprintfAt (lpWriteBuffer : List UInt8) (text : List UInt8) :
    Option (List UInt8 × ℕ) := do
  let lpWriteBuffer ← writeAt lpWriteBuffer 2 (text ++ [0])
  some (lpWriteBuffer, if 0 < text.length then text.length % 2 ^ 16 else 8)

/-! ## `HandleRequest` -/

/-- `switch(wRequestID)`: the write buffer, `ullTimeVal` and `wSize` after it. -/
def readClock (lpWriteBuffer : List UInt8) (wRequestID : UInt16) (env : Env) :
    Option (List UInt8 × UInt64 × ℕ) :=
  if wRequestID = 0 then
    some (lpWriteBuffer, env.wallClockNano, 8)
  else if wRequestID = 1 then
    some (lpWriteBuffer, env.steadyClockNano, 8)
  else if wRequestID = 2 then do
    let (lpWriteBuffer, wSize) ← sprintfAt lpWriteBuffer (systemTimeText env)
    some (lpWriteBuffer, 0, wSize)
  else if wRequestID = 3 then do
    let (lpWriteBuffer, wSize) ← sprintfAt lpWriteBuffer (localTimeText env)
    some (lpWriteBuffer, 0, wSize)
  else
    some (lpWriteBuffer, env.wallClockNano, 8)

/-- `switch(wParam)`: `ullTimestamp` from `ullTimeVal`. -/
def scale (wParam : UInt16) (ullTimeVal : UInt64) : UInt64 :=
  if wParam = 0 then ullTimeVal / 1000000000
  else if wParam = 1 then ullTimeVal / 1000000
  else if wParam = 2 then ullTimeVal / 1000
  else if wParam = 3 then ullTimeVal
  else 0

/-- `(ullTimestamp >> k & 0xff)` stored in a `BYTE`. -/
def byteOf (ullTimestamp : UInt64) (k : UInt64) : UInt8 :=
  (ullTimestamp >>> k &&& 0xff).toUInt8

/-- The eight assignments to `lpWriteBuffer[9]` to `lpWriteBuffer[2]`. -/
def storeTimestamp (lpWriteBuffer : List UInt8) (t : UInt64) : List UInt8 :=
  (((((((lpWriteBuffer.set 9 (byteOf t 0)).set 8 (byteOf t 8)).set 7 (byteOf t 16)).set 6
    (byteOf t 24)).set 5 (byteOf t 32)).set 4 (byteOf t 40)).set 3 (byteOf t 48)).set 2
    (byteOf t 56)

/-- The write buffer after the call, the bytes passed to `WriteFile`, and its result. -/
def handleRequest (lpWriteBuffer : List UInt8) (wRequestID wParam : UInt16) (env : Env) :
    Option (List UInt8 × List UInt8 × Bool) := do
  let (buffer, ullTimeVal, wSize) ← readClock lpWriteBuffer wRequestID env
  let ullTimestamp := scale wParam ullTimeVal
  let buffer :=
    if 2 > wRequestID ∨ 3 < wRequestID then storeTimestamp buffer ullTimestamp else buffer
  -- The size goes in front, big-endian.
  let buffer := (buffer.set 1 (UInt8.ofNat (wSize % 256))).set 0 (UInt8.ofNat (wSize / 256 % 256))
  if wSize + 2 ≤ buffer.length then
    some (buffer, buffer.take (wSize + 2), env.writeFile)
  else
    none

/-! ## `WaitStdIO` -/

/-- A call of `HandleRequest`. -/
structure Handled where
  wRequestID : UInt16
  wParam : UInt16
  env : Env
  deriving DecidableEq, Repr

/-- The static variables, what is left on standard input, and what was written; `handled` records
the calls of `HandleRequest` and is read by no branch. -/
structure PortState where
  lpReadBuffer : List UInt8
  dwTotalBytesRead : ℕ
  lpWriteBuffer : List UInt8
  bStopped : Bool
  stdInput : List UInt8
  stdOutput : List (List UInt8)
  handled : List Handled
  deriving DecidableEq, Repr

/-- What `WaitForMultipleObjects` returns, and what the calls after it do. -/
inductive Wake
  /-- `WAIT_OBJECT_0`; `ReadFile` returns at most `want` bytes. -/
  | stdInput (want : ℕ) (env : Env)
  /-- `WAIT_OBJECT_0`; `ReadFile` fails. -/
  | readFailed
  /-- `WAIT_TIMEOUT` -/
  | timeout
  /-- `WAIT_OBJECT_0 + 1` -/
  | stopEvent
  /-- `WAIT_ABANDONED`, `WAIT_FAILED` and anything else. -/
  | failed
  deriving DecidableEq, Repr

/-- `(lpReadBuffer[i] << 8 | lpReadBuffer[i + 1])` in a `WORD` -/
def wordAt (lpReadBuffer : List UInt8) (i : ℕ) : Option UInt16 := do
  let hi ← lpReadBuffer[i]?
  let lo ← lpReadBuffer[i + 1]?
  some (UInt16.ofNat (hi.toNat <<< 8 ||| lo.toNat))

/-- `sizeof(lpReadBuffer) - dwTotalBytesRead`, as a `DWORD` -/
def bytesToRead (dwTotalBytesRead : ℕ) : ℕ := (8 + 2 ^ 32 - dwTotalBytesRead) % 2 ^ 32

/-- The body of `if(6 == dwTotalBytesRead)`. -/
def dispatch (s : PortState) (env : Env) : Option PortState := do
  let wLength ← wordAt s.lpReadBuffer 0
  let wRequestID ← wordAt s.lpReadBuffer 2
  let wParam ← wordAt s.lpReadBuffer 4
  let s := { s with dwTotalBytesRead := 0 }
  -- Any other length ends the loop.
  if 4 = wLength then
    let (buffer, written, bResult) ← handleRequest s.lpWriteBuffer wRequestID wParam env
    some { s with
            lpWriteBuffer := buffer
            stdOutput := s.stdOutput ++ [written]
            handled := s.handled ++ [⟨wRequestID, wParam, env⟩]
            bStopped := !bResult }
  else
    some { s with bStopped := true }

/-- The case `WAIT_OBJECT_0` when `ReadFile` succeeds. -/
def readInput (s : PortState) (want : ℕ) (env : Env) : Option PortState := do
  let n := min want (bytesToRead s.dwTotalBytesRead)
  let piece := s.stdInput.take n
  let lpReadBuffer ← writeAt s.lpReadBuffer s.dwTotalBytesRead piece
  let s := { s with lpReadBuffer := lpReadBuffer, stdInput := s.stdInput.drop n }
  -- `0 == dwBytesRead` is taken for the end of the input.
  if 0 = piece.length then
    some { s with bStopped := true }
  else
    let s := { s with dwTotalBytesRead := (s.dwTotalBytesRead + piece.length) % 2 ^ 32 }
    if 6 = s.dwTotalBytesRead then dispatch s env else some s

/-- One round of `while(!g_bStopped)`; once the loop has ended nothing happens any more. -/
def round (s : PortState) (wake : Wake) : Option PortState :=
  if s.bStopped then
    some s
  else
    match wake with
    | .stdInput want env => readInput s want env
    | .timeout => some s
    -- All of these break out of the loop.
    | .readFailed | .stopEvent | .failed => some { s with bStopped := true }

/-- `WaitStdIO`, as far as the rounds `wakes` take it. -/
def waitStdIO (s : PortState) (wakes : List Wake) : Option PortState :=
  run round { s with dwTotalBytesRead := 0 } wakes

end Clock
end Etude
