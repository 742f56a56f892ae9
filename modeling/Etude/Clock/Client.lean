import Etude.Base.Packet

/-!
# Client — requests and answers on the Erlang side of `clock.erl`

Both versions of the module encode requests and match answers in the same way; they differ in how
`call_port/1` reaches the port, which is a parameter here.
-/

namespace Etude
namespace Clock

open Base

/-! ## Requests and answers -/

/-- `<<Id:16, Param:16>>` -/
def requestBytes (id param : UInt16) : List UInt8 :=
  toBeBytes 2 id.toNat ++ toBeBytes 2 param.toNat

/-- `<<Time:64/big-unsigned-integer>> = Bin`; `none` is a failed match. -/
def matchTime (bin : List UInt8) : Option ℕ :=
  if bin.length = 8 then some (beBytes bin) else none

/-- The units that `system_time/1` and `steady_time/1` know, and any other term. -/
inductive TimeUnit
  | second
  | millisecond
  | microsecond
  | nanosecond
  | other
  deriving DecidableEq, Repr

/-- What `system_time/1` and `steady_time/1` return: a number, or the atom `error`. -/
inductive TimeResult
  | time (t : ℕ)
  | error
  deriving DecidableEq, Repr

section Api

variable (callPort : List UInt8 → List UInt8)

def currentmillis : Option ℕ :=
  matchTime (callPort (requestBytes 0 1))

def systemTime : TimeUnit → Option TimeResult
  | .second => (matchTime (callPort (requestBytes 0 0))).map .time
  | .millisecond => (currentmillis callPort).map .time
  | .microsecond => (matchTime (callPort (requestBytes 0 2))).map .time
  | .nanosecond => (matchTime (callPort (requestBytes 0 3))).map .time
  | .other => some .error

def steadyTime : TimeUnit → Option TimeResult
  | .second => (matchTime (callPort (requestBytes 1 0))).map .time
  | .millisecond => (matchTime (callPort (requestBytes 1 1))).map .time
  | .microsecond => (matchTime (callPort (requestBytes 1 2))).map .time
  | .nanosecond => (matchTime (callPort (requestBytes 1 3))).map .time
  | .other => some .error

end Api

/-! ## Round trips -/

theorem matchTime_toBeBytes {t : ℕ} (h : t < 2 ^ 64) : matchTime (toBeBytes 8 t) = some t := by
  have hmod : beBytes (toBeBytes 8 t) = t := by
    rw [beBytes_toBeBytes, Nat.mod_eq_of_lt]
    exact h
  simp [matchTime, hmod]

@[simp] theorem length_requestBytes (id param : UInt16) : (requestBytes id param).length = 4 := by
  simp [requestBytes]

end Clock
end Etude
