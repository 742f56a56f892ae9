import Etude.Clock.Framing

/-!
# Wire — the round trip between the Erlang client and the C port

The client writes a request when it has the answer to the one before.  So the port finds one
frame at a time on its standard input, in pieces of any size, and its answer to every request
other than the two texts is eight bytes that the client reads back as a number.
-/

namespace Etude
namespace Clock

open Base

/-! ## Exchanges -/

/-- A request, what the clocks show when it is answered, and the waits of the port until it has
been read: `some n` is a `ReadFile` that is ready to return `n` bytes, `none` a time-out. -/
structure Exchange where
  request : Request
  env : Env
  pieces : List (Option ℕ)
  env_writes : env.writeFile = true
  pieces_pos : ∀ n, some n ∈ pieces → 0 < n
  pieces_sum : (pieces.map fun piece => piece.getD 0).sum = 6

/-- The wake-up for a piece. -/
def wakeOf (env : Env) : Option ℕ → Wake
  | some want => .stdInput want env
  | none => .timeout

/-- The call of `HandleRequest` that an exchange should lead to. -/
def Exchange.call (x : Exchange) : Handled :=
  { wRequestID := x.request.id
    wParam := x.request.param
    env := x.env }

/-- The client writes the frame, and the port runs until it has read it. -/
def exchange (s : PortState) (x : Exchange) : Option PortState :=
  run round { s with stdInput := s.stdInput ++ frame x.request } (x.pieces.map (wakeOf x.env))

/-- Once everything has been read, only time-outs are left. -/
theorem run_timeouts (s : PortState) (env : Env) {pieces : List (Option ℕ)}
    (hpos : ∀ n, some n ∈ pieces → 0 < n)
    (hsum : (pieces.map fun piece => piece.getD 0).sum = 0) :
    run round s (pieces.map (wakeOf env)) = some s := by
  induction pieces with
  | nil =>
      rfl
  | cons piece pieces ih =>
      rw [List.map_cons, List.sum_cons] at hsum
      cases piece with
      | none =>
          have hrun := ih (fun n hmem => hpos n (by simp [hmem])) (by omega)
          simpa [run, wakeOf, round_timeout] using hrun
      | some n =>
          have hn := hpos n (by simp)
          rw [Option.getD_some] at hsum
          omega

/-- A frame that arrives in pieces is handled when the last one is there. -/
theorem run_pieces {done : List Request} {r : Request} {got : List UInt8} {env : Env}
    (henv : env.writeFile = true) {pieces : List (Option ℕ)} {s : PortState}
    (h : Aligned done [r] got s) (hpos : ∀ n, some n ∈ pieces → 0 < n)
    (hsum : (pieces.map fun piece => piece.getD 0).sum = s.stdInput.length) :
    ∃ t, run round s (pieces.map (wakeOf env)) = some t ∧ Aligned (done ++ [r]) [] [] t ∧
      t.handled = s.handled ++ [⟨r.id, r.param, env⟩] := by
  have hleft : got.length + s.stdInput.length = 6 := by
    have hlen := congrArg List.length h.input_eq
    simpa [stream] using hlen
  have hgot := h.got_lt
  -- On the pieces; what has been read and what is left make up the frame.
  induction pieces generalizing s got with
  | nil =>
      rw [List.map_nil, List.sum_nil] at hsum
      omega
  | cons piece pieces ih =>
      have htail : ∀ n, some n ∈ pieces → 0 < n := fun n hmem => hpos n (by simp [hmem])
      cases piece with
      | none =>
          rcases ih h htail (by simpa using hsum) hleft hgot with ⟨t, ht, htail'⟩
          exact ⟨t, by simpa [run, wakeOf, round_timeout] using ht, htail'⟩
      | some want =>
          have hwant : 0 < want := hpos want (by simp)
          have hround := round_stdInput h.running want env
          rw [List.map_cons, List.sum_cons, Option.getD_some] at hsum
          have hmin : min want s.stdInput.length = want := Nat.min_eq_left (by omega)
          rcases readInput_aligned h hwant henv (by omega) with
            ⟨t, ht, hinput, ⟨hlt, hhandled, got', hgot', halign⟩ | ⟨hfull, hhandled, halign⟩⟩
          · rw [hmin] at hinput hgot' hlt
            rcases ih halign htail (by omega) (by omega) (by omega) with ⟨u, hu, hdone, hcalls⟩
            refine ⟨u, by simp [run, wakeOf, hround, ht, hu], hdone, ?_⟩
            rw [hcalls, hhandled]
          -- That was the last piece; the rest of the list can only be time-outs.
          · have hrun := run_timeouts t env htail (by omega)
            exact ⟨t, by simp [run, wakeOf, hround, ht, hrun], halign, hhandled⟩

/-- One exchange: the port is between two frames again, and has handled the request. -/
theorem exchange_spec {done : List Request} {s : PortState} (h : Aligned done [] [] s)
    (x : Exchange) :
    ∃ t, exchange s x = some t ∧ Aligned (done ++ [x.request]) [] [] t ∧
      t.handled = s.handled ++ [x.call] := by
  have hempty : s.stdInput = [] := by
    simpa [stream] using h.input_eq
  have hwritten : Aligned done [x.request] []
      { s with stdInput := s.stdInput ++ frame x.request } :=
    { running := h.running
      read_length := h.read_length
      write_length := h.write_length
      total_eq := h.total_eq
      got_lt := h.got_lt
      buffer_eq := h.buffer_eq
      input_eq := by simp [hempty, stream]
      handled_eq := h.handled_eq
      output_eq := h.output_eq }
  exact run_pieces x.env_writes hwritten x.pieces_pos (by simp [x.pieces_sum, hempty])

theorem run_exchange {done : List Request} {s : PortState} (h : Aligned done [] [] s)
    (xs : List Exchange) :
    ∃ t, run exchange s xs = some t ∧
      Aligned (done ++ xs.map Exchange.request) [] [] t ∧
      t.handled = s.handled ++ xs.map Exchange.call := by
  induction xs generalizing s done with
  | nil =>
      exact ⟨s, rfl, by simpa using h, by simp⟩
  | cons x xs ih =>
      rcases exchange_spec h x with ⟨t, ht, halign, hcalls⟩
      rcases ih halign with ⟨u, hu, halign', hcalls'⟩
      refine ⟨u, by simp [run, ht, hu], by simpa using halign', ?_⟩
      rw [hcalls', hcalls]
      simp

/-! ## What the client reads -/

/-- The time `t` in the unit that a parameter selects. -/
def timeIn (param : UInt16) (t : ℕ) : ℕ :=
  if param = 0 then t / 10 ^ 9
  else if param = 1 then t / 10 ^ 6
  else if param = 2 then t / 10 ^ 3
  else if param = 3 then t
  else 0

theorem scale_toNat (param : UInt16) (t : UInt64) :
    (scale param t).toNat = timeIn param t.toNat := by
  simp only [scale, timeIn]
  split_ifs <;> simp

theorem payload_timestamp {id : UInt16} (param : UInt16) (env : Env) (h2 : id ≠ 2)
    (h3 : id ≠ 3) :
    payload id param env = toBeBytes 8 (timeIn param (reading id env).toNat) := by
  simp [payload, h2, h3, scale_toNat]

theorem timeIn_lt (param : UInt16) (t : UInt64) : timeIn param t.toNat < 2 ^ 64 := by
  rw [← scale_toNat]
  exact (scale param t).toNat_lt

/-- The client's match on the payload of an answer. -/
theorem matchTime_payload {id : UInt16} (param : UInt16) (env : Env) (h2 : id ≠ 2)
    (h3 : id ≠ 3) :
    matchTime (payload id param env) = some (timeIn param (reading id env).toNat) := by
  rw [payload_timestamp param env h2 h3]
  exact matchTime_toBeBytes (timeIn_lt param _)

/-- The packet of an answer has ten bytes, and the client reads the time from it. -/
theorem answer_readback {id : UInt16} (param : UInt16) (env : Env) (h2 : id ≠ 2)
    (h3 : id ≠ 3) :
    (packet2 (payload id param env)).length = 10 ∧
      (unpacket2 (packet2 (payload id param env))).bind matchTime =
        some (timeIn param (reading id env).toNat) := by
  have hlen : (payload id param env).length = 8 := by
    rw [payload_timestamp param env h2 h3, length_toBeBytes]
  constructor
  · simp [packet2, hlen]
  · rw [unpacket2_packet2 (by omega), Option.bind_some]
    exact matchTime_payload param env h2 h3

/-- The parameter for a unit. -/
def TimeUnit.param : TimeUnit → Option UInt16
  | .second => some 0
  | .millisecond => some 1
  | .microsecond => some 2
  | .nanosecond => some 3
  | .other => none

/-- With the port behind `call_port/1`, the two functions of the client are its two clocks in the
unit asked for. -/
theorem time_eq (env : Env) {callPort : List UInt8 → List UInt8} {unit : TimeUnit} {param : UInt16}
    (hport : ∀ id param, callPort (requestBytes id param) = payload id param env)
    (hunit : unit.param = some param) :
    systemTime callPort unit = some (.time (timeIn param env.wallClockNano.toNat)) ∧
      steadyTime callPort unit = some (.time (timeIn param env.steadyClockNano.toNat)) := by
  have hwall : matchTime (callPort (requestBytes 0 param)) =
      some (timeIn param env.wallClockNano.toNat) := by
    rw [hport]
    exact matchTime_payload param env (by decide) (by decide)
  have hsteady : matchTime (callPort (requestBytes 1 param)) =
      some (timeIn param env.steadyClockNano.toNat) := by
    rw [hport]
    exact matchTime_payload param env (by decide) (by decide)
  cases unit with
  | other =>
      cases hunit
  | second | millisecond | microsecond | nanosecond =>
      cases hunit
      simp [systemTime, steadyTime, currentmillis, hwall, hsteady]

/-! ## The round trip -/

/-- In every sequence of exchanges each request is handled with its own id and parameter, and the
client reads the clock of that moment from the packet that answers it, whatever the answers
before left in the write buffer. -/
theorem wire_roundTrip (xs : List Exchange) :
    ∃ t, run exchange (initial []) xs = some t ∧
      t.handled = xs.map Exchange.call ∧
      t.stdOutput.length = xs.length ∧
      ∀ (i : ℕ) (x : Exchange) (out : List UInt8), xs[i]? = some x → t.stdOutput[i]? = some out →
        x.request.id ≠ 2 → x.request.id ≠ 3 →
        out.length = 10 ∧
          (unpacket2 out).bind matchTime =
            some (timeIn x.request.param (reading x.request.id x.env).toNat) := by
  rcases run_exchange (initial_aligned []) xs with ⟨t, ht, halign, hcalls⟩
  have hcalls' : t.handled = xs.map Exchange.call := by
    simpa [initial] using hcalls
  -- The outputs are the answers of the calls, in order.
  have hout : t.stdOutput = xs.map fun x => x.call.answer := by
    rw [halign.output_eq, hcalls', List.map_map]
    rfl
  refine ⟨t, ht, hcalls', by simp [hout], ?_⟩
  intro i x out hx hi h2 h3
  have hanswer : out = packet2 (payload x.request.id x.request.param x.env) := by
    simp only [hout, List.getElem?_map, hx, Option.map_some, Option.some.injEq] at hi
    exact hi.symm
  rw [hanswer]
  exact answer_readback x.request.param x.env h2 h3

/-- The system time as a text. -/
def textExchange : Exchange :=
  { request := ⟨2, 0⟩
    env := epoch
    pieces := [some 6]
    env_writes := rfl
    pieces_pos := by simp
    pieces_sum := rfl }

/-- The steady clock in nanoseconds, read in three pieces. -/
def steadyExchange : Exchange :=
  { request := ⟨1, 3⟩
    env := { epoch with steadyClockNano := 1234567890123 }
    pieces := [some 1, none, some 3, some 2]
    env_writes := rfl
    pieces_pos := by simp
    pieces_sum := rfl }

/-- The text of the first answer does not show in the second one. -/
theorem wire_roundTrip_afterText :
    ∃ t out, run exchange (initial []) [textExchange, steadyExchange] = some t ∧
      t.stdOutput[1]? = some out ∧ out.length = 10 ∧
      (unpacket2 out).bind matchTime = some 1234567890123 := by
  rcases wire_roundTrip [textExchange, steadyExchange] with ⟨t, ht, -, hlen, hread⟩
  have hone : 1 < t.stdOutput.length := by
    rw [hlen]
    decide
  have hout : t.stdOutput[1]? = some t.stdOutput[1] := List.getElem?_eq_getElem hone
  have htime := hread 1 steadyExchange _ rfl hout (by decide) (by decide)
  exact ⟨t, t.stdOutput[1], ht, hout, htime.1, htime.2⟩

end Clock
end Etude
