import Etude.Clock.Response

/-!
# Framing — how `WaitStdIO` cuts its input into requests

The read buffer has eight bytes, a request frame has six, and a request is dispatched when the
count of bytes read is *equal* to six.  A piece that reaches into the next frame takes the count
to seven or eight; it never comes back to six, and nothing is dispatched any more.  So the frames
are handled one by one exactly if no piece contains bytes of two frames.
-/

namespace Etude
namespace Clock

open Base

/-! ## Requests on the wire -/

structure Request where
  id : UInt16
  param : UInt16
  deriving DecidableEq, Repr

/-- The six bytes of a request frame. -/
def frame (r : Request) : List UInt8 :=
  packet2 (requestBytes r.id r.param)

def stream (rs : List Request) : List UInt8 :=
  rs.flatMap frame

def Handled.request (h : Handled) : Request :=
  { id := h.wRequestID
    param := h.wParam }

/-- The packet that answers a request. -/
def Handled.answer (h : Handled) : List UInt8 :=
  packet2 (payload h.wRequestID h.wParam h.env)

/-- The static variables at the start of the program. -/
def initial (stdInput : List UInt8) : PortState :=
  { lpReadBuffer := List.replicate 8 0
    dwTotalBytesRead := 0
    lpWriteBuffer := List.replicate 64 0
    bStopped := false
    stdInput := stdInput
    stdOutput := []
    handled := [] }

theorem frame_eq (r : Request) :
    frame r =
      [0, 4, UInt8.ofNat (r.id.toNat / 256), UInt8.ofNat r.id.toNat,
        UInt8.ofNat (r.param.toNat / 256), UInt8.ofNat r.param.toNat] := by
  rw [frame, packet2, length_requestBytes]
  rfl

@[simp] theorem length_frame (r : Request) : (frame r).length = 6 := by
  rw [frame_eq]
  rfl

theorem length_stream (rs : List Request) : (stream rs).length = 6 * rs.length := by
  induction rs with
  | nil =>
      rfl
  | cons r rs ih =>
      have hcons : stream (r :: rs) = frame r ++ stream rs := by
        simp [stream]
      rw [hcons, List.length_append, ih, length_frame, List.length_cons]
      omega

/-! ## Pieces -/

/-- A wake-up in which nothing fails: `ReadFile` is ready to return at least one byte and
`WriteFile` succeeds, or the wait times out. -/
def Wake.Admissible : Wake → Prop
  | .stdInput want env => 0 < want ∧ env.writeFile = true
  | .timeout => True
  | _ => False

theorem Wake.Admissible.stdInput_or_timeout {wake : Wake} (h : wake.Admissible) :
    (∃ want env, wake = .stdInput want env ∧ 0 < want ∧ env.writeFile = true) ∨
      wake = .timeout := by
  cases wake with
  | stdInput want env =>
      exact Or.inl ⟨want, env, rfl, h⟩
  | timeout =>
      exact Or.inr rfl
  | readFailed =>
      exact False.elim h
  | stopEvent =>
      exact False.elim h
  | failed =>
      exact False.elim h

/-- The sizes of the pieces that the successive calls of `ReadFile` are ready to return. -/
def wants : List Wake → List ℕ
  | [] => []
  | .stdInput want _ :: wakes => want :: wants wakes
  | _ :: wakes => wants wakes

/-- No piece reaches beyond the end of the frame in which it starts: `o` bytes of the current
frame have been read, and `left` bytes are left in the stream. -/
def WithinFrames : ℕ → ℕ → List ℕ → Prop
  | _, _, [] => True
  | o, left, want :: ws =>
      o + min want left ≤ 6 ∧
        WithinFrames ((o + min want left) % 6) (left - min want left) ws

instance decidableWithinFrames : ∀ o left ws, Decidable (WithinFrames o left ws)
  | _, _, [] => isTrue trivial
  | o, left, want :: ws =>
      have : Decidable
          (WithinFrames ((o + min want left) % 6) (left - min want left) ws) :=
        decidableWithinFrames _ _ ws
      inferInstanceAs (Decidable (_ ∧ _))

/-- With nothing left to read, every piece is empty. -/
theorem withinFrames_zero (ws : List ℕ) : WithinFrames 0 0 ws := by
  induction ws with
  | nil =>
      trivial
  | cons w ws ih =>
      exact ⟨by omega, by simpa using ih⟩

/-! ## Dispatching a complete frame -/

theorem word_ofBytes (n : UInt16) :
    UInt16.ofNat ((UInt8.ofNat (n.toNat / 256)).toNat <<< 8 ||| (UInt8.ofNat n.toNat).toNat) =
      n := by
  have hn := n.toNat_lt
  have hlo : (UInt8.ofNat n.toNat).toNat < 2 ^ 8 := UInt8.toNat_lt _
  apply UInt16.toNat_inj.mp
  rw [← Nat.shiftLeft_add_eq_or_of_lt hlo, Nat.shiftLeft_eq, UInt16.toNat_ofNat',
    UInt8.toNat_ofNat', UInt8.toNat_ofNat']
  omega

/-- With a frame at the front of the read buffer, its request is handled and answered. -/
theorem dispatch_spec {s : PortState} {r : Request} {env : Env}
    (hbuf : s.lpReadBuffer.take 6 = frame r) (hwrite : s.lpWriteBuffer.length = 64)
    (henv : env.writeFile = true) :
    ∃ buffer, buffer.length = 64 ∧
      dispatch s env =
        some { s with
                dwTotalBytesRead := 0
                lpWriteBuffer := buffer
                stdOutput := s.stdOutput ++ [packet2 (payload r.id r.param env)]
                handled := s.handled ++ [⟨r.id, r.param, env⟩]
                bStopped := false } := by
  have hsplit : s.lpReadBuffer = frame r ++ s.lpReadBuffer.drop 6 := by
    rw [← hbuf, List.take_append_drop]
  rcases handleRequest_spec hwrite r.id r.param env with ⟨buffer, hcall, hlen'⟩
  refine ⟨buffer, hlen', ?_⟩
  have h0 : wordAt s.lpReadBuffer 0 = some 4 := by
    rw [hsplit, frame_eq]
    rfl
  have h2 : wordAt s.lpReadBuffer 2 = some r.id := by
    rw [hsplit, frame_eq]
    exact congrArg some (word_ofBytes r.id)
  have h4 : wordAt s.lpReadBuffer 4 = some r.param := by
    rw [hsplit, frame_eq]
    exact congrArg some (word_ofBytes r.param)
  simp [dispatch, h0, h2, h4, hcall, henv]

/-! ## The loop between frames -/

/-- The requests `done` have been handled and answered, the stream continues with the frames of
`rest`, and `got` is what has been read of the first of them. -/
structure Aligned (done rest : List Request) (got : List UInt8) (s : PortState) : Prop where
  running : s.bStopped = false
  read_length : s.lpReadBuffer.length = 8
  write_length : s.lpWriteBuffer.length = 64
  total_eq : s.dwTotalBytesRead = got.length
  got_lt : got.length < 6
  buffer_eq : s.lpReadBuffer.take got.length = got
  input_eq : got ++ s.stdInput = stream rest
  handled_eq : s.handled.map Handled.request = done
  output_eq : s.stdOutput = s.handled.map Handled.answer

/-- The loop has ended at the end of the stream. -/
structure Finished (done : List Request) (s : PortState) : Prop where
  stopped : s.bStopped = true
  input_eq : s.stdInput = []
  handled_eq : s.handled.map Handled.request = done
  output_eq : s.stdOutput = s.handled.map Handled.answer

/-- The count of bytes has passed six, or the loop has ended: no request will be handled. -/
structure Lost (done : List Request) (s : PortState) : Prop where
  read_length : s.lpReadBuffer.length = 8
  passed : s.bStopped = true ∨ (7 ≤ s.dwTotalBytesRead ∧ s.dwTotalBytesRead ≤ 8)
  handled_eq : s.handled.map Handled.request = done

theorem initial_aligned (rs : List Request) : Aligned [] rs [] (initial (stream rs)) :=
  { running := rfl
    read_length := rfl
    write_length := rfl
    total_eq := rfl
    got_lt := by decide
    buffer_eq := rfl
    input_eq := rfl
    handled_eq := rfl
    output_eq := rfl }

theorem bytesToRead_eq {n : ℕ} (h : n ≤ 8) : bytesToRead n = 8 - n := by
  have hsplit : 8 + 2 ^ 32 - n = 8 - n + 2 ^ 32 := by omega
  have hlt : 8 - n < 2 ^ 32 := by omega
  rw [bytesToRead, hsplit, Nat.add_mod_right, Nat.mod_eq_of_lt hlt]

/-- A read stays inside the buffer whatever it returns, and puts the piece behind what is
there; the count of bytes does not wrap. -/
theorem readInput_eq {s : PortState} (hlen : s.lpReadBuffer.length = 8)
    (htotal : s.dwTotalBytesRead ≤ 8) (want : ℕ) (env : Env) :
    let n := min want (8 - s.dwTotalBytesRead)
    let total := s.dwTotalBytesRead + (s.stdInput.take n).length
    ∃ buffer, buffer.length = 8 ∧
      buffer.take total = s.lpReadBuffer.take s.dwTotalBytesRead ++ s.stdInput.take n ∧
      readInput s want env =
        if 0 = (s.stdInput.take n).length then
          some { s with
                  lpReadBuffer := buffer
                  stdInput := s.stdInput.drop n
                  bStopped := true }
        else if 6 = total then
          dispatch { s with
                      lpReadBuffer := buffer
                      stdInput := s.stdInput.drop n
                      dwTotalBytesRead := total } env
        else
          some { s with
                  lpReadBuffer := buffer
                  stdInput := s.stdInput.drop n
                  dwTotalBytesRead := total } := by
  intro n total
  -- `ReadFile` is asked for no more than what is free.
  have hpiece : (s.stdInput.take n).length ≤ 8 - s.dwTotalBytesRead := by
    rw [List.length_take]
    omega
  have hfit : s.dwTotalBytesRead + (s.stdInput.take n).length ≤ s.lpReadBuffer.length := by
    omega
  have hwrap : total % 2 ^ 32 = total := Nat.mod_eq_of_lt (by omega)
  rcases writeAt_spec hfit with ⟨buffer, hwrite, hbuffer, htake⟩
  refine ⟨buffer, by omega, htake, ?_⟩
  simp only [readInput, bytesToRead_eq htotal]
  rw [show min want (8 - s.dwTotalBytesRead) = n from rfl, hwrite]
  simp only [Option.bind_eq_bind, Option.bind_some]
  rw [show s.dwTotalBytesRead + (s.stdInput.take n).length = total from rfl, hwrap]

/-- At the end of the stream `ReadFile` returns no bytes and the loop ends. -/
theorem readInput_finished {done : List Request} {got : List UInt8} {s : PortState}
    (h : Aligned done [] got s) (want : ℕ) (env : Env) :
    ∃ t, readInput s want env = some t ∧ Finished done t := by
  have hnil : got ++ s.stdInput = [] := h.input_eq
  have hinput : s.stdInput = [] := (List.append_eq_nil_iff.mp hnil).2
  have htotal : s.dwTotalBytesRead ≤ s.lpReadBuffer.length := by
    rw [h.total_eq, h.read_length]
    have hlt := h.got_lt
    omega
  refine ⟨{ s with bStopped := true }, ?_, ?_⟩
  · simp [readInput, hinput, writeAt, htotal]
  · exact
      { stopped := rfl
        input_eq := hinput
        handled_eq := h.handled_eq
        output_eq := h.output_eq }

/-- The piece that brings the bytes read to six ends where the frame ends. -/
theorem frame_complete {r : Request} {got input rest : List UInt8} {n : ℕ}
    (hinput : got ++ input = frame r ++ rest)
    (hfull : got.length + (input.take n).length = 6) :
    got ++ input.take n = frame r ∧ input.drop n = rest := by
  have hsplit : (got ++ input.take n) ++ input.drop n = frame r ++ rest := by
    rw [List.append_assoc, List.take_append_drop, hinput]
  exact List.append_inj hsplit (by rw [List.length_append, hfull, length_frame])

/-- A piece that ends before its frame does is put to what has been read of it. -/
theorem Aligned.extend {done rest : List Request} {got : List UInt8} {s : PortState}
    (h : Aligned done rest got s) {n : ℕ} {buffer : List UInt8} (hbuflen : buffer.length = 8)
    (htake : buffer.take (got.length + (s.stdInput.take n).length) = got ++ s.stdInput.take n)
    (hlt : got.length + (s.stdInput.take n).length < 6) :
    Aligned done rest (got ++ s.stdInput.take n)
      { s with
        lpReadBuffer := buffer
        stdInput := s.stdInput.drop n
        dwTotalBytesRead := got.length + (s.stdInput.take n).length } :=
  { running := h.running
    read_length := hbuflen
    write_length := h.write_length
    total_eq := by rw [List.length_append]
    got_lt := by
      rw [List.length_append]
      exact hlt
    buffer_eq := by
      rw [List.length_append]
      exact htake
    input_eq := by
      rw [List.append_assoc, List.take_append_drop]
      exact h.input_eq
    handled_eq := h.handled_eq
    output_eq := h.output_eq }

/-- A piece that ends where its frame ends dispatches the request. -/
theorem Aligned.complete {done rest : List Request} {r : Request} {got : List UInt8}
    {s : PortState} (h : Aligned done (r :: rest) got s) {n : ℕ} {buffer : List UInt8}
    (hbuflen : buffer.length = 8) (htake : buffer.take 6 = got ++ s.stdInput.take n)
    (hfull : got.length + (s.stdInput.take n).length = 6) {env : Env}
    (henv : env.writeFile = true) :
    ∃ t,
      dispatch { s with
                  lpReadBuffer := buffer
                  stdInput := s.stdInput.drop n
                  dwTotalBytesRead := 6 } env = some t ∧
        t.stdInput = s.stdInput.drop n ∧ t.handled = s.handled ++ [⟨r.id, r.param, env⟩] ∧
        Aligned (done ++ [r]) rest [] t := by
  have hinput : got ++ s.stdInput = frame r ++ stream rest := by
    rw [h.input_eq]
    simp [stream]
  rcases frame_complete hinput hfull with ⟨hframe, hrest⟩
  rw [hframe] at htake
  rcases dispatch_spec
      (s := { s with
              lpReadBuffer := buffer
              stdInput := s.stdInput.drop n
              dwTotalBytesRead := 6 })
      htake h.write_length henv with ⟨wbuffer, hwlen, hdisp⟩
  refine ⟨_, hdisp, rfl, rfl, ?_⟩
  exact
    { running := rfl
      read_length := hbuflen
      write_length := hwlen
      total_eq := rfl
      got_lt := by decide
      buffer_eq := rfl
      input_eq := hrest
      handled_eq := by simp [h.handled_eq, Handled.request]
      output_eq := by simp [h.output_eq, Handled.answer] }

/-- A piece inside the current frame extends it, or completes it and dispatches its request. -/
theorem readInput_aligned {done rest : List Request} {r : Request} {got : List UInt8}
    {s : PortState} (h : Aligned done (r :: rest) got s) {want : ℕ} {env : Env}
    (hwant : 0 < want) (henv : env.writeFile = true)
    (hin : got.length + min want s.stdInput.length ≤ 6) :
    ∃ t, readInput s want env = some t ∧
      t.stdInput.length = s.stdInput.length - min want s.stdInput.length ∧
      ((got.length + min want s.stdInput.length < 6 ∧ t.handled = s.handled ∧
          ∃ got', got'.length = got.length + min want s.stdInput.length ∧
            Aligned done (r :: rest) got' t) ∨
        (got.length + min want s.stdInput.length = 6 ∧
          t.handled = s.handled ++ [⟨r.id, r.param, env⟩] ∧
          Aligned (done ++ [r]) rest [] t)) := by
  have hgot := h.got_lt
  have htotal := h.total_eq
  have hleft : got.length + s.stdInput.length = 6 + (stream rest).length := by
    have hlen := congrArg List.length h.input_eq
    simpa [stream] using hlen
  -- `ReadFile` is asked for eight bytes less those it has, so a piece may be cut short.
  rcases readInput_eq h.read_length (by omega) want env with ⟨buffer, hbuflen, htake, hread⟩
  rw [htotal] at htake hread
  generalize hn : min want (8 - got.length) = n at htake hread
  have hpiece : (s.stdInput.take n).length = min want s.stdInput.length := by
    rw [List.length_take]
    omega
  have hremain : (s.stdInput.drop n).length =
      s.stdInput.length - min want s.stdInput.length := by
    rw [List.length_take] at hpiece
    rw [List.length_drop]
    omega
  rw [h.buffer_eq] at htake
  rw [if_neg (by omega)] at hread
  by_cases hfull : got.length + (s.stdInput.take n).length = 6
  · rw [hfull] at htake
    rw [if_pos hfull.symm, hfull] at hread
    rcases h.complete hbuflen htake hfull henv with ⟨t, ht, hinput, hhandled, halign⟩
    exact ⟨t, hread.trans ht, by rw [hinput, hremain],
      Or.inr ⟨by omega, hhandled, halign⟩⟩
  · rw [if_neg (by omega)] at hread
    refine ⟨_, hread, hremain, Or.inl ⟨by omega, rfl, got ++ s.stdInput.take n, ?_, ?_⟩⟩
    · rw [List.length_append, hpiece]
    · exact h.extend hbuflen htake (by omega)

/-! ## Past the end of a frame -/

/-- A piece that reaches into the next frame takes the count of bytes past six. -/
theorem readInput_past {done rest : List Request} {got : List UInt8} {s : PortState}
    (h : Aligned done rest got s) {want : ℕ} (env : Env)
    (hpast : 6 < got.length + min want s.stdInput.length) :
    ∃ t, readInput s want env = some t ∧ Lost done t := by
  have hgot := h.got_lt
  have htotal := h.total_eq
  rcases readInput_eq h.read_length (by omega) want env with ⟨buffer, hbuflen, -, hread⟩
  rw [htotal] at hread
  generalize hn : min want (8 - got.length) = n at hread
  have hpiece : (s.stdInput.take n).length = min n s.stdInput.length := List.length_take
  -- Not empty, and the count is not six: neither branch of the body is taken.
  rw [if_neg (by omega), if_neg (by omega)] at hread
  refine ⟨_, hread, ?_⟩
  exact
    { read_length := hbuflen
      passed := Or.inr ⟨by simp only; omega, by simp only; omega⟩
      handled_eq := h.handled_eq }

theorem readInput_lost {done : List Request} {s : PortState} (h : Lost done s)
    (hpassed : 7 ≤ s.dwTotalBytesRead ∧ s.dwTotalBytesRead ≤ 8) (want : ℕ) (env : Env) :
    ∃ t, readInput s want env = some t ∧ Lost done t := by
  rcases readInput_eq h.read_length hpassed.2 want env with ⟨buffer, hbuflen, -, hread⟩
  generalize hn : min want (8 - s.dwTotalBytesRead) = n at hread
  have hpiece : (s.stdInput.take n).length = min n s.stdInput.length := List.length_take
  -- The count stays at seven or eight until an empty read ends the loop.
  by_cases hnil : 0 = (s.stdInput.take n).length
  · rw [if_pos hnil] at hread
    refine ⟨_, hread, ?_⟩
    exact
      { read_length := hbuflen
        passed := Or.inl rfl
        handled_eq := h.handled_eq }
  · rw [if_neg hnil, if_neg (by omega)] at hread
    refine ⟨_, hread, ?_⟩
    exact
      { read_length := hbuflen
        passed := Or.inr ⟨by simp only; omega, by simp only; omega⟩
        handled_eq := h.handled_eq }

/-! ## Runs -/

theorem round_stopped {s : PortState} (h : s.bStopped = true) (wake : Wake) :
    round s wake = some s := by
  simp [round, h]

theorem round_stdInput {s : PortState} (h : s.bStopped = false) (want : ℕ) (env : Env) :
    round s (.stdInput want env) = readInput s want env := by
  simp [round, h]

theorem round_timeout (s : PortState) : round s .timeout = some s := by
  simp [round]

theorem run_stopped {s : PortState} (h : s.bStopped = true) (wakes : List Wake) :
    run round s wakes = some s := by
  induction wakes with
  | nil =>
      rfl
  | cons wake wakes ih =>
      simpa [run, round_stopped h wake] using ih

theorem throughout_stopped {P : PortState → Prop} {s : PortState} (h : s.bStopped = true)
    (hP : P s) (wakes : List Wake) : Throughout round P s wakes := by
  induction wakes with
  | nil =>
      exact hP
  | cons wake wakes ih =>
      refine ⟨hP, ?_⟩
      intro t ht
      rw [round_stopped h wake] at ht
      cases ht
      exact ih

/-- The loop ends only when the stream has been consumed. -/
def StopsAtEnd (s : PortState) : Prop :=
  s.bStopped = true → s.stdInput = []

/-- The loop is between two frames or inside one, and the pieces to come stay within frames. -/
def InStep (rs : List Request) (ws : List ℕ) (s : PortState) : Prop :=
  ∃ done rest got, Aligned done rest got s ∧ done ++ rest = rs ∧
    WithinFrames got.length s.stdInput.length ws

theorem InStep.stopsAtEnd {rs : List Request} {ws : List ℕ} {s : PortState}
    (h : InStep rs ws s) : StopsAtEnd s := by
  rcases h with ⟨done, rest, got, halign, -, -⟩
  intro hstop
  rw [halign.running] at hstop
  cases hstop

/-- One piece within the current frame, and those after it. -/
theorem readInput_inStep {done rest : List Request} {r : Request} {got : List UInt8}
    {s : PortState} (h : Aligned done (r :: rest) got s) {want : ℕ} {env : Env}
    (hwant : 0 < want) (henv : env.writeFile = true)
    (hin : got.length + min want s.stdInput.length ≤ 6) :
    ∃ t done' rest' got', readInput s want env = some t ∧ Aligned done' rest' got' t ∧
      done' ++ rest' = done ++ r :: rest ∧
      got'.length = (got.length + min want s.stdInput.length) % 6 ∧
      t.stdInput.length = s.stdInput.length - min want s.stdInput.length := by
  rcases readInput_aligned h hwant henv hin with
    ⟨t, ht, hinput, ⟨hlt, -, got', hgot', halign⟩ | ⟨hfull, -, halign⟩⟩
  · refine ⟨t, done, r :: rest, got', ht, halign, rfl, ?_, hinput⟩
    rw [hgot', Nat.mod_eq_of_lt hlt]
  · refine ⟨t, done ++ [r], rest, [], ht, halign, by simp, ?_, hinput⟩
    rw [hfull]
    rfl

theorem Finished.stopsAtEnd {rs : List Request} {s : PortState} (h : Finished rs s) :
    StopsAtEnd s :=
  fun _ => h.input_eq

/-- One read either ends the loop at the end of the stream or consumes part of it. -/
theorem round_inStep {rs : List Request} {ws : List ℕ} {want : ℕ} {env : Env} {s : PortState}
    (h : InStep rs (want :: ws) s) (hwake : (Wake.stdInput want env).Admissible) :
    ∃ t, round s (.stdInput want env) = some t ∧
      (Finished rs t ∨ InStep rs ws t ∧ t.stdInput.length < s.stdInput.length) := by
  rcases h with ⟨done, rest, got, halign, hrs, hpiece, hws⟩
  rw [round_stdInput halign.running]
  cases rest with
  | nil =>
      rcases readInput_finished halign want env with ⟨t, ht, hfin⟩
      rw [List.append_nil] at hrs
      subst hrs
      exact ⟨t, ht, Or.inl hfin⟩
  | cons r rest =>
      have hleft : got.length + s.stdInput.length = 6 + (stream rest).length := by
        have hlen := congrArg List.length halign.input_eq
        simpa [stream] using hlen
      have hgot := halign.got_lt
      have hpos : 0 < min want s.stdInput.length := by
        have hwant := hwake.1
        omega
      rcases readInput_inStep halign hwake.1 hwake.2 hpiece with
        ⟨t, done', rest', got', ht, halign', hrs', hgot', hinput'⟩
      refine ⟨t, ht, Or.inr ⟨⟨done', rest', got', halign', by rw [hrs', hrs], ?_⟩, by omega⟩⟩
      rw [hgot', hinput']
      exact hws

/-- Pieces within frames: every frame is handled. -/
theorem run_inStep {rs : List Request} {wakes : List Wake} {s : PortState}
    (h : InStep rs (wants wakes) s) (hwakes : ∀ wake ∈ wakes, wake.Admissible)
    (hmany : s.stdInput.length < (wants wakes).length) :
    ∃ t, run round s wakes = some t ∧ Finished rs t ∧ Throughout round StopsAtEnd s wakes := by
  induction wakes generalizing s with
  | nil =>
      exact absurd hmany (Nat.not_lt_zero _)
  | cons wake wakes ih =>
      have hwake : wake.Admissible := hwakes wake (by simp)
      have htail : ∀ wake ∈ wakes, wake.Admissible :=
        fun wake' hmem => hwakes wake' (by simp [hmem])
      rcases hwake.stdInput_or_timeout with ⟨want, env, rfl, -⟩ | rfl
      · -- The stream gets shorter until a read finds its end.
        rcases round_inStep h hwake with ⟨t, ht, hfin | ⟨hstep, hless⟩⟩
        · refine ⟨t, by simp [run, ht, run_stopped hfin.stopped], hfin, h.stopsAtEnd, ?_⟩
          intro u hu
          rw [ht] at hu
          cases hu
          exact throughout_stopped hfin.stopped hfin.stopsAtEnd wakes
        · have hmany' : t.stdInput.length < (wants wakes).length := by
            simp only [wants, List.length_cons] at hmany
            omega
          rcases ih hstep htail hmany' with ⟨u, hu, hfin, hstops⟩
          refine ⟨u, by simp [run, ht, hu], hfin, h.stopsAtEnd, ?_⟩
          intro t' ht'
          rw [ht] at ht'
          cases ht'
          exact hstops
      · rcases ih h htail hmany with ⟨u, hu, hfin, hstops⟩
        refine ⟨u, by simpa [run, round_timeout] using hu, hfin, h.stopsAtEnd, ?_⟩
        intro t' ht'
        rw [round_timeout] at ht'
        cases ht'
        exact hstops

theorem round_lost {done : List Request} {s : PortState} (h : Lost done s) {wake : Wake}
    (hwake : wake.Admissible) : ∃ t, round s wake = some t ∧ Lost done t := by
  cases hstop : s.bStopped with
  | true => exact ⟨s, round_stopped hstop wake, h⟩
  | false =>
      have hpassed : 7 ≤ s.dwTotalBytesRead ∧ s.dwTotalBytesRead ≤ 8 := by
        rcases h.passed with hstop' | hpassed
        · rw [hstop] at hstop'
          cases hstop'
        · exact hpassed
      rcases hwake.stdInput_or_timeout with ⟨want, env, rfl, -⟩ | rfl
      · rcases readInput_lost h hpassed want env with ⟨t, ht, hlost⟩
        exact ⟨t, by rw [round_stdInput hstop, ht], hlost⟩
      · exact ⟨s, round_timeout s, h⟩

theorem run_lost {done : List Request} {wakes : List Wake} {s : PortState} (h : Lost done s)
    (hwakes : ∀ wake ∈ wakes, wake.Admissible) :
    ∃ t, run round s wakes = some t ∧ Lost done t := by
  induction wakes generalizing s with
  | nil =>
      exact ⟨s, rfl, h⟩
  | cons wake wakes ih =>
      -- The state stays lost, so nothing more is handled.
      rcases round_lost h (hwakes wake (by simp)) with ⟨t, ht, hlost⟩
      rcases ih hlost (fun wake' hmem => hwakes wake' (by simp [hmem])) with ⟨u, hu, hlost'⟩
      exact ⟨u, by simp [run, ht, hu], hlost'⟩

/-- A piece that crosses the end of a frame: the frames behind it are never handled. -/
theorem run_past {done rest : List Request} {got : List UInt8} {wakes : List Wake}
    {s : PortState} (h : Aligned done rest got s)
    (hwakes : ∀ wake ∈ wakes, wake.Admissible)
    (hpast : ¬ WithinFrames got.length s.stdInput.length (wants wakes)) :
    ∃ t, run round s wakes = some t ∧
      (t.handled.map Handled.request).length < (done ++ rest).length := by
  induction wakes generalizing s done rest got with
  | nil =>
      exact absurd trivial hpast
  | cons wake wakes ih =>
      have hwake : wake.Admissible := hwakes wake (by simp)
      have htail : ∀ wake ∈ wakes, wake.Admissible :=
        fun wake' hmem => hwakes wake' (by simp [hmem])
      rcases hwake.stdInput_or_timeout with ⟨want, env, rfl, hwant, hwrite⟩ | rfl
      · have hround := round_stdInput h.running want env
        have hleft : got.length + s.stdInput.length = 6 * rest.length := by
          have hlen := congrArg List.length h.input_eq
          simpa [length_stream] using hlen
        by_cases hin : got.length + min want s.stdInput.length ≤ 6
        · cases rest with
          | nil =>
              -- Nothing is left to read, and empty pieces cross no frame.
              have hgot0 : got.length = 0 := by
                rw [List.length_nil] at hleft
                omega
              have hin0 : s.stdInput.length = 0 := by
                rw [List.length_nil] at hleft
                omega
              rw [hgot0, hin0] at hpast
              exact absurd (withinFrames_zero _) hpast
          | cons r rest =>
              rcases readInput_inStep h hwant hwrite hin with
                ⟨t, done', rest', got', ht, halign', hrs', hgot', hinput'⟩
              -- This piece stays within its frame, so a later one crosses.
              have hpast' : ¬ WithinFrames got'.length t.stdInput.length (wants wakes) := by
                rw [hgot', hinput']
                exact fun hws => hpast ⟨hin, hws⟩
              rcases ih halign' htail hpast' with ⟨u, hu, hless⟩
              rw [hrs'] at hless
              exact ⟨u, by simp [run, hround, ht, hu], hless⟩
        · -- This is the piece that crosses; the frame it belongs to is lost.
          have hmore : 6 < got.length + min want s.stdInput.length := by omega
          rcases readInput_past h env hmore with ⟨t, ht, hlost⟩
          rcases run_lost hlost htail with ⟨u, hu, hlost'⟩
          refine ⟨u, by simp [run, hround, ht, hu], ?_⟩
          rw [hlost'.handled_eq, List.length_append]
          omega
      · rcases ih h htail hpast with ⟨u, hu, hless⟩
        exact ⟨u, by simpa [run, round_timeout] using hu, hless⟩

/-! ## The frames are handled one by one -/

/-- `WaitStdIO` does not fault, handles the requests of the frames in order and once each, has
ended, and ended only at the end of the stream. -/
def Framed (rs : List Request) (wakes : List Wake) : Prop :=
  ∃ t, waitStdIO (initial (stream rs)) wakes = some t ∧
    t.bStopped = true ∧
    t.handled.map Handled.request = rs ∧
    Throughout round StopsAtEnd (initial (stream rs)) wakes

theorem framed_iff_withinFrames (rs : List Request) (wakes : List Wake)
    (hwakes : ∀ wake ∈ wakes, wake.Admissible)
    (hmany : (stream rs).length < (wants wakes).length) :
    Framed rs wakes ↔ WithinFrames 0 (stream rs).length (wants wakes) := by
  constructor
  · rintro ⟨t, hrun, -, hhandled, -⟩
    by_contra hpast
    rcases run_past (initial_aligned rs) hwakes hpast with ⟨u, hu, hless⟩
    have htu : t = u := Option.some.inj (hrun.symm.trans hu)
    subst htu
    rw [hhandled, List.nil_append] at hless
    exact Nat.lt_irrefl _ hless
  · intro hwithin
    have hstart : InStep rs (wants wakes) (initial (stream rs)) :=
      ⟨[], rs, [], initial_aligned rs, rfl, hwithin⟩
    rcases run_inStep hstart hwakes hmany with ⟨t, hrun, hfin, hstops⟩
    exact ⟨t, hrun, hfin.stopped, hfin.handled_eq, hstops⟩

/-- Midnight at the epoch; `WriteFile` succeeds. -/
def epoch : Env :=
  { wallClockNano := 0
    steadyClockNano := 0
    systemTime := ⟨1970, 1, 1, 0, 0, 0, 0⟩
    localTime := ⟨1970, 1, 1, 0, 0, 0, 0⟩
    bias := 0
    writeFile := true }

/-- One frame in two pieces. -/
theorem framed_split :
    Framed [⟨0, 3⟩] ([.stdInput 4 epoch, .timeout] ++ List.replicate 7 (.stdInput 2 epoch)) :=
  (framed_iff_withinFrames _ _ (by simp [Wake.Admissible, epoch]) (by decide)).mpr (by decide)

/-- Two frames, and `ReadFile` returns as many bytes as it is asked for. -/
theorem not_framed_coalesced :
    let wakes := List.replicate 13 (Wake.stdInput 8 epoch)
    (∀ wake ∈ wakes, wake.Admissible) ∧
      (stream [⟨0, 3⟩, ⟨1, 3⟩]).length < (wants wakes).length ∧
      ¬ Framed [⟨0, 3⟩, ⟨1, 3⟩] wakes := by
  intro wakes
  have hwakes : ∀ wake ∈ wakes, wake.Admissible := by
    intro wake hmem
    rw [List.eq_of_mem_replicate hmem]
    exact ⟨by decide, rfl⟩
  refine ⟨hwakes, by decide, ?_⟩
  rintro ⟨t, hrun, -, hhandled, -⟩
  rcases run_past (initial_aligned [⟨0, 3⟩, ⟨1, 3⟩]) hwakes (by decide) with ⟨u, hu, hless⟩
  have htu : t = u := Option.some.inj (hrun.symm.trans hu)
  subst htu
  rw [hhandled] at hless
  exact absurd hless (by decide)

end Clock
end Etude
