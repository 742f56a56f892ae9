import Mathlib.Algebra.BigOperators.Group.List.Basic
import Etude.Base.Potential
import Etude.TcpLog.Log

/-!
# Complete — when the line logger stops

Left alone, the threads come to rest after a number of steps that does not depend on how they take
turns.  When they have, everything that has come in is in the log, unless one of them holds the lock
for a line whose end has not come in yet.
-/

namespace Etude
namespace TcpLog

open Base

/-- A step of one of the threads; the others are what clients do. -/
def Event.OfThread : Event → Prop
  | .enter _ | .read | .write | .leave | .fork => True
  | .accept _ | .receive _ _ | .endOfInput _ => False

/-! ## How much there is to do -/

/-- A call of `handle`: taking the lock, writing, giving it back. -/
def cost (clientaddr : Address) (msg : Str) : ℕ :=
  (plainHandler clientaddr msg).length + 2

namespace Client

/-- The steps for what has come in.  A character that is alone on its line costs most: a call of
`handle` for the tag and the character, and the newline after it if the input ends there. -/
def rest (c : Client) : ℕ :=
  ((tag c.clientaddr).length + 5) * c.buffer.length + cost c.clientaddr c.disconnected

/-- The steps for a connection, without those for the call of `handle` that has begun. -/
def work (c : Client) : ℕ :=
  match c.phase with
  -- The 1 is for `fork`.
  | .accepted => cost c.clientaddr c.connected + (1 + c.rest)
  | .announcing | .announced => 1 + c.rest
  | .reading => c.rest
  -- The end of the input would be read and written.
  | .inLine => 2 + c.rest
  | .finished => 0

end Client

/-- The steps until the lock is given back. -/
def pending (lock : Guarded Thread Char) : ℕ :=
  match lock.holder with
  | none => 0
  | some (_, rest) => rest.length + 1

def work (s : State) : ℕ :=
  (s.clients.map Client.work).sum + pending s.lock

namespace Client

variable {c d : Client} {ch : Char} {block buffer : Str}

theorem rest_take (h : c.buffer = ch :: buffer) :
    c.rest = (c.take ch buffer).rest + ((tag c.clientaddr).length + 5) := by
  unfold rest
  rw [h, List.length_cons, Nat.mul_succ]
  exact Nat.add_right_comm ..

theorem work_take_le (c : Client) (ch : Char) (buffer : Str) :
    (c.take ch buffer).work ≤ 2 + (c.take ch buffer).rest := by
  by_cases hch : ch = '\n'
  · have hwork : (c.take ch buffer).work = (c.take ch buffer).rest := by
      simp [work, take, hch]
    omega
  · have hwork : (c.take ch buffer).work = 2 + (c.take ch buffer).rest := by
      simp [work, take, hch]
    omega

/-- A call of `handle` is paid for: taking the lock, writing the block, giving the lock back. -/
theorem work_next (hnext : c.next = some (block, d)) : d.work + block.length + 2 ≤ c.work := by
  unfold next at hnext
  cases hc : c.phase with
  | announcing | announced | inLine | finished =>
      rw [hc] at hnext
      cases hnext
  | accepted =>
      rw [hc] at hnext
      cases hnext
      have hnow : c.work = cost c.clientaddr c.connected + (1 + c.rest) := by
        simp only [work, hc]
      have hthen : ({ c with phase := .announcing } : Client).work = 1 + c.rest := rfl
      rw [cost] at hnow
      omega
  | reading =>
      rw [hc] at hnext
      simp only at hnext
      have hnow : c.work = c.rest := by
        simp only [work, hc]
      cases hbuffer : c.buffer with
      | cons ch rest =>
          rw [hbuffer] at hnext
          cases hnext
          have hrest := rest_take hbuffer
          have hle := work_take_le c ch rest
          rw [List.length_append, List.length_singleton]
          omega
      | nil =>
          rw [hbuffer] at hnext
          simp only at hnext
          split_ifs at hnext
          cases hnext
          have hrest : cost c.clientaddr c.disconnected ≤ c.rest := Nat.le_add_left ..
          rw [cost] at hrest
          change 0 + _ + 2 ≤ c.work
          omega

/-- So is a character of a line: reading it and writing it. -/
theorem work_more (hmore : c.more = some (ch, d)) : d.work + 2 ≤ c.work := by
  unfold more at hmore
  split at hmore
  · rename_i hc
    have hnow : c.work = 2 + c.rest := by
      simp only [work, hc]
    split at hmore
    · rename_i ch rest hbuffer
      cases hmore
      have hrest := rest_take hbuffer
      have hle := work_take_le c ch rest
      omega
    · split_ifs at hmore
      cases hmore
      have hthen : ({ c with phase := .reading } : Client).work = c.rest := rfl
      omega
  · cases hmore

end Client

theorem sum_map_set {α : Type*} (f : α → ℕ) {xs : List α} {k : ℕ} {x : α} (h : xs[k]? = some x)
    (y : α) : ((xs.set k y).map f).sum + f x = (xs.map f).sum + f y := by
  induction xs generalizing k with
  | nil =>
      cases h
  | cons a xs ih =>
      cases k with
      | zero =>
          cases h
          simp only [List.set_cons_zero, List.map_cons, List.sum_cons]
          omega
      | succ k =>
          have hrest := ih h
          simp only [List.set_cons_succ, List.map_cons, List.sum_cons]
          omega

/-- Each step of a thread leaves less to do. -/
theorem work_step {s t : State} {e : Event} (hs : Inv s) (he : e.OfThread)
    (h : step s e = some t) : work t + 1 ≤ work s := by
  cases step_cases h with
  | accept _ _ | receive _ _ _ | endOfInput _ =>
      cases he
  | @enter k c d block lock hk hnext henter =>
      rcases Guarded.enter_eq_some henter with ⟨hfree, rfl⟩
      have hsum := sum_map_set Client.work hk d
      -- The cost of the call moves from the connection to the lock, less the step taken.
      have hnow := Client.work_next hnext
      simp only [work, State.update, pending, hfree]
      omega
  | @read k c d ch lock hholder hk hmore hextend =>
      rcases Guarded.extend_eq_some hextend with ⟨thread, -, rfl⟩
      have hsum := sum_map_set Client.work hk d
      have hnow := Client.work_more hmore
      simp only [work, State.update, pending, hholder, List.length_nil, List.length_singleton]
      omega
  | write hwrite =>
      rcases Guarded.write_eq_some hwrite with ⟨thread, a, rest, hholder, rfl⟩
      simp only [work, pending, hholder, List.length_cons]
      omega
  | @leaveRequests k c lock hleave hk =>
      rcases Guarded.leave_eq_some hleave with ⟨hholder, rfl⟩
      have hphase := (hs.good k c hk).announcing_iff.mpr ⟨[], hholder⟩
      have hsum := sum_map_set Client.work hk { c with phase := .announced }
      -- The call that ends is counted with the lock, not with the connection.
      have hsame : ({ c with phase := .announced } : Client).work = c.work := by
        simp only [Client.work, hphase]
        rfl
      simp only [work, State.update, pending, hholder, List.length_nil]
      omega
  | leaveMessages hleave hk hphase =>
      rcases Guarded.leave_eq_some hleave with ⟨hholder, rfl⟩
      simp only [work, pending, hholder, List.length_nil]
      omega
  | @fork k c haccepting hk hphase =>
      have hsum := sum_map_set Client.work hk { c with phase := .reading }
      have hnow : c.work = ({ c with phase := .reading } : Client).work + 1 := by
        simp only [Client.work, hphase]
        exact Nat.add_comm ..
      simp only [work, State.update]
      omega

/-! ## Threads at rest -/

def Quiet (s : State) : Prop :=
  ∀ e, e.OfThread → step s e = none

namespace Client

/-- The lines that are there: the last one needs no newline if the input has ended. -/
def available (c : Client) : List Str :=
  if c.ended then lines c.received else (completeLines '\n' c.received).map List.dropLast

/-- What there is to say about a connection now. -/
def due (c : Client) : List Str :=
  c.connected :: c.available ++ if c.ended then [c.disconnected] else []

end Client

/-- The accepting thread waits for the next connection, and the log has all that there is to say
about the others. -/
structure Complete (s : State) : Prop where
  accepting_eq : s.accepting = none
  exists_log : ∃ log : List (ℕ × Str),
    s.lock.output = unlines (log.map Prod.snd) ∧
      ∀ k c, s.clients[k]? = some c → linesOf log k = c.due.map fun msg => tag c.clientaddr ++ msg

/-- The thread of the connection `k` holds the lock until a line ends that has not come in yet. -/
structure Waits (s : State) (k : ℕ) : Prop where
  holder_eq : s.lock.holder = some (.procMessages k, [])
  unfinished : ∃ c, s.clients[k]? = some c ∧ c.ended = false ∧ remainder '\n' c.received ≠ []

section Quiet

variable {s : State} {k : ℕ} {c : Client}

/-- The thread that holds the lock has nothing to read. -/
theorem Quiet.more_eq_none (h : Quiet s) (hholder : s.lock.holder = some (.procMessages k, []))
    (hk : s.clients[k]? = some c) : c.more = none := by
  cases hmore : c.more with
  | none =>
      rfl
  | some p =>
      have hstep := h .read trivial
      have hreader : reader s.lock = some k := by
        rw [reader, hholder]
      simp [step, hreader, hk, hmore, Guarded.extend, hholder] at hstep

/-- The thread that holds the lock has a line that goes on, and nothing more has come in. -/
theorem Quiet.waits (h : Quiet s) (hs : Inv s) {thread : Thread} {rest : Str}
    (hholder : s.lock.holder = some (thread, rest)) : ∃ k, Waits s k := by
  have hrest : rest = [] := by
    cases rest with
    | nil =>
        rfl
    | cons a rest =>
        -- It would have a character to write.
        have hstep := h .write trivial
        simp [step, Guarded.write, hholder] at hstep
  subst hrest
  rcases hs.exists_of_holder hholder with ⟨c, hclient⟩
  have hleave := h .leave trivial
  simp only [step, Guarded.leave, hholder, Option.bind_some] at hleave
  cases thread with
  | procRequests k =>
      have hk : s.clients[k]? = some c := hclient
      simp [left, hk] at hleave
  | procMessages k =>
      have hk : s.clients[k]? = some c := hclient
      simp only [left, hk, Option.bind_some] at hleave
      split_ifs at hleave with hphase
      have hinStep := (hs.good k c hk).inStep
      rw [Client.InStep, hphase] at hinStep
      have hmore := h.more_eq_none hholder hk
      simp only [Client.more, hphase] at hmore
      cases hbuffer : c.buffer with
      | cons ch buffer =>
          simp [hbuffer] at hmore
      | nil =>
          have hended : c.ended = false := by
            simpa [hbuffer] using hmore
          refine ⟨k, hholder, c, hk, hended, ?_⟩
          rwa [Client.received, hbuffer, List.append_nil]

/-- With the lock free, no thread is before a call of `handle`. -/
theorem Quiet.next_eq_none (h : Quiet s) (hfree : s.lock.holder = none)
    (hk : s.clients[k]? = some c) : c.next = none := by
  cases hnext : c.next with
  | none =>
      rfl
  | some p =>
      have hstep := h (.enter k) trivial
      simp only [step, hk, hnext, Option.bind_some, Guarded.enter_of_holder_eq_none hfree,
        Option.map_some] at hstep
      cases hstep

theorem Quiet.not_ofAcceptor (h : Quiet s) (hs : Inv s) (hfree : s.lock.holder = none)
    (hk : s.clients[k]? = some c) : ¬ c.phase.OfAcceptor := by
  intro hof
  have hgood := hs.good k c hk
  have hnext := h.next_eq_none hfree hk
  cases hphase : c.phase with
  | accepted =>
      simp [Client.next, hphase] at hnext
  | announcing =>
      -- The accepting thread would hold the lock.
      rcases hgood.announcing_iff.mp hphase with ⟨rest, hholder⟩
      rw [hfree] at hholder
      cases hholder
  | announced =>
      have hstep := h .fork trivial
      simp [step, hgood.accepting_iff.mp hof, hk, hphase] at hstep
  | reading | inLine | finished =>
      rw [hphase] at hof
      exact hof

theorem Inv.not_inLine (hs : Inv s) (hfree : s.lock.holder = none)
    (hk : s.clients[k]? = some c) : c.phase ≠ .inLine := by
  intro hphase
  rcases (hs.good k c hk).holder_of_inLine hphase with ⟨rest, hholder⟩
  rw [hfree] at hholder
  cases hholder

theorem Quiet.said_eq (h : Quiet s) (hs : Inv s) (hfree : s.lock.holder = none)
    (hk : s.clients[k]? = some c) : c.said = c.due := by
  have hof := h.not_ofAcceptor hs hfree hk
  have hnext := h.next_eq_none hfree hk
  have hinStep := (hs.good k c hk).inStep
  unfold Client.said Client.due Client.available Client.received
  unfold Client.InStep at hinStep
  unfold Client.next at hnext
  cases hphase : c.phase with
  | accepted | announcing | announced =>
      rw [hphase] at hof
      exact absurd trivial hof
  | inLine =>
      exact absurd hphase (hs.not_inLine hfree hk)
  | reading =>
      simp only [hphase] at hnext hinStep
      cases hbuffer : c.buffer with
      | cons ch buffer =>
          simp [hbuffer] at hnext
      | nil =>
          simp only [hbuffer] at hnext
          split_ifs at hnext with hended
          -- All that has come in has been read, and it ends with a newline.
          have hremainder : remainder '\n' c.read = [] :=
            hinStep.resolve_right fun hboth => hended hboth.1
          have hlines := Client.lines_read hremainder
          simp [hended, hlines, Client.whole]
  | finished =>
      rw [hphase] at hinStep
      simp [hinStep]

theorem Quiet.complete (h : Quiet s) (hs : Inv s) (hfree : s.lock.holder = none) : Complete s := by
  have hreports := hs.reports fun k c hk => hs.not_inLine hfree hk
  refine
    { accepting_eq := ?_
      exists_log := ⟨logOf s.lock.entered, ?_, fun k c hk => ?_⟩ }
  · cases haccepting : s.accepting with
    | none =>
        rfl
    | some k =>
        have hk := List.getElem?_eq_getElem (hs.accepting_lt k haccepting)
        exact absurd ((hs.good k _ hk).accepting_iff.mpr haccepting) (h.not_ofAcceptor hs hfree hk)
  · rw [hs.consistent.output_of_free hfree, Guarded.blocks,
      flatten_eq_unlines fun p hp => (hreports.block_eq hp).1]
  · have hsaid := h.said_eq hs hfree hk
    rw [linesOf_logOf, (hs.good k c hk).blocks_eq, Client.blocks, Client.begun,
      if_neg (hs.not_inLine hfree hk), List.append_nil, List.map_map, hsaid]
    refine List.map_congr_left ?_
    intro msg _
    simp [plainHandler]

end Quiet

/-- From every state that can be reached, the threads can only take so many steps on their own,
and when they can take no more, all that has come in is in the log, or one of them holds the lock
for a line that has not come in to its end. -/
theorem log_complete {es fs : List Event} {s t : State} (hs : run step init es = some s)
    (hfs : ∀ e ∈ fs, e.OfThread) (ht : run step s fs = some t) :
    fs.length ≤ work s ∧ (Quiet t → Complete t ∨ ∃ k, Waits t k) := by
  have hinv := inv_run hs
  have hinv' : Inv t := run_keeps (fun _ _ _ => inv_step) hinv ht
  -- What is left to do bounds the run, since each step does some of it.
  refine ⟨length_le_potential (fun _ _ _ => inv_step) (fun _ _ _ => work_step) hinv hfs ht, ?_⟩
  intro hquiet
  rcases hholder : t.lock.holder with _ | ⟨thread, rest⟩
  · exact Or.inl (hquiet.complete hinv' hholder)
  · exact Or.inr (hquiet.waits hinv' hholder)

/-- The thread of the connection `k` prints a line of one character. -/
def printLine (k : ℕ) : List Event :=
  beginLine k ++ [.read, .write, .leave]

theorem ofThread_printLine (k : ℕ) : ∀ e ∈ printLine k, e.OfThread := by
  simp [printLine, beginLine, Event.OfThread]

/-- Both connections have sent a line, and the second thread prints first. -/
theorem log_complete_two_clients :
    ∃ s t, run step init (arrivals ['x', '\n'] ['y', '\n']) = some s ∧
      run step s (printLine 1 ++ printLine 0) = some t ∧
        t.lock.output =
          ("[a]: [a]: client connected.\n[b]: [b]: client connected.\n" ++
            "[b]: y\n[a]: x\n").toList ∧
        (printLine 1 ++ printLine 0).length ≤ work s ∧ (Complete t ∨ ∃ k, Waits t k) := by
  have hthreads : ∀ e ∈ printLine 1 ++ printLine 0, e.OfThread := by
    intro e he
    exact (List.mem_append.mp he).elim (ofThread_printLine 1 e) (ofThread_printLine 0 e)
  have h := @log_complete (arrivals ['x', '\n'] ['y', '\n']) _ _ _ rfl hthreads rfl
  refine ⟨_, _, rfl, rfl, rfl, h.1, h.2 ?_⟩
  intro e he
  cases e with
  | accept _ | receive _ _ | endOfInput _ =>
      cases he
  | read | write | leave | fork =>
      rfl
  | enter k =>
      match k with
      | 0 | 1 | _ + 2 =>
          rfl

end TcpLog
end Etude
