import Etude.Base.Answers
import Etude.Base.Run

/-!
# PortProcess — who gets which answer from the plain process version of `clock.erl`

`loop/1` sends the message of a call to the port and then `receive_response/3` takes one message
out of the mailbox.  If that is an answer, it goes to the caller; if it is anything else, it is
dropped, and the answer that comes later is taken for the next one.
-/

namespace Etude
namespace Clock
namespace PortProcess

open Base

/-! ## Messages -/

/-- A call of `call_port/1`; `ref` numbers the calls and is read by no branch. -/
structure Call where
  caller : ℕ
  ref : ℕ
  msg : List UInt8
  deriving DecidableEq, Repr

/-- What the port is sent in `{self(), {command, Msg}}`, and for whom. -/
inductive Command
  | call (c : Call)
  | cast (caller : ℕ) (msg : List UInt8)
  deriving DecidableEq, Repr

/-- The messages in the mailbox of `clock_port`. -/
inductive Message
  /-- `{call, Caller, Msg}` -/
  | call (c : Call)
  /-- `{cast, Caller, Msg}` -/
  | cast (caller : ℕ) (msg : List UInt8)
  /-- `{Port, {data, Data}}`; `n` is the number of the command it answers and is read by no
  branch. -/
  | portData (n : ℕ) (data : List UInt8)
  | stop
  /-- `{'EXIT', Port, Reason}` -/
  | portExit
  /-- `{Port, closed}` -/
  | portClosed
  /-- Anything else. -/
  | unknown
  deriving DecidableEq, Repr

/-- Where the server process is. -/
inductive Server
  /-- In the `receive` of `loop/1`. -/
  | loop
  /-- In `receive_response/3`, for the call `c`. -/
  | receiveResponse (c : Call)
  /-- Waiting for `{Port, closed}`. -/
  | closing
  | exited
  deriving DecidableEq, Repr

/-- `Caller ! {clock_port, Data}` -/
structure Delivery where
  call : Call
  n : ℕ
  data : List UInt8
  deriving DecidableEq, Repr

/-! ## The system -/

/-- `commands` is what the port was sent, and it has answered the first `answered` of them;
`calling` are the calls whose callers wait.  `consumed` and `delivered` record the calls taken
out of the mailbox and the answers delivered; no branch reads them. -/
structure State where
  mailbox : List Message
  server : Server
  commands : List Command
  answered : ℕ
  portOpen : Bool
  calls : ℕ
  calling : List Call
  consumed : List Call
  delivered : List Delivery
  deriving DecidableEq, Repr

inductive Event
  /-- A client calls `call_port/1`. -/
  | callPort (caller : ℕ) (msg : List UInt8)
  /-- A client calls `cast_port/1`. -/
  | castPort (caller : ℕ) (msg : List UInt8)
  /-- Somebody calls `stop/0`. -/
  | stop
  /-- The port answers its next command. -/
  | portAnswer (data : List UInt8)
  | portTerminates
  /-- The port has done what `{self(), close}` asks for. -/
  | portCloses
  | unknown
  /-- The server takes a message out of its mailbox. -/
  | receive
  deriving DecidableEq, Repr

def init : State :=
  { mailbox := []
    server := .loop
    commands := []
    answered := 0
    portOpen := true
    calls := 0
    calling := []
    consumed := []
    delivered := [] }

def post (s : State) (m : Message) : State :=
  { s with mailbox := s.mailbox ++ [m] }

/-- The call in a message. -/
def Message.callOf : Message → Option Call
  | .call c => some c
  | _ => none

/-- The message `m` leaves the mailbox. -/
def take (s : State) (m : Message) (mailbox : List Message) : State :=
  { s with
    mailbox := mailbox
    consumed := s.consumed ++ m.callOf.toList }

/-- The clauses of `loop/1`; what it prints is left out. -/
def loop (s : State) : Message → State
  | .call c =>
      { s with
        commands := s.commands ++ [.call c]
        server := .receiveResponse c }
  | .cast caller msg => { s with commands := s.commands ++ [.cast caller msg] }
  | .portData _ _ => s
  | .stop => { s with server := .closing }
  | .portExit => { s with server := .exited }
  | .portClosed | .unknown => s

/-- The clauses of `receive_response/3`, and back to `loop/1`. -/
def receiveResponse (s : State) (c : Call) : Message → State
  | .portData n data =>
      { s with
        server := .loop
        calling := s.calling.filter fun c' => c' ≠ c
        delivered := s.delivered ++ [⟨c, n, data⟩] }
  | _ => { s with server := .loop }

/-- The server takes a message: the first one, or `{Port, closed}`. -/
def receive (s : State) : Option State :=
  match s.server with
  | .loop =>
      match s.mailbox with
      | [] => none
      | m :: mailbox => some (loop (take s m mailbox) m)
  | .receiveResponse c =>
      match s.mailbox with
      | [] => none
      | m :: mailbox => some (receiveResponse (take s m mailbox) c m)
  | .closing =>
      -- The `receive` here is selective: other messages stay where they are.
      if .portClosed ∈ s.mailbox then
        some { take s .portClosed (s.mailbox.erase .portClosed) with server := .exited }
      else
        none
  | .exited => none

def step (s : State) : Event → Option State
  | .callPort caller msg =>
      -- A caller sleeps until its answer comes, so it has one call at a time.
      if s.server ≠ .exited ∧ caller ∉ s.calling.map Call.caller then
        let c : Call := { caller := caller, ref := s.calls, msg := msg }
        some { post s (.call c) with calls := s.calls + 1, calling := s.calling ++ [c] }
      else
        none
  | .castPort caller msg =>
      if s.server ≠ .exited ∧ caller ∉ s.calling.map Call.caller then
        some (post s (.cast caller msg))
      else
        none
  | .stop => if s.server ≠ .exited then some (post s .stop) else none
  | .portAnswer data =>
      -- The port works through its commands in the order they were sent.
      if s.portOpen = true ∧ s.answered < s.commands.length then
        some { post s (.portData s.answered data) with answered := s.answered + 1 }
      else
        none
  | .portTerminates =>
      if s.portOpen = true then some { post s .portExit with portOpen := false } else none
  | .portCloses =>
      if s.portOpen = true ∧ s.server = .closing then
        some { post s .portClosed with portOpen := false }
      else
        none
  | .unknown => some (post s .unknown)
  | .receive => receive s

/-! ## Requests and answers match -/

/-- Every answer delivered is the port's answer to the caller's own call, and every call taken
out of the mailbox has been sent to the port. -/
structure Answered (s : State) : Prop where
  answers : ∀ d ∈ s.delivered, s.commands[d.n]? = some (.call d.call)
  sent : ∀ c ∈ s.consumed, .call c ∈ s.commands

/-- The number of the command that a message of the port answers. -/
def Message.answerOf : Message → Option ℕ
  | .portData n _ => some n
  | _ => none

def pending (mailbox : List Message) : List ℕ :=
  mailbox.filterMap Message.answerOf

/-- How many commands have no answer yet, or one that is still in the mailbox. -/
def unanswered (s : State) : ℕ :=
  outstanding s.commands.length s.answered (pending s.mailbox)

/-- When `receive_response/3` takes an answer, no other one is outstanding, and it never takes a
call. -/
def OwnTurn (s : State) (e : Event) : Prop :=
  ∀ c m mailbox, e = .receive → s.server = .receiveResponse c → s.mailbox = m :: mailbox →
    (m.answerOf.isSome → unanswered s = 1) ∧ m.callOf = none

/-! ## The invariant -/

def Command.ref : Command → Option ℕ
  | .call c => some c.ref
  | .cast _ _ => none

def Message.ref (m : Message) : Option ℕ :=
  m.callOf.map Call.ref

/-- The calls in the mailbox and those sent to the port. -/
def refs (s : State) : List ℕ :=
  s.mailbox.filterMap Message.ref ++ s.commands.filterMap Command.ref

/-- The calls are different, `receive_response/3` waits for the command sent last, and the
answers come in order. -/
structure Inv (s : State) : Prop where
  inOrder : InOrder s.commands.length s.answered (pending s.mailbox)
  busy : ∀ c, s.server = .receiveResponse c →
    s.commands[s.commands.length - 1]? = some (.call c)
  nodup : (refs s).Nodup
  fresh : ∀ r ∈ refs s, r < s.calls
  matched : Answered s

theorem init_inv : Inv init :=
  { inOrder := InOrder.start
    busy := fun _ h => by cases h
    nodup := List.nodup_nil
    fresh := fun _ h => by cases h
    matched :=
      { answers := fun _ h => by cases h
        sent := fun _ h => by cases h } }

theorem filterMap_erase {f : Message → Option ℕ} {a : Message} (ha : f a = none)
    (mailbox : List Message) : (mailbox.erase a).filterMap f = mailbox.filterMap f := by
  induction mailbox with
  | nil =>
      rfl
  | cons m mailbox ih =>
      by_cases hm : m = a
      · subst hm
        rw [List.erase_cons_head, List.filterMap_cons_none ha]
      · rw [List.erase_cons_tail (by simpa using hm), List.filterMap_cons, List.filterMap_cons,
          ih]

/-- A call occurs at one place among the commands. -/
theorem index_unique {commands : List Command} {c : Call} {i j : ℕ}
    (hnodup : (commands.filterMap Command.ref).Nodup) (hi : commands[i]? = some (.call c))
    (hj : commands[j]? = some (.call c)) : i = j := by
  have hpair := List.pairwise_iff_getElem.mp (List.pairwise_filterMap.mp hnodup)
  rcases List.getElem?_eq_some_iff.mp hi with ⟨hilt, hci⟩
  rcases List.getElem?_eq_some_iff.mp hj with ⟨hjlt, hcj⟩
  -- Two places would be two commands with the same number.
  rcases Nat.lt_trichotomy i j with hlt | heq | hgt
  · exact absurd rfl (hpair i j hilt hjlt hlt c.ref (by rw [hci]; rfl) c.ref (by rw [hcj]; rfl))
  · exact heq
  · exact absurd rfl (hpair j i hjlt hilt hgt c.ref (by rw [hcj]; rfl) c.ref (by rw [hci]; rfl))

/-- A command sent later does not change which command was answered. -/
theorem answers_append {commands : List Command} {delivered : List Delivery}
    (h : ∀ d ∈ delivered, commands[d.n]? = some (.call d.call)) (more : List Command) :
    ∀ d ∈ delivered, (commands ++ more)[d.n]? = some (.call d.call) := by
  intro d hd
  have hlt := (List.getElem?_eq_some_iff.mp (h d hd)).1
  rw [List.getElem?_append_left hlt]
  exact h d hd

/-- A call in the mailbox has not been sent. -/
theorem Inv.not_sent {s : State} (h : Inv s) {c : Call} (hmail : .call c ∈ s.mailbox) :
    .call c ∉ s.commands := by
  intro hsent
  have hleft : c.ref ∈ s.mailbox.filterMap Message.ref :=
    List.mem_filterMap.mpr ⟨.call c, hmail, rfl⟩
  have hright : c.ref ∈ s.commands.filterMap Command.ref :=
    List.mem_filterMap.mpr ⟨.call c, hsent, rfl⟩
  exact (List.nodup_append.mp h.nodup).2.2 c.ref hleft c.ref hright rfl

/-- The invariant reads the mailbox up to its answers and calls, and the records of commands,
calls and deliveries; a server that waits for no answer may be anywhere. -/
theorem Inv.congr {s t : State} (h : Inv s)
    (hserver : ∀ c, t.server = .receiveResponse c → s.server = .receiveResponse c)
    (hpending : pending t.mailbox = pending s.mailbox) (hrefs : refs t = refs s)
    (hcommands : t.commands = s.commands) (hanswered : t.answered = s.answered)
    (hcalls : t.calls = s.calls) (hconsumed : t.consumed = s.consumed)
    (hdelivered : t.delivered = s.delivered) : Inv t :=
  { inOrder := by rw [hpending, hcommands, hanswered]; exact h.inOrder
    busy := by
      intro c hwait
      rw [hcommands]
      exact h.busy c (hserver c hwait)
    nodup := by rw [hrefs]; exact h.nodup
    fresh := by rw [hrefs, hcalls]; exact h.fresh
    matched :=
      { answers := by rw [hdelivered, hcommands]; exact h.matched.answers
        sent := by rw [hconsumed, hcommands]; exact h.matched.sent } }

/-- A message that is neither an answer nor a call may arrive at any time. -/
theorem Inv.post {s : State} (h : Inv s) {m : Message} (hanswer : m.answerOf = none)
    (hcall : m.callOf = none) : Inv (post s m) := by
  have href : m.ref = none := by rw [Message.ref, hcall]; rfl
  refine h.congr (fun _ => id) ?_ ?_ rfl rfl rfl rfl rfl
  · simp [PortProcess.post, pending, hanswer]
  · simp [PortProcess.post, refs, href]

/-- ... and may be dropped. -/
theorem Inv.drop {s : State} (h : Inv s) {m : Message} {mailbox : List Message}
    (hmail : s.mailbox = m :: mailbox) (hanswer : m.answerOf = none) (hcall : m.callOf = none) :
    Inv (take s m mailbox) := by
  have href : m.ref = none := by rw [Message.ref, hcall]; rfl
  refine h.congr (fun _ => id) ?_ ?_ rfl rfl rfl ?_ rfl
  · simp [take, pending, hmail, hanswer]
  · simp [take, refs, hmail, href]
  · simp [take, hcall]

/-- Moving away from `receive_response/3` keeps the invariant. -/
theorem Inv.move {s : State} (h : Inv s) {server : Server}
    (hserver : ∀ c, server ≠ .receiveResponse c) : Inv { s with server := server } :=
  h.congr (fun c hwait => absurd hwait (hserver c)) rfl rfl rfl rfl rfl rfl rfl

/-- An answer of the port leaves the mailbox. -/
theorem Inv.takeData {s : State} (h : Inv s) {n : ℕ} {data : List UInt8}
    {mailbox : List Message} (hmail : s.mailbox = .portData n data :: mailbox) :
    Inv (take s (.portData n data) mailbox) := by
  have horder := h.inOrder
  have hpending : pending s.mailbox = n :: pending mailbox := by
    rw [hmail]
    rfl
  have hrefs : refs (take s (.portData n data) mailbox) = refs s := by
    rw [refs, refs, hmail]
    rfl
  rw [hpending] at horder
  exact
    { inOrder := horder.receive
      busy := h.busy
      nodup := by rw [hrefs]; exact h.nodup
      fresh := by rw [hrefs]; exact h.fresh
      matched :=
        { answers := h.matched.answers
          sent := by simpa [take, Message.callOf] using h.matched.sent } }

theorem Inv.loop_call {s : State} (h : Inv s) {c : Call} {mailbox : List Message}
    (hmail : s.mailbox = .call c :: mailbox) :
    Inv (loop (take s (.call c) mailbox) (.call c)) := by
  have horder := h.inOrder
  have hpending : pending s.mailbox = pending mailbox := by
    rw [hmail]
    rfl
  -- The call moves from the mailbox to the commands.
  have hperm : (refs (loop (take s (.call c) mailbox) (.call c))).Perm (refs s) := by
    have hold : refs s = c.ref ::
        (mailbox.filterMap Message.ref ++ s.commands.filterMap Command.ref) := by
      rw [refs, hmail]
      rfl
    have hnew : refs (loop (take s (.call c) mailbox) (.call c)) =
        mailbox.filterMap Message.ref ++ s.commands.filterMap Command.ref ++ [c.ref] := by
      rw [refs, List.append_assoc]
      congr 1
      exact List.filterMap_append
    rw [hold, hnew]
    exact List.perm_append_singleton _ _
  rw [hpending] at horder
  refine
    { inOrder := ?_
      busy := ?_
      nodup := hperm.nodup_iff.mpr h.nodup
      fresh := fun r hr => h.fresh r (hperm.mem_iff.mp hr)
      matched :=
        { answers := answers_append h.matched.answers [.call c]
          sent := ?_ } }
  · simpa [loop, take] using horder.send
  · intro c' hwait
    cases hwait
    simp [loop, take]
  · intro c' hc'
    rcases List.mem_append.mp hc' with hold | hnew
    · exact List.mem_append.mpr (Or.inl (h.matched.sent c' hold))
    · have hsame : c' = c := List.mem_singleton.mp hnew
      subst hsame
      exact List.mem_append.mpr (Or.inr (by simp))

theorem Inv.loop_cast {s : State} (h : Inv s) {caller : ℕ} {msg : List UInt8}
    (hloop : s.server = .loop) :
    Inv { s with commands := s.commands ++ [.cast caller msg] } := by
  have hrefs : refs { s with commands := s.commands ++ [.cast caller msg] } = refs s := by
    simp [refs, Command.ref]
  refine
    { inOrder := by simpa using h.inOrder.send
      busy := ?_
      nodup := by rw [hrefs]; exact h.nodup
      fresh := by rw [hrefs]; exact h.fresh
      matched :=
        { answers := answers_append h.matched.answers [.cast caller msg]
          sent := fun c hc => List.mem_append.mpr (Or.inl (h.matched.sent c hc)) } }
  intro c hwait
  have hwait' : s.server = .receiveResponse c := hwait
  rw [hloop] at hwait'
  cases hwait'

theorem Inv.loop {s : State} (h : Inv s) (hloop : s.server = .loop) {m : Message}
    {mailbox : List Message} (hmail : s.mailbox = m :: mailbox) :
    Inv (loop (take s m mailbox) m) := by
  cases m with
  | call c => exact h.loop_call hmail
  | cast caller msg => exact (h.drop hmail rfl rfl).loop_cast hloop
  | portData n data => exact h.takeData hmail
  | stop => exact (h.drop hmail rfl rfl).move (fun c hwait => by cases hwait)
  | portExit => exact (h.drop hmail rfl rfl).move (fun c hwait => by cases hwait)
  | portClosed => exact h.drop hmail rfl rfl
  | unknown => exact h.drop hmail rfl rfl

theorem Inv.receiveResponse {s : State} (h : Inv s) {c : Call}
    (hwait : s.server = .receiveResponse c) {m : Message} {mailbox : List Message}
    (hmail : s.mailbox = m :: mailbox) (hturn : m.answerOf.isSome → unanswered s = 1)
    (hcall : m.callOf = none) : Inv (receiveResponse (take s m mailbox) c m) := by
  have hother : m.answerOf = none → Inv { take s m mailbox with server := .loop } :=
    fun hanswer => (h.drop hmail hanswer hcall).move (fun c' hwait' => by cases hwait')
  cases m with
  | portData n data =>
      -- The only outstanding answer is that to the last command, the call being served.
      have hone : unanswered s = 1 := hturn rfl
      have horder := h.inOrder
      have hpending : pending s.mailbox = n :: pending mailbox := by
        rw [hmail]
        rfl
      rw [unanswered, hpending] at hone
      rw [hpending] at horder
      have hn : n = s.commands.length - 1 := by
        have hnext := horder.next_eq
        omega
      have hmoved : Inv { take s (.portData n data) mailbox with server := .loop } :=
        (h.takeData hmail).move (fun c' hwait' => by cases hwait')
      exact
        { inOrder := hmoved.inOrder
          busy := hmoved.busy
          nodup := hmoved.nodup
          fresh := hmoved.fresh
          matched :=
            { answers := by
                intro d hd
                rcases List.mem_append.mp hd with hold | hnew
                · exact h.matched.answers d hold
                · rw [List.mem_singleton] at hnew
                  subst hnew
                  show s.commands[n]? = some (.call c)
                  rw [hn]
                  exact h.busy c hwait
              sent := hmoved.matched.sent } }
  | call c' => cases hcall
  | cast caller msg => exact hother rfl
  | stop => exact hother rfl
  | portExit => exact hother rfl
  | portClosed => exact hother rfl
  | unknown => exact hother rfl

theorem Inv.receive {s t : State} (h : Inv s) (hturn : OwnTurn s .receive)
    (hstep : receive s = some t) : Inv t := by
  cases hserver : s.server with
  | loop =>
      cases hmail : s.mailbox with
      | nil => simp [PortProcess.receive, hserver, hmail] at hstep
      | cons m mailbox =>
          simp only [PortProcess.receive, hserver, hmail, Option.some.injEq] at hstep
          rw [← hstep]
          exact h.loop hserver hmail
  | receiveResponse c =>
      cases hmail : s.mailbox with
      | nil => simp [PortProcess.receive, hserver, hmail] at hstep
      | cons m mailbox =>
          rcases hturn c m mailbox rfl hserver hmail with ⟨hone, hcall⟩
          simp only [PortProcess.receive, hserver, hmail, Option.some.injEq] at hstep
          rw [← hstep]
          exact h.receiveResponse hserver hmail hone hcall
  | closing =>
      simp only [PortProcess.receive, hserver] at hstep
      split_ifs at hstep
      cases hstep
      -- `{Port, closed}` is neither an answer nor a call, so none is lost with it.
      refine h.congr (fun c hwait => by cases hwait) ?_ ?_ rfl rfl rfl ?_ rfl
      · exact filterMap_erase rfl s.mailbox
      · rw [refs, refs]
        exact congrArg (· ++ _) (filterMap_erase rfl s.mailbox)
      · simp [take, Message.callOf]
  | exited => simp [PortProcess.receive, hserver] at hstep

theorem Inv.callPort {s : State} (h : Inv s) (caller : ℕ) (msg : List UInt8) :
    let c : Call := { caller := caller, ref := s.calls, msg := msg }
    Inv { PortProcess.post s (.call c) with
          calls := s.calls + 1
          calling := s.calling ++ [c] } := by
  intro c
  have hpending : pending (s.mailbox ++ [.call c]) = pending s.mailbox := by
    rw [pending, List.filterMap_append]
    exact List.append_nil _
  -- The new call is numbered by the counter, which no call in the system has reached.
  have hperm : (refs (PortProcess.post s (.call c))).Perm (s.calls :: refs s) := by
    rw [refs, refs, PortProcess.post, List.filterMap_append, List.append_assoc]
    exact List.perm_middle
  have hfresh : s.calls ∉ refs s := fun hmem => Nat.lt_irrefl _ (h.fresh _ hmem)
  exact
    { inOrder := by
        simp only [PortProcess.post, hpending]
        exact h.inOrder
      busy := h.busy
      nodup := hperm.nodup_iff.mpr (List.nodup_cons.mpr ⟨hfresh, h.nodup⟩)
      fresh := by
        intro r hr
        rcases List.mem_cons.mp (hperm.mem_iff.mp hr) with heq | hold
        · rw [heq]
          exact Nat.lt_succ_self _
        · exact Nat.lt_succ_of_lt (h.fresh r hold)
      matched :=
        { answers := h.matched.answers
          sent := h.matched.sent } }

theorem Inv.portAnswer {s : State} (h : Inv s) (data : List UInt8)
    (hready : s.answered < s.commands.length) :
    Inv { PortProcess.post s (.portData s.answered data) with answered := s.answered + 1 } := by
  have hpending : pending (s.mailbox ++ [.portData s.answered data]) =
      pending s.mailbox ++ [s.answered] := List.filterMap_append
  -- Answers carry no reference, so the calls are the same.
  have hrefs : refs (PortProcess.post s (.portData s.answered data)) = refs s := by
    rw [refs, refs, PortProcess.post, List.filterMap_append]
    exact congrArg (· ++ _) (List.append_nil _)
  exact
    { inOrder := by
        simp only [PortProcess.post, hpending]
        exact h.inOrder.answer hready
      busy := h.busy
      nodup := (congrArg List.Nodup hrefs).mpr h.nodup
      fresh := by
        intro r hr
        have hold : r ∈ refs s := (congrArg (r ∈ ·) hrefs).mp hr
        exact h.fresh r hold
      matched :=
        { answers := h.matched.answers
          sent := h.matched.sent } }

theorem Inv.step {s t : State} {e : Event} (h : Inv s) (hturn : OwnTurn s e)
    (hstep : step s e = some t) : Inv t := by
  cases e with
  | callPort caller msg =>
      simp only [PortProcess.step] at hstep
      split_ifs at hstep
      cases hstep
      exact h.callPort caller msg
  | castPort caller msg =>
      simp only [PortProcess.step] at hstep
      split_ifs at hstep
      cases hstep
      exact h.post rfl rfl
  | stop =>
      simp only [PortProcess.step] at hstep
      split_ifs at hstep
      cases hstep
      exact h.post rfl rfl
  | portAnswer data =>
      simp only [PortProcess.step] at hstep
      split_ifs at hstep with hready
      cases hstep
      exact h.portAnswer data hready.2
  | portTerminates =>
      simp only [PortProcess.step] at hstep
      split_ifs at hstep
      cases hstep
      exact (h.post rfl rfl).congr (fun _ => id) rfl rfl rfl rfl rfl rfl rfl
  | portCloses =>
      simp only [PortProcess.step] at hstep
      split_ifs at hstep
      cases hstep
      exact (h.post rfl rfl).congr (fun _ => id) rfl rfl rfl rfl rfl rfl rfl
  | unknown =>
      cases hstep
      exact h.post rfl rfl
  | receive => exact h.receive hturn hstep

/-! ## Out of turn -/

/-- An answer taken while another one is outstanding belongs to an earlier command. -/
theorem not_answered_data {s : State} (h : Inv s) {c : Call}
    (hwait : s.server = .receiveResponse c) {n : ℕ} {data : List UInt8}
    {mailbox : List Message} (hmail : s.mailbox = .portData n data :: mailbox)
    (hmore : unanswered s ≠ 1) :
    ¬ Answered (receiveResponse (take s (.portData n data) mailbox) c (.portData n data)) := by
  intro hmatched
  have hown : s.commands[n]? = some (.call c) :=
    hmatched.answers ⟨c, n, data⟩ (by simp [receiveResponse])
  -- If the answer were to this call, it would be to the command sent last.
  have hn : n = s.commands.length - 1 :=
    index_unique (List.nodup_append.mp h.nodup).2.1 hown (h.busy c hwait)
  have hlt := (List.getElem?_eq_some_iff.mp hown).1
  have hpending : pending s.mailbox = n :: pending mailbox := by
    rw [hmail]
    rfl
  have horder := h.inOrder
  rw [hpending] at horder
  rw [unanswered, hpending] at hmore
  have hnext := horder.next_eq
  omega

/-- A call taken by `receive_response/3` is never sent. -/
theorem not_answered_call {s : State} (h : Inv s) {c c' : Call} {mailbox : List Message}
    (hmail : s.mailbox = .call c' :: mailbox) :
    ¬ Answered (receiveResponse (take s (.call c') mailbox) c (.call c')) := by
  intro hmatched
  have hsent : .call c' ∈ s.commands :=
    hmatched.sent c' (by simp [receiveResponse, take, Message.callOf])
  exact h.not_sent (by simp [hmail]) hsent

theorem not_answered {s t : State} {e : Event} (h : Inv s) (hstep : step s e = some t)
    (hturn : ¬ OwnTurn s e) : ¬ Answered t := by
  simp only [OwnTurn, not_forall] at hturn
  rcases hturn with ⟨c, m, mailbox, rfl, hwait, hmail, hout⟩
  simp only [step, receive, hwait, hmail, Option.some.injEq] at hstep
  rw [← hstep]
  -- A message that is neither an answer nor a call is never out of turn.
  have hother : m.answerOf = none → m.callOf ≠ none := by
    intro hanswer hcall
    refine hout ⟨fun hsome => ?_, hcall⟩
    rw [hanswer] at hsome
    cases hsome
  cases m with
  | portData n data =>
      refine not_answered_data h hwait hmail ?_
      intro hone
      exact hout ⟨fun _ => hone, rfl⟩
  | call c' => exact not_answered_call h hmail
  | cast caller msg => exact absurd rfl (hother rfl)
  | stop => exact absurd rfl (hother rfl)
  | portExit => exact absurd rfl (hother rfl)
  | portClosed => exact absurd rfl (hother rfl)
  | unknown => exact absurd rfl (hother rfl)

/-! ## Runs -/

/-- Requests and answers match throughout a run exactly if `receive_response/3` takes no call,
and an answer only when it is the one answer outstanding. -/
theorem answered_iff_ownTurn (es : List Event) :
    Throughout step Answered init es ↔ Along step OwnTurn init es :=
  throughout_iff_along (fun _ _ _ h hturn hstep => h.step hturn hstep)
    (fun _ h => h.matched)
    (fun _ _ _ h hstep hturn => not_answered h hstep hturn) init_inv

/-- A cast and then a call: the caller gets the answer to the cast. -/
theorem not_answered_castCall :
    ¬ Throughout step Answered init
      [.castPort 1 [0, 2, 0, 0], .receive, .callPort 2 [0, 0, 0, 1], .receive,
        .portAnswer [49, 57, 55, 48], .receive] := by
  intro h
  have hown := ((((((h.2 _ rfl).2 _ rfl).2 _ rfl).2 _ rfl).2 _ rfl).2 _ rfl).answers
    ⟨⟨2, 0, [0, 0, 0, 1]⟩, 0, [49, 57, 55, 48]⟩ (by decide)
  exact absurd hown (by decide)

end PortProcess
end Clock
end Etude
