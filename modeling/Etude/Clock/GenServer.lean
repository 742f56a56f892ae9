import Etude.Base.Answers
import Etude.Base.Run

/-!
# GenServer — who gets which answer from the `gen_server` version of `clock.erl`

The system is the server process with its mailbox, the port, and the clients inside `call_port/1`.
`handle_call/3` sends the request to the port and then takes the next message out of the mailbox,
whatever it is.  The replies are right as long as that message is the port's.
-/

namespace Etude
namespace Clock
namespace GenServer

open Base

/-! ## Messages -/

/-- A call of `call_port/1`; `ref` numbers the calls. -/
structure Call where
  pid : ℕ
  ref : ℕ
  request : List UInt8
  deriving DecidableEq, Repr

/-- The messages in the mailbox of the server. -/
inductive Message
  /-- `{'$gen_call', From, Request}` -/
  | genCall (c : Call)
  /-- `{'$gen_cast', Msg}` -/
  | genCast
  /-- `{Port, {data, Data}}`; `n` is the number of the command it answers and is read by no
  branch. -/
  | portData (n : ℕ) (data : List UInt8)
  /-- `{'EXIT', Port, Reason}` -/
  | portExit
  /-- `{'EXIT', Parent, Reason}` -/
  | parentExit
  /-- Anything else. -/
  | info
  deriving DecidableEq, Repr

/-- What `handle_call/3` returns in `{reply, Reply, State}`. -/
inductive Reply
  | response (n : ℕ) (data : List UInt8)
  | unexpected (x : Message)
  deriving DecidableEq, Repr

/-- Where the server process is. -/
inductive Server
  /-- In the loop of `gen_server`. -/
  | loop
  /-- In the `receive` of `handle_call/3`, for the call `c`. -/
  | waiting (c : Call)
  | exited
  deriving DecidableEq, Repr

/-! ## The system -/

/-- `commands` is what the port was sent, and it has answered the first `answered` of them.
`consumed` and `replies` record the calls taken out of the mailbox and the replies given; no
branch reads them. -/
structure State where
  mailbox : List Message
  server : Server
  commands : List Call
  answered : ℕ
  portOpen : Bool
  calls : ℕ
  calling : List Call
  consumed : List Call
  replies : List (Call × Reply)
  deriving DecidableEq, Repr

inductive Event
  /-- A client enters `call_port/1`. -/
  | call (pid : ℕ) (request : List UInt8)
  /-- `gen_server:call/2` gives up. -/
  | callTimeout (c : Call)
  /-- The port answers its next command. -/
  | portAnswer (data : List UInt8)
  | portTerminates
  /-- Another message arrives: a cast, the exit of the parent, or an unknown one. -/
  | genCast
  | parentExits
  | info
  /-- The server takes the next message out of its mailbox. -/
  | receive
  deriving DecidableEq, Repr

def init : State :=
  { mailbox := []
    server := .loop
    commands := []
    answered := 0
    portOpen := true
    calls := 0
    calling := []
    consumed := []
    replies := [] }

/-- The call in a message. -/
def Message.callOf : Message → Option Call
  | .genCall c => some c
  | _ => none

/-- The first message leaves the mailbox. -/
def take (s : State) (m : Message) (mailbox : List Message) : State :=
  { s with
    mailbox := mailbox
    consumed := s.consumed ++ m.callOf.toList }

def post (s : State) (m : Message) : State :=
  { s with mailbox := s.mailbox ++ [m] }

/-- `handle_call/3` up to its `receive`. -/
def handleCall (s : State) (c : Call) : State :=
  { s with
    commands := s.commands ++ [c]
    server := .waiting c }

/-- The `receive` of `handle_call/3`: the clause for the port, and the clause `X`. -/
def handleResponse (s : State) (c : Call) (m : Message) : State :=
  let reply : Reply :=
    match m with
    | .portData n data => .response n data
    | x => .unexpected x
  { s with
    server := .loop
    calling := s.calling.filter fun c' => c' ≠ c
    replies := s.replies ++ [(c, reply)] }

/-- `handle_info/2`; what it prints is left out. -/
def handleInfo (s : State) : Message → State
  | .portExit => { s with server := .exited }
  | _ => s

/-- The loop of `gen_server`, for one message. -/
def dispatchMessage (s : State) : Message → State
  | .genCall c => handleCall s c
  | .genCast => s
  | .parentExit => { s with server := .exited }
  | m => handleInfo s m

/-- The server takes the message `m`, the first in its mailbox. -/
def receive (s : State) (m : Message) : Option State :=
  match s.server with
  | .loop => some (dispatchMessage s m)
  | .waiting c => some (handleResponse s c m)
  | .exited => none

def step (s : State) : Event → Option State
  | .call pid request =>
      -- A client sleeps in `gen_server:call/2`, so it has one call at a time.
      if s.server ≠ .exited ∧ pid ∉ s.calling.map Call.pid then
        let c : Call := { pid := pid, ref := s.calls, request := request }
        some { post s (.genCall c) with calls := s.calls + 1, calling := s.calling ++ [c] }
      else
        none
  | .callTimeout c =>
      -- The server is not told: the call stays in its mailbox, or in service.
      if c ∈ s.calling then
        some { s with calling := s.calling.filter fun c' => c' ≠ c }
      else
        none
  | .portAnswer data =>
      if s.portOpen = true ∧ s.answered < s.commands.length then
        some { post s (.portData s.answered data) with answered := s.answered + 1 }
      else
        none
  | .portTerminates =>
      if s.portOpen = true then some { post s .portExit with portOpen := false } else none
  | .genCast => some (post s .genCast)
  | .parentExits => some (post s .parentExit)
  | .info => some (post s .info)
  | .receive =>
      match s.mailbox with
      | [] => none
      | m :: mailbox => receive (take s m mailbox) m

/-! ## Requests and answers match -/

/-- The reply is the port's answer to the request of the call. -/
def Reply.IsAnswerTo (commands : List Call) (c : Call) : Reply → Prop
  | .response n _ => commands[n]? = some c
  | .unexpected _ => False

/-- Every reply is the port's answer to the client's own request, and every call taken out of the
mailbox has been forwarded, and is being served or has been answered. -/
structure Matched (s : State) : Prop where
  answers : ∀ p ∈ s.replies, p.2.IsAnswerTo s.commands p.1
  forwarded : ∀ c ∈ s.consumed, c ∈ s.commands
  served : ∀ c ∈ s.consumed, s.server = .waiting c ∨ c ∈ s.replies.map Prod.fst

/-- When `handle_call/3` takes a message, it is the port's. -/
def PortFirst (s : State) (e : Event) : Prop :=
  ∀ c, e = .receive → s.server = .waiting c →
    ∃ n data mailbox, s.mailbox = .portData n data :: mailbox

/-! ## The invariant -/

/-- The number of the command that a message of the port answers. -/
def Message.answerOf : Message → Option ℕ
  | .portData n _ => some n
  | _ => none

def pending (mailbox : List Message) : List ℕ :=
  mailbox.filterMap Message.answerOf

/-- In the loop no answer is outstanding, and `handle_call/3` waits for the only one. -/
structure Inv (s : State) : Prop where
  inOrder : InOrder s.commands.length s.answered (pending s.mailbox)
  idle : s.server = .loop → outstanding s.commands.length s.answered (pending s.mailbox) = 0
  busy : ∀ c, s.server = .waiting c →
    outstanding s.commands.length s.answered (pending s.mailbox) = 1 ∧
      s.commands[s.commands.length - 1]? = some c
  matched : Matched s

theorem init_inv : Inv init :=
  { inOrder := InOrder.start
    idle := fun _ => rfl
    busy := fun _ h => by cases h
    matched :=
      { answers := fun _ h => by cases h
        forwarded := fun _ h => by cases h
        served := fun _ h => by cases h } }

theorem Reply.IsAnswerTo.append {commands : List Call} {c : Call} {r : Reply}
    (h : r.IsAnswerTo commands c) (more : List Call) : r.IsAnswerTo (commands ++ more) c := by
  cases r with
  | response n data =>
      have hlt : n < commands.length := (List.getElem?_eq_some_iff.mp h).1
      show (commands ++ more)[n]? = some c
      rw [List.getElem?_append_left hlt]
      exact h
  | unexpected x => exact h

@[simp] theorem pending_cons_data (n : ℕ) (data : List UInt8) (mailbox : List Message) :
    pending (.portData n data :: mailbox) = n :: pending mailbox :=
  rfl

theorem pending_cons_other {m : Message} (hm : m.answerOf = none) (mailbox : List Message) :
    pending (m :: mailbox) = pending mailbox := by
  simp [pending, hm]

theorem pending_append (mailbox : List Message) (m : Message) :
    pending (mailbox ++ [m]) = pending mailbox ++ pending [m] :=
  List.filterMap_append

/-- The invariant reads the server, the mailbox up to the answers in it, and the records of
commands, calls and replies. -/
theorem Inv.congr {s t : State} (h : Inv s) (hserver : t.server = s.server)
    (hmailbox : pending t.mailbox = pending s.mailbox) (hcommands : t.commands = s.commands)
    (hanswered : t.answered = s.answered) (hconsumed : t.consumed = s.consumed)
    (hreplies : t.replies = s.replies) : Inv t :=
  { inOrder := by rw [hmailbox, hcommands, hanswered]; exact h.inOrder
    idle := by rw [hserver, hmailbox, hcommands, hanswered]; exact h.idle
    busy := by rw [hserver, hmailbox, hcommands, hanswered]; exact h.busy
    matched :=
      { answers := by rw [hreplies, hcommands]; exact h.matched.answers
        forwarded := by rw [hconsumed, hcommands]; exact h.matched.forwarded
        served := by rw [hconsumed, hserver, hreplies]; exact h.matched.served } }

/-- A message that is not an answer of the port may arrive at any time. -/
theorem Inv.post {s : State} (h : Inv s) {m : Message} (hm : m.answerOf = none) :
    Inv (post s m) := by
  refine h.congr rfl ?_ rfl rfl rfl rfl
  rw [GenServer.post, pending_append, pending_cons_other hm]
  exact List.append_nil _

/-- In the loop every consumed call has been answered, and the server may leave it. -/
theorem Inv.exit {s : State} (h : Inv s) (hloop : s.server = .loop) :
    Inv { s with server := .exited } := by
  have hserved : ∀ c ∈ s.consumed, c ∈ s.replies.map Prod.fst := by
    intro c hc
    rcases h.matched.served c hc with hwait | hreply
    · rw [hloop] at hwait
      cases hwait
    · exact hreply
  exact
    { inOrder := h.inOrder
      idle := fun hexit => by cases hexit
      busy := fun c hexit => by cases hexit
      matched :=
        { answers := h.matched.answers
          forwarded := h.matched.forwarded
          served := fun c hc => Or.inr (hserved c hc) } }

theorem Inv.handleCall {s : State} {c : Call} {mailbox : List Message} (h : Inv s)
    (hmail : s.mailbox = .genCall c :: mailbox) (hloop : s.server = .loop) :
    Inv (handleCall (take s (.genCall c) mailbox) c) := by
  have hidle := h.idle hloop
  have hlen : (s.commands ++ [c]).length = s.commands.length + 1 := by simp
  have hpending : pending s.mailbox = pending mailbox := by
    rw [hmail, pending_cons_other rfl]
  have horder := h.inOrder
  rw [hpending] at hidle horder
  -- Idle before, so after the command is sent exactly one answer is outstanding.
  refine
    { inOrder := ?_
      idle := fun hserver => by cases hserver
      busy := ?_
      matched :=
        { answers := fun p hp => (h.matched.answers p hp).append [c]
          forwarded := ?_
          served := ?_ } }
  · simp only [GenServer.handleCall, take, hlen]
    exact horder.send
  · intro c' hserver
    cases hserver
    constructor
    · simp only [GenServer.handleCall, take, hlen]
      rw [outstanding_send horder.answered_le, hidle]
    · simp [GenServer.handleCall, take]
  · intro c' hc'
    rcases List.mem_append.mp hc' with hold | hnew
    · exact List.mem_append.mpr (Or.inl (h.matched.forwarded c' hold))
    · exact List.mem_append.mpr (Or.inr hnew)
  · intro c' hc'
    rcases List.mem_append.mp hc' with hold | hnew
    · rcases h.matched.served c' hold with hwait | hreply
      · rw [hloop] at hwait
        cases hwait
      · exact Or.inr hreply
    · have hsame : c' = c := List.mem_singleton.mp hnew
      subst hsame
      exact Or.inl rfl

/-- The port's message is the answer to the call being served. -/
theorem Inv.handleResponse {s : State} {n : ℕ} {data : List UInt8} {mailbox : List Message}
    (h : Inv s) (hmail : s.mailbox = .portData n data :: mailbox) {c : Call}
    (hwait : s.server = .waiting c) :
    Inv (handleResponse (take s (.portData n data) mailbox) c (.portData n data)) := by
  -- One answer is outstanding, so it is the answer to the last command.
  rcases h.busy c hwait with ⟨hone, hlast⟩
  have horder := h.inOrder
  rw [hmail, pending_cons_data] at hone horder
  have hn : n = s.commands.length - 1 := by
    have hnext := horder.next_eq
    omega
  rw [outstanding_receive] at hone
  refine
    { inOrder := horder.receive
      idle := fun _ => Nat.succ.inj hone
      busy := fun c' hserver => by cases hserver
      matched :=
        { answers := ?_
          forwarded := by
            simpa [GenServer.handleResponse, take, Message.callOf] using h.matched.forwarded
          served := ?_ } }
  · intro p hp
    rcases List.mem_append.mp hp with hold | hnew
    · exact h.matched.answers p hold
    · rw [List.mem_singleton] at hnew
      subst hnew
      show s.commands[n]? = some c
      rw [hn]
      exact hlast
  -- The call that was being served is now among the replies.
  · intro c' hc'
    have hold : c' ∈ s.consumed := by
      simpa [GenServer.handleResponse, take, Message.callOf] using hc'
    refine Or.inr ?_
    rw [GenServer.handleResponse, List.map_append]
    rcases h.matched.served c' hold with hserver | hreply
    · rw [hwait] at hserver
      cases hserver
      exact List.mem_append.mpr (Or.inr (by simp))
    · exact List.mem_append.mpr (Or.inl hreply)

/-- In the loop there is no answer of the port in the mailbox. -/
theorem Inv.head_other {s : State} (h : Inv s) (hloop : s.server = .loop) {m : Message}
    {mailbox : List Message} (hmail : s.mailbox = m :: mailbox) : m.answerOf = none := by
  have hidle := h.idle hloop
  cases m with
  | portData n data =>
      rw [hmail, pending_cons_data, outstanding_receive] at hidle
      cases hidle
  | genCall c => rfl
  | genCast => rfl
  | portExit => rfl
  | parentExit => rfl
  | info => rfl

section Receive

variable {s : State} {m : Message} {mailbox : List Message}

theorem step_receive_loop (hmail : s.mailbox = m :: mailbox) (hserver : s.server = .loop) :
    step s .receive = some (dispatchMessage (take s m mailbox) m) := by
  have htaken : (take s m mailbox).server = s.server := rfl
  simp only [step, hmail]
  rw [receive, htaken, hserver]

theorem step_receive_waiting {c : Call} (hmail : s.mailbox = m :: mailbox)
    (hserver : s.server = .waiting c) :
    step s .receive = some (handleResponse (take s m mailbox) c m) := by
  have htaken : (take s m mailbox).server = s.server := rfl
  simp only [step, hmail]
  rw [receive, htaken, hserver]

end Receive

theorem Inv.receive {s t : State} (h : Inv s) (hfirst : PortFirst s .receive)
    (hstep : step s .receive = some t) : Inv t := by
  cases hmail : s.mailbox with
  | nil => simp [step, hmail] at hstep
  | cons m mailbox =>
      cases hserver : s.server with
      | loop =>
          -- In the loop nothing is outstanding, so the message cannot be an answer.
          have hother := h.head_other hserver hmail
          have htail : m.callOf = none → Inv (take s m mailbox) := by
            intro hcall
            refine h.congr rfl ?_ rfl rfl ?_ rfl
            · rw [hmail, pending_cons_other hother]
              rfl
            · simp [take, hcall]
          rw [step_receive_loop hmail hserver, Option.some.injEq] at hstep
          subst hstep
          cases m with
          | genCall c => exact h.handleCall hmail hserver
          | genCast => exact htail rfl
          | portData n data => cases hother
          | portExit => exact (htail rfl).exit hserver
          | parentExit => exact (htail rfl).exit hserver
          | info => exact htail rfl
      | waiting c =>
          -- The condition on the step makes the message the port's answer.
          rcases hfirst c rfl hserver with ⟨n, data, rest, hport⟩
          rw [hmail, List.cons.injEq] at hport
          rcases hport with ⟨rfl, rfl⟩
          rw [step_receive_waiting hmail hserver, Option.some.injEq] at hstep
          subst hstep
          exact h.handleResponse hmail hserver
      | exited => simp [step, hmail, GenServer.receive, take, hserver] at hstep

theorem Inv.step {s t : State} {e : Event} (h : Inv s) (hfirst : PortFirst s e)
    (hstep : step s e = some t) : Inv t := by
  cases e with
  | call pid request =>
      simp only [GenServer.step] at hstep
      split_ifs at hstep
      cases hstep
      exact (h.post rfl).congr rfl rfl rfl rfl rfl rfl
  | callTimeout c =>
      simp only [GenServer.step] at hstep
      split_ifs at hstep
      cases hstep
      exact h.congr rfl rfl rfl rfl rfl rfl
  | portAnswer data =>
      simp only [GenServer.step] at hstep
      split_ifs at hstep with hready
      cases hstep
      have hmail : pending (s.mailbox ++ [.portData s.answered data]) =
          pending s.mailbox ++ [s.answered] := pending_append _ _
      -- An answer moves from the port to the mailbox and stays outstanding.
      have hsame : outstanding s.commands.length (s.answered + 1)
          (pending s.mailbox ++ [s.answered]) =
            outstanding s.commands.length s.answered (pending s.mailbox) :=
        outstanding_answer hready.2
      exact
        { inOrder := by
            simp only [GenServer.post, hmail]
            exact h.inOrder.answer hready.2
          idle := by
            simp only [GenServer.post, hmail, hsame]
            exact h.idle
          busy := by
            simp only [GenServer.post, hmail, hsame]
            exact h.busy
          matched :=
            { answers := h.matched.answers
              forwarded := h.matched.forwarded
              served := h.matched.served } }
  | portTerminates =>
      simp only [GenServer.step] at hstep
      split_ifs at hstep
      cases hstep
      exact (h.post rfl).congr rfl rfl rfl rfl rfl rfl
  | genCast =>
      cases hstep
      exact h.post rfl
  | parentExits =>
      cases hstep
      exact h.post rfl
  | info =>
      cases hstep
      exact h.post rfl
  | receive => exact h.receive hfirst hstep

/-- The clause `X` gives a reply that is no answer of the port. -/
theorem not_matched_of_not_portFirst {s t : State} {e : Event} (hstep : step s e = some t)
    (hfirst : ¬ PortFirst s e) : ¬ Matched t := by
  simp only [PortFirst, not_forall] at hfirst
  rcases hfirst with ⟨c, rfl, hwait, hnone⟩
  cases hmail : s.mailbox with
  | nil => simp [step, hmail] at hstep
  | cons m mailbox =>
      -- The reply is `X` for every message but the port's.
      rw [step_receive_waiting hmail hwait, Option.some.injEq] at hstep
      subst hstep
      intro hmatched
      have hlast := hmatched.answers (c, .unexpected m)
      cases m with
      | portData n data => exact hnone ⟨n, data, mailbox, hmail⟩
      | genCall c' => exact hlast (by simp [handleResponse])
      | genCast => exact hlast (by simp [handleResponse])
      | portExit => exact hlast (by simp [handleResponse])
      | parentExit => exact hlast (by simp [handleResponse])
      | info => exact hlast (by simp [handleResponse])

/-! ## Runs -/

/-- Requests and answers match throughout a run exactly if `handle_call/3` finds the port's
message first whenever it takes one. -/
theorem matched_iff_portFirst (es : List Event) :
    Throughout step Matched init es ↔ Along step PortFirst init es :=
  throughout_iff_along (fun _ _ _ h hfirst hstep => h.step hfirst hstep)
    (fun _ h => h.matched)
    (fun _ _ _ _ hstep hfirst => not_matched_of_not_portFirst hstep hfirst) init_inv

/-- Two clients call before the port answers: the first gets the other's call as its reply. -/
theorem not_matched_twoClients :
    ¬ Throughout step Matched init
      [.call 1 [0, 0, 0, 1], .call 2 [0, 1, 0, 1], .receive, .receive] := by
  intro h
  have hmatched := ((((h.2 _ rfl).2 _ rfl).2 _ rfl).2 _ rfl).answers
    (⟨1, 0, [0, 0, 0, 1]⟩, .unexpected (.genCall ⟨2, 1, [0, 1, 0, 1]⟩)) (by decide)
  exact hmatched

end GenServer
end Clock
end Etude
