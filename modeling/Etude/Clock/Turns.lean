import Etude.Clock.Calls
import Etude.Clock.PortProcess

/-!
# Turns — which answers of the port can reach a caller

Both versions of `clock.erl` take an answer of the port for that to the call in service, and both
may be behind.  However far they are, the answers are given away in the order of the port, none of
them twice, and none to a caller whose command the port was sent before the one it answers.
-/

namespace Etude
namespace Clock

open Base

/-! ## The `gen_server` version -/

namespace GenServer

/-- The number of the command that a reply answers. -/
def Reply.number : Reply → Option ℕ
  | .response n _ => some n
  | .unexpected _ => none

def numbers (replies : List (Call × Reply)) : List ℕ :=
  replies.filterMap fun p => p.2.number

structure Turns (s : State) : Prop where
  inOrder : InOrder s.commands.length s.answered (pending s.mailbox)
  inTurn : InTurn s.answered (pending s.mailbox) (numbers s.replies)
  /-- The reply number `i` is given to the command number `i`. -/
  notAhead : ∀ (i : ℕ) (c : Call) (n : ℕ) (data : List UInt8),
    s.replies[i]? = some (c, .response n data) → n ≤ i

theorem init_turns : Turns init :=
  { inOrder := InOrder.start
    inTurn := InTurn.start
    notAhead := fun _ _ _ _ h => by cases h }

theorem Turns.congr {s t : State} (h : Turns s) (hmailbox : pending t.mailbox = pending s.mailbox)
    (hcommands : t.commands = s.commands) (hanswered : t.answered = s.answered)
    (hreplies : t.replies = s.replies) : Turns t :=
  { inOrder := by rw [hmailbox, hcommands, hanswered]; exact h.inOrder
    inTurn := by rw [hmailbox, hanswered, hreplies]; exact h.inTurn
    notAhead := by rw [hreplies]; exact h.notAhead }

theorem Turns.post {s : State} (h : Turns s) {m : Message} (hm : m.answerOf = none) :
    Turns (post s m) := by
  refine h.congr ?_ rfl rfl rfl
  rw [GenServer.post, pending_append, pending_cons_other hm]
  exact List.append_nil _

/-- A message leaves the mailbox and nobody is given it. -/
theorem Turns.take {s : State} (h : Turns s) {m : Message} {mailbox : List Message}
    (hmail : s.mailbox = m :: mailbox) : Turns (take s m mailbox) := by
  cases hm : m.answerOf with
  | none =>
      refine h.congr ?_ rfl rfl rfl
      rw [hmail, pending_cons_other hm]
      rfl
  | some n =>
      have hpending : pending s.mailbox = n :: pending mailbox := by
        rw [hmail, pending, List.filterMap_cons_some hm]
        rfl
      have horder := h.inOrder
      have hturn := h.inTurn
      rw [hpending] at horder hturn
      exact
        { inOrder := horder.receive
          inTurn := hturn.pass
          notAhead := h.notAhead }

/-- The port is sent one more command. -/
theorem Turns.handleCall {s : State} (h : Turns s) (c : Call) : Turns (handleCall s c) :=
  { inOrder := by
      rw [GenServer.handleCall, List.length_append]
      exact h.inOrder.send
    inTurn := h.inTurn
    notAhead := h.notAhead }

/-- A reply that is no answer of the port. -/
theorem Turns.unexpected {s : State} (h : Turns s) (c : Call) (m : Message) :
    Turns
      { s with
        server := .loop
        calling := s.calling.filter fun c' => c' ≠ c
        replies := s.replies ++ [(c, .unexpected m)] } :=
  { inOrder := h.inOrder
    inTurn := by simpa [numbers, Reply.number] using h.inTurn
    notAhead := by
      intro i c' n data hi
      rcases Nat.lt_or_ge i s.replies.length with hlt | hge
      · exact h.notAhead i c' n data ((List.getElem?_append_left hlt).symm.trans hi)
      · have hnew := (List.getElem?_append_right hge).symm.trans hi
        cases List.mem_singleton.mp (List.mem_of_getElem? hnew) }

theorem Turns.handleResponse {s : State} (h : Turns s) (hs : Accounted s) {c : Call} {m : Message}
    {mailbox : List Message} (hmail : s.mailbox = m :: mailbox) (hwait : s.server = .waiting c) :
    Turns (handleResponse (GenServer.take s m mailbox) c m) := by
  have htaken := h.take hmail
  cases m with
  | portData n data =>
      have hpending : pending s.mailbox = n :: pending mailbox := by
        rw [hmail, pending_cons_data]
      have horder := h.inOrder
      have hturn := h.inTurn
      rw [hpending] at horder hturn
      -- The call in service is the only command without a reply.
      have hlength : s.commands.length = s.replies.length + 1 := by
        have hone : s.server.inService = [c] := by rw [hwait]; rfl
        rw [hs.forwarded, hone, List.length_append, List.length_map]
        rfl
      -- The answers still to come are not more than the commands from this one on.
      have hn : n ≤ s.replies.length := by
        have hnext := horder.next_eq
        rw [outstanding_receive, hlength] at hnext
        omega
      refine
        { inOrder := horder.receive
          inTurn := ?_
          notAhead := ?_ }
      · have hkept := hturn.keep horder
        simpa [GenServer.handleResponse, numbers, GenServer.take, Reply.number] using hkept
      · intro i c' k data' hi
        rcases Nat.lt_or_ge i s.replies.length with hlt | hge
        · exact h.notAhead i c' k data' ((List.getElem?_append_left hlt).symm.trans hi)
        · have hnew := (List.getElem?_append_right hge).symm.trans hi
          have heq := List.mem_singleton.mp (List.mem_of_getElem? hnew)
          cases heq
          exact Nat.le_trans hn hge
  | genCall c' => exact htaken.unexpected c (.genCall c')
  | genCast => exact htaken.unexpected c .genCast
  | portExit => exact htaken.unexpected c .portExit
  | parentExit => exact htaken.unexpected c .parentExit
  | info => exact htaken.unexpected c .info

theorem Turns.exit {s : State} (h : Turns s) : Turns { s with server := .exited } :=
  h.congr rfl rfl rfl rfl

theorem Turns.dispatch {s : State} (h : Turns s) {m : Message} {mailbox : List Message}
    (hmail : s.mailbox = m :: mailbox) :
    Turns (dispatchMessage (GenServer.take s m mailbox) m) := by
  have htaken := h.take hmail
  cases m with
  | genCall c => exact htaken.handleCall c
  | genCast => exact htaken
  | portData n data => exact htaken
  | portExit => exact htaken.exit
  | parentExit => exact htaken.exit
  | info => exact htaken

/-- The port gives its next answer. -/
theorem Turns.portAnswer {s : State} (h : Turns s) (data : List UInt8)
    (hready : s.answered < s.commands.length) :
    Turns { GenServer.post s (.portData s.answered data) with answered := s.answered + 1 } := by
  have hmail : pending (s.mailbox ++ [.portData s.answered data]) =
      pending s.mailbox ++ [s.answered] := pending_append _ _
  exact
    { inOrder := by
        simp only [GenServer.post, hmail]
        exact h.inOrder.answer hready
      inTurn := by
        simp only [GenServer.post, hmail]
        exact h.inTurn.answer h.inOrder.length_le
      notAhead := h.notAhead }

theorem Turns.step {s t : State} {e : Event} (h : Turns s) (hs : Accounted s)
    (hstep : step s e = some t) : Turns t := by
  rcases step_cases hstep with ⟨pid, request, calling, rfl⟩ | ⟨calling, rfl⟩ |
    ⟨data, hready, rfl⟩ | ⟨m, portOpen, -, hanswer, rfl⟩ | ⟨m, mailbox, hmail, -, rfl⟩ |
    ⟨m, mailbox, c, hmail, hwait, rfl⟩
  · exact (h.post rfl).congr rfl rfl rfl rfl
  · exact h.congr rfl rfl rfl rfl
  · exact h.portAnswer data hready
  · exact (h.post hanswer).congr rfl rfl rfl rfl
  · exact h.dispatch hmail
  · exact h.handleResponse hs hmail hwait

/-- In every run the replies that are answers of the port carry them in the order in which the port
gave them and none twice, and the answer in a reply is that to the command of the same call or to
one sent before it. -/
theorem replies_in_turn {es : List Event} {s : State} (h : run step init es = some s) :
    (numbers s.replies).Pairwise (· < ·) ∧
      ∀ (i : ℕ) (c : Call) (n : ℕ) (data : List UInt8),
        s.replies[i]? = some (c, .response n data) → s.commands[i]? = some c ∧ n ≤ i := by
  have hkeep : ∀ s e t, Accounted s ∧ Turns s → step s e = some t → Accounted t ∧ Turns t :=
    fun _ _ _ hs hstep => ⟨hs.1.step hstep, hs.2.step hs.1 hstep⟩
  have hs := run_keeps hkeep ⟨init_accounted, init_turns⟩ h
  refine ⟨hs.2.inTurn.ascending, fun i c n data hi => ⟨?_, hs.2.notAhead i c n data hi⟩⟩
  have hmap : (s.replies.map Prod.fst)[i]? = some c := by
    rw [List.getElem?_map, hi]
    rfl
  have hlt := (List.getElem?_eq_some_iff.mp hmap).1
  -- The calls replied to are the first of the commands.
  rw [hs.1.forwarded, List.getElem?_append_left hlt]
  exact hmap

/-- The reply to the first call is another message, and its answer goes to the second call. -/
def lateAnswer : List Event :=
  [.call 1 [0], .info, .receive, .receive, .call 2 [1], .receive, .portAnswer [7], .receive]

def lateAnswerGiven : State :=
  let call (k : ℕ) : Call := { pid := k + 1, ref := k, request := [UInt8.ofNat k] }
  { mailbox := []
    server := .loop
    commands := [call 0, call 1]
    answered := 1
    portOpen := true
    calls := 2
    calling := []
    consumed := [call 0, call 1]
    replies := [(call 0, .unexpected .info), (call 1, .response 0 [7])] }

theorem replies_in_turn_lateAnswer :
    run step init lateAnswer = some lateAnswerGiven ∧
      (numbers lateAnswerGiven.replies).Pairwise (· < ·) ∧
      ∃ c, lateAnswerGiven.replies[1]? = some (c, .response 0 [7]) ∧
        lateAnswerGiven.commands[1]? = some c := by
  have hrun : run step init lateAnswer = some lateAnswerGiven := by decide
  have hturn := replies_in_turn hrun
  exact ⟨hrun, hturn.1, _, rfl, (hturn.2 1 _ 0 [7] rfl).1⟩

end GenServer

/-! ## The plain process version -/

namespace PortProcess

/-- The call that `receive_response/3` serves. -/
def Server.inService : Server → List Call
  | .receiveResponse c => [c]
  | _ => []

structure Turns (s : State) : Prop where
  inOrder : InOrder s.commands.length s.answered (pending s.mailbox)
  inTurn : InTurn s.answered (pending s.mailbox) (s.delivered.map Delivery.n)
  last : ∀ c, s.server = .receiveResponse c →
    s.commands[s.commands.length - 1]? = some (.call c)
  served : ((s.delivered.map Delivery.call ++ s.server.inService).map Command.call).Sublist
    s.commands
  notAhead : ∀ d ∈ s.delivered, ∃ k, s.commands[k]? = some (.call d.call) ∧ d.n ≤ k

theorem init_turns : Turns init :=
  { inOrder := InOrder.start
    inTurn := InTurn.start
    last := fun _ h => by cases h
    served := List.Sublist.slnil
    notAhead := fun _ h => by cases h }

theorem Turns.congr {s t : State} (h : Turns s) (hmailbox : pending t.mailbox = pending s.mailbox)
    (hserver : t.server = s.server) (hcommands : t.commands = s.commands)
    (hanswered : t.answered = s.answered) (hdelivered : t.delivered = s.delivered) : Turns t :=
  { inOrder := by rw [hmailbox, hcommands, hanswered]; exact h.inOrder
    inTurn := by rw [hmailbox, hanswered, hdelivered]; exact h.inTurn
    last := by rw [hserver, hcommands]; exact h.last
    served := by rw [hserver, hcommands, hdelivered]; exact h.served
    notAhead := by rw [hcommands, hdelivered]; exact h.notAhead }

theorem Turns.post {s : State} (h : Turns s) {m : Message} (hm : m.answerOf = none) :
    Turns (post s m) := by
  refine h.congr ?_ rfl rfl rfl rfl
  simp [PortProcess.post, pending, hm]

/-- A message leaves the mailbox and nobody is given it. -/
theorem Turns.take {s : State} (h : Turns s) {m : Message} {mailbox : List Message}
    (hmail : s.mailbox = m :: mailbox) : Turns (take s m mailbox) := by
  cases hm : m.answerOf with
  | none =>
      have hpending : pending s.mailbox = pending mailbox := by
        rw [hmail, pending, List.filterMap_cons_none hm]
        rfl
      exact h.congr hpending.symm rfl rfl rfl rfl
  | some n =>
      have hpending : pending s.mailbox = n :: pending mailbox := by
        rw [hmail, pending, List.filterMap_cons_some hm]
        rfl
      have horder := h.inOrder
      have hturn := h.inTurn
      rw [hpending] at horder hturn
      exact
        { inOrder := horder.receive
          inTurn := hturn.pass
          last := h.last
          served := h.served
          notAhead := h.notAhead }

/-- The server waits for no answer any more. -/
theorem Turns.move {s : State} (h : Turns s) {server : Server} (hnone : server.inService = [])
    (hserver : ∀ c, server ≠ .receiveResponse c) : Turns { s with server := server } :=
  { inOrder := h.inOrder
    inTurn := h.inTurn
    last := fun c hwait => absurd hwait (hserver c)
    served := by
      have hsublist := h.served
      rw [List.map_append] at hsublist
      have hdelivered := (List.sublist_append_left _ _).trans hsublist
      rw [hnone, List.append_nil]
      exact hdelivered
    notAhead := h.notAhead }

/-- Commands sent later change nothing for the calls that have been answered. -/
theorem Turns.command {s : State} (h : Turns s) (hloop : s.server = .loop) (command : Command) :
    Turns { s with commands := s.commands ++ [command] } :=
  { inOrder := by
      rw [List.length_append]
      exact h.inOrder.send
    inTurn := h.inTurn
    last := by
      intro c hwait
      have hwait' : s.server = .receiveResponse c := hwait
      rw [hloop] at hwait'
      cases hwait'
    served := h.served.trans (List.sublist_append_left _ _)
    notAhead := by
      intro d hd
      rcases h.notAhead d hd with ⟨k, hk, hn⟩
      have hlt := (List.getElem?_eq_some_iff.mp hk).1
      exact ⟨k, (List.getElem?_append_left hlt).trans hk, hn⟩ }

/-- The call that is sent is the one the server then waits for. -/
theorem Turns.call {s : State} (h : Turns s) (hloop : s.server = .loop) (c : Call) :
    Turns
      { s with
        commands := s.commands ++ [.call c]
        server := .receiveResponse c } := by
  have hsent := h.command hloop (.call c)
  have hnone : s.server.inService = [] := by rw [hloop]; rfl
  exact
    { inOrder := hsent.inOrder
      inTurn := hsent.inTurn
      last := by
        intro c' hwait
        cases hwait
        simp
      served := by
        have hserved := h.served
        rw [hnone, List.append_nil] at hserved
        rw [List.map_append]
        exact hserved.append (List.Sublist.refl [Command.call c])
      notAhead := hsent.notAhead }

theorem Turns.loop {s : State} (h : Turns s) (hloop : s.server = .loop) {m : Message}
    {mailbox : List Message} (hmail : s.mailbox = m :: mailbox) :
    Turns (loop (PortProcess.take s m mailbox) m) := by
  have htaken := h.take hmail
  cases m with
  | call c => exact htaken.call hloop c
  | cast caller msg => exact htaken.command hloop (.cast caller msg)
  | portData n data => exact htaken
  | stop => exact htaken.move rfl (by simp)
  | portExit => exact htaken.move rfl (by simp)
  | portClosed => exact htaken
  | unknown => exact htaken

/-- The answer goes to the call sent last, and it may be to a command before. -/
theorem Turns.deliver {s : State} (h : Turns s) {c : Call} (hwait : s.server = .receiveResponse c)
    {n : ℕ} {data : List UInt8} {mailbox : List Message}
    (hmail : s.mailbox = .portData n data :: mailbox) :
    Turns
      (receiveResponse (PortProcess.take s (.portData n data) mailbox) c (.portData n data)) := by
  have hpending : pending s.mailbox = n :: pending mailbox := by
    rw [hmail]
    rfl
  have horder := h.inOrder
  have hturn := h.inTurn
  rw [hpending] at horder hturn
  -- The call in service was sent last, so its command is not before the one answered.
  have hn : n ≤ s.commands.length - 1 := by
    have hnext := horder.next_eq
    rw [outstanding_receive] at hnext
    omega
  refine
    { inOrder := horder.receive
      inTurn := ?_
      last := fun c' hloop => by cases hloop
      served := ?_
      notAhead := ?_ }
  · have hkept := hturn.keep horder
    simpa [receiveResponse, PortProcess.take] using hkept
  · have hserved := h.served
    rw [hwait] at hserved
    simpa [receiveResponse, PortProcess.take, Server.inService] using hserved
  · intro d hd
    rcases List.mem_append.mp hd with hold | hnew
    · exact h.notAhead d hold
    · rw [List.mem_singleton.mp hnew]
      exact ⟨s.commands.length - 1, h.last c hwait, hn⟩

theorem Turns.receiveResponse {s : State} (h : Turns s) {c : Call}
    (hwait : s.server = .receiveResponse c) {m : Message} {mailbox : List Message}
    (hmail : s.mailbox = m :: mailbox) :
    Turns (receiveResponse (PortProcess.take s m mailbox) c m) := by
  have hdropped : Turns { PortProcess.take s m mailbox with server := .loop } :=
    (h.take hmail).move rfl (by simp)
  -- Anything else that comes first is dropped, and the call with it.
  cases m with
  | portData n data => exact h.deliver hwait hmail
  | call c' => exact hdropped
  | cast caller msg => exact hdropped
  | stop => exact hdropped
  | portExit => exact hdropped
  | portClosed => exact hdropped
  | unknown => exact hdropped

theorem Turns.receive {s t : State} (h : Turns s) (hstep : receive s = some t) : Turns t := by
  cases hserver : s.server with
  | loop =>
      cases hmail : s.mailbox with
      | nil => simp [PortProcess.receive, hserver, hmail] at hstep
      | cons m mailbox =>
          simp only [PortProcess.receive, hserver, hmail, Option.some.injEq] at hstep
          rw [← hstep]
          exact h.loop hserver hmail
  | receiveResponse c =>
      cases hmail : s.mailbox with
      | nil => simp [PortProcess.receive, hserver, hmail] at hstep
      | cons m mailbox =>
          simp only [PortProcess.receive, hserver, hmail, Option.some.injEq] at hstep
          rw [← hstep]
          exact h.receiveResponse hserver hmail
  | closing =>
      simp only [PortProcess.receive, hserver] at hstep
      split_ifs at hstep
      cases hstep
      -- It looks for `{Port, closed}` anywhere in the mailbox, and that is no answer.
      have hmoved : Turns { s with server := .exited } := h.move rfl (by simp)
      exact hmoved.congr (filterMap_erase rfl s.mailbox) rfl rfl rfl rfl
  | exited => simp [PortProcess.receive, hserver] at hstep

/-- The port gives its next answer. -/
theorem Turns.portAnswer {s : State} (h : Turns s) (data : List UInt8)
    (hready : s.answered < s.commands.length) :
    Turns { PortProcess.post s (.portData s.answered data) with answered := s.answered + 1 } := by
  have hmail : pending (s.mailbox ++ [.portData s.answered data]) =
      pending s.mailbox ++ [s.answered] := List.filterMap_append
  exact
    { inOrder := by
        simp only [PortProcess.post, hmail]
        exact h.inOrder.answer hready
      inTurn := by
        simp only [PortProcess.post, hmail]
        exact h.inTurn.answer h.inOrder.length_le
      last := h.last
      served := h.served
      notAhead := h.notAhead }

theorem Turns.step {s t : State} {e : Event} (h : Turns s) (hstep : step s e = some t) :
    Turns t := by
  cases e with
  | callPort caller msg =>
      simp only [PortProcess.step] at hstep
      split_ifs at hstep
      cases hstep
      exact (h.post rfl).congr rfl rfl rfl rfl rfl
  | castPort caller msg =>
      simp only [PortProcess.step] at hstep
      split_ifs at hstep
      cases hstep
      exact h.post rfl
  | stop =>
      simp only [PortProcess.step] at hstep
      split_ifs at hstep
      cases hstep
      exact h.post rfl
  | portAnswer data =>
      simp only [PortProcess.step] at hstep
      split_ifs at hstep with hready
      cases hstep
      exact h.portAnswer data hready.2
  | portTerminates =>
      simp only [PortProcess.step] at hstep
      split_ifs at hstep
      cases hstep
      exact (h.post rfl).congr rfl rfl rfl rfl rfl
  | portCloses =>
      simp only [PortProcess.step] at hstep
      split_ifs at hstep
      cases hstep
      exact (h.post rfl).congr rfl rfl rfl rfl rfl
  | unknown =>
      cases hstep
      exact h.post rfl
  | receive => exact h.receive hstep

/-- In every run the answers delivered are in the order in which the port gave them and none is
delivered twice, they go to callers in the order in which their calls were sent to the port, and
the answer is that to the command of the same call or to one sent before it. -/
theorem answers_in_turn {es : List Event} {s : State} (h : run step init es = some s) :
    (s.delivered.map Delivery.n).Pairwise (· < ·) ∧
      (s.delivered.map fun d => Command.call d.call).Sublist s.commands ∧
      ∀ d ∈ s.delivered, ∃ k, s.commands[k]? = some (.call d.call) ∧ d.n ≤ k := by
  have hs : Turns s := run_keeps (fun _ _ _ => Turns.step) init_turns h
  refine ⟨hs.inTurn.ascending, ?_, hs.notAhead⟩
  have hserved := hs.served
  rw [List.map_append, List.map_map] at hserved
  exact (List.sublist_append_left _ _).trans hserved

/-- A caller is given the answer to the cast before its call. -/
def afterCast : List Event :=
  [.castPort 1 [2], .callPort 2 [0], .receive, .receive, .portAnswer [7], .receive]

def afterCastDelivered : State :=
  let c : Call := { caller := 2, ref := 0, msg := [0] }
  { mailbox := []
    server := .loop
    commands := [.cast 1 [2], .call c]
    answered := 1
    portOpen := true
    calls := 1
    calling := []
    consumed := [c]
    delivered := [⟨c, 0, [7]⟩] }

theorem answers_in_turn_afterCast :
    run step init afterCast = some afterCastDelivered ∧
      ∃ k, afterCastDelivered.commands[k]? = some (.call ⟨2, 0, [0]⟩) ∧ 0 ≤ k :=
  have hrun : run step init afterCast = some afterCastDelivered := by decide
  ⟨hrun, (answers_in_turn hrun).2.2 ⟨⟨2, 0, [0]⟩, 0, [7]⟩ (List.mem_singleton.mpr rfl)⟩

end PortProcess

end Clock
end Etude
