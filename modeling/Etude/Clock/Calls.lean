import Etude.Clock.GenServer
import Mathlib.Data.List.Range

/-!
# Calls — no call of the `gen_server` version is lost or answered twice

Whatever `handle_call/3` finds in its `receive`, it gives one reply to the call that it serves.  So
each call that a client has entered is in one place: in the mailbox, in service, replied to, or
taken for the reply to another call.
-/

namespace Etude
namespace Clock
namespace GenServer

open Base

/-- The call that `handle_call/3` serves. -/
def Server.inService : Server → List Call
  | .waiting c => [c]
  | _ => []

/-- The call that the clause `X` has given away as a reply. -/
def Reply.swallowed : Reply → Option Call
  | .response _ _ => none
  | .unexpected x => x.callOf

/-- The calls in the mailbox. -/
def queued (mailbox : List Message) : List Call :=
  mailbox.filterMap Message.callOf

/-- The calls given away as replies. -/
def swallowed (replies : List (Call × Reply)) : List Call :=
  replies.filterMap fun p => p.2.swallowed

/-! ## Steps -/

/-- A call is entered or given up, the port answers, another message arrives, or the server takes
the first message of its mailbox. -/
theorem step_cases {s t : State} {e : Event} (h : step s e = some t) :
    (∃ pid request calling,
      t = { post s (.genCall { pid := pid, ref := s.calls, request := request }) with
            calls := s.calls + 1
            calling := calling }) ∨
    (∃ calling, t = { s with calling := calling }) ∨
    (∃ data, s.answered < s.commands.length ∧
      t = { post s (.portData s.answered data) with answered := s.answered + 1 }) ∨
    (∃ m portOpen, m.callOf = none ∧ m.answerOf = none ∧
      t = { post s m with portOpen := portOpen }) ∨
    (∃ m mailbox, s.mailbox = m :: mailbox ∧ s.server = .loop ∧
      t = dispatchMessage (take s m mailbox) m) ∨
    (∃ m mailbox c, s.mailbox = m :: mailbox ∧ s.server = .waiting c ∧
      t = handleResponse (take s m mailbox) c m) := by
  cases e with
  | call pid request =>
      simp only [step] at h
      split_ifs at h
      cases h
      exact Or.inl ⟨pid, request, _, rfl⟩
  | callTimeout c =>
      simp only [step] at h
      split_ifs at h
      cases h
      exact Or.inr (Or.inl ⟨_, rfl⟩)
  | portAnswer data =>
      simp only [step] at h
      split_ifs at h with hready
      cases h
      exact Or.inr (Or.inr (Or.inl ⟨data, hready.2, rfl⟩))
  -- The other messages are neither calls nor answers.
  | portTerminates =>
      simp only [step] at h
      split_ifs at h
      cases h
      exact Or.inr (Or.inr (Or.inr (Or.inl ⟨.portExit, false, rfl, rfl, rfl⟩)))
  | genCast =>
      cases h
      exact Or.inr (Or.inr (Or.inr (Or.inl ⟨.genCast, s.portOpen, rfl, rfl, rfl⟩)))
  | parentExits =>
      cases h
      exact Or.inr (Or.inr (Or.inr (Or.inl ⟨.parentExit, s.portOpen, rfl, rfl, rfl⟩)))
  | info =>
      cases h
      exact Or.inr (Or.inr (Or.inr (Or.inl ⟨.info, s.portOpen, rfl, rfl, rfl⟩)))
  | receive =>
      refine Or.inr (Or.inr (Or.inr (Or.inr ?_)))
      cases hmail : s.mailbox with
      | nil => simp [step, hmail] at h
      | cons m mailbox =>
          cases hserver : s.server with
          | loop =>
              rw [step_receive_loop hmail hserver, Option.some.injEq] at h
              exact Or.inl ⟨m, mailbox, rfl, rfl, h.symm⟩
          | waiting c =>
              rw [step_receive_waiting hmail hserver, Option.some.injEq] at h
              exact Or.inr ⟨m, mailbox, c, rfl, rfl, h.symm⟩
          | exited => simp [step, hmail, receive, take, hserver] at h

/-! ## The invariant -/

structure Accounted (s : State) : Prop where
  /-- Calls are taken out of the mailbox in the order in which they were entered. -/
  numbered : (s.consumed ++ queued s.mailbox).map Call.ref = List.range s.calls
  forwarded : s.commands = s.replies.map Prod.fst ++ s.server.inService
  inOrder : s.commands.Sublist s.consumed
  parted : s.consumed.Perm (s.commands ++ swallowed s.replies)

theorem init_accounted : Accounted init :=
  { numbered := rfl
    forwarded := rfl
    inOrder := List.Sublist.slnil
    parted := List.Perm.nil }

/-- Only the calls in the mailbox, and what becomes of them, are of account. -/
theorem Accounted.congr {s t : State} (h : Accounted s)
    (hcalls : t.calls = s.calls) (hmailbox : s.consumed ++ queued s.mailbox =
      t.consumed ++ queued t.mailbox) (hconsumed : t.consumed = s.consumed)
    (hserver : t.server.inService = s.server.inService) (hcommands : t.commands = s.commands)
    (hreplies : t.replies = s.replies) : Accounted t :=
  { numbered := by rw [← hmailbox, hcalls]; exact h.numbered
    forwarded := by rw [hcommands, hreplies, hserver]; exact h.forwarded
    inOrder := by rw [hcommands, hconsumed]; exact h.inOrder
    parted := by rw [hcommands, hconsumed, hreplies]; exact h.parted }

theorem queued_post (s : State) {m : Message} (hm : m.callOf = none) :
    queued (post s m).mailbox = queued s.mailbox := by
  simp [queued, post, hm]

theorem Accounted.post {s : State} (h : Accounted s) {m : Message} (hm : m.callOf = none) :
    Accounted (post s m) :=
  h.congr rfl (by rw [queued_post s hm]; rfl) rfl rfl rfl rfl

/-- The calls in order, whether the first message of the mailbox is one or not. -/
theorem take_numbered {s : State} {m : Message} {mailbox : List Message}
    (hmail : s.mailbox = m :: mailbox) :
    s.consumed ++ queued s.mailbox = (take s m mailbox).consumed ++ queued mailbox := by
  rw [hmail, take, queued, List.filterMap_cons, List.append_assoc]
  cases m.callOf <;> rfl

/-- A message that is no call leaves all calls where they are. -/
theorem Accounted.skip {s : State} (h : Accounted s) {m : Message} {mailbox : List Message}
    (hmail : s.mailbox = m :: mailbox) (hcall : m.callOf = none) :
    Accounted (take s m mailbox) := by
  have hconsumed : (take s m mailbox).consumed = s.consumed := by
    simp [take, hcall]
  exact h.congr rfl (take_numbered hmail) hconsumed rfl rfl rfl

theorem Accounted.exit {s : State} (h : Accounted s) (hloop : s.server = .loop) :
    Accounted { s with server := .exited } :=
  h.congr rfl rfl rfl (by rw [hloop]; rfl) rfl rfl

/-- The call at the head of the mailbox is forwarded. -/
theorem Accounted.handleCall {s : State} (h : Accounted s) {c : Call} {mailbox : List Message}
    (hmail : s.mailbox = .genCall c :: mailbox) (hloop : s.server = .loop) :
    Accounted (handleCall (take s (.genCall c) mailbox) c) := by
  -- In its loop the server has replied to every call that it has forwarded.
  have hforwarded : s.commands = s.replies.map Prod.fst := by
    have hnone : s.server.inService = [] := by rw [hloop]; rfl
    rw [h.forwarded, hnone, List.append_nil]
  exact
    { numbered := (congrArg (List.map Call.ref) (take_numbered hmail)).symm.trans h.numbered
      forwarded := congrArg (· ++ [c]) hforwarded
      inOrder := h.inOrder.append (List.Sublist.refl [c])
      parted := by
        calc
          (s.consumed ++ [c]).Perm (s.commands ++ swallowed s.replies ++ [c]) :=
            h.parted.append_right [c]
          _ = s.commands ++ (swallowed s.replies ++ [c]) := List.append_assoc _ _ _
          List.Perm _ (s.commands ++ ([c] ++ swallowed s.replies)) :=
            List.perm_append_comm.append_left s.commands
          _ = (s.commands ++ [c]) ++ swallowed s.replies := (List.append_assoc _ _ _).symm }

/-- The call in service gets its reply, and the message may be another call. -/
theorem Accounted.handleResponse {s : State} (h : Accounted s) {c : Call} {m : Message}
    {mailbox : List Message} (hmail : s.mailbox = m :: mailbox) (hwait : s.server = .waiting c) :
    Accounted (handleResponse (take s m mailbox) c m) := by
  have hforwarded : s.commands = s.replies.map Prod.fst ++ [c] := by
    have hone : s.server.inService = [c] := by rw [hwait]; rfl
    rw [h.forwarded, hone]
  -- Only the clause `X` can match a call.
  have hswallowed :
      swallowed (GenServer.handleResponse (take s m mailbox) c m).replies =
        swallowed s.replies ++ m.callOf.toList := by
    simp only [GenServer.handleResponse, swallowed, List.filterMap_append]
    cases m <;> rfl
  exact
    { numbered := (congrArg (List.map Call.ref) (take_numbered hmail)).symm.trans h.numbered
      forwarded := by
        simp only [GenServer.handleResponse, List.map_append]
        exact hforwarded.trans (List.append_nil _).symm
      inOrder := h.inOrder.trans (List.sublist_append_left _ _)
      parted := by
        rw [hswallowed]
        calc
          (s.consumed ++ m.callOf.toList).Perm
              (s.commands ++ swallowed s.replies ++ m.callOf.toList) :=
            h.parted.append_right _
          _ = s.commands ++ (swallowed s.replies ++ m.callOf.toList) := List.append_assoc _ _ _ }

theorem Accounted.dispatch {s : State} (h : Accounted s) {m : Message} {mailbox : List Message}
    (hmail : s.mailbox = m :: mailbox) (hloop : s.server = .loop) :
    Accounted (dispatchMessage (take s m mailbox) m) := by
  cases m with
  | genCall c => exact h.handleCall hmail hloop
  | genCast => exact h.skip hmail rfl
  | portData n data => exact h.skip hmail rfl
  | portExit => exact (h.skip hmail rfl).exit hloop
  | parentExit => exact (h.skip hmail rfl).exit hloop
  | info => exact h.skip hmail rfl

/-- A new call is the next in number. -/
theorem Accounted.call {s : State} (h : Accounted s) (pid : ℕ) (request : List UInt8)
    (calling : List Call) :
    Accounted
      { GenServer.post s (.genCall { pid := pid, ref := s.calls, request := request }) with
        calls := s.calls + 1
        calling := calling } :=
  { numbered := by
      have hnumbered := h.numbered
      simp only [GenServer.post, queued, List.filterMap_append, List.filterMap_cons,
        List.filterMap_nil, Message.callOf]
      rw [List.range_succ, ← hnumbered, ← List.append_assoc, List.map_append]
      rfl
    forwarded := h.forwarded
    inOrder := h.inOrder
    parted := h.parted }

theorem Accounted.step {s t : State} {e : Event} (h : Accounted s) (hstep : step s e = some t) :
    Accounted t := by
  rcases step_cases hstep with ⟨pid, request, calling, rfl⟩ | ⟨calling, rfl⟩ |
    ⟨data, -, rfl⟩ | ⟨m, portOpen, hcall, -, rfl⟩ | ⟨m, mailbox, hmail, hloop, rfl⟩ |
    ⟨m, mailbox, c, hmail, hwait, rfl⟩
  · exact h.call pid request calling
  · exact h.congr rfl rfl rfl rfl rfl rfl
  · have hposted : Accounted (GenServer.post s (.portData s.answered data)) := h.post rfl
    exact hposted.congr rfl rfl rfl rfl rfl rfl
  · exact (h.post hcall).congr rfl rfl rfl rfl rfl rfl
  · exact h.dispatch hmail hloop
  · exact h.handleResponse hmail hwait

/-! ## Runs -/

/-- In every run each call entered is in one place: in the mailbox, in service, replied to, or
given away as the reply to another call.  The port is sent the calls replied to and the one in
service, in the order in which they were entered, and the replies are given in that order. -/
theorem calls_accounted {es : List Event} {s : State} (h : run step init es = some s) :
    ((queued s.mailbox ++ s.server.inService ++ s.replies.map Prod.fst ++
        swallowed s.replies).map Call.ref).Perm (List.range s.calls) ∧
      s.commands = s.replies.map Prod.fst ++ s.server.inService ∧
      (s.commands.map Call.ref).Pairwise (· < ·) := by
  have hs : Accounted s := run_keeps (fun _ _ _ => Accounted.step) init_accounted h
  refine ⟨?_, hs.forwarded, ?_⟩
  · -- The calls in order of entry are those consumed and those in the mailbox.
    rw [← hs.numbered]
    refine List.Perm.map Call.ref ?_
    calc
      (queued s.mailbox ++ s.server.inService ++ s.replies.map Prod.fst ++
            swallowed s.replies).Perm
          (queued s.mailbox ++ (s.replies.map Prod.fst ++ s.server.inService) ++
            swallowed s.replies) := by
        rw [List.append_assoc (queued s.mailbox)]
        exact (List.perm_append_comm.append_left _).append_right _
      _ = queued s.mailbox ++ (s.commands ++ swallowed s.replies) := by
        rw [← hs.forwarded, List.append_assoc]
      List.Perm _ (queued s.mailbox ++ s.consumed) := hs.parted.symm.append_left _
      List.Perm _ (s.consumed ++ queued s.mailbox) := List.perm_append_comm
  · have hsublist : (s.commands.map Call.ref).Sublist (List.range s.calls) := by
      rw [← hs.numbered, List.map_append]
      exact (hs.inOrder.map Call.ref).trans (List.sublist_append_left _ _)
    exact List.pairwise_lt_range.sublist hsublist

/-- The second call is given away as the reply to the first, and the third is served. -/
def threeClients : List Event :=
  [.call 1 [0], .call 2 [1], .receive, .receive, .call 3 [2], .portAnswer [7], .receive,
    .call 4 [3]]

def threeClientsServed : State :=
  let call (k : ℕ) : Call := { pid := k + 1, ref := k, request := [UInt8.ofNat k] }
  { mailbox := [.portData 0 [7], .genCall (call 3)]
    server := .waiting (call 2)
    commands := [call 0, call 2]
    answered := 1
    portOpen := true
    calls := 4
    calling := [call 1, call 2, call 3]
    consumed := [call 0, call 1, call 2]
    replies := [(call 0, .unexpected (.genCall (call 1)))] }

theorem calls_accounted_threeClients :
    run step init threeClients = some threeClientsServed ∧ [3, 2, 0, 1].Perm (List.range 4) :=
  have hrun : run step init threeClients = some threeClientsServed := by decide
  ⟨hrun, (calls_accounted hrun).1⟩

end GenServer
end Clock
end Etude
