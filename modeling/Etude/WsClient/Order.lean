import Etude.WsClient.Client
import Mathlib.Algebra.BigOperators.Group.List.Basic
import Mathlib.Algebra.GroupWithZero.Nat

/-!
# Order — what becomes of the lines typed into `ws-client`

Empty lines are skipped, so lines are here those that are not empty.  Every thread sends the lines
that it takes, in their order, until one cannot be sent, which ends it.  Threads of closed
connections take lines too, and these are lost; but what is sent, connection by connection, keeps
the order of standard input, and each connection costs one line at most.
-/

namespace Etude
namespace WsClient

open Base

/-! ## The invariant -/

/-- The connections older than another one are closed, each thread has passed on what it has taken,
and what has been sent or may still be comes in the order of standard input. -/
structure Inv (s : State) : Prop where
  closed : s.connections.Pairwise fun c _ => c.link = .closed
  known : ∀ p ∈ s.taken, p.1 < s.connections.length
  passed : ∀ k c, s.connections[k]? = some c →
    takenBy s.taken k = c.sent ++ c.reader.unsent
  ordered : (s.connections.flatMap Connection.outgoing).Sublist (linesOf s.taken)
  counted : (linesOf s.taken).length =
    (s.connections.map fun c => (c.sent ++ c.reader.unsent).length).sum

theorem inv_init : Inv init := by
  refine
    { closed := List.Pairwise.nil
      known := fun p hp => by cases hp
      passed := fun k c hc => by cases hc
      ordered := List.Sublist.refl _
      counted := rfl }

theorem takenBy_eq_nil {taken : List (ℕ × Line)} {k : ℕ} (h : ∀ p ∈ taken, p.1 ≠ k) :
    takenBy taken k = [] := by
  have hnone : (taken.filter fun p => p.1 = k) = [] := by
    rw [List.filter_eq_nil_iff]
    intro p hp
    simpa using h p hp
  rw [takenBy, hnone]
  rfl

theorem Inv.connect {s : State} (hs : Inv s) (hclosed : ∀ c ∈ s.connections, c.link = .closed) :
    Inv { s with connections := s.connections ++ [connected] } := by
  refine
    { closed := ?_
      known := fun p hp => by simpa using Nat.lt_succ_of_lt (hs.known p hp)
      passed := ?_
      ordered := ?_
      counted := ?_ }
  · rw [List.pairwise_append]
    exact ⟨hs.closed, List.pairwise_singleton _ _, fun c hc _ _ => hclosed c hc⟩
  · intro k c hk
    rcases Nat.lt_or_ge k s.connections.length with hlt | hge
    · rw [List.getElem?_append_left hlt] at hk
      exact hs.passed k c hk
    · -- No thread has taken anything for the new connection.
      rw [List.getElem?_append_right hge] at hk
      rcases List.mem_singleton.mp (List.mem_of_getElem? hk) with rfl
      exact takenBy_eq_nil fun p hp => Nat.ne_of_lt (Nat.lt_of_lt_of_le (hs.known p hp) hge)
  · rw [List.flatMap_append]
    simpa [connected, Connection.outgoing, Reader.pending] using hs.ordered
  · simp [hs.counted, connected, Reader.unsent]

section Keeps

variable {s : State} {older newer : List Connection} {c d : Connection} {e : Event}

/-- The connections after an event of one of them. -/
theorem getElem?_older_cons {k : ℕ} {f : Connection} (hf : (older ++ d :: newer)[k]? = some f) :
    (k = older.length ∧ f = d) ∨ (k ≠ older.length ∧ (older ++ c :: newer)[k]? = some f) := by
  rcases Nat.lt_trichotomy k older.length with hlt | rfl | hgt
  · rw [List.getElem?_append_left hlt] at hf
    exact Or.inr ⟨Nat.ne_of_lt hlt, by rwa [List.getElem?_append_left hlt]⟩
  · rw [List.getElem?_append_right (Nat.le_refl _), Nat.sub_self] at hf
    cases hf
    exact Or.inl ⟨rfl, rfl⟩
  · refine Or.inr ⟨Nat.ne_of_gt hgt, ?_⟩
    rcases Nat.exists_eq_add_of_lt hgt with ⟨m, rfl⟩
    rw [List.getElem?_append_right (by omega)] at hf ⊢
    have hm : older.length + m + 1 - older.length = m + 1 := by omega
    rwa [hm, List.getElem?_cons_succ] at hf ⊢

/-- What an event takes is taken by the thread of its connection. -/
theorem key_of_mem_input {k : ℕ} (he : e.connection = some k) {p : ℕ × Line} (hp : p ∈ e.input) :
    p.1 = k := by
  cases e with
  | getLine j line =>
      cases he
      rw [List.mem_singleton.mp hp]
  | connect | endOfInput | send | sendFails | receiveFails | close =>
      cases hp

theorem takenBy_input {k : ℕ} (he : e.connection = some k) :
    takenBy e.input k = linesOf e.input := by
  have hall : (e.input.filter fun p => p.1 = k) = e.input := by
    rw [List.filter_eq_self]
    intro p hp
    simpa using key_of_mem_input he hp
  rw [takenBy, hall]

theorem Inv.connection (hs : Inv s) (hsplit : s.connections = older ++ c :: newer)
    (he : e.connection = some older.length) (hstep : c.step e = some d) :
    Inv { connections := older ++ d :: newer, taken := s.taken ++ e.input } := by
  have hclosed := hs.closed
  rw [hsplit, List.pairwise_append, List.pairwise_cons] at hclosed
  rcases hclosed with ⟨holder, ⟨hnewer, hrest⟩, hbefore⟩
  refine
    { closed := ?_
      known := ?_
      passed := ?_
      ordered := ?_
      counted := ?_ }
  · -- Only the newest connection may be open, and a closed one stays closed.
    rw [List.pairwise_append, List.pairwise_cons]
    refine ⟨holder, ⟨?_, hrest⟩, ?_⟩
    · exact fun f hf => (Connection.step_closed hstep (hnewer f hf)).1
    · exact fun b hb _ _ => hbefore b hb c (by simp)
  · intro p hp
    have hlen : (older ++ d :: newer).length = s.connections.length := by
      rw [hsplit, List.length_append, List.length_append]
      rfl
    rw [hlen]
    rcases List.mem_append.mp hp with hp | hp
    · exact hs.known p hp
    · rw [key_of_mem_input he hp, hsplit]
      simp
  · intro k f hf
    rcases getElem?_older_cons (c := c) hf with ⟨rfl, rfl⟩ | ⟨hne, hf⟩
    · have hc : s.connections[older.length]? = some c := by
        rw [hsplit]
        simp
      rw [takenBy_append, takenBy_input he, hs.passed _ c hc, Connection.step_lines hstep]
    · -- The event takes nothing for another connection.
      have hnone : takenBy e.input k = [] := by
        refine takenBy_eq_nil ?_
        intro p hp
        rw [key_of_mem_input he hp]
        exact Ne.symm hne
      rw [takenBy_append, hnone, List.append_nil]
      exact hs.passed k f (by rw [hsplit]; exact hf)
  · have hordered := hs.ordered
    rw [hsplit, List.flatMap_append, List.flatMap_cons] at hordered
    rw [linesOf_append, List.flatMap_append, List.flatMap_cons]
    cases newer with
    | nil =>
        -- The present connection: its new line comes behind all that was taken.
        simp only [List.flatMap_nil, List.append_nil] at hordered ⊢
        calc
          (older.flatMap Connection.outgoing ++ d.outgoing).Sublist
              (older.flatMap Connection.outgoing ++ (c.outgoing ++ linesOf e.input)) :=
            (Connection.step_outgoing hstep).append_left _
          _ = older.flatMap Connection.outgoing ++ c.outgoing ++ linesOf e.input := by
            rw [List.append_assoc]
          List.Sublist _ (linesOf s.taken ++ linesOf e.input) := hordered.append_right _
    | cons f newer =>
        -- The connection is not the present one, so nothing more will be sent over it.
        rw [Connection.outgoing_of_closed hstep (hnewer f (by simp))]
        exact hordered.trans (List.sublist_append_left ..)
  · -- Both sides grow by the lines that the event takes.
    have hcounted := hs.counted
    have hlines := congrArg List.length (Connection.step_lines hstep)
    rw [hsplit] at hcounted
    rw [List.length_append] at hlines
    simp only [linesOf_append, List.length_append, List.map_append, List.map_cons, List.sum_append,
      List.sum_cons] at hcounted hlines ⊢
    omega

end Keeps

theorem inv_step {s t : State} {e : Event} (hs : Inv s) (h : step s e = some t) : Inv t := by
  rcases step_eq_some h with ⟨-, hclosed, rfl⟩ | ⟨older, c, newer, d, hsplit, he, hstep, rfl⟩
  · exact hs.connect hclosed
  · exact hs.connection hsplit he hstep

/-! ## Runs -/

theorem taken_eq {s t : State} {es : List Event} (h : run step s es = some t) :
    t.taken = s.taken ++ es.flatMap Event.input := by
  induction es generalizing s with
  | nil =>
      cases h
      simp
  | cons e es ih =>
      rcases Option.bind_eq_some_iff.mp h with ⟨u, hu, hut⟩
      rw [ih hut, List.flatMap_cons, ← List.append_assoc]
      rcases step_eq_some hu with ⟨rfl, -, rfl⟩ | ⟨older, c, newer, d, -, -, -, rfl⟩
      · simp [Event.input]
      · rfl

/-- A closed connection stays closed, and nothing more is sent over it. -/
theorem closed_keeps {s t : State} {e : Event} {k : ℕ} {sent : List Line}
    (hs : ∃ c, s.connections[k]? = some c ∧ c.link = .closed ∧ c.sent = sent)
    (h : step s e = some t) :
    ∃ d, t.connections[k]? = some d ∧ d.link = .closed ∧ d.sent = sent := by
  rcases hs with ⟨c, hc, hclosed, rfl⟩
  rcases step_eq_some h with ⟨-, -, rfl⟩ | ⟨older, b, newer, d, hsplit, -, hstep, rfl⟩
  · refine ⟨c, ?_, hclosed, rfl⟩
    have hlt : k < s.connections.length := (List.getElem?_eq_some_iff.mp hc).1
    exact (List.getElem?_append_left hlt).trans hc
  · -- The event is one of the closed connection, or of another one.
    by_cases hk : k = older.length
    · subst hk
      rw [hsplit, List.getElem?_append_right (Nat.le_refl _), Nat.sub_self] at hc
      cases hc
      exact ⟨d, by simp, Connection.step_closed hstep hclosed⟩
    · refine ⟨c, ?_, hclosed, rfl⟩
      rw [hsplit] at hc
      rcases getElem?_older_cons (c := d) hc with ⟨heq, -⟩ | ⟨-, hd⟩
      · exact absurd heq hk
      · exact hd

theorem sent_sublist_outgoing (connections : List Connection) :
    (connections.flatMap Connection.sent).Sublist (connections.flatMap Connection.outgoing) := by
  induction connections with
  | nil =>
      exact List.Sublist.refl _
  | cons c connections ih =>
      rw [List.flatMap_cons, List.flatMap_cons]
      exact (List.sublist_append_left ..).append ih

theorem length_passed_le (connections : List Connection) :
    (connections.map fun c => (c.sent ++ c.reader.unsent).length).sum ≤
      (connections.flatMap Connection.sent).length + connections.length := by
  induction connections with
  | nil =>
      exact Nat.zero_le _
  | cons c connections ih =>
      -- Each thread holds one line at most that it has not sent.
      have hone := c.reader.length_unsent_le
      simp only [List.map_cons, List.sum_cons, List.flatMap_cons, List.length_append,
        List.length_cons] at ih ⊢
      omega

/-- However the threads take turns, `ws-client` sends the lines of standard input that are not empty
in their order, connection after connection, and all but one for each connection; each thread sends
those that it takes, up to the one that ends it; and over a closed connection nothing more is sent,
so that its thread takes at most one more of them. -/
theorem lines_sent_in_order {es : List Event} {s : State} (hrun : run step init es = some s) :
    s.taken = es.flatMap Event.input ∧
      (s.connections.flatMap Connection.sent).Sublist (linesOf s.taken) ∧
      (linesOf s.taken).length ≤
        (s.connections.flatMap Connection.sent).length + s.connections.length ∧
      (∀ k c, s.connections[k]? = some c → takenBy s.taken k = c.sent ++ c.reader.unsent) ∧
      ∀ k c fs t, s.connections[k]? = some c → c.link = .closed → run step s fs = some t →
        ∃ d, t.connections[k]? = some d ∧ d.sent = c.sent ∧
          (c.reader.unsent ++ takenBy (fs.flatMap Event.input) k).length ≤ 1 := by
  have hs : Inv s := run_keeps (fun _ _ _ => inv_step) inv_init hrun
  refine ⟨taken_eq hrun, (sent_sublist_outgoing _).trans hs.ordered, ?_, hs.passed, ?_⟩
  · rw [hs.counted]
    exact length_passed_le _
  · intro k c fs t hc hclosed hfs
    rcases run_keeps (fun _ _ _ => closed_keeps) ⟨c, hc, hclosed, rfl⟩ hfs with ⟨d, hd, -, hsent⟩
    refine ⟨d, hd, hsent, ?_⟩
    -- What the thread has taken in all is what was sent before, and one line at most.
    have ht : Inv t := run_keeps (fun _ _ _ => inv_step) hs hfs
    have hpassed := ht.passed k d hd
    rw [taken_eq hfs, takenBy_append, hs.passed k c hc, hsent, List.append_assoc,
      List.append_cancel_left_eq] at hpassed
    rw [hpassed]
    exact d.reader.length_unsent_le

/-- The second connection is there, but the thread of the first one takes the next line. -/
def reconnecting : List Event :=
  [.connect, .getLine 0 ['a'], .send 0, .receiveFails 0, .close 0, .connect, .getLine 0 ['b'],
    .getLine 1 ['c'], .sendFails 0, .send 1]

def reconnected : State :=
  { connections := [⟨.closed, .dead (some ['b']), [['a']]⟩, ⟨.receiving, .getLine, [['c']]⟩]
    taken := [(0, ['a']), (0, ['b']), (1, ['c'])] }

theorem lines_sent_in_order_reconnecting :
    run step init reconnecting = some reconnected ∧
      [['a'], ['c']].Sublist [['a'], ['b'], ['c']] ∧
      takenBy reconnected.taken 0 = [['a']] ++ [['b']] :=
  have hrun : run step init reconnecting = some reconnected := by decide
  have h := lines_sent_in_order hrun
  ⟨hrun, h.2.1, h.2.2.2.1 0 _ rfl⟩

end WsClient
end Etude
