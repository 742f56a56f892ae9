import Etude.Base.Run
import Mathlib.Data.List.Infix

/-!
# Client — the reconnecting client of `ws-client`

`main` runs `textApp` (or `binaryApp`, which differs in what it prints) on one connection after the
other, without an end.  The app forks a thread that sends the lines of standard input; nothing ends
that thread when the app returns, so the threads of earlier connections go on reading standard
input beside the one of the present connection.
-/

namespace Etude
namespace WsClient

open Base

abbrev Line := List Char

/-- Where `main` is with a connection. -/
inductive Link
  /-- In `loop`, which receives messages. -/
  | receiving
  /-- `loop` has returned, `WS.runClient` has not. -/
  | returning
  /-- `WS.runClient` has returned: the socket is closed, and whatever is sent throws. -/
  | closed
  deriving DecidableEq, Repr

/-- Where the forked thread of a connection is. -/
inductive Reader
  | getLine
  | sendTextData (line : Line)
  /-- Ended by an exception: of `getLine`, or of `sendTextData` with its line. -/
  | dead (line : Option Line)
  deriving DecidableEq, Repr

/-- `sent` is what `sendTextData` has sent over the connection. -/
structure Connection where
  link : Link
  reader : Reader
  sent : List Line
  deriving DecidableEq, Repr

def connected : Connection :=
  { link := .receiving
    reader := .getLine
    sent := [] }

/-- The connections in the order in which they were made, and the lines read from standard input,
each with the connection whose thread has read it. -/
structure State where
  connections : List Connection
  taken : List (ℕ × Line)
  deriving DecidableEq, Repr

def init : State :=
  { connections := []
    taken := [] }

inductive Event
  /-- `WS.runClient` connects, and the app forks its thread. -/
  | connect
  /-- `T.getLine` returns in the thread of a connection. -/
  | getLine (k : ℕ) (line : Line)
  /-- `T.getLine` throws. -/
  | endOfInput (k : ℕ)
  /-- `WS.sendTextData` returns. -/
  | send (k : ℕ)
  /-- `WS.sendTextData` throws. -/
  | sendFails (k : ℕ)
  /-- `WS.receiveData` throws, which ends `loop`. -/
  | receiveFails (k : ℕ)
  /-- `WS.runClient` returns. -/
  | close (k : ℕ)
  deriving DecidableEq, Repr

def State.update (s : State) (k : ℕ) (c : Connection) : State :=
  { s with connections := s.connections.set k c }

/-- The thread goes on with a line: `unless (T.null line) $ WS.sendTextData conn line`. -/
def Reader.next (line : Line) : Reader :=
  if line = [] then .getLine else .sendTextData line

/-- What an event does to the connection it is about, if it can happen. -/
def Connection.step (c : Connection) : Event → Option Connection
  | .connect => none
  | .getLine _ line =>
      if c.reader = .getLine then some { c with reader := Reader.next line } else none
  | .endOfInput _ => if c.reader = .getLine then some { c with reader := .dead none } else none
  | .send _ =>
      match c.reader with
      | .sendTextData line =>
          if c.link = .closed then
            none
          else
            some { c with reader := .getLine, sent := c.sent ++ [line] }
      | _ => none
  -- Sending may fail on an open connection too.
  | .sendFails _ =>
      match c.reader with
      | .sendTextData line => some { c with reader := .dead (some line) }
      | _ => none
  | .receiveFails _ => if c.link = .receiving then some { c with link := .returning } else none
  | .close _ => if c.link = .returning then some { c with link := .closed } else none

def Event.connection : Event → Option ℕ
  | .connect => none
  | .getLine k _ | .endOfInput k | .send k | .sendFails k | .receiveFails k | .close k => some k

/-- What an event takes from standard input. -/
def Event.input : Event → List (ℕ × Line)
  | .getLine k line => [(k, line)]
  | _ => []

def step (s : State) (e : Event) : Option State :=
  match e.connection with
  -- `main` connects again once `WS.runClient` has returned.
  | none =>
      if s.connections.all fun c => c.link = .closed then
        some { s with connections := s.connections ++ [connected] }
      else
        none
  | some k =>
      s.connections[k]?.bind fun c => (c.step e).map fun d =>
        { s.update k d with taken := s.taken ++ e.input }

/-! ## What a step can do -/

theorem step_eq_some {s t : State} {e : Event} (h : step s e = some t) :
    (e = .connect ∧ (∀ c ∈ s.connections, c.link = .closed) ∧
        t = { s with connections := s.connections ++ [connected] }) ∨
      ∃ older c newer d, s.connections = older ++ c :: newer ∧
        e.connection = some older.length ∧ c.step e = some d ∧
        t = { connections := older ++ d :: newer, taken := s.taken ++ e.input } := by
  unfold step at h
  cases he : e.connection with
  | none =>
      rw [he] at h
      simp only at h
      split_ifs at h with hclosed
      cases h
      refine Or.inl ⟨?_, ?_, rfl⟩
      · cases e <;> simp_all [Event.connection]
      · simpa using hclosed
  | some k =>
      rw [he] at h
      -- The list splits at the connection of the event.
      rcases Option.bind_eq_some_iff.mp h with ⟨c, hc, hstep⟩
      rcases Option.map_eq_some_iff.mp hstep with ⟨d, hd, rfl⟩
      rcases List.getElem?_eq_some_iff.mp hc with ⟨hlt, hget⟩
      have hsplit : s.connections = s.connections.take k ++ c :: s.connections.drop (k + 1) := by
        rw [← hget, List.getElem_cons_drop, List.take_append_drop]
      have hlen : (s.connections.take k).length = k := by
        rw [List.length_take]
        omega
      refine Or.inr ⟨s.connections.take k, c, s.connections.drop (k + 1), d, hsplit, ?_, hd, ?_⟩
      · rw [hlen]
      · simp only [State.update, List.set_eq_take_append_cons_drop, if_pos hlt]

/-! ## The lines of a connection -/

/-- What the thread has taken and not sent. -/
def Reader.unsent : Reader → List Line
  | .getLine => []
  | .sendTextData line => [line]
  | .dead line => line.toList

/-- What the thread may still send. -/
def Reader.pending : Reader → List Line
  | .sendTextData line => [line]
  | _ => []

/-- What has been sent over the connection, and what the thread holds that may still be. -/
def Connection.outgoing (c : Connection) : List Line :=
  c.sent ++ if c.link = .closed then [] else c.reader.pending

/-- The lines that are not empty, among those taken. -/
def linesOf (taken : List (ℕ × Line)) : List Line :=
  (taken.map Prod.snd).filter fun line => line ≠ []

def takenBy (taken : List (ℕ × Line)) (k : ℕ) : List Line :=
  linesOf (taken.filter fun p => p.1 = k)

theorem linesOf_append (taken more : List (ℕ × Line)) :
    linesOf (taken ++ more) = linesOf taken ++ linesOf more := by
  simp [linesOf]

theorem takenBy_append (taken more : List (ℕ × Line)) (k : ℕ) :
    takenBy (taken ++ more) k = takenBy taken k ++ takenBy more k := by
  rw [takenBy, List.filter_append, linesOf_append]
  rfl

theorem Reader.length_unsent_le (r : Reader) : r.unsent.length ≤ 1 := by
  cases r with
  | getLine => exact Nat.zero_le 1
  | sendTextData line => exact Nat.le_refl 1
  | dead line => cases line <;> simp [unsent]

/-- A line that is not null is in the hands of the thread, and nothing else is. -/
theorem Reader.next_eq (k : ℕ) (line : Line) :
    (Reader.next line).unsent = linesOf [(k, line)] ∧
      (Reader.next line).pending = linesOf [(k, line)] := by
  unfold next
  split_ifs with hnull <;> simp [unsent, pending, linesOf, hnull]

section Step

variable {c d : Connection} {e : Event}

/-- All that can happen to a connection. -/
theorem Connection.step_cases (h : c.step e = some d) :
    (∃ k line, e = .getLine k line ∧ c.reader = .getLine ∧
        d = { c with reader := Reader.next line }) ∨
      (∃ line, e.input = [] ∧ c.reader = .sendTextData line ∧ c.link ≠ .closed ∧
        d = { c with reader := .getLine, sent := c.sent ++ [line] }) ∨
      (e.input = [] ∧ c.reader = .getLine ∧ d = { c with reader := .dead none }) ∨
      (∃ line, e.input = [] ∧ c.reader = .sendTextData line ∧
        d = { c with reader := .dead (some line) }) ∨
      ∃ link, e.input = [] ∧ c.link ≠ .closed ∧ d = { c with link := link } := by
  cases e with
  | connect =>
      cases h
  | getLine k line =>
      simp only [step] at h
      split_ifs at h with hreader
      cases h
      exact Or.inl ⟨k, line, rfl, hreader, rfl⟩
  | endOfInput k =>
      simp only [step] at h
      split_ifs at h with hreader
      cases h
      exact Or.inr (Or.inr (Or.inl ⟨rfl, hreader, rfl⟩))
  | send k =>
      simp only [step] at h
      cases hreader : c.reader with
      | getLine | dead _ =>
          rw [hreader] at h
          cases h
      | sendTextData line =>
          rw [hreader] at h
          simp only at h
          split_ifs at h with hlink
          cases h
          exact Or.inr (Or.inl ⟨line, rfl, rfl, hlink, rfl⟩)
  | sendFails k =>
      simp only [step] at h
      cases hreader : c.reader with
      | getLine | dead _ =>
          rw [hreader] at h
          cases h
      | sendTextData line =>
          rw [hreader] at h
          cases h
          exact Or.inr (Or.inr (Or.inr (Or.inl ⟨line, rfl, rfl, rfl⟩)))
  | receiveFails k =>
      simp only [step] at h
      split_ifs at h with hlink
      cases h
      exact Or.inr (Or.inr (Or.inr (Or.inr ⟨_, rfl, by rw [hlink]; decide, rfl⟩)))
  | close k =>
      simp only [step] at h
      split_ifs at h with hlink
      cases h
      exact Or.inr (Or.inr (Or.inr (Or.inr ⟨_, rfl, by rw [hlink]; decide, rfl⟩)))

/-- A thread passes on the lines that it takes, in order. -/
theorem Connection.step_lines (h : c.step e = some d) :
    d.sent ++ d.reader.unsent = c.sent ++ c.reader.unsent ++ linesOf e.input := by
  rcases step_cases h with ⟨k, line, rfl, hreader, rfl⟩ | ⟨line, hinput, hreader, -, rfl⟩ |
    ⟨hinput, hreader, rfl⟩ | ⟨line, hinput, hreader, rfl⟩ | ⟨link, hinput, -, rfl⟩
  · -- The thread held nothing when it took the line.
    rw [hreader]
    change c.sent ++ (Reader.next line).unsent = c.sent ++ [] ++ linesOf [(k, line)]
    rw [(Reader.next_eq k line).1, List.append_nil]
  all_goals simp [*, Reader.unsent, linesOf]

theorem Connection.step_closed (h : c.step e = some d) (hclosed : c.link = .closed) :
    d.link = .closed ∧ d.sent = c.sent := by
  rcases step_cases h with ⟨k, line, rfl, -, rfl⟩ | ⟨line, -, -, hlink, rfl⟩ | ⟨-, -, rfl⟩ |
    ⟨line, -, -, rfl⟩ | ⟨link, -, hlink, rfl⟩
  · exact ⟨hclosed, rfl⟩
  -- `sendTextData` throws once the socket is closed.
  · exact absurd hclosed hlink
  · exact ⟨hclosed, rfl⟩
  · exact ⟨hclosed, rfl⟩
  · exact absurd hclosed hlink

theorem Connection.outgoing_of_closed (h : c.step e = some d) (hclosed : c.link = .closed) :
    d.outgoing = c.outgoing := by
  rcases step_closed h hclosed with ⟨hlink, hsent⟩
  simp only [outgoing, hclosed, hlink, hsent, if_true]

/-- What may still be sent comes from what was held, or from a line taken while the connection is
open. -/
theorem Connection.step_outgoing (h : c.step e = some d) :
    d.outgoing.Sublist (c.outgoing ++ linesOf e.input) := by
  by_cases hclosed : c.link = .closed
  · rw [outgoing_of_closed h hclosed]
    exact List.sublist_append_left ..
  · rcases step_cases h with ⟨k, line, rfl, hreader, rfl⟩ | ⟨line, hinput, hreader, -, rfl⟩ |
      ⟨hinput, hreader, rfl⟩ | ⟨line, hinput, hreader, rfl⟩ | ⟨link, hinput, -, rfl⟩
    · simp only [outgoing, hclosed, if_false, (Reader.next_eq k line).2, hreader]
      simp [Reader.pending, Event.input]
    · simp [outgoing, hclosed, hreader, Reader.pending, hinput, linesOf]
    · simp [outgoing, hclosed, hreader, Reader.pending, hinput, linesOf]
    · simp [outgoing, hclosed, hreader, Reader.pending, hinput, linesOf]
    -- Once the connection is closed, what the thread holds will not be sent.
    · simp only [outgoing, hclosed, if_false, hinput]
      split_ifs <;> simp [linesOf]

end Step

end WsClient
end Etude
