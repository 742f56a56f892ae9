import Etude.Base.Guarded
import Etude.Base.Lines
import Etude.Base.Run

/-!
# Server — the line logger of `Resolve.hs`

`procRequests` accepts connections one after the other and forks `procMessages` for each; all of
them print through `handle`, which holds `lock` while `plainHandler` writes.  What is written to
standard output is written character by character, so that every way in which the threads take
turns is a run.

`hGetContents` reads as the characters are needed.  The call of `handle` for a line begins with the
first character of the line, and `handle` holds the lock until the last one has come in.
-/

namespace Etude
namespace TcpLog

open Base

abbrev Str := List Char

/-- What `show` gives for a `SockAddr`. -/
structure Address where
  shown : Str
  newline_notMem : '\n' ∉ shown

def tag (clientaddr : Address) : Str :=
  '[' :: clientaddr.shown ++ [']', ':', ' ']

theorem newline_notMem_tag (clientaddr : Address) : '\n' ∉ tag clientaddr := by
  simp [tag, clientaddr.newline_notMem]

/-- What `putStrLn` writes. -/
def plainHandler (addr : Address) (msg : Str) : Str :=
  tag addr ++ msg ++ ['\n']

/-- Where the thread is that looks after a connection. -/
inductive Phase
  /-- `accept` has returned, and the accepting thread is before `handle`. -/
  | accepted
  /-- The accepting thread is in `handle`. -/
  | announcing
  /-- The accepting thread is before `forkIO`. -/
  | announced
  /-- In `mapM_`, with no line begun, or in `handle` with all of its line. -/
  | reading
  /-- In `handle`, with a line that goes on. -/
  | inLine
  /-- The last call of `handle` has begun. -/
  | finished
  deriving DecidableEq, Repr

/-- `read` is the part of `messages` that has been needed so far, `buffer` is what has come in
since, and `ended` says that no more will. -/
structure Client where
  clientaddr : Address
  read : Str
  buffer : Str
  ended : Bool
  phase : Phase

namespace Client

/-- What has come in over the connection. -/
def received (c : Client) : Str :=
  c.read ++ c.buffer

def connected (c : Client) : Str :=
  tag c.clientaddr ++ "client connected.".toList

def disconnected (c : Client) : Str :=
  tag c.clientaddr ++ "client disconnected.".toList

/-- `messages` is read up to `ch`, and `rest` is left. -/
def take (c : Client) (ch : Char) (rest : Str) : Client :=
  { c with
    read := c.read ++ [ch]
    buffer := rest
    phase := if ch = '\n' then .reading else .inLine }

/-- The next call of `handle`, with what `plainHandler` has of its line when the thread takes the
lock. -/
def next (c : Client) : Option (Str × Client) :=
  match c.phase with
  | .accepted => some (plainHandler c.clientaddr c.connected, { c with phase := .announcing })
  | .announcing | .announced | .inLine | .finished => none
  -- `mapM_ (handle lock clientaddr) (lines messages)`: one character of `messages` tells that there
  -- is a line, and `handle` is called before the others are needed.
  | .reading =>
      match c.buffer with
      | ch :: rest => some (tag c.clientaddr ++ [ch], c.take ch rest)
      | [] =>
          if c.ended then
            some (plainHandler c.clientaddr c.disconnected, { c with phase := .finished })
          else
            none

/-- The next character of the line that `plainHandler` is in; the end of the input ends the line
too, and `putStrLn` adds the newline. -/
def more (c : Client) : Option (Char × Client) :=
  match c.phase with
  | .inLine =>
      match c.buffer with
      | ch :: rest => some (ch, c.take ch rest)
      | [] => if c.ended then some ('\n', { c with phase := .reading }) else none
  | _ => none

end Client

/-- The thread in `handle`: the accepting one, or the one forked for a connection. -/
inductive Thread
  | procRequests (k : ℕ)
  | procMessages (k : ℕ)
  deriving DecidableEq, Repr

/-- The connection the call of `handle` is about. -/
def Thread.client : Thread → ℕ
  | .procRequests k | .procMessages k => k

/-- `accepting` is the connection that the accepting thread is busy with; without one it is in
`accept`. -/
structure State where
  clients : List Client
  accepting : Option ℕ
  lock : Guarded Thread Char

def init : State :=
  { clients := []
    accepting := none
    lock := Guarded.init }

inductive Event
  /-- `accept` returns. -/
  | accept (clientaddr : Address)
  /-- More of what a client sends comes in. -/
  | receive (k : ℕ) (cs : Str)
  | endOfInput (k : ℕ)
  /-- The thread that looks after a connection takes the lock for its next call of `handle`. -/
  | enter (k : ℕ)
  /-- The thread that holds the lock needs the next character of its line. -/
  | read
  /-- The thread that holds the lock writes a character. -/
  | write
  | leave
  | fork

def State.update (s : State) (k : ℕ) (c : Client) : State :=
  { s with clients := s.clients.set k c }

def threadOf (c : Client) (k : ℕ) : Thread :=
  if c.phase = .accepted then .procRequests k else .procMessages k

/-- The connection whose line may go on. -/
def reader (lock : Guarded Thread Char) : Option ℕ :=
  match lock.holder with
  | some (.procMessages k, _) => some k
  | _ => none

/-- Where the thread is after `handle`. -/
def left (s : State) : Thread → Option State
  | .procRequests k => s.clients[k]?.map fun c => s.update k { c with phase := .announced }
  -- `putStrLn` returns at the end of the line only.
  | .procMessages k => s.clients[k]?.bind fun c => if c.phase = .inLine then none else some s

def step (s : State) : Event → Option State
  | .accept clientaddr =>
      if s.accepting = none then
        some
          { s with
            clients := s.clients ++ [⟨clientaddr, [], [], false, .accepted⟩]
            accepting := some s.clients.length }
      else
        none
  -- The client may send whatever the thread is doing, up to the end of its input.
  | .receive k cs =>
      s.clients[k]?.bind fun c =>
        if c.ended then none else some (s.update k { c with buffer := c.buffer ++ cs })
  | .endOfInput k =>
      s.clients[k]?.map fun c => s.update k { c with ended := true }
  | .enter k =>
      s.clients[k]?.bind fun c => c.next.bind fun (block, d) =>
        (s.lock.enter (threadOf c k) block).map fun lock => { s.update k d with lock := lock }
  | .read =>
      (reader s.lock).bind fun k => s.clients[k]?.bind fun c => c.more.bind fun (ch, d) =>
        (s.lock.extend [ch]).map fun lock => { s.update k d with lock := lock }
  | .write => s.lock.write.map fun lock => { s with lock := lock }
  | .leave => s.lock.leave.bind fun (thread, lock) => left { s with lock := lock } thread
  -- `forkIO`, and back to `accept`.
  | .fork =>
      s.accepting.bind fun k => s.clients[k]?.bind fun c =>
        if c.phase = .announced then
          some { s.update k { c with phase := .reading } with accepting := none }
        else
          none

/-! ## What each step does -/

/-- The steps one by one, each with what it needs. -/
inductive Step (s : State) : Event → State → Prop
  | accept (clientaddr : Address) (hidle : s.accepting = none) :
      Step s (.accept clientaddr)
        { s with
          clients := s.clients ++ [⟨clientaddr, [], [], false, .accepted⟩]
          accepting := some s.clients.length }
  | receive {k : ℕ} {c : Client} (cs : Str) (hk : s.clients[k]? = some c)
      (hended : c.ended = false) :
      Step s (.receive k cs) (s.update k { c with buffer := c.buffer ++ cs })
  | endOfInput {k : ℕ} {c : Client} (hk : s.clients[k]? = some c) :
      Step s (.endOfInput k) (s.update k { c with ended := true })
  | enter {k : ℕ} {c d : Client} {block : Str} {lock : Guarded Thread Char}
      (hk : s.clients[k]? = some c) (hnext : c.next = some (block, d))
      (henter : s.lock.enter (threadOf c k) block = some lock) :
      Step s (.enter k) { s.update k d with lock := lock }
  | read {k : ℕ} {c d : Client} {ch : Char} {lock : Guarded Thread Char}
      (hholder : s.lock.holder = some (.procMessages k, [])) (hk : s.clients[k]? = some c)
      (hmore : c.more = some (ch, d)) (hextend : s.lock.extend [ch] = some lock) :
      Step s .read { s.update k d with lock := lock }
  | write {lock : Guarded Thread Char} (hwrite : s.lock.write = some lock) :
      Step s .write { s with lock := lock }
  | leaveRequests {k : ℕ} {c : Client} {lock : Guarded Thread Char}
      (hleave : s.lock.leave = some (.procRequests k, lock)) (hk : s.clients[k]? = some c) :
      Step s .leave { s.update k { c with phase := .announced } with lock := lock }
  | leaveMessages {k : ℕ} {c : Client} {lock : Guarded Thread Char}
      (hleave : s.lock.leave = some (.procMessages k, lock)) (hk : s.clients[k]? = some c)
      (hphase : c.phase ≠ .inLine) :
      Step s .leave { s with lock := lock }
  | fork {k : ℕ} {c : Client} (haccepting : s.accepting = some k) (hk : s.clients[k]? = some c)
      (hphase : c.phase = .announced) :
      Step s .fork { s.update k { c with phase := .reading } with accepting := none }

theorem step_cases {s t : State} {e : Event} (h : step s e = some t) : Step s e t := by
  cases e with
  | accept clientaddr =>
      rw [step] at h
      split_ifs at h with hidle
      cases h
      exact Step.accept clientaddr hidle
  | receive k cs =>
      rcases Option.bind_eq_some_iff.mp h with ⟨c, hk, h⟩
      split_ifs at h with hended
      cases h
      exact Step.receive cs hk (Bool.not_eq_true _ ▸ hended)
  | endOfInput k =>
      rcases Option.map_eq_some_iff.mp h with ⟨c, hk, rfl⟩
      exact Step.endOfInput hk
  | enter k =>
      rcases Option.bind_eq_some_iff.mp h with ⟨c, hk, h⟩
      rcases Option.bind_eq_some_iff.mp h with ⟨⟨block, d⟩, hnext, h⟩
      rcases Option.map_eq_some_iff.mp h with ⟨lock, henter, rfl⟩
      exact Step.enter hk hnext henter
  | read =>
      rcases Option.bind_eq_some_iff.mp h with ⟨k, hreader, h⟩
      rcases Option.bind_eq_some_iff.mp h with ⟨c, hk, h⟩
      rcases Option.bind_eq_some_iff.mp h with ⟨⟨ch, d⟩, hmore, h⟩
      rcases Option.map_eq_some_iff.mp h with ⟨lock, hextend, rfl⟩
      rcases Guarded.extend_eq_some hextend with ⟨thread, hholder, -⟩
      -- The reader is the thread that holds the lock.
      cases thread with
      | procRequests j =>
          rw [reader, hholder] at hreader
          cases hreader
      | procMessages j =>
          rw [reader, hholder] at hreader
          cases hreader
          exact Step.read hholder hk hmore hextend
  | write =>
      rcases Option.map_eq_some_iff.mp h with ⟨lock, hwrite, rfl⟩
      exact Step.write hwrite
  | leave =>
      rcases Option.bind_eq_some_iff.mp h with ⟨⟨thread, lock⟩, hleave, h⟩
      cases thread with
      | procRequests k =>
          rcases Option.map_eq_some_iff.mp h with ⟨c, hk, rfl⟩
          exact Step.leaveRequests hleave hk
      | procMessages k =>
          rcases Option.bind_eq_some_iff.mp h with ⟨c, hk, h⟩
          split_ifs at h with hphase
          cases h
          exact Step.leaveMessages hleave hk hphase
  | fork =>
      rcases Option.bind_eq_some_iff.mp h with ⟨k, haccepting, h⟩
      rcases Option.bind_eq_some_iff.mp h with ⟨c, hk, h⟩
      split_ifs at h with hphase
      cases h
      exact Step.fork haccepting hk hphase

end TcpLog
end Etude
