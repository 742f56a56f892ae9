import Mathlib.Data.Int.Notation
import Mathlib.Data.List.TakeWhile
import Etude.Base.Terminated

/-!
# SelectStdin — a line filter that prints a message while nothing arrives

`select-stdin` waits in `select` for descriptor 0.  When the descriptor becomes readable the program
calls `getline` once, and `getline` reads through the buffer of `stdin`: one `read` takes all that
has arrived, `getline` returns the first line of it, and what follows stays in the buffer, where
`select` does not see it.

The environment sends pieces of any length at any time and may end the input; `taken` records what
the program has taken from the descriptor.
-/

namespace Etude
namespace KeepAlive

open Base

/-- What goes to `stdout`: a line or the keep-alive message, both by `"[%s] %s\n"`, or the result of
a `getline` that found nothing. -/
inductive Message where
  | line (text : List UInt8)
  | keepAlive
  | nread (n : ℤ)
  deriving DecidableEq, Repr

inductive Phase where
  | select
  | getline (line : List UInt8)
  | exited
  deriving DecidableEq, Repr

structure State where
  unread : List UInt8
  closed : Bool
  taken : List UInt8
  buffer : List UInt8
  phase : Phase
  output : List Message
  deriving DecidableEq, Repr

/-- An event of the environment or of the program; `written` tells whether `printf` succeeds, should
the program call it. -/
inductive Event where
  | arrive (piece : List UInt8)
  | close
  | error
  | timeout (written : Bool)
  | ready (written : Bool)
  | read (written : Bool)
  deriving DecidableEq, Repr

def newline : UInt8 := 10

def start : State where
  unread := []
  closed := false
  taken := []
  buffer := []
  phase := .select
  output := []

/-! ## The loop -/

/-- The bytes of a line that `%s` prints. -/
def cString (line : List UInt8) : List UInt8 :=
  line.takeWhile fun b => b ≠ 0

/-- `if (printf(..) == -1) exit(EXIT_FAILURE)`, and back to `select` otherwise. -/
def printOrExit (written : Bool) (m : Message) (s : State) : State :=
  if written then { s with phase := .select, output := s.output ++ [m] }
  else { s with phase := .exited }

/-- `getline` searches the buffer for the end of the line of which it already holds `line`. -/
def search (written : Bool) (line : List UInt8) (s : State) : State :=
  match nextLine newline s.buffer with
  | some (l, rest) => printOrExit written (.line (cString (line ++ l))) { s with buffer := rest }
  | none => { s with buffer := [], phase := .getline (line ++ s.buffer) }

/-- `getline` returns at the end of the input: what it holds of a line, or `-1`. -/
def endOfFile (written : Bool) (line : List UInt8) (s : State) : State :=
  if 0 < line.length then printOrExit written (.line (cString line)) s
  else { s with
    phase := .select
    output := if written then s.output ++ [.nread (-1)] else s.output }

/-- Whether `select` finds descriptor 0 readable, and whether a `read` of it returns. -/
def State.readable (s : State) : Bool :=
  !s.unread.isEmpty || s.closed

/-- `read` takes all that has arrived into the buffer. -/
def State.fill (s : State) : State :=
  { s with unread := [], taken := s.taken ++ s.unread, buffer := s.buffer ++ s.unread }

def step (s : State) : Event → Option State
  | .arrive piece => if s.closed then none else some { s with unread := s.unread ++ piece }
  | .close => some { s with closed := true }
  | .error =>
      match s.phase with
      | .select => some s
      | _ => none
  | .timeout written =>
      match s.phase with
      | .select => if s.readable then none else some (printOrExit written .keepAlive s)
      | _ => none
  | .ready written =>
      match s.phase with
      | .select => if s.readable then some (search written [] s) else none
      | _ => none
  | .read written =>
      match s.phase with
      | .getline line =>
          if s.unread ≠ [] then some (search written line s.fill)
          else if s.closed then some (endOfFile written line s)
          else none
      | _ => none

/-! ## What each event does -/

theorem cString_eq_self_iff {l : List UInt8} : cString l = l ↔ 0 ∉ l := by
  rw [cString, List.takeWhile_eq_self_iff]
  constructor
  · intro h hmem
    simpa using h 0 hmem
  · intro h b hb
    have hne : b ≠ 0 := fun h0 => h (h0 ▸ hb)
    simpa using hne

/-- `getline` searches all that is pending: it prints the first complete line, or holds it all. -/
theorem search_cases (written : Bool) (s : State) {line : List UInt8} (hline : newline ∉ line) :
    (∃ l rest, cut newline (line ++ s.buffer) =
          (l :: completeLines newline rest, remainder newline rest) ∧
        search written line s = printOrExit written (.line (cString l)) { s with buffer := rest }) ∨
      (newline ∉ line ++ s.buffer ∧
        search written line s = { s with buffer := [], phase := .getline (line ++ s.buffer) }) := by
  cases hnext : nextLine newline s.buffer with
  | none =>
      refine Or.inr ⟨?_, by rw [search, hnext]⟩
      rw [List.mem_append, not_or]
      exact ⟨hline, nextLine_eq_none hnext⟩
  | some p =>
      rcases p with ⟨l, rest⟩
      refine Or.inl ⟨line ++ l, rest, ?_, by rw [search, hnext]⟩
      exact cut_of_nextLine (nextLine_append hline hnext)

section Steps

variable {s t : State} {written : Bool}

theorem step_error (hstep : step s .error = some t) : s.phase = .select ∧ t = s := by
  cases hphase : s.phase with
  | select =>
      simp only [step, hphase, Option.some.injEq] at hstep
      exact ⟨rfl, hstep.symm⟩
  | getline line =>
      simp [step, hphase] at hstep
  | exited =>
      simp [step, hphase] at hstep

theorem step_timeout (hstep : step s (.timeout written) = some t) :
    s.phase = .select ∧ s.readable = false ∧ t = printOrExit written .keepAlive s := by
  cases hphase : s.phase with
  | select =>
      cases hreadable : s.readable with
      | true =>
          simp [step, hphase, hreadable] at hstep
      | false =>
          simp only [step, hphase, hreadable, Bool.false_eq_true, if_false,
            Option.some.injEq] at hstep
          exact ⟨rfl, rfl, hstep.symm⟩
  | getline line =>
      simp [step, hphase] at hstep
  | exited =>
      simp [step, hphase] at hstep

theorem step_ready (hstep : step s (.ready written) = some t) :
    s.phase = .select ∧ t = search written [] s := by
  cases hphase : s.phase with
  | select =>
      cases hreadable : s.readable with
      | true =>
          simp only [step, hphase, hreadable, if_true, Option.some.injEq] at hstep
          exact ⟨rfl, hstep.symm⟩
      | false =>
          simp [step, hphase, hreadable] at hstep
  | getline line =>
      simp [step, hphase] at hstep
  | exited =>
      simp [step, hphase] at hstep

/-- A `read` fills the buffer and `getline` goes on, or the input has ended. -/
theorem step_read (hstep : step s (.read written) = some t) :
    ∃ line, s.phase = .getline line ∧
      (s.unread ≠ [] ∧ t = search written line s.fill ∨
        s.unread = [] ∧ s.closed = true ∧ t = endOfFile written line s) := by
  cases hphase : s.phase with
  | select =>
      simp [step, hphase] at hstep
  | exited =>
      simp [step, hphase] at hstep
  | getline line =>
      refine ⟨line, rfl, ?_⟩
      rw [step, hphase] at hstep
      by_cases hunread : s.unread = []
      · by_cases hclosed : s.closed = true
        · simp only [hunread, ne_eq, not_true_eq_false, if_false, if_pos hclosed,
            Option.some.injEq] at hstep
          exact Or.inr ⟨hunread, hclosed, hstep.symm⟩
        · simp [hunread, hclosed] at hstep
      · simp only [if_pos hunread, Option.some.injEq, ne_eq] at hstep
        exact Or.inl ⟨hunread, hstep.symm⟩

end Steps

end KeepAlive
end Etude
