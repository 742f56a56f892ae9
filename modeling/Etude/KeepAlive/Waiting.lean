import Etude.Base.Run
import Etude.KeepAlive.SelectStdin

/-!
# Waiting — the lines that the program has and the lines that it has printed

`select` sees the descriptor and not the buffer, so the program waits with a line in hand when one
`read` takes more than one line (`not_printsTaken`).  As long as every `read` completes at most one
line, the buffer never holds a complete line while the program waits (`printsTaken_iff`).
-/

namespace Etude
namespace KeepAlive

open Base

/-! ## What has been printed -/

def printed (output : List Message) : List (List UInt8) :=
  output.filterMap fun m =>
    match m with
    | .line text => some text
    | _ => none

theorem printed_append_line (output : List Message) (text : List UInt8) :
    printed (output ++ [.line text]) = printed output ++ [text] := by
  simp [printed]

theorem printed_append_keepAlive (output : List Message) :
    printed (output ++ [.keepAlive]) = printed output := by
  simp [printed]

theorem printed_append_nread (output : List Message) (n : ℤ) :
    printed (output ++ [.nread n]) = printed output := by
  simp [printed]

/-- When the program is about to wait, every complete line that it has taken is printed. -/
def PrintsTaken (s : State) : Prop :=
  s.phase = .select → completeLines newline s.taken <+: printed s.output

/-- What the program has taken of a line without printing it. -/
def State.pending (s : State) : List UInt8 :=
  match s.phase with
  | .select => s.buffer
  | .getline line => line ++ s.buffer
  | .exited => []

/-- A `read` after which `getline` can print completes at most one line, and no byte of that line is
zero. -/
def TakesOneLine (s : State) (e : Event) : Prop :=
  e = .read true → (completeLines newline (s.pending ++ s.unread)).length ≤ 1 ∧
    ∀ l ∈ completeLines newline (s.pending ++ s.unread), 0 ∉ l

/-! ## The invariant -/

/-- `getline` reads only when it has searched the whole buffer. -/
def Searched (s : State) : Prop :=
  ∀ line, s.phase = .getline line → s.buffer = []

/-- While the input goes on, exactly the complete lines are printed and the rest is pending.  At its
end the last line, not a complete one, may have been printed too. -/
inductive Inv (s : State) : Prop where
  | reading : Searched s → printed s.output = completeLines newline s.taken →
      s.pending = remainder newline s.taken → Inv s
  | ended : Searched s → completeLines newline s.taken <+: printed s.output →
      s.pending = [] → s.unread = [] → s.closed = true → Inv s
  | exited : s.phase = .exited → Inv s

theorem Inv.printsTaken {s : State} (h : Inv s) : PrintsTaken s := by
  intro hphase
  cases h with
  | reading _ hprinted _ =>
      exact hprinted ▸ List.prefix_rfl
  | ended _ hprefix _ _ _ =>
      exact hprefix
  | exited hexit =>
      rw [hphase] at hexit
      cases hexit

theorem inv_start : Inv start :=
  .reading (by simp [Searched, start]) rfl rfl

/-! ## Each event keeps the invariant -/

/-- What a `read` does while the input goes on: `getline` prints the first complete line of what is
pending, or all of it stays pending. -/
theorem Inv.taking {s t : State} {written : Bool} (h : Inv s) (hunread : s.unread ≠ [])
    (hstep : step s (.read written) = some t) :
    printed s.output = completeLines newline s.taken ∧
      s.pending = remainder newline s.taken ∧
      ((∃ l rest, cut newline (s.pending ++ s.unread) =
            (l :: completeLines newline rest, remainder newline rest) ∧
          t = printOrExit written (.line (cString l)) { s.fill with buffer := rest }) ∨
        (newline ∉ s.pending ++ s.unread ∧
          t = { s.fill with buffer := [], phase := .getline (s.pending ++ s.unread) })) := by
  rcases step_read hstep with ⟨line, hphase, ⟨-, rfl⟩ | ⟨hnil, -⟩⟩
  · have hall : s.pending = line ++ s.buffer := by rw [State.pending, hphase]
    cases h with
    | ended _ _ _ hnil _ =>
        exact absurd hnil hunread
    | exited hexit =>
        rw [hphase] at hexit
        cases hexit
    | reading _ hprinted hpending =>
        have hline : newline ∉ line := by
          have hnot : newline ∉ remainder newline s.taken := notMem_remainder s.taken
          rw [← hpending, hall, List.mem_append, not_or] at hnot
          exact hnot.1
        refine ⟨hprinted, hpending, ?_⟩
        rw [hall, List.append_assoc]
        rcases search_cases written s.fill hline with
          ⟨l, rest, hcut, hsearch⟩ | ⟨hnot, hsearch⟩
        · exact Or.inl ⟨l, rest, hcut, hsearch⟩
        · exact Or.inr ⟨hnot, hsearch⟩
  · exact absurd hnil hunread

/-- A program that exits prints nothing any more. -/
theorem inv_exit (m : Message) (s : State) : Inv (printOrExit false m s) :=
  .exited rfl

/-- The input goes on when what a `read` took is printed or still pending. -/
theorem inv_of_taken {s t : State} (hprinted : printed s.output = completeLines newline s.taken)
    (hpending : s.pending = remainder newline s.taken) (hsearched : Searched t)
    (htaken : t.taken = s.taken ++ s.unread)
    (hlines : printed t.output =
      printed s.output ++ completeLines newline (s.pending ++ s.unread))
    (hrest : t.pending = remainder newline (s.pending ++ s.unread)) : Inv t := by
  refine .reading hsearched ?_ ?_
  · calc
      printed t.output = printed s.output ++ completeLines newline (s.pending ++ s.unread) := hlines
      _ = completeLines newline (s.taken ++ s.unread) := by
        rw [completeLines_append s.taken, ← hpending, hprinted]
      _ = completeLines newline t.taken := by rw [htaken]
  · calc
      t.pending = remainder newline (s.pending ++ s.unread) := hrest
      _ = remainder newline (s.taken ++ s.unread) := by rw [remainder_append s.taken, ← hpending]
      _ = remainder newline t.taken := by rw [htaken]

theorem Inv.read_keeps {s t : State} {written : Bool} (h : Inv s) (hunread : s.unread ≠ [])
    (hC : TakesOneLine s (.read written)) (hstep : step s (.read written) = some t) : Inv t := by
  rcases h.taking hunread hstep with ⟨hprinted, hpending, hcases⟩
  rcases hcases with ⟨l, rest, hl, rfl⟩ | ⟨hnot, rfl⟩
  · cases written with
    | false =>
        exact inv_exit _ _
    | true =>
        rcases hC rfl with ⟨hlen, hnul⟩
        have hlines : completeLines newline (s.pending ++ s.unread) =
            l :: completeLines newline rest := by rw [completeLines, hl]
        -- Nothing but the line that is printed can be complete.
        have hrest : completeLines newline rest = [] := by
          rw [hlines, List.length_cons] at hlen
          exact List.length_eq_zero_iff.mp (by omega)
        have hprint : cString l = l :=
          cString_eq_self_iff.mpr (hnul l (by rw [hlines]; exact List.mem_cons_self))
        refine inv_of_taken hprinted hpending (by simp [Searched, printOrExit]) rfl ?_ ?_
        · show printed (s.output ++ [.line (cString l)]) = _
          rw [printed_append_line, hprint, hlines, hrest]
        · show rest = remainder newline (s.pending ++ s.unread)
          rw [remainder, hl]
          exact (remainder_of_completeLines_eq_nil hrest).symm
  · refine inv_of_taken hprinted hpending (by simp [Searched]) rfl ?_ ?_
    · rw [completeLines, cut_of_notMem hnot, List.append_nil]
      rfl
    · rw [remainder, cut_of_notMem hnot]
      exact List.append_nil _

/-- At the end of the input `getline` returns what it holds, and nothing is left. -/
theorem Inv.ends {s : State} {line : List UInt8} (h : Inv s) (hphase : s.phase = .getline line)
    (hunread : s.unread = []) (hclosed : s.closed = true) (written : Bool) :
    Inv (endOfFile written line s) := by
  have hpre : Searched s ∧ completeLines newline s.taken <+: printed s.output := by
    cases h with
    | reading hsearched hprinted _ =>
        exact ⟨hsearched, hprinted ▸ List.prefix_rfl⟩
    | ended hsearched hprefix _ _ _ =>
        exact ⟨hsearched, hprefix⟩
    | exited hexit =>
        rw [hphase] at hexit
        cases hexit
  rcases hpre with ⟨hsearched, hprefix⟩
  have hbuffer : s.buffer = [] := hsearched line hphase
  by_cases hline : 0 < line.length
  · rw [endOfFile, if_pos hline]
    cases written with
    | false =>
        exact inv_exit _ _
    | true =>
        refine .ended (by simp [Searched, printOrExit]) ?_ hbuffer hunread hclosed
        show completeLines newline s.taken <+: printed (s.output ++ [.line (cString line)])
        rw [printed_append_line]
        exact hprefix.trans (List.prefix_append _ _)
  · rw [endOfFile, if_neg hline]
    refine .ended (by simp [Searched]) ?_ hbuffer hunread hclosed
    cases written with
    | false =>
        exact hprefix
    | true =>
        show completeLines newline s.taken <+: printed (s.output ++ [.nread (-1)])
        rw [printed_append_nread]
        exact hprefix

theorem Inv.notMem_pending {s : State} (h : Inv s) : newline ∉ s.pending := by
  cases h with
  | reading _ _ hrem =>
      rw [hrem]
      exact notMem_remainder s.taken
  | ended _ _ hnil _ _ =>
      rw [hnil]
      exact List.not_mem_nil
  | exited hexit =>
      rw [State.pending, hexit]
      exact List.not_mem_nil

/-- When `select` finds the descriptor readable, `getline` finds no line in the buffer. -/
theorem Inv.ready {s : State} (h : Inv s) (hphase : s.phase = .select) (written : Bool) :
    Inv (search written [] s) := by
  have hpending : s.pending = s.buffer := by rw [State.pending, hphase]
  have hnot : newline ∉ s.buffer := hpending ▸ h.notMem_pending
  rcases search_cases written s List.not_mem_nil with
    ⟨l, rest, hcut, -⟩ | ⟨-, hsearch⟩
  · rw [List.nil_append, cut_of_notMem hnot] at hcut
    cases hcut
  · rw [hsearch]
    -- What was in the buffer is now what `getline` holds.
    have hsame : State.pending { s with buffer := [], phase := .getline ([] ++ s.buffer) } =
        s.pending := by
      rw [hpending]
      exact List.append_nil s.buffer
    cases h with
    | reading _ hprinted hrem =>
        exact .reading (by simp [Searched]) hprinted (by rw [hsame, hrem])
    | ended _ hprefix hnil hunread hclosed =>
        exact .ended (by simp [Searched]) hprefix (by rw [hsame, hnil]) hunread hclosed
    | exited hexit =>
        rw [hphase] at hexit
        cases hexit

/-- A timeout comes only while the descriptor is not readable, so before the end of the input. -/
theorem Inv.timeout {s : State} (h : Inv s) (hphase : s.phase = .select)
    (hreadable : s.readable = false) (written : Bool) : Inv (printOrExit written .keepAlive s) := by
  cases written with
  | false =>
      exact inv_exit _ _
  | true =>
      cases h with
      | reading _ hprinted hpending =>
          refine .reading (by simp [Searched, printOrExit]) ?_ ?_
          · exact (printed_append_keepAlive s.output).trans hprinted
          · rw [State.pending, hphase] at hpending
            exact hpending
      | ended _ _ _ _ hclosed =>
          simp [State.readable, hclosed] at hreadable
      | exited hexit =>
          rw [hphase] at hexit
          cases hexit

theorem Inv.keeps {s t : State} {e : Event} (h : Inv s) (hC : TakesOneLine s e)
    (hstep : step s e = some t) : Inv t := by
  cases e with
  | arrive piece =>
      by_cases hclosed : s.closed = true
      · simp [step, hclosed] at hstep
      · simp only [step, if_neg hclosed, Option.some.injEq] at hstep
        subst hstep
        cases h with
        | reading hsearched hprinted hpending =>
            exact .reading hsearched hprinted hpending
        | ended _ _ _ _ hended =>
            exact absurd hended hclosed
        | exited hexit =>
            exact .exited hexit
  | close =>
      cases hstep
      cases h with
      | reading hsearched hprinted hpending =>
          exact .reading hsearched hprinted hpending
      | ended hsearched hprefix hpending hunread _ =>
          exact .ended hsearched hprefix hpending hunread rfl
      | exited hexit =>
          exact .exited hexit
  | error =>
      rcases step_error hstep with ⟨-, rfl⟩
      exact h
  | timeout written =>
      rcases step_timeout hstep with ⟨hphase, hreadable, rfl⟩
      exact h.timeout hphase hreadable written
  | ready written =>
      rcases step_ready hstep with ⟨hphase, rfl⟩
      exact h.ready hphase written
  | read written =>
      rcases step_read hstep with ⟨line, hphase, ⟨hunread, -⟩ | ⟨hunread, hclosed, rfl⟩⟩
      · exact h.read_keeps hunread hC hstep
      · exact h.ends hphase hunread hclosed written

/-- A `read` that takes more than one line leaves the program waiting for one that it has. -/
theorem Inv.read_breaks {s t : State} (h : Inv s) (hunread : s.unread ≠ [])
    (hC : ¬ TakesOneLine s (.read true)) (hstep : step s (.read true) = some t) :
    ¬ PrintsTaken t := by
  rcases h.taking hunread hstep with ⟨hprinted, hpending, hcases⟩
  rcases hcases with ⟨l, rest, hl, rfl⟩ | ⟨hnot, rfl⟩
  · have hlines : completeLines newline (s.pending ++ s.unread) =
        l :: completeLines newline rest := by rw [completeLines, hl]
    intro hall
    have hprefix : completeLines newline (s.taken ++ s.unread) <+:
        printed (s.output ++ [.line (cString l)]) := hall rfl
    rw [completeLines_append, ← hpending, hlines, printed_append_line, hprinted,
      List.prefix_append_right_inj, List.cons_prefix_cons, List.prefix_nil] at hprefix
    rcases hprefix with ⟨hprint, hrest⟩
    refine hC fun _ => ?_
    rw [hlines, hrest]
    exact ⟨le_rfl, List.forall_mem_singleton.mpr (cString_eq_self_iff.mp hprint.symm)⟩
  · have hnone : completeLines newline (s.pending ++ s.unread) = [] := by
      rw [completeLines, cut_of_notMem hnot]
    refine absurd (fun _ => ?_) hC
    rw [hnone]
    exact ⟨Nat.zero_le 1, fun l hl => absurd hl List.not_mem_nil⟩

theorem Inv.breaks {s t : State} {e : Event} (h : Inv s) (hstep : step s e = some t)
    (hC : ¬ TakesOneLine s e) : ¬ PrintsTaken t := by
  have he : e = .read true := by
    by_contra hne
    exact hC fun h => absurd h hne
  subst he
  rcases step_read hstep with ⟨line, -, ⟨hunread, -⟩ | ⟨hunread, -, -⟩⟩
  · exact h.read_breaks hunread hC hstep
  · -- At the end of the input nothing more is taken.
    have hnone : completeLines newline (s.pending ++ s.unread) = [] := by
      rw [hunread, List.append_nil, completeLines, cut_of_notMem h.notMem_pending]
    refine absurd (fun _ => ?_) hC
    rw [hnone]
    exact ⟨Nat.zero_le 1, fun l hl => absurd hl List.not_mem_nil⟩

/-! ## Whole runs -/

/-- Whatever arrives and whenever, the program never waits with a complete line in hand, exactly if
no `read` completes more than one line and no printed line has a zero byte. -/
theorem printsTaken_iff (es : List Event) :
    Throughout step PrintsTaken start es ↔ Along step TakesOneLine start es :=
  throughout_iff_along (I := Inv) (fun _ _ _ h hC hstep => h.keeps hC hstep)
    (fun _ h => h.printsTaken) (fun _ _ _ h hstep hC => h.breaks hstep hC) inv_start

/-- Two lines that arrive together: the program prints one, and then the keep-alive message. -/
theorem not_printsTaken :
    ¬ ∀ es, Throughout step PrintsTaken start es := by
  intro h
  have hrun := throughout_iff_prefix.mp
    (h [.arrive [97, 10, 98, 10], .ready true, .read true, .timeout true]) _ _ List.prefix_rfl rfl
  exact absurd (hrun rfl) (by decide)

end KeepAlive
end Etude
