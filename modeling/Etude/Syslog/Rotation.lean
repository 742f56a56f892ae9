import Etude.Base.Run
import Etude.Syslog.Server

/-!
# Rotation — the handle and the day it was opened for

`rotateLogFile` stores a new day at once, but it never stores the handle that it opens for it:
the `ServerState` keeps the handle of the day on which the server was created, and that is also
the one the forked threads close.  Day and handle agree as long as the day does not change.
-/

namespace Etude
namespace Syslog

open Base

/-! ## File names -/

theorem length_printfDec {w n : ℕ} (hn : n < 10 ^ w) : (printfDec w n).length = w := by
  rw [printfDec, List.length_map, length_padDigits_eq hn]

/-- The digits can be read back. -/
theorem map_printfDec (w n : ℕ) :
    (printfDec w n).map (fun c => c.toNat - 48) = padDigits w n := by
  have hdigit : ∀ d < 10, (Nat.digitChar d).toNat - 48 = d := by decide
  rw [printfDec, List.map_map]
  calc
    (padDigits w n).map ((fun c => c.toNat - 48) ∘ Nat.digitChar) = (padDigits w n).map id :=
      List.map_congr_left fun d hd => hdigit d (padDigits_lt hd)
    _ = padDigits w n := List.map_id _

theorem printfDec_injective (w : ℕ) : Function.Injective (printfDec w) := by
  intro m n h
  apply padDigits_injective w
  rw [← map_printfDec w m, h, map_printfDec]

/-- Different days have different log files. -/
theorem logFilePath_injective (dir basefile : List Char) :
    Function.Injective (logFilePath dir basefile) := by
  intro d e h
  have hfile : logFileName basefile d = logFileName basefile e := congrArg FilePath.file h
  have hday : ∀ n : Fin 32, (printfDec 2 n).length = 2 :=
    fun n => length_printfDec (by omega)
  have hmonth : ∀ n : Fin 12, (printfDec 2 n).length = 2 :=
    fun n => length_printfDec (by omega)
  -- Month and day have two digits, so the parts of the name are found from its end.
  rcases List.append_inj' hfile rfl with ⟨hfile, -⟩
  rcases List.append_inj' hfile (by rw [hday, hday]) with ⟨hfile, hd⟩
  rcases List.append_inj' hfile rfl with ⟨hfile, -⟩
  rcases List.append_inj' hfile (by rw [hmonth, hmonth]) with ⟨hfile, hm⟩
  rcases List.append_inj' hfile rfl with ⟨hfile, -⟩
  have hy : printfDec 4 d.dateYear = printfDec 4 e.dateYear := List.append_cancel_left hfile
  have hyear := printfDec_injective 4 hy
  have hmon := Fin.ext (printfDec_injective 2 hm)
  have hdayeq := Fin.ext (printfDec_injective 2 hd)
  cases d
  cases e
  simp_all

/-! ## Day and handle agree -/

/-- Every message is written to the log file of its day through an open handle, and the handle in
the `ServerState` is open and refers to the log file of the day next to it. -/
structure Rotated (s : State) : Prop where
  attempts : ∀ a ∈ s.attempts,
    a.file.isOpen = true ∧ a.file.path = logFilePath s.logDir s.baseFile a.day
  handle : ∃ f, s.handles[s.handle]? = some f ∧ f.isOpen = true ∧
    f.path = logFilePath s.logDir s.baseFile s.date

/-- `today` returns the day that the server knows. -/
def SameDay (s : State) (e : Event) : Prop :=
  ∀ d, e = .today d → d = s.date

/-- The main thread has not seen a new day. -/
def Main.KeepsDay (date : Date) : Main → Prop
  | .forking _ _ | .opening _ _ => False
  | .reading _ d => d = date
  | .writing _ d h => d = date ∧ h = 0
  | _ => True

structure Inv (s : State) : Prop where
  handle : s.handle = 0
  handles : s.handles = [⟨logFilePath s.logDir s.baseFile s.date, true⟩]
  closers : s.closers = []
  main : s.main.KeepsDay s.date
  attempts : ∀ a ∈ s.attempts,
    a.file.isOpen = true ∧ a.file.path = logFilePath s.logDir s.baseFile a.day

theorem createServer_inv (logDir baseFile : List Char) (d : Date) :
    Inv (createServer logDir baseFile d) :=
  { handle := rfl
    handles := rfl
    closers := rfl
    main := trivial
    attempts := fun _ h => by cases h }

theorem Inv.rotated {s : State} (h : Inv s) : Rotated s :=
  { attempts := h.attempts
    handle := ⟨⟨logFilePath s.logDir s.baseFile s.date, true⟩, by simp [h.handles, h.handle], rfl,
      rfl⟩ }

/-- Moving the main thread to a place that agrees with the day. -/
theorem Inv.goto {s : State} (h : Inv s) {main : Main} (hmain : main.KeepsDay s.date) :
    Inv { s with main := main } :=
  { handle := h.handle
    handles := h.handles
    closers := h.closers
    main := hmain
    attempts := h.attempts }

theorem Inv.hPutStrLn {s : State} (h : Inv s) (msg : List UInt8) (permitted : Bool) :
    Inv (hPutStrLn s msg s.date permitted ⟨logFilePath s.logDir s.baseFile s.date, true⟩) :=
  { handle := h.handle
    handles := h.handles
    closers := h.closers
    main := by cases permitted <;> trivial
    attempts := by
      intro a ha
      rcases List.mem_append.mp ha with hold | hnew
      · exact h.attempts a hold
      · rw [List.mem_singleton] at hnew
        subst hnew
        exact ⟨rfl, rfl⟩ }

theorem Inv.step {s t : State} {e : Event} (h : Inv s) (hday : SameDay s e)
    (hstep : step s e = some t) : Inv t := by
  have hmain := h.main
  cases e with
  | recvFrom msg =>
      simp only [Syslog.step] at hstep
      split at hstep
      · cases hstep
        exact h.goto trivial
      · cases hstep
  | today d =>
      have hd : d = s.date := hday d rfl
      simp only [Syslog.step] at hstep
      split at hstep
      · rw [if_neg (fun hne => hne hd)] at hstep
        cases hstep
        exact h.goto hd
      · cases hstep
  | forkCloseFile =>
      simp only [Syslog.step] at hstep
      split at hstep
      -- Only a new day leads here, and there has been none.
      next msg d hforking =>
        rw [hforking] at hmain
        exact hmain.elim
      · cases hstep
  | openLogFile permitted =>
      simp only [Syslog.step] at hstep
      split at hstep
      next msg d hopening =>
        rw [hopening] at hmain
        exact hmain.elim
      · cases hstep
  | readHandle =>
      simp only [Syslog.step] at hstep
      split at hstep
      next msg d hreading =>
        rw [hreading] at hmain
        cases hstep
        exact h.goto ⟨hmain, h.handle⟩
      · cases hstep
  | hPutStrLn permitted =>
      simp only [Syslog.step] at hstep
      split at hstep
      next msg d i hwriting =>
        rw [hwriting] at hmain
        rcases hmain with ⟨rfl, rfl⟩
        rw [h.handles] at hstep
        cases hstep
        exact h.hPutStrLn msg permitted
      · cases hstep
  | readTerminate stop =>
      simp only [Syslog.step] at hstep
      split at hstep
      · cases hstep
        cases stop with
        | true => exact h.goto trivial
        | false => exact h.goto trivial
      · cases hstep
  -- No thread has been forked.
  | closer i => simp [Syslog.step, h.closers] at hstep

/-- On a new day the stored day changes and the stored handle does not. -/
theorem not_rotated_of_newDay {s t : State} {e : Event} (h : Inv s)
    (hstep : step s e = some t) (hday : ¬ SameDay s e) : ¬ Rotated t := by
  simp only [SameDay, not_forall] at hday
  rcases hday with ⟨d, rfl, hd⟩
  simp only [Syslog.step, if_pos hd] at hstep
  split at hstep
  · cases hstep
    intro hrotated
    -- The only handle is still that of the day before.
    rcases hrotated.handle with ⟨f, hf, -, hpath⟩
    simp only [h.handles, h.handle, List.getElem?_cons_zero, Option.some.injEq] at hf
    subst hf
    exact hd (logFilePath_injective _ _ hpath).symm
  · cases hstep

/-! ## Runs -/

/-- Messages are written through the right open handle, and the `ServerState` holds one for its
day, throughout a run exactly if `today` always returns the day the server was created. -/
theorem rotated_iff_sameDay (logDir baseFile : List Char) (d : Date) (es : List Event) :
    Throughout step Rotated (createServer logDir baseFile d) es ↔
      Along step SameDay (createServer logDir baseFile d) es :=
  throughout_iff_along (fun _ _ _ h hday hstep => h.step hday hstep)
    (fun _ h => h.rotated)
    (fun _ _ _ h hstep hday => not_rotated_of_newDay h hstep hday)
    (createServer_inv logDir baseFile d)

/-- Two messages on the day after: the second goes to the handle of the day before, which has
been closed. -/
theorem not_rotated_nextDay :
    ¬ Throughout step Rotated (createServer ['.'] ['s'] ⟨2024, 0, 1⟩)
      [.recvFrom [49], .today ⟨2024, 0, 2⟩, .forkCloseFile, .openLogFile true, .hPutStrLn true,
        .readTerminate false, .closer 0, .closer 0,
        .recvFrom [50], .today ⟨2024, 0, 2⟩, .readHandle, .hPutStrLn true] := by
  intro h
  have hlast := throughout_iff_prefix.mp h _ _ List.prefix_rfl rfl
  -- The second attempt is recorded with the closed handle of the first day.
  have hopen := (hlast.attempts
    ⟨[50], ⟨2024, 0, 2⟩, ⟨logFilePath ['.'] ['s'] ⟨2024, 0, 1⟩, false⟩, false⟩ (by decide)).1
  cases hopen

end Syslog
end Etude
