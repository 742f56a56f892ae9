import Etude.WinService.Model

/-!
# Reports — check points and accepted controls

Whatever states `reportSvcStatus` is called with, one call after the other, `nextState` makes the
statuses consistent: only `Running` accepts `Stop`, and the check points of pending statuses grow.
-/

namespace Etude
namespace WinService

/-- Neither `Running` nor `Stopped`. -/
def ServiceStatus.Pending (status : ServiceStatus) : Prop :=
  status.currentState ≠ .running ∧ status.currentState ≠ .stopped

/-- Consistent statuses, in the order in which they are reported. -/
structure WellReported (reports : List ServiceStatus) : Prop where
  accepts : ∀ status ∈ reports,
    .acceptStop ∈ status.controlsAccepted ↔ status.currentState = .running
  settled : ∀ status ∈ reports, ¬ status.Pending → status.checkPoint = 0
  grows : reports.Pairwise fun earlier later =>
    earlier.Pending → later.Pending → earlier.checkPoint < later.checkPoint

theorem WellReported.of_prefix {reports some : List ServiceStatus} (h : WellReported reports)
    (hsome : some <+: reports) : WellReported some :=
  { accepts := fun status hstatus => h.accepts status (hsome.subset hstatus)
    settled := fun status hstatus => h.settled status (hsome.subset hstatus)
    grows := h.grows.sublist hsome.sublist }

/-- The statuses reported by calls of `reportSvcStatus`, one after the other. -/
def reportAll : GState → List (ServiceState × ErrCode × UInt32) → List ServiceStatus
  | _, [] => []
  | g, (state, win32ExitCode, waitHint) :: calls =>
      let g' := reportedState state win32ExitCode waitHint g
      g'.2 :: reportAll g' calls

theorem reportedState_spec (state : ServiceState) (win32ExitCode : ErrCode) (waitHint : UInt32)
    (g : GState) :
    let g' := reportedState state win32ExitCode waitHint g
    (.acceptStop ∈ g'.2.controlsAccepted ↔ g'.2.currentState = .running) ∧
      (¬ g'.2.Pending → g'.2.checkPoint = 0 ∧ g'.1 = g.1) ∧
      (g'.2.Pending → g'.2.checkPoint = g.1 + 1 ∧ g'.1 = g.1 + 1) := by
  cases state <;> simp [reportedState, nextState, ServiceStatus.Pending]

theorem WellReported.cons {status : ServiceStatus} {reports : List ServiceStatus}
    (h : WellReported reports)
    (haccepts : .acceptStop ∈ status.controlsAccepted ↔ status.currentState = .running)
    (hsettled : ¬ status.Pending → status.checkPoint = 0)
    (hgrows : status.Pending → ∀ later ∈ reports, later.Pending →
      status.checkPoint < later.checkPoint) : WellReported (status :: reports) :=
  { accepts := List.forall_mem_cons.mpr ⟨haccepts, h.accepts⟩
    settled := List.forall_mem_cons.mpr ⟨hsettled, h.settled⟩
    grows := List.pairwise_cons.mpr ⟨fun later hlater hs => hgrows hs later hlater, h.grows⟩ }

/-- The next check point is beyond those of the pending statuses so far, and does not wrap. -/
theorem reportAll_spec {g : GState} {calls : List (ServiceState × ErrCode × UInt32)}
    (h : g.1.toNat + calls.length < UInt32.size) :
    WellReported (reportAll g calls) ∧
      ∀ status ∈ reportAll g calls, status.Pending → g.1 < status.checkPoint := by
  induction calls generalizing g with
  | nil =>
      refine ⟨⟨?_, ?_, ?_⟩, ?_⟩ <;> simp [reportAll]
  | cons call calls ih =>
      rcases call with ⟨state, win32ExitCode, waitHint⟩
      rw [List.length_cons] at h
      have hnext : reportAll g ((state, win32ExitCode, waitHint) :: calls) =
          (reportedState state win32ExitCode waitHint g).2 ::
            reportAll (reportedState state win32ExitCode waitHint g) calls := rfl
      rcases reportedState_spec state win32ExitCode waitHint g with ⟨haccepts, hsettled, hpending⟩
      rw [hnext]
      generalize reportedState state win32ExitCode waitHint g = g' at *
      by_cases hstatus : g'.2.Pending
      · rcases hpending hstatus with ⟨hcheckPoint, hcounter⟩
        have hsucc : g'.1.toNat = g.1.toNat + 1 := by
          rw [hcounter, UInt32.toNat_add]
          exact Nat.mod_eq_of_lt (by show g.1.toNat + 1 < UInt32.size; omega)
        have hlt : g.1 < g'.1 := UInt32.lt_iff_toNat_lt.mpr (by omega)
        rcases ih (g := g') (by omega) with ⟨hrest, hbeyond⟩
        refine ⟨hrest.cons haccepts (fun hnot => absurd hstatus hnot) ?_, ?_⟩
        · intro _ later hlater hpending'
          rw [hcheckPoint, ← hcounter]
          exact hbeyond later hlater hpending'
        · refine List.forall_mem_cons.mpr ⟨fun _ => ?_, fun status hmem hs => ?_⟩
          · rw [hcheckPoint, ← hcounter]
            exact hlt
          · exact UInt32.lt_trans hlt (hbeyond status hmem hs)
      · rcases hsettled hstatus with ⟨hcheckPoint, hcounter⟩
        rcases ih (g := g') (by rw [hcounter]; omega) with ⟨hrest, hbeyond⟩
        rw [hcounter] at hbeyond
        refine ⟨hrest.cons haccepts (fun _ => hcheckPoint) fun hs => absurd hs hstatus, ?_⟩
        exact List.forall_mem_cons.mpr ⟨fun hs => absurd hs hstatus, hbeyond⟩

end WinService
end Etude
