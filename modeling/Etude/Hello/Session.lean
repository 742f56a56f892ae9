import Etude.Base.Run
import Mathlib.Logic.Function.Basic

/-!
# Session — one table for all calls of the repository

`StreamRepository.session()` keeps the future of its `CREATE TABLE` statement in a volatile field,
and issues another statement when that one has failed.  Nothing keeps two calls from doing so at
once: each access to the field is a step, and the steps of all calls interleave.
-/

namespace Etude
namespace Hello

open Base

/-- Where a call of `session` is. -/
inductive SessionCall
  /-- Before the comparison with `null`. -/
  | before
  /-- Before `isCompletedExceptionally`. -/
  | notNull
  /-- Before `executeCreateTable`. -/
  | creating
  /-- Before the future of the statement is assigned to the field. -/
  | issued (future : ℕ)
  /-- Before `return initialisedSession`. -/
  | returning
  | returned (future : Option ℕ)
  /-- Ended by a `NullPointerException`. -/
  | thrown
  deriving DecidableEq, Repr

/-- A future is the number of its statement; `statements` are their outcomes so far, and
`some false` is one that has completed exceptionally. -/
structure Repository (ι : Type) where
  initialisedSession : Option ℕ
  statements : List (Option Bool)
  calls : ι → SessionCall

inductive SessionEvent (ι : Type)
  | compare (call : ι)
  | test (call : ι)
  | create (call : ι)
  | assign (call : ι)
  | read (call : ι)
  | complete (future : ℕ) (success : Bool)
  deriving DecidableEq, Repr

namespace Repository

variable {ι : Type}

/-- The constructor has found no session and has issued the first statement. -/
def init : Repository ι :=
  { initialisedSession := some 0
    statements := [none]
    calls := fun _ => .before }

def Failed (s : Repository ι) (future : ℕ) : Prop :=
  s.statements[future]? = some (some false)

instance (s : Repository ι) (future : ℕ) : Decidable (s.Failed future) :=
  inferInstanceAs (Decidable (_ = _))

section Step

variable [DecidableEq ι]

def goto (s : Repository ι) (call : ι) (pc : SessionCall) : Repository ι :=
  { s with calls := Function.update s.calls call pc }

def step (s : Repository ι) : SessionEvent ι → Option (Repository ι)
  | .compare call =>
      if s.calls call = .before then
        some (s.goto call (if s.initialisedSession = none then .creating else .notNull))
      else
        none
  -- The field is read again, and it need not hold what was compared with `null`.
  | .test call =>
      if s.calls call = .notNull then
        match s.initialisedSession with
        | some future => some (s.goto call (if s.Failed future then .creating else .returning))
        | none => some (s.goto call .thrown)
      else
        none
  | .create call =>
      if s.calls call = .creating then
        some ({ s with statements := s.statements ++ [none] }.goto call
          (.issued s.statements.length))
      else
        none
  | .assign call =>
      match s.calls call with
      | .issued future => some ({ s with initialisedSession := some future }.goto call .returning)
      | _ => none
  -- And once more for the result.
  | .read call =>
      if s.calls call = .returning then
        some (s.goto call (.returned s.initialisedSession))
      else
        none
  | .complete future success =>
      if s.statements[future]? = some none then
        some { s with statements := s.statements.set future (some success) }
      else
        none

end Step

/-! ## The invariant -/

/-- What a call knows where it is. -/
def Knows (s : Repository ι) : SessionCall → Prop
  | .creating => ∃ j, s.Failed j
  | .issued future => future < s.statements.length
  | .returned future => ∃ i < s.statements.length, future = some i
  | .thrown => False
  | _ => True

/-- The field is never `null`, and behind the first statement there are only retries. -/
structure Inv (s : Repository ι) : Prop where
  session : ∃ i < s.statements.length, s.initialisedSession = some i
  calls : ∀ call, s.Knows (s.calls call)
  retries : ∀ k, 0 < k → k < s.statements.length → ∃ j < k, s.Failed j

theorem inv_init : (init : Repository ι).Inv := by
  refine
    { session := ⟨0, Nat.zero_lt_one, rfl⟩
      calls := fun _ => trivial
      retries := ?_ }
  intro k hpos hk
  exact absurd hk (by simp [init]; omega)

/-- Statements are only added, and those that have failed stay failed. -/
structure Grows (s t : Repository ι) : Prop where
  length : s.statements.length ≤ t.statements.length
  failed : ∀ {j}, s.Failed j → t.Failed j

theorem Knows.mono {s t : Repository ι} (h : s.Grows t) {pc : SessionCall} (hpc : s.Knows pc) :
    t.Knows pc := by
  cases pc with
  | creating =>
      rcases hpc with ⟨j, hj⟩
      exact ⟨j, h.failed hj⟩
  | issued future =>
      exact Nat.lt_of_lt_of_le hpc h.length
  | returned future =>
      rcases hpc with ⟨i, hi, rfl⟩
      exact ⟨i, Nat.lt_of_lt_of_le hi h.length, rfl⟩
  | thrown =>
      exact hpc
  | before | notNull | returning =>
      trivial

section Statements

variable {s : Repository ι}

theorem Failed.lt {j : ℕ} (h : s.Failed j) : j < s.statements.length :=
  (List.getElem?_eq_some_iff.mp h).1

/-- A statement is issued by a call that has seen a failed one. -/
theorem Inv.create (h : s.Inv) (hfailed : ∃ j, s.Failed j) :
    Inv { s with statements := s.statements ++ [none] } := by
  have hgrows : s.Grows { s with statements := s.statements ++ [none] } :=
    { length := by simp
      failed := fun hj => by
        change (s.statements ++ [none])[_]? = _
        rw [List.getElem?_append_left hj.lt]
        exact hj }
  rcases h.session with ⟨i, hi, hsession⟩
  refine
    { session := ⟨i, Nat.lt_of_lt_of_le hi hgrows.length, hsession⟩
      calls := fun call => (h.calls call).mono hgrows
      retries := ?_ }
  intro k hpos hk
  rw [List.length_append, List.length_singleton] at hk
  rcases Nat.lt_or_ge k s.statements.length with hold | hnew
  · rcases h.retries k hpos hold with ⟨j, hj, hfail⟩
    exact ⟨j, hj, hgrows.failed hfail⟩
  · -- The new statement is the retry of the one that the call has seen fail.
    rcases hfailed with ⟨j, hfail⟩
    exact ⟨j, Nat.lt_of_lt_of_le hfail.lt hnew, hgrows.failed hfail⟩

theorem Inv.complete (h : s.Inv) {future : ℕ} (success : Bool)
    (hpending : s.statements[future]? = some none) :
    Inv { s with statements := s.statements.set future (some success) } := by
  have hgrows : s.Grows { s with statements := s.statements.set future (some success) } :=
    { length := by simp
      failed := fun {j} hj => by
        -- A statement completes once.
        have hne : future ≠ j := by
          rintro rfl
          rw [Failed, hpending] at hj
          cases hj
        change (s.statements.set future (some success))[j]? = _
        rw [List.getElem?_set_ne hne]
        exact hj }
  rcases h.session with ⟨i, hi, hsession⟩
  refine
    { session := ⟨i, Nat.lt_of_lt_of_le hi hgrows.length, hsession⟩
      calls := fun call => (h.calls call).mono hgrows
      retries := ?_ }
  intro k hpos hk
  rw [List.length_set] at hk
  rcases h.retries k hpos hk with ⟨j, hj, hfail⟩
  exact ⟨j, hj, hgrows.failed hfail⟩

end Statements

section Steps

variable [DecidableEq ι] {s t : Repository ι}

/-- A call that goes on with what it then knows keeps the invariant. -/
theorem Inv.goto (h : s.Inv) (call : ι) {pc : SessionCall} (hpc : s.Knows pc) :
    (s.goto call pc).Inv := by
  refine
    { session := h.session
      calls := ?_
      retries := h.retries }
  intro other
  change s.Knows (Function.update s.calls call pc other)
  by_cases hother : other = call
  · rw [hother, Function.update_self]
    exact hpc
  · rw [Function.update_of_ne hother]
    exact h.calls other

theorem inv_step {e : SessionEvent ι} (h : s.Inv) (hstep : s.step e = some t) : t.Inv := by
  rcases h.session with ⟨i, hi, hsession⟩
  cases e with
  | compare call =>
      -- The branch for `null` is not taken.
      have hne : s.initialisedSession ≠ none := by simp [hsession]
      simp only [step, if_neg hne] at hstep
      split_ifs at hstep with hcall
      cases hstep
      exact h.goto call trivial
  | test call =>
      simp only [step, hsession] at hstep
      split_ifs at hstep with hcall hfailed
      · cases hstep
        exact h.goto call ⟨i, hfailed⟩
      · cases hstep
        exact h.goto call trivial
  | create call =>
      simp only [step] at hstep
      split_ifs at hstep with hcall
      cases hstep
      have hknows := h.calls call
      rw [hcall] at hknows
      refine (h.create hknows).goto call ?_
      change s.statements.length < (s.statements ++ [none]).length
      simp
  | assign call =>
      simp only [step] at hstep
      split at hstep
      · rename_i future hcall
        cases hstep
        have hknows := h.calls call
        rw [hcall] at hknows
        have hinv : Inv { s with initialisedSession := some future } :=
          { session := ⟨future, hknows, rfl⟩
            calls := h.calls
            retries := h.retries }
        exact hinv.goto call trivial
      · cases hstep
  | read call =>
      simp only [step] at hstep
      split_ifs at hstep with hcall
      cases hstep
      exact h.goto call ⟨i, hi, hsession⟩
  | complete future success =>
      simp only [step] at hstep
      split_ifs at hstep with hpending
      cases hstep
      exact h.complete success hpending

/-! ## The runs -/

/-- Alone, a call that finds a failed statement issues another one and gets its future. -/
theorem retry_alone {call : ι} {i : ℕ} (hcall : s.calls call = .before)
    (hsession : s.initialisedSession = some i) (hfailed : s.Failed i) :
    ∃ t, run step s [.compare call, .test call, .create call, .assign call, .read call] = some t ∧
      t.calls call = .returned (some s.statements.length) := by
  have hfailed' : s.statements[i]? = some (some false) := hfailed
  refine ⟨_, by simp [run, step, goto, Failed, hcall, hsession, hfailed']; rfl, ?_⟩
  simp

end Steps

/-- Whatever calls interleave and whenever statements complete: no call throws, each one gets the
future of a statement, and each statement but the first comes behind one that has failed.  As long
as none fails, there is a single statement, which all calls share; a call that starts when the kept
one has failed, and is alone, gets a new one. -/
theorem session_shared [DecidableEq ι] {es : List (SessionEvent ι)} {s : Repository ι}
    (h : run step init es = some s) :
    (∀ call, s.calls call ≠ .thrown) ∧
      (∀ call future, s.calls call = .returned future →
        ∃ i < s.statements.length, future = some i) ∧
      (∀ k, 0 < k → k < s.statements.length → ∃ j < k, s.Failed j) ∧
      ((∀ j, ¬ s.Failed j) → s.statements.length = 1 ∧
        ∀ call future, s.calls call = .returned future → future = some 0) ∧
      ∀ call i, s.calls call = .before → s.initialisedSession = some i → s.Failed i →
        ∃ t, run step s [.compare call, .test call, .create call, .assign call, .read call] =
            some t ∧
          t.calls call = .returned (some s.statements.length) := by
  have hinv : s.Inv := run_keeps (fun _ _ _ => inv_step) inv_init h
  have hreturned : ∀ call future, s.calls call = .returned future →
      ∃ i < s.statements.length, future = some i := by
    intro call future hcall
    have hknows := hinv.calls call
    rwa [hcall] at hknows
  refine ⟨?_, hreturned, hinv.retries, ?_, fun _ _ => retry_alone⟩
  · intro call hcall
    have hknows := hinv.calls call
    rwa [hcall] at hknows
  · intro hnone
    -- A second statement would be a retry.
    have hlength : s.statements.length = 1 := by
      rcases hinv.session with ⟨i, hi, -⟩
      by_contra hne
      rcases hinv.retries 1 Nat.one_pos (by omega) with ⟨j, -, hfail⟩
      exact hnone j hfail
    refine ⟨hlength, ?_⟩
    intro call future hcall
    rcases hreturned call future hcall with ⟨i, hi, rfl⟩
    have hzero : i = 0 := by omega
    rw [hzero]

/-- Two calls have both seen the first statement fail. -/
theorem session_shared_twoRetries :
    ∃ s : Repository Bool, run step init [.complete 0 false, .compare true, .compare false,
        .test true, .test false, .create true, .create false, .assign false, .assign true,
        .read false] = some s ∧
      s.calls false = .returned (some 1) ∧
      ∀ k, 0 < k → k < s.statements.length → ∃ j < k, s.Failed j := by
  refine ⟨_, rfl, rfl, ?_⟩
  have hrun : run step init [SessionEvent.complete 0 false, .compare true, .compare false,
      .test true, .test false, .create true, .create false, .assign false, .assign true,
      .read false] = some _ := rfl
  exact (session_shared hrun).2.2.1

end Repository

end Hello
end Etude
