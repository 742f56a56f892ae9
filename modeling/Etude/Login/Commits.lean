import Etude.Login.SampleLoginModule

/-!
# Commits — when a commit rests on a current login

`commitSucceeded` is never reset and `logout` copies it into `isAuthenticated`, so after one
successful commit every later commit succeeds.  Before that the module is authenticated exactly
while a successful login is open, and a failing login does not close it.
-/

namespace Etude
namespace Login

open SampleLoginModule

/-! ## Histories of calls -/

/-- The name that a login with this answer is accepted for. -/
def acceptedName : HandlerAnswer → Option String
  | .answers (some name) (some password) =>
      if name.isEmpty || password.isEmpty then none else some name
  | _ => none

/-- What a sequence of calls says about logins, without the module. -/
structure History where
  /-- The name of the last login, if that was accepted and no abort or logout came after it. -/
  current : Option String
  /-- A login has been accepted since the last abort or logout. -/
  loginOpen : Bool
  /-- A commit came while a login was open. -/
  committed : Bool
  deriving DecidableEq, Repr

namespace History

def start : History :=
  { current := none
    loginOpen := false
    committed := false }

def call (h : History) : Call → History
  | .login answer =>
      { h with
        current := acceptedName answer
        loginOpen := h.loginOpen || (acceptedName answer).isSome }
  | .commit => { h with committed := h.committed || h.loginOpen }
  | .abort => { h with current := none, loginOpen := false }
  | .logout => { h with current := none, loginOpen := false }

def ofCalls (calls : List Call) : History :=
  calls.foldl call start

end History

/-- The fields of the module are those that the history of its calls calls for. -/
structure Tracks (m : SampleLoginModule) (h : History) : Prop where
  authenticated : m.isAuthenticated = (h.loginOpen || h.committed)
  succeeded : m.commitSucceeded = h.committed
  named : ∀ name, h.current = some name → m.username = some name ∧ h.loginOpen = true

/-! ## One call -/

theorem login_accepted {m : SampleLoginModule} {answer : HandlerAnswer} {name : String}
    (h : acceptedName answer = some name) :
    (m.login answer).1.isAuthenticated = true ∧
      (m.login answer).1.commitSucceeded = m.commitSucceeded ∧
      (m.login answer).1.username = some name := by
  cases answer with
  | missing =>
      cases h
  | throws message =>
      cases h
  | answers name' password =>
      cases name' with
      | none =>
          cases h
      | some name' =>
          cases password with
          | none =>
              cases h
          | some password =>
              -- Both texts are there; they are accepted if neither is empty.
              by_cases hempty : name' = "" ∨ password = ""
              · simp [acceptedName, hempty] at h
              · have hname : name' = name := by
                  simpa [acceptedName, hempty] using h
                subst hname
                rw [not_or] at hempty
                simp [login, nullOrEmpty, hempty.1, hempty.2]

theorem login_refused {m : SampleLoginModule} {answer : HandlerAnswer}
    (h : acceptedName answer = none) :
    (m.login answer).1.isAuthenticated = m.isAuthenticated ∧
      (m.login answer).1.commitSucceeded = m.commitSucceeded := by
  cases answer with
  | missing =>
      exact ⟨rfl, rfl⟩
  | throws message =>
      exact ⟨rfl, rfl⟩
  | answers name password =>
      cases password with
      | none =>
          exact ⟨rfl, rfl⟩
      | some password =>
          cases name with
          | none =>
              exact ⟨rfl, rfl⟩
          | some name =>
              have hempty : name = "" ∨ password = "" := by
                simpa [acceptedName, -not_or] using h
              simp [login, nullOrEmpty, hempty]

theorem Tracks.login {m : SampleLoginModule} {h : History} (hm : Tracks m h)
    (answer : HandlerAnswer) : Tracks (m.login answer).1 (h.call (.login answer)) := by
  cases hname : acceptedName answer with
  | none =>
      rcases login_refused (m := m) hname with ⟨hauth, hsucc⟩
      -- A refused login leaves the flags alone but is the last call, so no name is current.
      constructor
      · simp [History.call, hname, hauth, hm.authenticated]
      · simp [History.call, hsucc, hm.succeeded]
      · intro name hcurrent
        rw [History.call, hname] at hcurrent
        cases hcurrent
  | some name =>
      rcases login_accepted (m := m) hname with ⟨hauth, hsucc, huser⟩
      constructor
      · simp [History.call, hname, hauth]
      · simp [History.call, hsucc, hm.succeeded]
      · intro name' hcurrent
        have hname' : name = name' := by
          simpa [History.call, hname] using hcurrent
        subst hname'
        exact ⟨huser, by simp [History.call, hname]⟩

theorem Tracks.commit {m : SampleLoginModule} {h : History} (hm : Tracks m h) :
    Tracks (m.commit).1 (h.call .commit) := by
  cases hauth : m.isAuthenticated with
  | false =>
      -- Nothing is open or committed, and the call changes nothing.
      have hnone : h.loginOpen = false ∧ h.committed = false := by
        simpa [hauth] using hm.authenticated.symm
      rw [commit_of_not_authenticated hauth]
      constructor
      · simpa [History.call, hnone] using hauth
      · simpa [History.call, hnone] using hm.succeeded
      · exact hm.named
  | true =>
      have hsome : (h.loginOpen || h.committed) = true := by
        rw [← hm.authenticated, hauth]
      constructor
      · simpa [SampleLoginModule.commit, hauth, foldl_addRole, History.call, Bool.or_comm]
          using hsome
      · simpa [SampleLoginModule.commit, hauth, foldl_addRole, History.call, Bool.or_comm]
          using hsome
      · intro name hcurrent
        simpa [SampleLoginModule.commit, hauth, foldl_addRole, History.call]
          using hm.named name hcurrent

theorem Tracks.logout {m : SampleLoginModule} {h : History} (hm : Tracks m h) :
    Tracks (m.logout).1 (h.call .logout) := by
  constructor
  · simpa [SampleLoginModule.logout, History.call] using hm.succeeded
  · exact hm.succeeded
  · intro name hcurrent
    cases hcurrent

theorem Tracks.abort {m : SampleLoginModule} {h : History} (hm : Tracks m h) :
    Tracks (m.abort).1 (h.call .abort) := by
  have hnamed : ∀ name, (h.call .abort).current = some name →
      (m.abort).1.username = some name ∧ (h.call .abort).loginOpen = true := by
    intro name hcurrent
    cases hcurrent
  cases hauth : m.isAuthenticated with
  | false =>
      have hnone : h.loginOpen = false ∧ h.committed = false := by
        simpa [hauth] using hm.authenticated.symm
      refine ⟨?_, ?_, hnamed⟩
      · simp [SampleLoginModule.abort, hauth, History.call, hnone]
      · simpa [SampleLoginModule.abort, hauth, History.call] using hm.succeeded
  | true =>
      cases hsucc : m.commitSucceeded with
      | false =>
          have hcommitted : h.committed = false := by
            rw [← hm.succeeded, hsucc]
          refine ⟨?_, ?_, hnamed⟩
          · simp [SampleLoginModule.abort, hauth, hsucc, History.call, hcommitted]
          · simp [SampleLoginModule.abort, hauth, hsucc, History.call, hcommitted]
      | true =>
          -- After a commit an abort is a logout, in the module as in the history.
          have habort : m.abort = (m.logout.1, .ok true) := by
            simp [SampleLoginModule.abort, hauth, hsucc]
          rw [habort]
          exact ⟨hm.logout.authenticated, hm.logout.succeeded, hm.logout.named⟩

theorem Tracks.call {m : SampleLoginModule} {h : History} (hm : Tracks m h) (c : Call) :
    Tracks (m.call c).1 (h.call c) := by
  cases c with
  | login answer =>
      exact hm.login answer
  | commit =>
      exact hm.commit
  | abort =>
      exact hm.abort
  | logout =>
      exact hm.logout

/-! ## Every sequence of calls -/

theorem tracks_after (principals : List Principal) (calls : List Call) :
    Tracks ((initialized principals).after calls) (History.ofCalls calls) := by
  have hstart : Tracks (initialized principals) History.start :=
    ⟨rfl, rfl, fun _ h => by cases h⟩
  exact List.foldl_rel hstart fun c _ _ _ hm => hm.call c

/-- A commit that succeeds or changes the subject follows an accepted login that is the last of
the logins, aborts and logouts, and adds a principal with the name of that login and roles. -/
def CommitSound (principals : List Principal) (before : List Call) : Prop :=
  let m := (initialized principals).after before
  (m.commit).2 = .ok true ∨ (m.commit).1.principals ≠ m.principals →
    ∃ (name : String) (roles : List String), (History.ofCalls before).current = some name ∧
      (m.commit).1.principals =
        m.principals ++ Principal.user (some name) :: roles.map Principal.role

/-- The last of the logins, aborts and logouts is an accepted login, or no login is open and
there never was a commit while one was. -/
def LoginCurrent (before : List Call) : Prop :=
  (History.ofCalls before).current.isSome ∨
    ((History.ofCalls before).loginOpen = false ∧ (History.ofCalls before).committed = false)

theorem commitSound_iff (principals : List Principal) (before : List Call) :
    CommitSound principals before ↔ LoginCurrent before := by
  have hm := tracks_after principals before
  cases hauth : ((initialized principals).after before).isAuthenticated with
  | false =>
      have hnone := hm.authenticated.symm
      rw [hauth, Bool.or_eq_false_iff] at hnone
      refine iff_of_true ?_ (Or.inr hnone)
      intro hcommit
      simp [commit_of_not_authenticated hauth] at hcommit
  | true =>
      rcases commit_of_authenticated hauth with ⟨hret, hprin⟩
      constructor
      -- The commit succeeds, so soundness must name a current login.
      · intro hsound
        rcases hsound (Or.inl hret) with ⟨name, -, hcurrent, -⟩
        exact Or.inl (by simp [hcurrent])
      · rintro (hcurrent | ⟨hopen, hcommitted⟩) -
        · rcases Option.isSome_iff_exists.mp hcurrent with ⟨name, hname⟩
          refine ⟨name, ((initialized principals).after before).userGroups.getD [], hname, ?_⟩
          rw [hprin, (hm.named name hname).1]
        -- With no login open and none committed the module is not authenticated.
        · have hfalse := hm.authenticated
          rw [hauth, hopen, hcommitted] at hfalse
          cases hfalse

/-- Every commit of a sequence of calls is sound exactly if each comes with a current login, or
before any open one was ever committed and with none open. -/
theorem commits_sound_iff (principals : List Principal) (calls : List Call) :
    (∀ before rest, calls = before ++ .commit :: rest → CommitSound principals before) ↔
      ∀ before rest, calls = before ++ .commit :: rest → LoginCurrent before := by
  simp only [commitSound_iff]

/-- Log in, commit, log out, and commit once more. -/
def commitAfterLogout : List Call :=
  [.login (.answers (some "alice") (some "secret")), .commit, .logout]

theorem commitAfterLogout_unsound :
    ¬ ∀ before rest, commitAfterLogout ++ [.commit] = before ++ .commit :: rest →
      CommitSound [] before := by
  intro h
  have hsound := (commitSound_iff _ _).mp (h commitAfterLogout [] rfl)
  -- What is left is about the three calls alone.
  revert hsound
  simp only [LoginCurrent]
  decide

end Login
end Etude
