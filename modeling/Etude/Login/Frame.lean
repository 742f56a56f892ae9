import Mathlib.Data.List.Perm.Basic
import Etude.Login.SampleLoginModule

/-!
# Frame — what a logout takes out of a shared subject

The other modules of a login stack put their principals into the same set.  `logout` clears it,
although the module has kept the principals that it made.
-/

namespace Etude
namespace Login

open SampleLoginModule

/-! ## A shared subject -/

/-- What happens before the module is called to log out. -/
inductive Act where
  | login (answer : HandlerAnswer)
  | commit
  /-- Another module adds a principal. -/
  | other (p : Principal)
  deriving DecidableEq, Repr

/-- The module, with the principals of the subject told apart by who added them. -/
structure Stack where
  module : SampleLoginModule
  own : List Principal
  others : List Principal

namespace Stack

/-- The subject has the principals of other modules and earlier logins. -/
def initial (prior : List Principal) : Stack :=
  { module := initialized prior
    own := []
    others := prior }

def act (s : Stack) : Act → Stack
  | .login answer => { s with module := (s.module.login answer).1 }
  | .commit =>
      { s with
        module := s.module.commit.1
        own := s.own ++ s.module.commit.1.principals.drop s.module.principals.length }
  | .other p =>
      { s with
        module := { s.module with principals := s.module.principals ++ [p] }
        others := s.others ++ [p] }

def acts (s : Stack) (as : List Act) : Stack :=
  as.foldl act s

end Stack

/-! ## Who added what -/

theorem principals_login (m : SampleLoginModule) (answer : HandlerAnswer) :
    (m.login answer).1.principals = m.principals := by
  cases answer with
  | missing =>
      rfl
  | throws message =>
      rfl
  | answers name password =>
      cases password with
      | none =>
          rfl
      | some password =>
          rw [login]
          split_ifs <;> rfl

/-- A commit adds principals behind those that are there. -/
theorem exists_principals_commit (m : SampleLoginModule) :
    ∃ added, m.commit.1.principals = m.principals ++ added := by
  cases h : m.isAuthenticated with
  | false =>
      exact ⟨[], by rw [commit_of_not_authenticated h, List.append_nil]⟩
  | true =>
      exact ⟨_, (commit_of_authenticated h).2⟩

/-- Every principal of the subject was added by the module or by another. -/
def Stack.Split (s : Stack) : Prop :=
  s.module.principals.Perm (s.own ++ s.others)

theorem Stack.Split.act {s : Stack} (h : s.Split) (a : Act) : (s.act a).Split := by
  cases a with
  | login answer =>
      rw [Stack.Split, Stack.act, principals_login]
      exact h
  | commit =>
      rcases exists_principals_commit s.module with ⟨added, hadded⟩
      rw [Stack.Split, Stack.act, hadded, List.drop_left]
      calc
        List.Perm (s.module.principals ++ added) (s.own ++ s.others ++ added) :=
          h.append_right added
        List.Perm _ (s.own ++ added ++ s.others) := by
          rw [List.append_assoc, List.append_assoc]
          exact List.perm_append_comm.append_left s.own
  | other p =>
      rw [Stack.Split, Stack.act, ← List.append_assoc]
      exact h.append_right [p]

theorem Stack.Split.acts {s : Stack} (h : s.Split) (as : List Act) : (s.acts as).Split := by
  induction as generalizing s with
  | nil =>
      exact h
  | cons a as ih =>
      exact ih (h.act a)

theorem Stack.split_acts (prior : List Principal) (as : List Act) :
    ((Stack.initial prior).acts as).Split :=
  Stack.Split.acts (s := Stack.initial prior) (List.Perm.refl prior) as

theorem Stack.others_eq_nil_iff (s : Stack) (as : List Act) :
    (s.acts as).others = [] ↔ s.others = [] ∧ ∀ p, .other p ∉ as := by
  induction as generalizing s with
  | nil =>
      simp [Stack.acts]
  | cons a as ih =>
      have hcons : s.acts (a :: as) = (s.act a).acts as := rfl
      rw [hcons, ih]
      cases a with
      | login answer =>
          simp [Stack.act]
      | commit =>
          simp [Stack.act]
      | other p =>
          -- one more principal of another module
          simp only [Stack.act, List.append_eq_nil_iff, List.cons_ne_self, and_false, false_and,
            false_iff, not_and, not_forall, not_not]
          exact fun _ => ⟨p, List.mem_cons_self⟩

/-! ## The end of a session -/

/-- The call that ends the session. -/
inductive Ending where
  | logout
  | abort
  deriving DecidableEq, Repr

def SampleLoginModule.finish (m : SampleLoginModule) : Ending → SampleLoginModule
  | .logout => m.logout.1
  | .abort => m.abort.1

/-- An abort calls `logout` in these states. -/
def Delegates (m : SampleLoginModule) (e : Ending) : Prop :=
  e = .abort → m.isAuthenticated = true ∧ m.commitSucceeded = true

theorem principals_finish {m : SampleLoginModule} {e : Ending} (h : Delegates m e) :
    (m.finish e).principals = [] := by
  cases e with
  | logout =>
      rfl
  | abort =>
      rcases h rfl with ⟨hauth, hsucc⟩
      simp [SampleLoginModule.finish, abort, logout, hauth, hsucc]

/-- Just the principals that the module's commits added are gone, and the others are left. -/
def RemovesOwn (s : Stack) (e : Ending) : Prop :=
  s.module.principals.Perm (s.own ++ (s.module.finish e).principals) ∧
    (s.module.finish e).principals.Perm s.others

/-- A logout removes the module's own principals only exactly if the subject has no others. -/
theorem removesOwn_iff (prior : List Principal) (as : List Act) (e : Ending)
    (h : Delegates ((Stack.initial prior).acts as).module e) :
    RemovesOwn ((Stack.initial prior).acts as) e ↔ prior = [] ∧ ∀ p, .other p ∉ as := by
  have hsplit := Stack.split_acts prior as
  have hothers : ((Stack.initial prior).acts as).others = [] ↔ prior = [] ∧ ∀ p, .other p ∉ as :=
    Stack.others_eq_nil_iff (Stack.initial prior) as
  rw [RemovesOwn, principals_finish h, List.nil_perm, hothers]
  refine and_iff_right_of_imp fun hnone => ?_
  rw [Stack.Split, hothers.mpr hnone] at hsplit
  exact hsplit

theorem removesOwn_alone :
    Delegates ((Stack.initial []).acts
        [.login (.answers (some "alice") (some "secret")), .commit]).module .abort ∧
      RemovesOwn ((Stack.initial []).acts
        [.login (.answers (some "alice") (some "secret")), .commit]) .abort := by
  have hdelegates : Delegates ((Stack.initial []).acts
      [.login (.answers (some "alice") (some "secret")), .commit]).module .abort :=
    fun _ => ⟨rfl, rfl⟩
  exact ⟨hdelegates, (removesOwn_iff [] _ .abort hdelegates).mpr (by simp)⟩

/-- The principal of another module is gone as well. -/
theorem not_removesOwn_other :
    ¬ RemovesOwn ((Stack.initial [.foreign "kerberos"]).acts
      [.login (.answers (some "alice") (some "secret")), .commit]) .logout := by
  rintro ⟨-, hothers⟩
  exact absurd hothers.length_eq (by decide)

end Login
end Etude
