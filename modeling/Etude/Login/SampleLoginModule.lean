import Mathlib.Data.List.Basic

/-!
# SampleLoginModule — a JAAS login module

The model of `SampleLoginModule.java`: the fields that its four operations read and write, and
the principal set of the subject it was initialised with.
-/

namespace Etude
namespace Login

/-- A principal object of a subject.  No class here overrides `equals`, so the objects that the
module makes are all different, and the set of principals is the list of those added. -/
inductive Principal where
  | user (name : Option String)
  | role (name : String)
  | foreign (name : String)
  deriving DecidableEq, Repr

inductive Thrown where
  | loginException (message : String)
  | nullPointerException
  deriving DecidableEq, Repr

/-- What the callback handler does in one `login`: there is none, it throws, or it answers the
two callbacks. -/
inductive HandlerAnswer where
  | missing
  | throws (message : String)
  | answers (name password : Option String)
  deriving DecidableEq, Repr

structure SampleLoginModule where
  principals : List Principal
  userPrincipal : Option Principal
  rolePrincipal : Option Principal
  userGroups : Option (List String)
  username : Option String
  password : Option String
  isAuthenticated : Bool
  commitSucceeded : Bool
  deriving DecidableEq, Repr

abbrev Returns := Except Thrown Bool

namespace SampleLoginModule

/-- The module after `initialize` with a subject that has the given principals. -/
def initialized (principals : List Principal) : SampleLoginModule :=
  { principals := principals
    userPrincipal := none
    rolePrincipal := none
    userGroups := none
    username := none
    password := none
    isAuthenticated := false
    commitSucceeded := false }

def getRoles : List String :=
  ["admin"]

/-- `s == null || s.isEmpty()` -/
def nullOrEmpty : Option String → Bool
  | none => true
  | some s => s.isEmpty

def login (m : SampleLoginModule) : HandlerAnswer → SampleLoginModule × Returns
  | .missing =>
      (m, .error (.loginException
        ("Error: no CallbackHandler available to recieve authentication information " ++
          "from the user")))
  | .throws message =>
      (m, .error (.loginException message))
  | .answers name password =>
      -- The name is stored before it is checked.
      let m := { m with username := name }
      match password with
      | none =>
          -- `String.valueOf` of a null array.
          (m, .error .nullPointerException)
      | some password =>
          let m := { m with password := some password }
          if nullOrEmpty m.username || nullOrEmpty m.password then
            (m, .error (.loginException "Data specified had null values"))
          else
            ({ m with
                userGroups := some getRoles
                isAuthenticated := true }, .ok true)

def addRole (m : SampleLoginModule) (groupName : String) : SampleLoginModule :=
  { m with
    rolePrincipal := some (.role groupName)
    principals := m.principals ++ [Principal.role groupName] }

def commit (m : SampleLoginModule) : SampleLoginModule × Returns :=
  if !m.isAuthenticated then
    (m, .ok false)
  else
    let m :=
      { m with
        userPrincipal := some (.user m.username)
        principals := m.principals ++ [Principal.user m.username] }
    let m := (m.userGroups.getD []).foldl addRole m
    ({ m with commitSucceeded := true }, .ok true)

def logout (m : SampleLoginModule) : SampleLoginModule × Returns :=
  let m := { m with isAuthenticated := false }
  -- This second assignment undoes the first one after a commit.
  let m := { m with isAuthenticated := m.commitSucceeded }
  ({ m with principals := [] }, .ok true)

def abort (m : SampleLoginModule) : SampleLoginModule × Returns :=
  if !m.isAuthenticated then
    (m, .ok false)
  else if m.isAuthenticated && !m.commitSucceeded then
    ({ m with
        isAuthenticated := false
        username := none
        password := none
        userPrincipal := none }, .ok true)
  else
    -- What `logout` returns is dropped.
    (m.logout.1, .ok true)

/-! ## Calls -/

inductive Call where
  | login (answer : HandlerAnswer)
  | commit
  | abort
  | logout
  deriving DecidableEq, Repr

def call (m : SampleLoginModule) : Call → SampleLoginModule × Returns
  | .login answer => m.login answer
  | .commit => m.commit
  | .abort => m.abort
  | .logout => m.logout

/-- The module after a sequence of calls. -/
def after (m : SampleLoginModule) (calls : List Call) : SampleLoginModule :=
  calls.foldl (fun m c => (m.call c).1) m

/-! ## What each operation does to the fields -/

theorem foldl_addRole (groups : List String) (m : SampleLoginModule) :
    groups.foldl addRole m =
      { m with
        rolePrincipal := (groups.getLast?.map Principal.role).or m.rolePrincipal
        principals := m.principals ++ groups.map Principal.role } := by
  induction groups generalizing m with
  | nil =>
      simp
  | cons g gs ih =>
      rw [List.foldl_cons, ih, addRole]
      cases hlast : gs.getLast? with
      | none =>
          have hnil : gs = [] := List.getLast?_eq_none_iff.mp hlast
          simp [hnil]
      | some last =>
          simp [List.getLast?_cons, hlast]

theorem commit_of_authenticated {m : SampleLoginModule} (h : m.isAuthenticated = true) :
    (m.commit).2 = .ok true ∧
      (m.commit).1.principals = m.principals ++
        Principal.user m.username :: (m.userGroups.getD []).map Principal.role := by
  simp [commit, h, foldl_addRole]

theorem commit_of_not_authenticated {m : SampleLoginModule} (h : m.isAuthenticated = false) :
    m.commit = (m, .ok false) := by
  simp [commit, h]

end SampleLoginModule

end Login
end Etude
