import Etude.Base.Traced

/-!
# SimpleCookieSSOFilter — single sign-on with two cookies

The model of `SimpleCookieSSOFilter.java`.  What the container does when it is called (`login`,
`sendError`, the rest of the chain) is a parameter; the filter's own effects are the trace.
-/

namespace Etude
namespace Sso

open Base

/-! ## The container -/

/-- What Java code can throw: `catch (Exception ex)` does not catch the second kind. -/
inductive Throwable
  | exception (name : String)
  | error (name : String)
  deriving DecidableEq, Repr

structure Cookie where
  name : String
  value : Option String
  deriving DecidableEq, Repr

/-- A request: the name of its principal, if it has one, and what `getCookies` returns. -/
structure Request where
  userPrincipal : Option String
  cookies : Option (List Cookie)
  deriving DecidableEq, Repr

/-- How the methods of the container complete when the filter calls them. -/
structure Container where
  login : String → Option String → Except Throwable Unit
  sendError : ℕ → Except Throwable Unit
  chain : Except Throwable Unit

inductive Effect
  | info (message : String)
  | printed (line : String)
  | login (username : String) (password : Option String)
  | sendError (status : ℕ)
  | chain
  deriving DecidableEq, Repr

abbrev Servlet (α : Type) :=
  Traced Effect Throwable α

/-! ## The filter -/

structure SimpleCookieSSOFilter where
  usernameField : String
  passwordField : String
  deriving DecidableEq, Repr

/-- `SC_UNAUTHORIZED` -/
def unauthorized : ℕ :=
  401

/-- `%s` of a string that may be null. -/
def formatted : Option String → String
  | none => "null"
  | some s => s

/-- The line that is printed for a cookie. -/
def Cookie.line (c : Cookie) : String :=
  c.name ++ (" = " ++ (formatted c.value ++ "\n"))

/-- The variables of `login`. -/
structure Credentials where
  username : Option String
  password : Option String
  deriving DecidableEq, Repr

namespace SimpleCookieSSOFilter

/-- The field names before `init`. -/
def initial : SimpleCookieSSOFilter :=
  { usernameField := "realm-user"
    passwordField := "realm-pw" }

/-- `init`, with the two init parameters. -/
def init (filter : SimpleCookieSSOFilter) : Option String → Option String → SimpleCookieSSOFilter
  | some u, some p =>
      { filter with
        usernameField := u
        passwordField := p }
  | _, _ => filter

variable (filter : SimpleCookieSSOFilter)

/-- The assignments in the body of the loop. -/
def assign (v : Credentials) (c : Cookie) : Credentials :=
  let v := if filter.usernameField = c.name then { v with username := c.value } else v
  -- The two fields may have one name, so this is no `else`.
  if filter.passwordField = c.name then { v with password := c.value } else v

/-- The body of the loop over the cookies. -/
def visit (v : Credentials) (c : Cookie) : Servlet Credentials := do
  Traced.emit (.printed c.line)
  return filter.assign v c

variable (container : Container)

def login (req : Request) : Servlet Bool := do
  Traced.emit (.info "not logged in - try login.")
  match req.cookies with
  | none => return false
  | some cookies =>
      let v ← cookies.foldlM filter.visit { username := none, password := none }
      match v.username with
      | none =>
          Traced.emit (.info "no username - skip login.")
          return false
      | some username =>
          match ← (Traced.call (.login username v.password)
              (container.login username v.password)).attempt with
          | .ok _ =>
              Traced.emit (.info "logged in.")
              return true
          | .error (.exception _) =>
              Traced.emit (.info "login failed.")
              return false
          | .error (.error name) => Traced.throwing (.error name)

def doFilter (req : Request) : Servlet Unit := do
  if req.userPrincipal.isNone then
    if !(← filter.login container req) then
      Traced.call (.sendError unauthorized) (container.sendError unauthorized)
      return
  Traced.call .chain container.chain

end SimpleCookieSSOFilter

end Sso
end Etude
