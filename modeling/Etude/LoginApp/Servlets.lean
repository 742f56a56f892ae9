import Etude.Sso.Gate

/-!
# Servlets — the filter and the three servlets of `login-app`

The model of `AutoLoginFilter.java`, `LoginServlet.java`, `LogoutServlet.java` and
`LoginCheckServlet.java`.  `web.xml` maps the filter to every path, so a servlet sees the request
as the filter leaves it.  What the container does when it is called is a parameter.
-/

namespace Etude
namespace LoginApp

open Sso

structure Container where
  contextPath : String
  login : Option String → Option String → Except Throwable Unit
  logout : Except Throwable Unit

/-- A request: whether `getUserPrincipal` is not null, what `getCookies` returns, and the two
parameters. -/
structure Request where
  authenticated : Bool
  cookies : Option (List Cookie)
  username : Option String
  password : Option String
  deriving DecidableEq, Repr

structure Response where
  status : ℕ
  cookies : List Cookie
  location : Option String
  body : List String
  deriving DecidableEq, Repr

/-- A response to which nothing is done but `setStatus(SC_OK)`, or nothing at all. -/
def Response.ok : Response :=
  { status := 200
    cookies := []
    location := none
    body := [] }

abbrev Answer :=
  Except Throwable Response

variable (container : Container)

/-- `req.login`: a request that is logged in has a principal. -/
def Request.login (req : Request) (username password : Option String) : Except Throwable Request :=
  (container.login username password).map fun _ => { req with authenticated := true }

/-! ## The filter -/

namespace AutoLoginFilter

/-- The names of the two cookies. -/
def fields : SimpleCookieSSOFilter :=
  { usernameField := "userName"
    passwordField := "passWord" }

def login (req : Request) : Except Throwable Request :=
  match req.cookies with
  | none => .ok req
  | some cookies =>
      let v := cookies.foldl fields.assign { username := none, password := none }
      match v.username with
      | none => .ok req
      | some username =>
          match req.login container (some username) v.password with
          | .ok req => .ok req
          -- Caught and printed; the chain goes on without a login.
          | .error (.exception _) => .ok req
          | .error (.error name) => .error (.error name)

def doFilter (chain : Request → Answer) (req : Request) : Answer := do
  let req ← if req.authenticated then pure req else login container req
  chain req

end AutoLoginFilter

/-! ## The servlets -/

def LoginServlet.doPost (req : Request) : Answer :=
  if req.authenticated then
    .ok .ok
  else
    (req.login container req.username req.password).map fun _ => .ok

def LogoutServlet.doPost (req : Request) : Answer :=
  if req.authenticated then
    container.logout.map fun _ =>
      -- `sendRedirect`.
      { Response.ok with
        status := 302
        location := some (container.contextPath ++ "/login-check") }
  else
    .ok .ok

theorem LogoutServlet.doPost_authenticated {req : Request} (hauth : req.authenticated = true)
    (hlogout : container.logout = .ok ()) :
    ∃ rsp, doPost container req = .ok rsp ∧ rsp.status = 302 ∧
      rsp.location = some (container.contextPath ++ "/login-check") := by
  refine ⟨{ Response.ok with status := 302, location := some _ }, ?_, rfl, rfl⟩
  rw [doPost, if_pos hauth, hlogout]
  rfl

namespace LoginCheckServlet

/-- The `-1` is the age of a cookie that comes from a browser. -/
def line (c : Cookie) : String :=
  c.name ++ "=" ++ formatted c.value ++ ", maxAge=-1\n"

def requestCookies (req : Request) : Except Throwable String :=
  match req.cookies with
  -- The loop over the cookies throws.
  | none => .error (.exception "NullPointerException")
  | some cookies => .ok ("Cookie: " ++ String.join (cookies.map line))

/-- The report, of which only the line of the cookies is the application's. -/
def authorized (req : Request) : Answer :=
  (requestCookies req).map fun text => { Response.ok with body := [text] }

def unauthorized : Response :=
  { status := 401
    cookies := [⟨"userName", some "test"⟩, ⟨"passWord", some "test"⟩]
    location := none
    body := ["No logged in."] }

def doPost (req : Request) : Answer :=
  if req.authenticated then authorized req else .ok unauthorized

theorem doPost_authorized {req : Request} {cookies : List Cookie}
    (hauth : req.authenticated = true) (hcookies : req.cookies = some cookies) :
    ∃ rsp, doPost req = .ok rsp ∧ rsp.status = 200 ∧
      rsp.body = ["Cookie: " ++ String.join (cookies.map line)] := by
  refine ⟨{ Response.ok with body := [_] }, ?_, rfl, rfl⟩
  rw [doPost, if_pos hauth, authorized, requestCookies, hcookies]
  rfl

end LoginCheckServlet

/-! ## The application -/

inductive Path
  | login
  | logout
  | loginCheck
  /-- A page that is no servlet. -/
  | page
  deriving DecidableEq, Repr

def servlet : Path → Request → Answer
  | .login => LoginServlet.doPost container
  | .logout => LogoutServlet.doPost container
  | .loginCheck => LoginCheckServlet.doPost
  | .page => fun _ => .ok .ok

def service (path : Path) (req : Request) : Answer :=
  AutoLoginFilter.doFilter container (servlet container path) req

/-! ## What the filter does -/

/-- The name and the password that the cookies bring decide. -/
theorem AutoLoginFilter.login_eq (req : Request) {cookies : List Cookie}
    (hcookies : req.cookies = some cookies) :
    login container req =
      match lastValue cookies "userName" with
      | none => .ok req
      | some username =>
          match container.login (some username) (lastValue cookies "passWord") with
          | .ok _ => .ok { req with authenticated := true }
          | .error (.exception _) => .ok req
          | .error (.error name) => .error (.error name) := by
  -- The loop over the cookies leaves the last value of each name.
  simp only [login, hcookies, foldl_assign_eq]
  change (match lastValue cookies "userName" with | none => _ | some username => _) = _
  cases lastValue cookies "userName" with
  | none =>
      rfl
  | some username =>
      simp only [Request.login, fields]
      cases container.login (some username) (lastValue cookies "passWord") with
      | ok _ => simp only [Except.map, hcookies]
      | error e => cases e <;> rfl

/-- The filter passes a request on as it is, or logged in, or throws an error. -/
theorem AutoLoginFilter.login_cases (req : Request) :
    (∃ b, login container req = .ok { req with authenticated := b }) ∨
      ∃ name, login container req = .error (.error name) := by
  rcases req with ⟨authenticated, _ | cookies, username, password⟩
  · exact Or.inl ⟨authenticated, rfl⟩
  · rw [login_eq container _ rfl]
    cases lastValue cookies "userName" with
    | none =>
        exact Or.inl ⟨authenticated, rfl⟩
    | some user =>
        simp only
        cases container.login (some user) (lastValue cookies "passWord") with
        | ok _ =>
            exact Or.inl ⟨true, rfl⟩
        | error e =>
            cases e with
            | exception name => exact Or.inl ⟨authenticated, rfl⟩
            | error name => exact Or.inr ⟨name, rfl⟩

theorem service_cases (path : Path) (req : Request) :
    (∃ b, service container path req =
        servlet container path { req with authenticated := b }) ∨
      ∃ name, service container path req = .error (.error name) := by
  unfold service AutoLoginFilter.doFilter
  by_cases h : req.authenticated = true
  · -- With a principal the filter does nothing.
    refine Or.inl ⟨req.authenticated, ?_⟩
    rw [if_pos h]
    rfl
  · rw [if_neg h]
    rcases AutoLoginFilter.login_cases container req with ⟨b, hlogin⟩ | ⟨name, hlogin⟩
    · refine Or.inl ⟨b, ?_⟩
      rw [hlogin]
      rfl
    · refine Or.inr ⟨name, ?_⟩
      rw [hlogin]
      rfl

end LoginApp
end Etude
