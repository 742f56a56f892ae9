import Etude.LoginApp.Servlets
import Etude.Login.SampleLoginModule

/-!
# Visits — a browser that keeps the cookies of `login-app`

`/login-check` answers a request without a principal with 401 and two cookies.  A browser that
keeps one cookie of each of the two names, and asks again only when it has its answer, sends them
from the next request on.  The filter logs in with them, so if the container accepts them nobody is
asked a second time, and nobody can log out either.
-/

namespace Etude
namespace LoginApp

open Sso

/-! ## The browser -/

/-- What a browser has for the application: at most one cookie of each name. -/
abbrev Jar := String → Option (Option String)

/-- A request, `authenticated` if the container knows the principal from the session. -/
structure Visit where
  path : Path
  request : Request
  deriving DecidableEq, Repr

/-- The two cookies are sent if there are any.  Others, of the session or of other applications,
may stand before, between and behind them. -/
def Jar.Sends (jar : Jar) (req : Request) : Prop :=
  ∀ name, name = "userName" ∨ name = "passWord" →
    ((req.cookies.getD []).filter fun c => c.name = name).map Cookie.value = (jar name).toList

/-- A cookie takes the place of an older one of its name. -/
def Jar.store (jar : Jar) (c : Cookie) : Jar :=
  Function.update jar c.name (some c.value)

def Jar.keep (jar : Jar) : Answer → Jar
  | .ok rsp => rsp.cookies.foldl Jar.store jar
  | .error _ => jar

variable (container : Container)

def answer (v : Visit) : Answer :=
  service container v.path v.request

/-- The cookies after some visits. -/
def jarAfter (jar : Jar) (visits : List Visit) : Jar :=
  visits.foldl (fun jar v => jar.keep (answer container v)) jar

/-- Visits one after the other, each with the cookies that the answers before it have left. -/
def Keeping : Jar → List Visit → Prop
  | _, [] => True
  | jar, v :: vs => jar.Sends v.request ∧ Keeping (jar.keep (answer container v)) vs

def isUnauthorized : Answer → Bool
  | .ok rsp => rsp.status = 401
  | .error _ => false

theorem jarAfter_append (jar : Jar) (before after : List Visit) :
    jarAfter container jar (before ++ after) =
      jarAfter container (jarAfter container jar before) after := by
  rw [jarAfter, List.foldl_append]
  rfl

theorem keeping_append (jar : Jar) (before after : List Visit) :
    Keeping container jar (before ++ after) ↔
      Keeping container jar before ∧ Keeping container (jarAfter container jar before) after := by
  induction before generalizing jar with
  | nil =>
      simp [Keeping, jarAfter]
  | cons v before ih =>
      simp only [List.cons_append, Keeping, ih, and_assoc]
      rfl

/-! ## What is answered -/

/-- Only `/login-check` asks for a login, and only a request without a principal; no other answer
sets a cookie. -/
theorem servlet_cases (path : Path) (req : Request) :
    (path = .loginCheck ∧ req.authenticated = false ∧
        servlet container path req = .ok LoginCheckServlet.unauthorized) ∨
      (isUnauthorized (servlet container path req) = false ∧
        ∀ jar : Jar, jar.keep (servlet container path req) = jar) := by
  cases path with
  | login =>
      right
      simp only [servlet, LoginServlet.doPost, Request.login]
      by_cases h : req.authenticated = true
      · rw [if_pos h]
        exact ⟨rfl, fun _ => rfl⟩
      · rw [if_neg h]
        cases container.login req.username req.password with
        | ok _ => exact ⟨rfl, fun _ => rfl⟩
        | error _ => exact ⟨rfl, fun _ => rfl⟩
  | logout =>
      right
      simp only [servlet, LogoutServlet.doPost]
      by_cases h : req.authenticated = true
      · rw [if_pos h]
        cases container.logout with
        | ok _ => exact ⟨rfl, fun _ => rfl⟩
        | error _ => exact ⟨rfl, fun _ => rfl⟩
      · rw [if_neg h]
        exact ⟨rfl, fun _ => rfl⟩
  | loginCheck =>
      simp only [servlet, LoginCheckServlet.doPost]
      by_cases h : req.authenticated = true
      · right
        rw [if_pos h]
        simp only [LoginCheckServlet.authorized, LoginCheckServlet.requestCookies]
        cases req.cookies with
        | none => exact ⟨rfl, fun _ => rfl⟩
        | some _ => exact ⟨rfl, fun _ => rfl⟩
      · rw [if_neg h]
        exact Or.inl ⟨trivial, by simpa using h, rfl⟩
  -- Nothing of the application runs for a page but the filter.
  | page =>
      exact Or.inr ⟨rfl, fun _ => rfl⟩

/-! ## The two cookies -/

/-- The browser has the cookies that `/login-check` sets. -/
def Asked (jar : Jar) : Prop :=
  jar "userName" = some (some "test") ∧ jar "passWord" = some (some "test")

theorem asked_keep (jar : Jar) : Asked (jar.keep (.ok LoginCheckServlet.unauthorized)) := by
  have hstored : jar.keep (.ok LoginCheckServlet.unauthorized) =
      Function.update (Function.update jar "userName" (some (some "test"))) "passWord"
        (some (some "test")) := rfl
  rw [hstored]
  constructor
  · rw [Function.update_of_ne (by decide), Function.update_self]
  · rw [Function.update_self]

/-- A cookie of the browser is the last one of its name in a request, and in it. -/
theorem Jar.Sends.lastValue_eq {jar : Jar} {req : Request} (hsends : jar.Sends req) {name : String}
    (hname : name = "userName" ∨ name = "passWord") {value : Option String}
    (hjar : jar name = some value) {cookies : List Cookie} (hcookies : req.cookies = some cookies) :
    lastValue cookies name = value ∧ ⟨name, value⟩ ∈ cookies := by
  have hone : (cookies.filter fun c => c.name = name).map Cookie.value = [value] := by
    have h := hsends name hname
    rwa [hcookies, Option.getD_some, hjar, Option.toList_some] at h
  rcases List.map_eq_singleton_iff.mp hone with ⟨c, hc, rfl⟩
  constructor
  · rw [lastValue, hc]
    rfl
  · have hmem : c ∈ cookies.filter fun c => c.name = name := by
      rw [hc]
      exact List.mem_singleton_self c
    rw [List.mem_filter, decide_eq_true_iff] at hmem
    rw [← hmem.2]
    exact hmem.1

/-- A request of a browser that was asked brings the two cookies. -/
theorem Asked.request_cookies {jar : Jar} (h : Asked jar) {req : Request}
    (hsends : jar.Sends req) : ∃ cookies, req.cookies = some cookies ∧
      lastValue cookies "userName" = some "test" ∧ lastValue cookies "passWord" = some "test" ∧
        ⟨"userName", some "test"⟩ ∈ cookies ∧ ⟨"passWord", some "test"⟩ ∈ cookies := by
  cases hcookies : req.cookies with
  | none =>
      have hone := hsends "userName" (Or.inl rfl)
      rw [hcookies, h.1] at hone
      cases hone
  | some cookies =>
      rcases hsends.lastValue_eq (Or.inl rfl) h.1 hcookies with ⟨husername, huser⟩
      rcases hsends.lastValue_eq (Or.inr rfl) h.2 hcookies with ⟨hpassword, hpass⟩
      exact ⟨cookies, rfl, husername, hpassword, huser, hpass⟩

/-- An answer that asks for a login sets the cookies, and any other answer keeps those there are. -/
theorem keep_answer (jar : Jar) (v : Visit) :
    (isUnauthorized (answer container v) = true ∧ Asked (jar.keep (answer container v))) ∨
      (isUnauthorized (answer container v) = false ∧ jar.keep (answer container v) = jar) := by
  rcases service_cases container v.path v.request with ⟨b, hservice⟩ | ⟨name, hservice⟩
  · rcases servlet_cases container v.path { v.request with authenticated := b } with
      ⟨-, -, hservlet⟩ | ⟨hstatus, hkeep⟩
    · left
      rw [answer, hservice, hservlet]
      exact ⟨rfl, asked_keep jar⟩
    · right
      rw [answer, hservice]
      exact ⟨hstatus, hkeep jar⟩
  · right
    rw [answer, hservice]
    exact ⟨rfl, rfl⟩

section Asked

variable {container} {jar : Jar}

/-- The answer to a browser with the cookies: an error, or that to a request that is logged in. -/
theorem answer_of_asked (h : Asked jar) {v : Visit} (hsends : jar.Sends v.request) :
    answer container v =
      if v.request.authenticated = true ∨ container.login (some "test") (some "test") = .ok () then
        servlet container v.path { v.request with authenticated := true }
      else
        match container.login (some "test") (some "test") with
        | .error (.error name) => .error (.error name)
        | _ => servlet container v.path v.request := by
  unfold answer service AutoLoginFilter.doFilter
  by_cases hsession : v.request.authenticated = true
  · -- The filter passes on a request that has a principal.
    have hsame : { v.request with authenticated := true } = v.request := by
      rw [← hsession]
    rw [if_pos hsession, if_pos (Or.inl hsession), hsame]
    rfl
  · rcases h.request_cookies hsends with ⟨cookies, hcookies, husername, hpassword, -, -⟩
    rw [if_neg hsession, AutoLoginFilter.login_eq container _ hcookies, husername, hpassword]
    simp only [hsession]
    cases container.login (some "test") (some "test") with
    | ok _ =>
        rfl
    | error e =>
        cases e <;> rfl

theorem answer_of_accepted (haccepts : container.login (some "test") (some "test") = .ok ())
    (h : Asked jar) {v : Visit} (hsends : jar.Sends v.request) :
    answer container v =
      servlet container v.path { v.request with authenticated := true } := by
  rw [answer_of_asked h hsends, if_pos (Or.inr haccepts)]

theorem isUnauthorized_of_authenticated (path : Path) {req : Request}
    (h : req.authenticated = true) : isUnauthorized (servlet container path req) = false := by
  rcases servlet_cases container path req with ⟨-, hreq, -⟩ | ⟨hstatus, -⟩
  · rw [h] at hreq
    cases hreq
  · exact hstatus

/-- Unless the container refuses the cookies, the browser is not asked again. -/
theorem isUnauthorized_of_asked
    (hnot : ∀ name, container.login (some "test") (some "test") ≠ .error (.exception name))
    (h : Asked jar) {v : Visit} (hsends : jar.Sends v.request) :
    isUnauthorized (answer container v) = false := by
  rw [answer_of_asked h hsends]
  split_ifs with hok
  · exact isUnauthorized_of_authenticated _ rfl
  · cases hlogin : container.login (some "test") (some "test") with
    | ok _ =>
        exact absurd (Or.inr hlogin) hok
    | error e =>
        cases e with
        | exception name => exact absurd hlogin (hnot name)
        | error name => rfl

theorem keep_of_asked
    (hnot : ∀ name, container.login (some "test") (some "test") ≠ .error (.exception name))
    (h : Asked jar) {v : Visit} (hsends : jar.Sends v.request) :
    jar.keep (answer container v) = jar := by
  rcases keep_answer container jar v with ⟨hstatus, -⟩ | ⟨-, hkeep⟩
  · rw [isUnauthorized_of_asked hnot h hsends] at hstatus
    cases hstatus
  · exact hkeep

/-- Once the cookies are there they stay, and are sent with every visit. -/
theorem keeping_of_asked
    (hnot : ∀ name, container.login (some "test") (some "test") ≠ .error (.exception name))
    (h : Asked jar) {visits : List Visit} (hkeeping : Keeping container jar visits) :
    jarAfter container jar visits = jar ∧ ∀ v ∈ visits, jar.Sends v.request := by
  induction visits with
  | nil =>
      exact ⟨rfl, fun v hv => absurd hv List.not_mem_nil⟩
  | cons v visits ih =>
      have hkeep : jar.keep (answer container v) = jar := keep_of_asked hnot h hkeeping.1
      rw [Keeping, hkeep] at hkeeping
      rcases ih hkeeping.2 with ⟨hjar, hsends⟩
      rw [List.forall_mem_cons]
      refine ⟨?_, hkeeping.1, hsends⟩
      rw [jarAfter, List.foldl_cons, hkeep]
      exact hjar

end Asked

/-! ## Runs -/

/-- A request for `/login-check` without a session. -/
def check (cookies : Option (List Cookie)) : Visit :=
  { path := .loginCheck
    request :=
      { authenticated := false
        cookies := cookies
        username := none
        password := none } }

theorem countP_answers_le_one
    (hnot : ∀ name, container.login (some "test") (some "test") ≠ .error (.exception name))
    {jar : Jar} {visits : List Visit} (hkeeping : Keeping container jar visits) :
    (visits.map (answer container)).countP isUnauthorized ≤ 1 := by
  induction visits generalizing jar with
  | nil =>
      exact Nat.zero_le 1
  | cons v visits ih =>
      rw [List.map_cons, List.countP_cons]
      rcases keep_answer container jar v with ⟨-, hasked⟩ | ⟨hstatus, hkeep⟩
      · -- The browser has been asked, so all the later answers are others.
        have hzero : (visits.map (answer container)).countP isUnauthorized = 0 := by
          rw [List.countP_eq_zero]
          intro a ha
          rcases List.mem_map.mp ha with ⟨w, hw, rfl⟩
          have hsends := (keeping_of_asked hnot hasked hkeeping.2).2 w hw
          simp [isUnauthorized_of_asked hnot hasked hsends]
        rw [hzero]
        split_ifs <;> decide
      · rw [hstatus, if_neg Bool.false_ne_true]
        exact ih hkeeping.2

/-- Of all the answers that a browser ever gets at most one asks for a login, whatever cookies and
sessions it starts with, exactly if the container does not refuse what the cookies then say. -/
theorem asked_once_iff :
    (∀ jar visits, Keeping container jar visits →
        (visits.map (answer container)).countP isUnauthorized ≤ 1) ↔
      ∀ name, container.login (some "test") (some "test") ≠ .error (.exception name) := by
  constructor
  · intro h name hrefused
    -- A browser without cookies asks, and asks again with those of the answer.
    let again := check (some LoginCheckServlet.unauthorized.cookies)
    have hfirst : answer container (check none) = .ok LoginCheckServlet.unauthorized := rfl
    have hsends : Jar.Sends (Jar.keep (fun _ => none) (.ok LoginCheckServlet.unauthorized))
        again.request := by
      rintro name (rfl | rfl)
      · rw [(asked_keep _).1]
        rfl
      · rw [(asked_keep _).2]
        rfl
    have hsecond : answer container again = .ok LoginCheckServlet.unauthorized := by
      rw [answer_of_asked (asked_keep fun _ => none) hsends, hrefused,
        if_neg (by simp [again, check])]
      rfl
    have hkeeping : Keeping container (fun _ => none) [check none, again] := by
      refine ⟨?_, ?_, trivial⟩
      · rintro name (rfl | rfl) <;> rfl
      · rwa [hfirst]
    have hcount := h _ _ hkeeping
    rw [List.map_cons, List.map_cons, hfirst, hsecond] at hcount
    exact absurd hcount (Nat.not_succ_le_self 1)
  · exact fun hnot jar visits => countP_answers_le_one container hnot

/-- Once a browser has been asked, and if the container accepts what the cookies then say, these
cookies stay and every request reaches its servlet with a principal: `/login-check` reports them,
and `/logout` sends the browser to `/login-check`, which logs it in again. -/
theorem logged_in_once_asked {jar : Jar} {before after : List Visit} {v : Visit}
    (haccepts : container.login (some "test") (some "test") = .ok ())
    (hkeeping : Keeping container jar (before ++ v :: after))
    (hasked : isUnauthorized (answer container v) = true) :
    (∀ early late, after = early ++ late → Asked (jarAfter container jar (before ++ v :: early))) ∧
      ∀ w ∈ after,
        answer container w = servlet container w.path { w.request with authenticated := true } ∧
          (w.path = .loginCheck → ∃ cookies rsp, w.request.cookies = some cookies ∧
            ⟨"userName", some "test"⟩ ∈ cookies ∧ ⟨"passWord", some "test"⟩ ∈ cookies ∧
            answer container w = .ok rsp ∧ rsp.status = 200 ∧
            rsp.body = ["Cookie: " ++ String.join (cookies.map LoginCheckServlet.line)]) ∧
          (w.path = .logout → container.logout = .ok () →
            ∃ rsp, answer container w = .ok rsp ∧ rsp.status = 302 ∧
              rsp.location = some (container.contextPath ++ "/login-check")) := by
  have hnot : ∀ name, container.login (some "test") (some "test") ≠ .error (.exception name) := by
    intro name h
    rw [haccepts] at h
    cases h
  rw [keeping_append] at hkeeping
  rcases hkeeping with ⟨-, -, hafter⟩
  rcases keep_answer container (jarAfter container jar before) v with ⟨-, hkept⟩ | ⟨hstatus, -⟩
  · constructor
    · rintro early late rfl
      rw [keeping_append] at hafter
      have hjar := (keeping_of_asked hnot hkept hafter.1).1
      rw [jarAfter_append, jarAfter, List.foldl_cons, ← jarAfter, hjar]
      exact hkept
    · intro w hw
      have hsends := (keeping_of_asked hnot hkept hafter).2 w hw
      have hanswer := answer_of_accepted haccepts hkept hsends
      have hauth : ({ w.request with authenticated := true } : Request).authenticated = true := rfl
      refine ⟨hanswer, ?_, ?_⟩
      · intro hpath
        rcases hkept.request_cookies hsends with ⟨cookies, hcookies, -, -, huser, hpass⟩
        rw [hanswer, hpath]
        rcases LoginCheckServlet.doPost_authorized hauth hcookies with ⟨rsp, hrsp, hstatus, hbody⟩
        exact ⟨cookies, rsp, hcookies, huser, hpass, hrsp, hstatus, hbody⟩
      · -- The session ends, but not the cookies, so that `/login-check` is the next login.
        intro hpath hlogout
        rw [hanswer, hpath]
        exact LogoutServlet.doPost_authenticated container hauth hlogout
  · rw [hstatus] at hasked
    cases hasked

/-- A container that accepts every name and password that are not empty. -/
def anyone : Container :=
  { contextPath := ""
    login := fun username password =>
      if Login.SampleLoginModule.nullOrEmpty username ||
          Login.SampleLoginModule.nullOrEmpty password then
        .error (.exception "ServletException")
      else
        .ok ()
    logout := .ok () }

/-- The two cookies, behind that of a session. -/
def sessionCookies : List Cookie :=
  ⟨"JSESSIONID", some "1"⟩ :: LoginCheckServlet.unauthorized.cookies

theorem keeping_anyone : Keeping anyone (fun _ => none)
    ([] ++ check none ::
      [{ check (some sessionCookies) with path := .logout }, check (some sessionCookies)]) := by
  have hfirst : answer anyone (check none) = .ok LoginCheckServlet.unauthorized := rfl
  have hasked := asked_keep fun _ => none
  have hsends : Jar.Sends (Jar.keep (fun _ => none) (.ok LoginCheckServlet.unauthorized))
      (check (some sessionCookies)).request := by
    rintro name (rfl | rfl)
    · rw [hasked.1]
      rfl
    · rw [hasked.2]
      rfl
  refine ⟨?_, ?_, ?_, trivial⟩
  · rintro name (rfl | rfl) <;> rfl
  · rwa [hfirst]
  · -- The logout has left the cookies.
    rw [hfirst]
    exact hsends

/-- A browser that logs out and is sent on. -/
theorem logged_in_once_asked_anyone :
    answer anyone (check (some sessionCookies)) =
      servlet anyone .loginCheck
        { (check (some sessionCookies)).request with authenticated := true } :=
  ((logged_in_once_asked anyone rfl keeping_anyone rfl).2 (check (some sessionCookies))
    (by simp)).1

end LoginApp
end Etude
