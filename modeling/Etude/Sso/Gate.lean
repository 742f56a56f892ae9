import Etude.Base.Table
import Etude.Sso.SimpleCookieSSOFilter

/-!
# Gate — the filter lets a request through or refuses it

`gate` says what the filter is for: an authenticated request and one that its cookies log in are
passed on, and any other is refused.  `doFilter` does the same, up to the lines that it logs.
-/

namespace Etude
namespace Sso

open Base

/-! ## The gate -/

/-- The value of the last cookie of a name, null if there is none. -/
def lastValue (cookies : List Cookie) (name : String) : Option String :=
  ((cookies.filter fun c => c.name = name).getLast?).bind Cookie.value

/-- The name and the password that a request brings in its cookies, if it brings a name. -/
def SimpleCookieSSOFilter.credentials (filter : SimpleCookieSSOFilter) (req : Request) :
    Option (String × Option String) :=
  req.cookies.bind fun cookies =>
    (lastValue cookies filter.usernameField).map fun username =>
      (username, lastValue cookies filter.passwordField)

/-- What is asked of the filter. -/
def gate (container : Container) (authenticated : Bool) :
    Option (String × Option String) → Servlet Unit
  | credentials =>
      let passOn : Servlet Unit := Traced.call .chain container.chain
      let refuse : Servlet Unit :=
        Traced.call (.sendError unauthorized) (container.sendError unauthorized)
      if authenticated then passOn
      else
        match credentials with
        | none => refuse
        | some (username, password) => do
            match ← (Traced.call (.login username password)
                (container.login username password)).attempt with
            | .ok _ => passOn
            | .error (.exception _) => refuse
            | .error (.error name) => Traced.throwing (.error name)

def Effect.isAct : Effect → Bool
  | .info _ | .printed _ => false
  | _ => true

def Effect.isLogin : Effect → Bool
  | .login _ _ => true
  | _ => false

/-- The effects of a run but for the lines that are logged and printed. -/
def acts (run : Servlet Unit) : List Effect :=
  run.trace.filter Effect.isAct

/-! ## The loop over the cookies -/

variable (filter : SimpleCookieSSOFilter) (container : Container)

/-- The two variables are entries of a table that every cookie writes at its name. -/
theorem foldl_assign (table : String → Option String) (cookies : List Cookie) :
    cookies.foldl filter.assign
        { username := table filter.usernameField
          password := table filter.passwordField } =
      { username := Table.after (fun c => some (c.name, c.value)) table cookies
          filter.usernameField
        password := Table.after (fun c => some (c.name, c.value)) table cookies
          filter.passwordField } := by
  induction cookies generalizing table with
  | nil =>
      rfl
  | cons c cookies ih =>
      have hassign : filter.assign
          { username := table filter.usernameField
            password := table filter.passwordField } c =
          { username := Function.update table c.name c.value filter.usernameField
            password := Function.update table c.name c.value filter.passwordField } := by
        by_cases hu : filter.usernameField = c.name
        · by_cases hp : filter.passwordField = c.name
          · simp [SimpleCookieSSOFilter.assign, hu, hp]
          · simp [SimpleCookieSSOFilter.assign, hu, hp]
        · by_cases hp : filter.passwordField = c.name
          · simp [SimpleCookieSSOFilter.assign, hu, hp]
          · simp [SimpleCookieSSOFilter.assign, hu, hp]
      rw [List.foldl_cons, hassign, ih]
      rfl

theorem foldl_assign_eq (cookies : List Cookie) :
    cookies.foldl filter.assign { username := none, password := none } =
      { username := lastValue cookies filter.usernameField
        password := lastValue cookies filter.passwordField } := by
  have hlast : ∀ name, Table.after (fun c : Cookie => some (c.name, c.value)) (fun _ => none)
      cookies name = lastValue cookies name := by
    intro name
    rw [Table.after_eq_getLast, lastValue]
    cases (cookies.filter fun c => c.name = name).getLast? with
    | none => rfl
    | some c => rfl
  rw [← hlast, ← hlast]
  exact foldl_assign filter (fun _ => none) cookies

theorem foldlM_visit (cookies : List Cookie) (v : Credentials) :
    cookies.foldlM filter.visit v =
      ⟨cookies.flatMap fun c => [.printed c.line], .ok (cookies.foldl filter.assign v)⟩ := by
  have hvisit : ∀ v c, filter.visit v c = ⟨[.printed c.line], .ok (filter.assign v c)⟩ :=
    fun _ _ => rfl
  exact Traced.foldlM_eq hvisit cookies v

/-! ## Refinement of the gate -/

/-- What is logged and printed up to the end of the loop is no act. -/
theorem filter_isAct (message : String) (cookies : List Cookie) (later : List Effect) :
    (Effect.info message ::
        ((cookies.flatMap fun c => [Effect.printed c.line]) ++ later)).filter Effect.isAct =
      later.filter Effect.isAct := by
  have hprinted : (cookies.flatMap fun c => [Effect.printed c.line]).filter Effect.isAct = [] := by
    apply List.filter_eq_nil_iff.mpr
    intro e he
    rcases List.mem_flatMap.mp he with ⟨c, -, hc⟩
    rw [List.mem_singleton.mp hc]
    simp [Effect.isAct]
  rw [List.filter_cons_of_neg (by simp [Effect.isAct]), List.filter_append, hprinted,
    List.nil_append]

theorem credentials_eq {req : Request} {cookies : List Cookie} (h : req.cookies = some cookies) :
    filter.credentials req = (lastValue cookies filter.usernameField).map
      fun username => (username, lastValue cookies filter.passwordField) := by
  rw [SimpleCookieSSOFilter.credentials, h, Option.bind_some]

/-- How `login` completes: only an error passes through. -/
def loggedIn : Except Throwable Unit → Except Throwable Bool
  | .ok _ => .ok true
  | .error (.exception _) => .ok false
  | .error (.error name) => .error (.error name)

theorem login_without_credentials {req : Request} (h : filter.credentials req = none) :
    ∃ trace, filter.login container req = ⟨trace, .ok false⟩ ∧
      trace.filter Effect.isAct = [] := by
  cases hcookies : req.cookies with
  | none =>
      refine ⟨[.info "not logged in - try login."], ?_, rfl⟩
      simp only [SimpleCookieSSOFilter.login, hcookies]
      rfl
  | some cookies =>
      rw [credentials_eq filter hcookies, Option.map_eq_none_iff] at h
      simp only [SimpleCookieSSOFilter.login, hcookies, foldlM_visit, foldl_assign_eq, h,
        Traced.emit, Traced.call, Traced.ok_bind]
      exact ⟨_, rfl, filter_isAct _ cookies _⟩

theorem login_with_credentials {req : Request} {username : String} {password : Option String}
    (h : filter.credentials req = some (username, password)) :
    ∃ trace, filter.login container req = ⟨trace, loggedIn (container.login username password)⟩ ∧
      trace.filter Effect.isAct = [.login username password] := by
  cases hcookies : req.cookies with
  | none =>
      rw [SimpleCookieSSOFilter.credentials, hcookies] at h
      cases h
  | some cookies =>
      rw [credentials_eq filter hcookies, Option.map_eq_some_iff] at h
      rcases h with ⟨u, husername, hpair⟩
      rcases Prod.mk.inj hpair with ⟨rfl, rfl⟩
      simp only [SimpleCookieSSOFilter.login, hcookies, foldlM_visit, foldl_assign_eq, husername,
        Traced.emit, Traced.call, Traced.attempt, Traced.ok_bind]
      -- Whatever `login` of the container does, at most one more line is logged.
      match container.login u (lastValue cookies filter.passwordField) with
      | .ok _ => exact ⟨_, rfl, filter_isAct _ cookies _⟩
      | .error (.exception _) => exact ⟨_, rfl, filter_isAct _ cookies _⟩
      | .error (.error _) => exact ⟨_, rfl, filter_isAct _ cookies _⟩

/-- The filter acts and completes as the gate does. -/
theorem doFilter_refines_gate (req : Request) :
    acts (filter.doFilter container req) =
        (gate container req.userPrincipal.isSome (filter.credentials req)).trace ∧
      (filter.doFilter container req).result =
        (gate container req.userPrincipal.isSome (filter.credentials req)).result := by
  cases hprincipal : req.userPrincipal with
  | some name =>
      simp only [SimpleCookieSSOFilter.doFilter, hprincipal]
      exact ⟨rfl, rfl⟩
  | none =>
      cases hcredentials : filter.credentials req with
      | none =>
          rcases login_without_credentials filter container hcredentials with ⟨t, hlogin, ht⟩
          simp only [SimpleCookieSSOFilter.doFilter, acts, hprincipal, hlogin,
            Option.isNone_none, if_true, Traced.ok_bind, List.filter_append, ht,
            Traced.bind_pure_unit]
          exact ⟨rfl, rfl⟩
      | some pair =>
          rcases login_with_credentials filter container hcredentials with ⟨t, hlogin, ht⟩
          simp only [SimpleCookieSSOFilter.doFilter, acts, gate, hprincipal, hlogin,
            Option.isNone_none, if_true, Traced.call, Traced.attempt, Traced.ok_bind,
            Traced.bind_pure_unit]
          match container.login pair.1 pair.2 with
          | .ok _ =>
              simp only [loggedIn, Traced.ok_bind, List.filter_append, ht]
              exact ⟨rfl, rfl⟩
          | .error (.exception _) =>
              simp only [loggedIn, Traced.ok_bind, List.filter_append, ht]
              exact ⟨rfl, rfl⟩
          -- Nothing follows an error.
          | .error (.error _) =>
              simp only [loggedIn, Traced.error_bind, ht]
              exact ⟨rfl, rfl⟩

/-! ## Outcomes -/

/-- The chain is invoked once, and no status is sent. -/
def PassedOn (trace : List Effect) : Prop :=
  trace.count .chain = 1 ∧ ∀ status, .sendError status ∉ trace

/-- The status 401 is sent once, and no other one, and the chain is not invoked. -/
def Refused (trace : List Effect) : Prop :=
  trace.count (.sendError 401) = 1 ∧ (∀ status, .sendError status ∈ trace → status = 401) ∧
    .chain ∉ trace

section Acts

variable {run : Servlet Unit}

theorem mem_acts {e : Effect} (he : e.isAct = true) : e ∈ acts run ↔ e ∈ run.trace := by
  rw [acts, List.mem_filter, he, and_iff_left rfl]

theorem count_acts {e : Effect} (he : e.isAct = true) : (acts run).count e = run.trace.count e :=
  List.count_filter he

theorem passedOn_acts : PassedOn (acts run) ↔ PassedOn run.trace := by
  rw [PassedOn, PassedOn, count_acts rfl]
  exact and_congr_right fun _ => forall_congr' fun _ => not_congr (mem_acts rfl)

theorem refused_acts : Refused (acts run) ↔ Refused run.trace := by
  rw [Refused, Refused, count_acts rfl, mem_acts rfl]
  refine and_congr_right fun _ => and_congr_left fun _ => ?_
  exact forall_congr' fun _ => imp_congr_left (mem_acts rfl)

theorem countP_isLogin_acts :
    (acts run).countP Effect.isLogin = run.trace.countP Effect.isLogin := by
  rw [acts, List.countP_filter]
  apply List.countP_congr
  intro e _
  cases e with
  | info message => rfl
  | printed line => rfl
  | login username password => rfl
  | sendError status => rfl
  | chain => rfl

end Acts

/-- Everything that the gate can do. -/
theorem gate_cases (authenticated : Bool) (credentials : Option (String × Option String)) :
    (authenticated = true ∧ (gate container authenticated credentials).trace = [.chain]) ∨
      (gate container authenticated credentials).trace = [.sendError 401] ∨
      ∃ u p, credentials = some (u, p) ∧
        (container.login u p = .ok () ∧
            (gate container authenticated credentials).trace = [.login u p, .chain] ∨
          (∃ name, container.login u p = .error (.exception name)) ∧
            (gate container authenticated credentials).trace = [.login u p, .sendError 401] ∨
          ∃ name, container.login u p = .error (.error name) ∧
            gate container authenticated credentials =
              ⟨[.login u p], .error (.error name)⟩) := by
  cases authenticated with
  | true =>
      exact Or.inl ⟨rfl, rfl⟩
  | false =>
      refine Or.inr ?_
      cases credentials with
      | none =>
          exact Or.inl rfl
      | some pair =>
          refine Or.inr ⟨pair.1, pair.2, rfl, ?_⟩
          simp only [gate, Traced.call, Traced.attempt, Traced.ok_bind, Bool.false_eq_true,
            if_false]
          match container.login pair.1 pair.2 with
          | .ok _ =>
              exact Or.inl ⟨rfl, rfl⟩
          | .error (.exception name) =>
              exact Or.inr (Or.inl ⟨⟨name, rfl⟩, rfl⟩)
          | .error (.error name) =>
              exact Or.inr (Or.inr ⟨name, rfl, rfl⟩)

section Gate

variable {authenticated : Bool} {credentials : Option (String × Option String)}

theorem gate_outcome
    (h : ∀ u p name, .login u p ∈ (gate container authenticated credentials).trace →
      container.login u p ≠ .error (.error name)) :
    PassedOn (gate container authenticated credentials).trace ∨
      Refused (gate container authenticated credentials).trace := by
  rcases gate_cases container authenticated credentials with
    ⟨-, htrace⟩ | htrace | ⟨u, p, -, ⟨-, htrace⟩ | ⟨-, htrace⟩ | ⟨name, hlogin, hgate⟩⟩
  · rw [htrace]
    exact Or.inl (by simp [PassedOn])
  · rw [htrace]
    exact Or.inr (by simp [Refused])
  · rw [htrace]
    exact Or.inl (by simp [PassedOn])
  · rw [htrace]
    exact Or.inr (by simp [Refused])
  · rw [hgate] at h
    exact absurd hlogin (h u p name (by simp))

theorem gate_error {u : String} {p : Option String} {name : String}
    (hmem : .login u p ∈ (gate container authenticated credentials).trace)
    (herror : container.login u p = .error (.error name)) :
    (gate container authenticated credentials).result = .error (.error name) ∧
      .chain ∉ (gate container authenticated credentials).trace ∧
        ∀ status, .sendError status ∉ (gate container authenticated credentials).trace := by
  rcases gate_cases container authenticated credentials with
    ⟨-, htrace⟩ | htrace | ⟨u', p', -, ⟨hlogin, htrace⟩ | ⟨⟨_, hlogin⟩, htrace⟩ |
      ⟨name', hlogin, hgate⟩⟩
  · simp [htrace] at hmem
  · simp [htrace] at hmem
  -- In the other cases the login of the trace is the one that was tried.
  · rcases (by simpa [htrace] using hmem : u = u' ∧ p = p') with ⟨rfl, rfl⟩
    rw [hlogin] at herror
    cases herror
  · rcases (by simpa [htrace] using hmem : u = u' ∧ p = p') with ⟨rfl, rfl⟩
    rw [hlogin] at herror
    cases herror
  · rcases (by simpa [hgate] using hmem : u = u' ∧ p = p') with ⟨rfl, rfl⟩
    rw [hlogin] at herror
    cases herror
    rw [hgate]
    simp

theorem gate_chain (h : .chain ∈ (gate container authenticated credentials).trace) :
    authenticated = true ∨
      ∃ u p, .login u p ∈ (gate container authenticated credentials).trace ∧
        container.login u p = .ok () := by
  rcases gate_cases container authenticated credentials with
    ⟨hauthenticated, -⟩ | htrace | ⟨u, p, -, ⟨hlogin, htrace⟩ | ⟨-, htrace⟩ | ⟨name, -, hgate⟩⟩
  · exact Or.inl hauthenticated
  · simp [htrace] at h
  · exact Or.inr ⟨u, p, by simp [htrace], hlogin⟩
  · simp [htrace] at h
  · simp [hgate] at h

theorem gate_login_le :
    (gate container authenticated credentials).trace.countP Effect.isLogin ≤ 1 := by
  rcases gate_cases container authenticated credentials with
    ⟨-, htrace⟩ | htrace | ⟨u, p, -, ⟨-, htrace⟩ | ⟨-, htrace⟩ | ⟨name, -, hgate⟩⟩
  · rw [htrace]
    exact Nat.zero_le 1
  · rw [htrace]
    exact Nat.zero_le 1
  · rw [htrace]
    exact Nat.le_refl 1
  · rw [htrace]
    exact Nat.le_refl 1
  · rw [hgate]
    exact Nat.le_refl 1

theorem gate_login {u : String} {p : Option String}
    (h : .login u p ∈ (gate container authenticated credentials).trace) :
    credentials = some (u, p) := by
  rcases gate_cases container authenticated credentials with
    ⟨-, htrace⟩ | htrace | ⟨u', p', hpair, ⟨-, htrace⟩ | ⟨-, htrace⟩ | ⟨name, -, hgate⟩⟩
  · simp [htrace] at h
  · simp [htrace] at h
  · rw [hpair]
    simpa [htrace, eq_comm] using h
  · rw [hpair]
    simpa [htrace, eq_comm] using h
  · rw [hpair]
    simpa [hgate, eq_comm] using h

end Gate

/-! ## Cookies in another order -/

theorem lastValue_congr {cookies reordered : List Cookie}
    (h : Table.SameByKey Cookie.name cookies reordered) (name : String) :
    lastValue reordered name = lastValue cookies name := by
  rw [lastValue, lastValue, h name]

theorem credentials_congr {req : Request} {cookies reordered : List Cookie}
    (hcookies : req.cookies = some cookies) (h : Table.SameByKey Cookie.name cookies reordered) :
    filter.credentials { req with cookies := some reordered } = filter.credentials req := by
  rw [credentials_eq filter rfl, credentials_eq filter hcookies, lastValue_congr h,
    lastValue_congr h]

/-! ## The filter -/

section Filter

variable {filter container} {req : Request}

theorem mem_doFilter {e : Effect} (he : e.isAct = true) :
    e ∈ (filter.doFilter container req).trace ↔
      e ∈ (gate container req.userPrincipal.isSome (filter.credentials req)).trace := by
  rw [← mem_acts he, (doFilter_refines_gate filter container req).1]

theorem exists_cookies_of_credentials {u : String} {p : Option String}
    (h : filter.credentials req = some (u, p)) :
    ∃ cookies, req.cookies = some cookies ∧
      lastValue cookies filter.usernameField = some u ∧
        lastValue cookies filter.passwordField = p := by
  rcases Option.bind_eq_some_iff.mp h with ⟨cookies, hcookies, hpair⟩
  rcases Option.map_eq_some_iff.mp hpair with ⟨_, husername, heq⟩
  rcases Prod.mk.inj heq with ⟨rfl, rfl⟩
  exact ⟨cookies, hcookies, husername, rfl⟩

end Filter

/-- A request is passed on or refused, and never both, unless the login that its cookies ask for
throws an error, which then passes through the filter. -/
theorem doFilter_passes_or_refuses (req : Request) :
    let run := filter.doFilter container req
    ((∀ u p name, .login u p ∈ run.trace → container.login u p ≠ .error (.error name)) →
        PassedOn run.trace ∨ Refused run.trace) ∧
      (∀ u p name, .login u p ∈ run.trace → container.login u p = .error (.error name) →
        run.result = .error (.error name) ∧ .chain ∉ run.trace ∧
          ∀ status, .sendError status ∉ run.trace) ∧
      (.chain ∈ run.trace → req.userPrincipal.isSome ∨
        ∃ u p, .login u p ∈ run.trace ∧ container.login u p = .ok ()) ∧
      run.trace.countP Effect.isLogin ≤ 1 ∧
      (∀ u p, .login u p ∈ run.trace → ∃ cookies, req.cookies = some cookies ∧
        lastValue cookies filter.usernameField = some u ∧
          lastValue cookies filter.passwordField = p) ∧
      ∀ cookies reordered, req.cookies = some cookies →
        Table.SameByKey Cookie.name cookies reordered →
          let run' := filter.doFilter container { req with cookies := some reordered }
          acts run' = acts run ∧ run'.result = run.result := by
  intro run
  rcases doFilter_refines_gate filter container req with ⟨hacts, hresult⟩
  refine ⟨?_, ?_, ?_, ?_, ?_, ?_⟩
  · intro h
    rw [← passedOn_acts, ← refused_acts, hacts]
    apply gate_outcome
    intro u p name hmem
    exact h u p name ((mem_doFilter rfl).mpr hmem)
  · intro u p name hmem herror
    rcases gate_error container ((mem_doFilter rfl).mp hmem) herror with
      ⟨hthrown, hchain, hstatus⟩
    refine ⟨hresult.trans hthrown, ?_, ?_⟩
    · exact fun h => hchain ((mem_doFilter rfl).mp h)
    · exact fun status h => hstatus status ((mem_doFilter rfl).mp h)
  · intro hmem
    refine (gate_chain container ((mem_doFilter rfl).mp hmem)).imp_right ?_
    rintro ⟨u, p, hlogin, hok⟩
    exact ⟨u, p, (mem_doFilter rfl).mpr hlogin, hok⟩
  · rw [← countP_isLogin_acts, hacts]
    exact gate_login_le container
  · intro u p hmem
    apply exists_cookies_of_credentials
    exact gate_login container ((mem_doFilter rfl).mp hmem)
  -- The gate sees no more of the cookies than the last ones of the two names.
  · intro cookies reordered hcookies hsame run'
    rcases doFilter_refines_gate filter container { req with cookies := some reordered } with
      ⟨hacts', hresult'⟩
    rw [credentials_congr filter hcookies hsame] at hacts' hresult'
    exact ⟨hacts'.trans hacts.symm, hresult'.trans hresult.symm⟩

/-- A container that knows one user. -/
def oneUser : Container :=
  { login := fun username password =>
      if username = "alice" ∧ password = some "secret" then .ok ()
      else .error (.exception "ServletException")
    sendError := fun _ => .ok ()
    chain := .ok () }

/-- The cookies of that user, an older password among them. -/
def aliceCookies : List Cookie :=
  [⟨"realm-pw", some "secrets"⟩, ⟨"realm-user", some "alice"⟩, ⟨"realm-pw", some "secret"⟩]

theorem doFilter_passes_alice :
    let run := SimpleCookieSSOFilter.initial.doFilter oneUser ⟨none, some aliceCookies⟩
    (PassedOn run.trace ∨ Refused run.trace) ∧
      (∃ u p, .login u p ∈ run.trace ∧ oneUser.login u p = .ok ()) ∧
      lastValue aliceCookies "realm-pw" = some "secret" ∧
      acts (SimpleCookieSSOFilter.initial.doFilter oneUser
          ⟨none, some [⟨"realm-user", some "alice"⟩, ⟨"realm-pw", some "secrets"⟩,
            ⟨"realm-pw", some "secret"⟩]⟩) = acts run := by
  intro run
  rcases doFilter_passes_or_refuses .initial oneUser ⟨none, some aliceCookies⟩ with
    ⟨houtcome, -, hchain, -, hlogin, horder⟩
  refine ⟨houtcome ?_, ?_, ?_, ?_⟩
  · intro u p name _
    by_cases h : u = "alice" ∧ p = some "secret"
    · simp [oneUser, h]
    · simp [oneUser, h]
  · exact (hchain (by decide)).resolve_left (by decide)
  · rcases hlogin "alice" (some "secret") (by decide) with ⟨cookies, hcookies, -, hpassword⟩
    cases hcookies
    exact hpassword
  · refine (horder aliceCookies _ rfl ?_).1
    have hne : Cookie.name ⟨"realm-pw", some "secrets"⟩ ≠
        Cookie.name ⟨"realm-user", some "alice"⟩ := by decide
    exact Table.SameByKey.swap [] [⟨"realm-pw", some "secret"⟩] hne

/-- A container whose login module is not there throws an error from `login`. -/
theorem not_doFilter_passes_or_refuses :
    ¬ ∀ (filter : SimpleCookieSSOFilter) (container : Container) (req : Request),
      PassedOn (filter.doFilter container req).trace ∨
        Refused (filter.doFilter container req).trace := by
  intro h
  rcases h .initial { oneUser with login := fun _ _ => .error (.error "NoClassDefFoundError") }
    ⟨none, some aliceCookies⟩ with ⟨hcount, -⟩ | ⟨hcount, -⟩
  · exact absurd hcount (by decide)
  · exact absurd hcount (by decide)

end Sso
end Etude
