import Etude.Captcha.Tokens

/-!
# Attempts — how many logins a token is good for

A login is let through exactly if it carries the newest token of its own session.  Nothing uses
the token up: the logins with it are let through one after the other until the session gets a
new one or ends.
-/

namespace Etude
namespace Captcha

open Base

universe u

variable {κ : Type u}

/-- `token` was generated for the session `k`, and neither another one nor the end of the session
came after that. -/
def Newest (k : κ) (token : String) (events : List (Event κ)) : Prop :=
  Table.LastWrites Event.writes k (some token) events

/-- No token was generated for the session `k`, and the session did not end. -/
def Kept (k : κ) (events : List (Event κ)) : Prop :=
  Table.Untouched Event.writes k events

theorem kept_login_cons {r : Request κ} (hlogin : r.isLogin) {between : List (Event κ)}
    (hkept : Kept r.session between) : Kept r.session (.request r :: between) := by
  intro e he token hwrites
  rcases List.mem_cons.mp he with rfl | he
  · rw [Event.writes, r.writes_of_isLogin hlogin] at hwrites
    cases hwrites
  · exact hkept e he token hwrites

variable [DecidableEq κ]

/-- The filter lets `r` through to the chain if it comes after `before`. -/
def PassedOn (before : List (Event κ)) (r : Request κ) : Prop :=
  (doFilter r (sessionsAfter before)).2 = .chain

instance (before : List (Event κ)) (r : Request κ) : Decidable (PassedOn before r) :=
  inferInstanceAs (Decidable (_ = _))

theorem token_sessionsAfter (k : κ) (token : String) (events : List (Event κ)) :
    (sessionsAfter events).token k = some token ↔ Newest k token events := by
  rw [sessionsAfter_token]
  exact Table.after_eq_iff (by simp) events

theorem passedOn_iff_newest (before : List (Event κ)) {r : Request κ} (hlogin : r.isLogin) :
    PassedOn before r ↔ ∃ token, r.captcha = some token ∧ Newest r.session token before ∧
      ∃ c ∈ token.toList, ' ' < c := by
  simp only [PassedOn, doFilter_login hlogin, token_sessionsAfter, trim_ne_empty_iff]

/-- Events that keep the token of a session do not change which logins to it are let through. -/
theorem passedOn_append_of_kept (before : List (Event κ)) {between : List (Event κ)}
    {r r' : Request κ} (hlogin : r.isLogin) (hlogin' : r'.isLogin)
    (hsession : r'.session = r.session) (hcaptcha : r'.captcha = r.captcha)
    (hkept : Kept r.session between) :
    PassedOn (before ++ between) r' ↔ PassedOn before r := by
  -- The table has the same entry for the session before and after `between`.
  have htoken : (sessionsAfter (before ++ between)).token r.session =
      (sessionsAfter before).token r.session := by
    rw [sessionsAfter_token, sessionsAfter_token, Table.after_append]
    exact Table.after_of_untouched _ hkept
  simp only [PassedOn, doFilter_login hlogin, doFilter_login hlogin', hsession, hcaptcha, htoken]

/-! ## One attempt for each token -/

/-- Each login that is let through carries the newest token of its session, and between two
such logins of one session a token is generated for it. -/
def OneAttemptEach (events : List (Event κ)) : Prop :=
  (∀ before r rest, events = before ++ .request r :: rest → r.isLogin → PassedOn before r →
    ∃ token, r.captcha = some token ∧ Newest r.session token before) ∧
  ∀ before r between r' rest,
    events = before ++ .request r :: (between ++ .request r' :: rest) →
      r.isLogin → r'.isLogin → r'.session = r.session →
        PassedOn before r → PassedOn (before ++ .request r :: between) r' →
          ∃ e ∈ between, ∃ token, e.writes = some (r.session, some token)

/-- A login is let through exactly if it carries the newest token of its own session, provided
that this is not blank; and as long as the session keeps the token, a later login with the same
captcha is let through exactly if the first one was. -/
theorem login_passedOn_iff (before : List (Event κ)) (r : Request κ) (hlogin : r.isLogin) :
    (PassedOn before r ↔ ∃ token, r.captcha = some token ∧ Newest r.session token before ∧
      ∃ c ∈ token.toList, ' ' < c) ∧
    ∀ (between : List (Event κ)) (r' : Request κ), r'.isLogin → r'.session = r.session →
      r'.captcha = r.captcha → Kept r.session between →
        (PassedOn (before ++ .request r :: between) r' ↔ PassedOn before r) := by
  constructor
  · exact passedOn_iff_newest before hlogin
  · intro between r' hlogin' hsession hcaptcha hkept
    exact passedOn_append_of_kept before hlogin hlogin' hsession hcaptcha
      (kept_login_cons hlogin hkept)

/-- A request for an image that gets the token `abcd`. -/
def getCaptcha : Request ℕ :=
  { session := 0
    method := "GET"
    requestURI := "/captcha"
    handler := .captcha
    captcha := none
    nextToken := some "abcd"
    handler_login := by decide }

def postLogin : Request ℕ :=
  { session := 0
    method := "POST"
    requestURI := "/login"
    handler := .elsewhere
    captcha := some "abcd"
    nextToken := none
    handler_login := fun _ _ => rfl }

theorem postLogin_passedOn_again :
    PassedOn [.request getCaptcha] postLogin ∧
      PassedOn [.request getCaptcha, .request postLogin] postLogin := by
  have hlogin : postLogin.isLogin := ⟨rfl, rfl⟩
  have hfirst : PassedOn [.request getCaptcha] postLogin := by
    decide
  refine ⟨hfirst, ?_⟩
  rcases login_passedOn_iff [.request getCaptcha] postLogin hlogin with ⟨-, hlater⟩
  exact (hlater [] postLogin hlogin rfl rfl (fun _ he => by cases he)).mpr hfirst

theorem postLogin_twice : ¬ ∀ events : List (Event ℕ), OneAttemptEach events := by
  intro h
  -- One image and two logins: no token is generated between the logins.
  rcases h [.request getCaptcha, .request postLogin, .request postLogin] with ⟨-, honce⟩
  rcases honce [.request getCaptcha] postLogin [] postLogin [] rfl ⟨rfl, rfl⟩ ⟨rfl, rfl⟩ rfl
    (by decide) (by decide) with ⟨e, he, -⟩
  cases he

end Captcha
end Etude
