import Etude.Base.Run
import Etude.Base.Table
import Mathlib.Data.List.DropRight
import Etude.Captcha.Model

/-!
# Tokens — what the captcha requests do to the tokens of the sessions

Of the sessions only their captcha tokens decide what is answered, and these form a table with
one entry for each session: generating a token writes it, the end of a session clears it, and a
login only reads it.  So a token stays good until the next one is generated for its session or
the session ends, however many logins were let through with it before.
-/

namespace Etude
namespace Captcha

open Base

universe u

variable {κ : Type u}

/-! ## The table of tokens -/

theorem getSession_getToken (s : Sessions κ) (k : κ) : (s.getSession k).getToken = s.token k := by
  cases h : s k with
  | none =>
      simp [Sessions.getSession, Sessions.token, h, Session.getToken, Session.fresh]
  | some session =>
      simp [Sessions.getSession, Sessions.token, h]

section Sessions

variable [DecidableEq κ]

theorem put_token (s : Sessions κ) (k : κ) (session : Session) :
    (s.put k session).token = Function.update s.token k session.getToken := by
  funext j
  by_cases hj : j = k
  · subst hj
    simp [Sessions.put, Sessions.token]
  · simp [Sessions.put, Sessions.token, hj]

theorem invalidate_token (s : Sessions κ) (k : κ) :
    (s.invalidate k).token = Function.update s.token k none := by
  funext j
  by_cases hj : j = k
  · subst hj
    simp [Sessions.invalidate, Sessions.token]
  · simp [Sessions.invalidate, Sessions.token, hj]

/-- Making the session of a request does not change the tokens. -/
theorem put_getSession_token (s : Sessions κ) (k : κ) :
    (s.put k (s.getSession k)).token = s.token := by
  rw [put_token, getSession_getToken, Function.update_eq_self]

end Sessions

/-- The entry that a request writes: a new token, or none after a logout. -/
def Request.writes (r : Request κ) : Option (κ × Option String) :=
  match r.handler with
  | .captcha => some (r.session, r.nextToken)
  | .logout => some (r.session, none)
  | .logoutFilter => some (r.session, none)
  | .elsewhere => none

def Event.writes : Event κ → Option (κ × Option String)
  | .request r => r.writes
  | .expires k => some (k, none)

theorem Request.writes_of_isLogin {r : Request κ} (h : r.isLogin) : r.writes = none := by
  have helsewhere : r.handler = .elsewhere := r.handler_login h.1 h.2
  simp [Request.writes, helsewhere]

section Steps

variable [DecidableEq κ]

/-! ## One request -/

/-- Drawing marks the token as used, but a token that was just generated is never used: what is
drawn is the new token, whatever the session held before. -/
theorem captcha_eq (r : Request κ) (s : Sessions κ) :
    (captcha r s).1.token = Function.update s.token r.session r.nextToken ∧
      (captcha r s).2 =
        r.nextToken.elim (.sendError 404 "Captcha not found.") Reply.image := by
  cases h : r.nextToken with
  | none =>
      constructor
      · simp [captcha, h, Session.generateToken, Session.markTokenUsed, Session.getToken,
          put_token]
      · simp [captcha, h, Session.generateToken, Session.markTokenUsed, Session.getToken]
  | some token =>
      constructor
      · simp [captcha, h, Session.generateToken, Session.markTokenUsed, Session.getToken,
          Session.isTokenUsed, put_token]
      · simp [captcha, h, Session.generateToken, Session.markTokenUsed, Session.getToken,
          Session.isTokenUsed]

theorem doFilter_token (r : Request κ) (s : Sessions κ) : (doFilter r s).1.token = s.token := by
  -- All branches of a login put back the session as they found it or made it.
  unfold doFilter
  dsimp only
  split
  · split
    · split
      · exact put_getSession_token s r.session
      · exact put_getSession_token s r.session
    · exact put_getSession_token s r.session
  · rfl

theorem dispatch_token (r : Request κ) (s : Sessions κ) :
    (dispatch r s).1.token = Table.write Event.writes s.token (.request r) := by
  cases h : r.handler with
  | captcha =>
      simpa [dispatch, Table.write, Event.writes, Request.writes, h] using (captcha_eq r s).1
  | logout =>
      simp [dispatch, Table.write, Event.writes, Request.writes, h, logout, invalidate_token]
  | logoutFilter =>
      simp [dispatch, Table.write, Event.writes, Request.writes, h, invalidate_token]
  | elsewhere =>
      simp [dispatch, Table.write, Event.writes, Request.writes, h]

/-- A request that the filter does not let through is a login. -/
theorem isLogin_of_refused {r : Request κ} {s : Sessions κ} (h : (doFilter r s).2 ≠ .chain) :
    r.isLogin := by
  by_contra hlogin
  exact h (by simp [doFilter, hlogin])

theorem serve_token (r : Request κ) (s : Sessions κ) :
    (serve r s).1.token = Table.write Event.writes s.token (.request r) := by
  rcases hfilter : doFilter r s with ⟨t, verdict⟩
  have ht : t.token = s.token := by
    simpa [hfilter] using doFilter_token r s
  cases verdict with
  | chain =>
      have hserve : (serve r s).1 = (dispatch r t).1 := by
        simp [serve, hfilter]
      rw [hserve, dispatch_token, ht]
  | onAuthenticationFailure error message =>
      -- Only logins are refused, and these write no entry.
      have hlogin : r.isLogin := isLogin_of_refused (s := s) (by simp [hfilter])
      have hserve : (serve r s).1 = t := by
        simp [serve, hfilter]
      rw [hserve, ht]
      simp [Table.write, Event.writes, r.writes_of_isLogin hlogin]

theorem step_token (s : Sessions κ) (e : Event κ) :
    (step s e).token = Table.write Event.writes s.token e := by
  cases e with
  | request r =>
      exact serve_token r s
  | expires k =>
      exact invalidate_token s k

/-- The tokens of the sessions after some events are those that the table has. -/
theorem sessionsAfter_token (events : List (Event κ)) :
    (sessionsAfter events).token = Table.after Event.writes (fun _ => none) events := by
  have hstep : ∀ (s : Sessions κ) (e : Event κ),
      Table.write Event.writes s.token e = (step s e).token :=
    fun s e => (step_token s e).symm
  exact (List.foldl_hom Sessions.token hstep).symm

/-! ## What the filter lets through -/

/-- A captcha is filled in if it has a character over the space. -/
theorem trim_ne_empty_iff (s : String) : trim s ≠ "" ↔ ∃ c ∈ s.toList, ' ' < c := by
  have hempty : trim s = "" ↔ ∀ c ∈ s.toList, c ≤ ' ' := by
    calc
      trim s = ""
          ↔ ∀ c ∈ s.toList.dropWhile (· ≤ ' '), c ≤ ' ' := by
            simp [trim, List.dropWhile_eq_nil_iff]
      _ ↔ (s.toList.dropWhile (· ≤ ' ')).dropWhile (· ≤ ' ') = [] := by
            simp [List.dropWhile_eq_nil_iff]
      _ ↔ s.toList.dropWhile (· ≤ ' ') = [] := by
            rw [List.dropWhile_idempotent]
      _ ↔ ∀ c ∈ s.toList, c ≤ ' ' := by
            simp [List.dropWhile_eq_nil_iff]
  simp only [ne_eq, hempty, not_forall, Char.not_le, exists_prop]

theorem doFilter_login {r : Request κ} (hlogin : r.isLogin) (s : Sessions κ) :
    (doFilter r s).2 = .chain ↔
      ∃ token, r.captcha = some token ∧ s.token r.session = some token ∧ trim token ≠ "" := by
  cases hposted : r.captcha with
  | none =>
      simp [doFilter, hlogin, hposted, filled]
  | some posted =>
      -- Something was posted; it passes if it is the token of the session and not blank.
      by_cases hsame : s.token r.session = some posted
      · by_cases hblank : trim posted = ""
        · simp [doFilter, hlogin, hposted, getSession_getToken, hsame, hblank, filled]
        · simp [doFilter, hlogin, hposted, getSession_getToken, hsame, hblank, filled]
      · have hne : some posted ≠ s.token r.session := fun h => hsame h.symm
        simp [doFilter, hlogin, hposted, getSession_getToken, hsame, hne]

/-! ## What is answered -/

theorem doFilter_congr {s t : Sessions κ} (h : s.token = t.token) (r : Request κ) :
    (doFilter r s).2 = (doFilter r t).2 := by
  by_cases hlogin : r.isLogin
  · simp only [doFilter, hlogin, if_true, getSession_getToken, h]
    split
    · split
      · rfl
      · rfl
    · rfl
  · simp [doFilter, hlogin]

theorem dispatch_congr (s t : Sessions κ) (r : Request κ) :
    (dispatch r s).2 = (dispatch r t).2 := by
  cases h : r.handler with
  | captcha => simp [dispatch, h, captcha_eq]
  | logout => simp [dispatch, h, logout]
  | logoutFilter => simp [dispatch, h]
  | elsewhere => simp [dispatch, h]

theorem serve_congr {s t : Sessions κ} (h : s.token = t.token) (r : Request κ) :
    (serve r s).2 = (serve r t).2 := by
  rcases hs : doFilter r s with ⟨s', verdict⟩
  rcases ht : doFilter r t with ⟨t', verdict'⟩
  have hverdict : verdict = verdict' := by
    simpa [hs, ht] using doFilter_congr h r
  -- The same verdict, and behind it the same reply.
  subst hverdict
  cases verdict with
  | chain =>
      simp [serve, hs, ht, dispatch_congr s' t']
  | onAuthenticationFailure error message =>
      simp [serve, hs, ht]

/-- Sessions with the same tokens answer every sequence of events alike: whether a token was
used for an image never shows. -/
theorem answers_of_token_eq {s t : Sessions κ} (h : s.token = t.token)
    (events : List (Event κ)) :
    (specOut answer s events).2 = (specOut answer t events).2 := by
  refine specOut_eq_of_related (R := fun s t => s.token = t.token) ?_ h events
  intro s t e hst
  have hnext : (step s e).token = (step t e).token := by
    rw [step_token, step_token, hst]
  cases e with
  | request r =>
      exact ⟨congrArg some (serve_congr hst r), hnext⟩
  | expires k =>
      exact ⟨rfl, hnext⟩

end Steps

end Captcha
end Etude
