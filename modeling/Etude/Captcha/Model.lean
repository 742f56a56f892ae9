import Mathlib.Data.Nat.Notation
import Mathlib.Logic.Function.Basic

/-!
# Captcha — the login form's captcha

The model of `LoginController.java` and `CaptchaFilter.java`: the two session attributes, the
controller methods that write them and the filter that compares a posted captcha with them.
Sessions are named by the `HttpSession` object that belongs to a request, so a change of the
session's cookie is no change of its name.  Which requests reach the handlers of images and of
logouts is for the framework to say (`GetMapping` answers HEAD and `/captcha/` too, and its own
logout filter takes POST /logout), so each request comes with what takes it.
-/

namespace Etude
namespace Captcha

universe u

variable {κ : Type u}

/-! ## Sessions -/

structure Session where
  captchaToken : Option String
  captchaTokenUsed : Option Bool
  deriving DecidableEq, Repr

namespace Session

/-- A session without attributes. -/
def fresh : Session :=
  { captchaToken := none
    captchaTokenUsed := none }

def getToken (session : Session) : Option String :=
  session.captchaToken

def markTokenUsed (session : Session) (used : Bool) : Session :=
  { session with captchaTokenUsed := some used }

/-- `!Boolean.FALSE.equals(..)`, which also holds of a missing attribute. -/
def isTokenUsed (session : Session) : Bool :=
  session.captchaTokenUsed != some false

/-- `token` is the answer of the token generator.  Setting an attribute to null removes it. -/
def generateToken (session : Session) (token : Option String) : Session :=
  markTokenUsed { session with captchaToken := token } false

end Session

/-- The live sessions. -/
abbrev Sessions (κ : Type u) := κ → Option Session

namespace Sessions

variable [DecidableEq κ]

/-- `getSession(true)`: the session of a request, made if there is none. -/
def getSession (s : Sessions κ) (k : κ) : Session :=
  (s k).getD .fresh

def put (s : Sessions κ) (k : κ) (session : Session) : Sessions κ :=
  Function.update s k (some session)

def invalidate (s : Sessions κ) (k : κ) : Sessions κ :=
  Function.update s k none

/-- The captcha token of the session named `k`, if that is live and has one. -/
def token (s : Sessions κ) (k : κ) : Option String :=
  (s k).bind Session.getToken

end Sessions

/-! ## Requests -/

/-- What takes a request that the captcha filter does not refuse. -/
inductive Handler where
  | captcha
  | logout
  /-- The framework's own logout filter, which ends the session too. -/
  | logoutFilter
  /-- Anything that does not touch the captcha attributes. -/
  | elsewhere
  deriving DecidableEq, Repr

/-- A request, with the session that it belongs to, live or yet to be made, what the framework
hands it to, and the token that the generator returns when it is asked while the request is
served.  A login goes to the framework's login filter. -/
structure Request (κ : Type u) where
  session : κ
  method : String
  requestURI : String
  handler : Handler
  captcha : Option String
  nextToken : Option String
  handler_login : requestURI = "/login" → method = "POST" → handler = .elsewhere
  deriving DecidableEq, Repr

inductive Reply where
  | image (token : String)
  | sendError (status : ℕ) (message : String)
  | view (name : String)
  /-- The answer of anything but these two handlers. -/
  | elsewhere
  deriving DecidableEq, Repr

/-- What the filter does with a request. -/
inductive Verdict where
  | chain
  | onAuthenticationFailure (error message : String)
  deriving DecidableEq, Repr

section Handlers

variable [DecidableEq κ]

def captcha (r : Request κ) (s : Sessions κ) : Sessions κ × Reply :=
  let session := (s.getSession r.session).generateToken r.nextToken
  match session.getToken with
  | none => (s.put r.session session, .sendError 404 "Captcha not found.")
  | some token =>
      -- `generateToken` has just marked it as unused.
      if session.isTokenUsed then
        (s.put r.session session, .sendError 404 "Captcha not found.")
      else
        (s.put r.session (session.markTokenUsed true), .image token)

def logout (r : Request κ) (s : Sessions κ) : Sessions κ × Reply :=
  (s.invalidate r.session, .view "logged-out")

/-- The handlers behind the filter. -/
def dispatch (r : Request κ) (s : Sessions κ) : Sessions κ × Reply :=
  match r.handler with
  | .captcha => captcha r s
  | .logout => logout r s
  | .logoutFilter => (s.invalidate r.session, .elsewhere)
  | .elsewhere => (s, .elsewhere)

end Handlers

/-! ## The filter -/

/-- `String.trim`: without the characters up to the space at both ends. -/
def trim (s : String) : String :=
  let cs := s.toList.dropWhile (· ≤ ' ')
  String.ofList (cs.reverse.dropWhile (· ≤ ' ')).reverse

/-- `%s` of a string that may be null. -/
def formatted : Option String → String
  | none => "null"
  | some s => s

def Request.isLogin (r : Request κ) : Prop :=
  r.requestURI = "/login" ∧ r.method = "POST"

instance (r : Request κ) : Decidable r.isLogin :=
  inferInstanceAs (Decidable (_ ∧ _))

/-- `s != null && !s.trim().equals("")` -/
def filled : Option String → Bool
  | none => false
  | some s => trim s != ""

section Filter

variable [DecidableEq κ]

def doFilter (r : Request κ) (s : Sessions κ) : Sessions κ × Verdict :=
  if r.isLogin then
    let session := s.getSession r.session
    let ssnCaptcha := session.getToken
    let s := s.put r.session session
    -- The error attribute is set in each branch below, and then to this text.
    let refused := Verdict.onAuthenticationFailure "Captcha phase doesn't match."
      ("Captcha phase doesn't match:'" ++ formatted ssnCaptcha ++ "' != '" ++
        formatted r.captcha ++ "'.")
    if filled r.captcha && filled ssnCaptcha then
      if r.captcha = ssnCaptcha then
        (s, .chain)
      else
        (s, refused)
    else
      (s, refused)
  else
    (s, .chain)

/-! ## Runs -/

inductive Event (κ : Type u) where
  | request (r : Request κ)
  /-- The container drops a session that was idle for too long. -/
  | expires (k : κ)
  deriving DecidableEq, Repr

/-- The verdict of the filter and the reply of the handlers that it lets the request through
to. -/
def serve (r : Request κ) (s : Sessions κ) : Sessions κ × Verdict × Option Reply :=
  match doFilter r s with
  | (s, .chain) =>
      let (s, reply) := dispatch r s
      (s, .chain, some reply)
  | (s, verdict) => (s, verdict, none)

def step (s : Sessions κ) : Event κ → Sessions κ
  | .request r => (serve r s).1
  | .expires k => s.invalidate k

/-- A step and what is answered in it. -/
def answer (s : Sessions κ) (e : Event κ) : Sessions κ × Option (Verdict × Option Reply) :=
  match e with
  | .request r => (step s e, some (serve r s).2)
  | .expires _ => (step s e, none)

/-- The sessions after some events, none being live before them. -/
def sessionsAfter (events : List (Event κ)) : Sessions κ :=
  events.foldl step fun _ => none

end Filter

end Captcha
end Etude
