import Etude.Blog.Store

/-!
# WriteBack — who changes the articles, and what a client can write back

Credentials are asked for when the first segment of a request is `admin`, while a route is found by
the path that the segments make together.  So requests without verified credentials leave no trace
as long as their first segments are neither empty nor bring slashes with them, and
`/admin%2Farticles` is open to everyone.  An article that a client has got can be put back without a
change, or posted again as a copy.
-/

namespace Etude
namespace Blog

open Base

/-! ## Anonymous requests -/

/-- The first segment is not empty and brings no slash with it. -/
def Request.PlainStart (r : Request) : Prop :=
  ∀ p ∈ r.pathInfo.head?, p ≠ "" ∧ '/' ∉ p.toList

/-- Credentials are asked for where a route is found that changes articles. -/
theorem protectedResources_of_changes {router : Router} {r : Request} {route : Route}
    (hplain : r.PlainStart) (h : r.route router = some route) (hchanges : route.changes = true) :
    protectedResources r = true := by
  have hhead := router.find_changes _ _ _ h hchanges
  unfold protectedResources
  cases hpath : r.pathInfo with
  | nil =>
      rw [hpath, pieces_pathOf_nil] at hhead
      cases hhead
  | cons p rest =>
      -- The first segment is the first piece of the path.
      rcases hplain p (by simp [hpath]) with ⟨hp, hslash⟩
      rw [hpath, head_pieces_pathOf hp hslash] at hhead
      cases hhead
      rfl

/-- The event is no request without verified credentials. -/
def Event.verified (server : Server) : Event → Bool
  | .request r => Blog.verified server r
  | .recount _ => true

/-! ## What the columns keep -/

section Kept

variable (server : Server)

/-- What the columns keep they keep unchanged when it is written again. -/
def Server.KeepsKept : Prop :=
  ∀ x y, server.keeps x = some y → server.keeps y = some y

/-- The texts that a command brings are kept as they are. -/
def Command.Kept : Command → Prop
  | .create _ c | .update _ c => server.keeps c = some c
  | .delete _ => True

/-- The texts of all articles have been through the columns. -/
def Contents.Kept (s : Contents) : Prop :=
  ∀ n x, s n = some x → server.keeps x = some x

theorem kept_apply {s : Contents} {c : Command} (hc : c.Kept server) (hs : s.Kept server) :
    (s.apply c).Kept server := by
  intro n x hx
  cases c with
  | create id c =>
      simp only [Contents.apply, Function.update_apply] at hx
      split_ifs at hx
      · cases hx
        exact hc
      · exact hs n x hx
  | update key c =>
      simp only [Contents.apply] at hx
      split_ifs at hx
      · rcases Option.map_eq_some_iff.mp hx with ⟨_, -, rfl⟩
        exact hc
      · exact hs n x hx
  | delete key =>
      simp only [Contents.apply] at hx
      split_ifs at hx
      exact hs n x hx

end Kept

section Requests

variable [FromJSON ℤ] (server : Server) (text : JsonText) (router : Router)

theorem step_of_not_verified {r : Request} (hplain : r.PlainStart)
    (hr : verified server r = false) (articles : Articles) :
    step server text router articles (.request r) = articles := by
  simp only [step]
  by_cases hadmitted : Admitted server r
  · rw [handle_of_admitted server text router hadmitted]
    cases h : r.route router with
    | none =>
        rfl
    | some route =>
        cases hchanges : route.changes with
        | true =>
            -- The request would have been refused.
            rw [hadmitted (protectedResources_of_changes hplain h hchanges)] at hr
            cases hr
        | false =>
            cases route with
            | list | view _ => rfl
            | create | update | delete _ => cases hchanges
  · rw [handle_of_not_admitted server text router hadmitted]

theorem articlesAfter_filter_verified (events : List Event)
    (hplain : ∀ r, .request r ∈ events → verified server r = false → r.PlainStart) :
    articlesAfter server text router events =
      articlesAfter server text router (events.filter (Event.verified server)) := by
  induction events using List.reverseRecOn with
  | nil =>
      rfl
  | append_singleton events e ih =>
      have hbefore := ih fun r hr => hplain r (by simp [hr])
      rw [articlesAfter_append, List.filter_append]
      cases he : e.verified server with
      | true =>
          have hlast : [e].filter (Event.verified server) = [e] := by simp [he]
          rw [hlast, articlesAfter_append, hbefore]
      | false =>
          -- A request is left out, and has changed nothing.
          have hlast : [e].filter (Event.verified server) = [] := by simp [he]
          rw [hlast, List.append_nil, ← hbefore]
          cases e with
          | recount next => cases he
          | request r => exact step_of_not_verified server text router (hplain r (by simp) he) he _

/-- The articles, and with them all the answers, are those of the requests with verified credentials
alone, if the first segments of the others are not empty and bring no slashes.  But nobody is asked
for credentials who posts an article to `/admin%2Farticles`. -/
theorem anonymous_requests_leave_no_trace :
    (∀ events, (∀ r, .request r ∈ events → verified server r = false → r.PlainStart) →
      articlesAfter server text router events =
        articlesAfter server text router (events.filter (Event.verified server))) ∧
      ∀ articles r, r.method = "POST" → r.pathInfo = ["admin/articles"] →
        handle server text router articles r =
          written articles ((decodeArticle text r.body).bind (insertArticle server articles)) := by
  constructor
  · exact articlesAfter_filter_verified server text router
  · intro articles r hmethod hpath
    have hopen : Admitted server r := by
      intro hprotected
      rw [protectedResources, hpath] at hprotected
      cases hprotected
    have hroute : r.route router = some .create := by
      rw [Request.route, hmethod, hpath]
      exact router.find_create
    rw [handle_of_admitted server text router hopen, hroute]
    rfl

/-! ## Articles that were read -/

theorem keeps_of_keptArticle {body : List UInt8} {a : ℤ × (String × String)}
    (hkeeps : server.KeepsKept) (h : keptArticle server text body = some a) :
    server.keeps a.2 = some a.2 := by
  rcases Option.bind_eq_some_iff.mp h with ⟨article, -, h⟩
  rcases Option.bind_eq_some_iff.mp h with ⟨b, -, h⟩
  rcases Option.map_eq_some_iff.mp h with ⟨c, hc, rfl⟩
  exact hkeeps _ c hc

theorem kept_routeCommand (hkeeps : server.KeepsKept) {articles : Articles} {body : List UInt8}
    {route : Route} {c : Command} (h : route.command server text articles body = some c) :
    c.Kept server := by
  cases route with
  | list | view _ =>
      cases h
  | create =>
      simp only [Route.command] at h
      split_ifs at h
      rcases Option.map_eq_some_iff.mp h with ⟨a, ha, rfl⟩
      exact keeps_of_keptArticle server text hkeeps ha
  | update =>
      rcases Option.bind_eq_some_iff.mp h with ⟨a, ha, h⟩
      rcases Option.bind_eq_some_iff.mp h with ⟨key, -, h⟩
      cases h
      exact keeps_of_keptArticle server text hkeeps ha
  | delete id =>
      rcases Option.map_eq_some_iff.mp h with ⟨key, -, rfl⟩
      trivial

theorem kept_step (hkeeps : server.KeepsKept) {articles : Articles} (e : Event)
    (h : Contents.Kept server articles.content) :
    Contents.Kept server (step server text router articles e).content := by
  rw [content_step]
  cases hcommand : e.command server text router articles with
  | none =>
      exact h
  | some c =>
      cases e with
      | recount next =>
          cases hcommand
      | request r =>
          simp only [Event.command] at hcommand
          split_ifs at hcommand
          rcases Option.bind_eq_some_iff.mp hcommand with ⟨route, -, hroute⟩
          exact kept_apply server (kept_routeCommand server text hkeeps hroute) h

theorem kept_articlesAfter (hkeeps : server.KeepsKept) (events : List Event) :
    Contents.Kept server (articlesAfter server text router events).content := by
  induction events using List.reverseRecOn with
  | nil =>
      intro n x hx
      cases hx
  | append_singleton events e ih =>
      rw [articlesAfter_append]
      exact kept_step server text router hkeeps e ih

/-- An article that was found by its id, put as it is, changes nothing; posted again, it is copied
to a new id. -/
theorem article_written_back (hint : IntegersReadBack) (hkeeps : server.KeepsKept)
    (events : List Event) (id : String) (a : Article) (r : Request)
    (hfound : findArticle server (articlesAfter server text router events) id = some a)
    (hid : server.writeId (toString a.id) = some (some a.id)) (htext : text.ReadsBack (toJSON a))
    (hverified : verified server r = true) (hbody : r.body = text.encode a) :
    let now := articlesAfter server text router events
    (r.route router = some .update → handle server text router now r = (now, .json unit)) ∧
      (r.route router = some .create → now.next ≤ maxId →
        handle server text router now r =
          (now.insert (a.title, a.bodyText), .json unit)) := by
  intro now
  have hcontent : now.content a.id = some (a.title, a.bodyText) := by
    rw [findArticle_eq] at hfound
    rcases Option.bind_eq_some_iff.mp hfound with ⟨n, -, hrow⟩
    rcases Option.map_eq_some_iff.mp hrow with ⟨c, hc, rfl⟩
    exact hc
  -- All texts in the table have been through the columns once.
  have hkept : server.keeps (a.title, a.bodyText) = some (a.title, a.bodyText) :=
    kept_articlesAfter server text router hkeeps events a.id _ hcontent
  have hdecoded : decodeArticle text r.body = some (some a) := by
    rw [hbody]
    exact decodeArticle_encode hint htext
  have hadmitted : Admitted server r := fun _ => hverified
  constructor
  · intro hroute
    -- The row of the id is written as it was, and no other row is written.
    have hsame : now.update (whereId (some a.id)) (a.title, a.bodyText) = now := by
      refine AutoTable.update_eq_self now fun n hn => ?_
      have heq : a.id = n := by simpa [whereId] using hn
      rw [← heq, hcontent]
    have hstatement : updateArticle server now (some a) = some now := by
      simp only [updateArticle, hid, hkept, Option.bind_eq_bind, Option.bind_some, hsame]
      rfl
    rw [handle_of_admitted server text router hadmitted, hroute]
    simp only [action, hdecoded, Option.bind_some, hstatement, written]
  · intro hroute hnext
    rw [handle_of_admitted server text router hadmitted, hroute]
    simp only [action, hdecoded, Option.bind_some, insertArticle, if_pos hnext, hkept,
      Option.map_some, written]

end Requests

/-! ## The user of `dump.sql` -/

/-- Integers without an exponent. -/
@[reducible] def readInteger : FromJSON ℤ where
  parseJSON
    | .number c 0 => .ok c
    | v => typeMismatch "Integer" v

def dim : Server :=
  { idOf := fun id => if id = "13" then some 13 else none
    -- In strict mode a text that is no number is refused.
    writeId := fun id => if id = "13" then some (some 13) else none
    keeps := some
    passwords := fun login =>
      if login = "dim" then ["563728df0fdd90631ac1e51258e2857d"] else []
    md5s := fun password => if password = "dim" then "563728df0fdd90631ac1e51258e2857d" else "" }

def first : Article :=
  { id := 13
    title := "First"
    bodyText := "" }

def ascii (s : String) : List UInt8 :=
  s.toList.map fun c => UInt8.ofNat c.toNat

/-- The article without an id, and with it. -/
def posted : List UInt8 :=
  ascii "\x7b\"title\":\"First\",\"bodyText\":\"\"\x7d"

def got : List UInt8 :=
  ascii "\x7b\"bodyText\":\"\",\"id\":13,\"title\":\"First\"\x7d"

def firstText : JsonText where
  encodeValue _ := got
  decodeValue bytes :=
    if bytes = got then some (toJSON first)
    else if bytes = posted then
      some (.object [("bodyText", .string ""), ("title", .string "First")])
    else none

def byDim (method : String) (pathInfo : List String) (body : List UInt8) : Request :=
  { method := method
    pathInfo := pathInfo
    credentials := some ("dim", "dim")
    body := body }

/-- The article is created. -/
def creation : Event :=
  .request (byDim "POST" ["admin", "articles"] posted)

def anonymousDelete : Request :=
  { byDim "DELETE" ["admin", "articles", "13"] [] with credentials := none }

def anonymousPost : Request :=
  { byDim "POST" ["admin/articles"] posted with credentials := none }

theorem anonymous_requests_leave_no_trace_delete :
    @articlesAfter readInteger dim firstText .byPieces
        [creation, .recount 20, .request anonymousDelete] =
      @articlesAfter readInteger dim firstText .byPieces [creation, .recount 20] ∧
    (@handle readInteger dim firstText .byPieces dump anonymousPost).1.content 13 =
      some ("First", "") := by
  have h := @anonymous_requests_leave_no_trace readInteger dim firstText .byPieces
  constructor
  · refine h.1 [creation, .recount 20, .request anonymousDelete] ?_
    intro r hr hverified p hp
    -- The first segment of both requests is `admin`.
    have hadmin : p = "admin" := by
      simp only [List.mem_cons, Event.request.injEq, List.not_mem_nil, or_false, creation,
        reduceCtorEq, false_or] at hr
      rcases hr with rfl | rfl
      · exact (Option.some.inj hp).symm
      · exact (Option.some.inj hp).symm
    rw [hadmin]
    decide
  · rw [h.2 dump anonymousPost rfl rfl]
    decide

theorem article_written_back_first :
    let now := @articlesAfter readInteger dim firstText .byPieces [creation]
    @handle readInteger dim firstText .byPieces now (byDim "PUT" ["admin", "articles"] got) =
      (now, .json unit) :=
  (@article_written_back readInteger dim firstText .byPieces (fun _ => rfl)
    (fun x y h => by cases h; rfl) [creation] "13" first (byDim "PUT" ["admin", "articles"] got)
    (by decide) (by decide) rfl (by decide) rfl).1 (by decide)

end Blog
end Etude
