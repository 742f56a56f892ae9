import Etude.Blog.Service

/-!
# Store — what the blog keeps

`Contents` says what the blog is for: a map from ids to articles that commands change one after the
other.  The table follows the commands of the requests that are let through.  An insertion gets its
id from the table's counter; the id lies above those of the articles that there are, but it may be
one that an article had which was deleted.
-/

namespace Etude
namespace Blog

open Base

/-! ## Commands -/

/-- A change of the articles; the id of an update or a deletion may be none at all. -/
inductive Command
  | create (id : ℤ) (c : String × String)
  | update (key : Option ℤ) (c : String × String)
  | delete (key : Option ℤ)
  deriving DecidableEq, Repr

abbrev Contents := ℤ → Option (String × String)

namespace Contents

def apply (s : Contents) : Command → Contents
  | .create id c => Function.update s id (some c)
  | .update key c => fun n => if key = some n then (s n).map fun _ => c else s n
  | .delete key => fun n => if key = some n then none else s n

/-- What commands make of no articles. -/
def after (commands : List Command) : Contents :=
  commands.foldl apply fun _ => none

end Contents

section Commands

variable [FromJSON ℤ] (server : Server) (text : JsonText) (router : Router)

/-- The article in a body, with what the columns keep of it. -/
def keptArticle (body : List UInt8) : Option (ℤ × (String × String)) :=
  (decodeArticle text body).bind fun article => article.bind fun a =>
    (server.keeps (a.title, a.bodyText)).map fun c => (a.id, c)

/-- The request is let through. -/
def Admitted (r : Request) : Prop :=
  protectedResources r = true → verified server r = true

instance (r : Request) : Decidable (Admitted server r) :=
  inferInstanceAs (Decidable (_ → _))

/-- What a route does to the articles. -/
def Route.command (articles : Articles) (body : List UInt8) : Route → Option Command
  | .list | .view _ => none
  | .create =>
      if articles.next ≤ maxId then
        (keptArticle server text body).map fun a => .create articles.next a.2
      else
        none
  | .update => do
      let a ← keptArticle server text body
      let key ← server.writeId (toString a.1)
      return .update key a.2
  | .delete id => (server.writeId id).map Command.delete

def Event.command (articles : Articles) : Event → Option Command
  | .request r =>
      if Admitted server r then
        (r.route router).bind (Route.command server text articles r.body)
      else
        none
  | .recount _ => none

end Commands

/-! ## The statements on the contents -/

section Statements

variable (server : Server) (articles : Articles)

theorem whereId_eq_true {key : Option ℤ} {n : ℤ} : whereId key n = true ↔ key = some n := by
  simp [whereId]

theorem content_insert (c : String × String) :
    (articles.insert c).content = Contents.apply articles.content (.create articles.next c) :=
  AutoTable.content_insert articles c

theorem content_update (key : Option ℤ) (c : String × String) :
    (articles.update (whereId key) c).content =
      Contents.apply articles.content (.update key c) := by
  funext n
  simp only [Contents.apply, AutoTable.content_update, whereId_eq_true]

theorem content_delete (key : Option ℤ) :
    (articles.delete (whereId key)).content = Contents.apply articles.content (.delete key) := by
  funext n
  simp only [Contents.apply, AutoTable.content_delete, whereId_eq_true]

/-! ## What is read -/

theorem findArticle_eq (id : String) :
    findArticle server articles id =
      (server.idOf id).bind fun n => (articles.content n).map fun c => ofRow (n, c) := by
  rw [findArticle, articles.select_key (fun n => whereId_eq_true)]
  cases server.idOf id with
  | none =>
      rfl
  | some n =>
      rw [Option.bind_some, Option.bind_some]
      cases articles.content n <;> rfl

end Statements

section Requests

variable [FromJSON ℤ] (server : Server) (text : JsonText) (router : Router)

theorem handle_of_not_admitted {articles : Articles} {r : Request} (h : ¬ Admitted server r) :
    handle server text router articles r = (articles, .unauthorized) := by
  have hrefused : (protectedResources r && !verified server r) = true := by
    simpa [Admitted] using h
  rw [handle, if_pos hrefused]

theorem handle_of_admitted {articles : Articles} {r : Request} (h : Admitted server r) :
    handle server text router articles r =
      match r.route router with
      | none => (articles, .notFound)
      | some route => action server text articles r.body route := by
  have hpass : ¬ (protectedResources r && !verified server r) = true := by
    simpa [Admitted] using h
  rw [handle]
  exact if_neg hpass

/-- What a command, if there is one, makes of contents. -/
def Contents.applyOption (s : Contents) (command : Option Command) : Contents :=
  command.toList.foldl Contents.apply s

/-- A statement that writes an article does what the command does that is made of it. -/
theorem content_written (articles : Articles) (body : List UInt8)
    {statement : Option Article → Option Articles}
    {command : ℤ × (String × String) → Option Command}
    (hnone : statement none = some articles)
    (hsome : ∀ a, (written articles (statement (some a))).1.content =
      Contents.applyOption articles.content
        (((server.keeps (a.title, a.bodyText)).map fun c => (a.id, c)).bind command)) :
    (written articles ((decodeArticle text body).bind statement)).1.content =
      Contents.applyOption articles.content ((keptArticle server text body).bind command) := by
  rw [keptArticle]
  cases decodeArticle text body with
  | none =>
      rfl
  | some article =>
      cases article with
      | none =>
          rw [Option.bind_some, hnone]
          rfl
      | some a =>
          exact hsome a

theorem content_create (articles : Articles) (body : List UInt8) :
    (action server text articles body .create).1.content =
      Contents.applyOption articles.content (Route.command server text articles body .create) := by
  by_cases hnext : articles.next ≤ maxId
  · simp only [Route.command, if_pos hnext, Option.map_eq_bind]
    refine content_written server text articles body rfl ?_
    intro a
    simp only [insertArticle, if_pos hnext]
    cases server.keeps (a.title, a.bodyText) with
    | none => rfl
    | some c => exact content_insert articles c
  · -- The ids have run out, and the statement is refused.
    simp only [Route.command, if_neg hnext, action]
    have hrefused : ∀ article, insertArticle server articles article = none ∨
        insertArticle server articles article = some articles := by
      intro article
      cases article with
      | none => exact Or.inr rfl
      | some a => exact Or.inl (if_neg hnext)
    cases decodeArticle text body with
    | none =>
        rfl
    | some article =>
        rw [Option.bind_some]
        rcases hrefused article with h | h
        · rw [h]
          rfl
        · rw [h]
          rfl

theorem content_updateArticle (articles : Articles) (body : List UInt8) :
    (action server text articles body .update).1.content =
      Contents.applyOption articles.content (Route.command server text articles body .update) := by
  refine content_written server text articles body rfl ?_
  intro a
  simp only [updateArticle]
  cases server.keeps (a.title, a.bodyText) with
  | none =>
      cases server.writeId (toString a.id) <;> rfl
  | some c =>
      simp only [Option.map_some, Option.bind_some]
      cases server.writeId (toString a.id) with
      | none => rfl
      | some key => exact content_update articles key c

theorem content_deleteArticle (articles : Articles) (id : String) (body : List UInt8) :
    (action server text articles body (.delete id)).1.content =
      Contents.applyOption articles.content
        (Route.command server text articles body (.delete id)) := by
  simp only [action, deleteArticle, Route.command]
  cases server.writeId id with
  | none => rfl
  | some key => exact content_delete articles key

/-- An event does to the table what its command does to the contents. -/
theorem content_step (articles : Articles) (e : Event) :
    (step server text router articles e).content =
      Contents.applyOption articles.content (e.command server text router articles) := by
  cases e with
  | recount next =>
      exact AutoTable.content_recount articles next
  | request r =>
      simp only [step, Event.command]
      by_cases hr : Admitted server r
      · rw [handle_of_admitted server text router hr, if_pos hr]
        cases r.route router with
        | none =>
            rfl
        | some route =>
            cases route with
            | list | view _ => rfl
            | delete id => exact content_deleteArticle server text articles id r.body
            | create => exact content_create server text articles r.body
            | update => exact content_updateArticle server text articles r.body
      · rw [handle_of_not_admitted server text router hr, if_neg hr]
        rfl

/-! ## Runs -/

theorem articlesAfter_append (events : List Event) (e : Event) :
    articlesAfter server text router (events ++ [e]) =
      step server text router (articlesAfter server text router events) e := by
  simp [articlesAfter]

end Requests

end Blog
end Etude
