import Etude.Base.AutoTable
import Etude.Blog.Domain
import Etude.Blog.Router

/-!
# Service — the requests of the blog

The model of `Main.hs`, `Views.hs`, `Db.hs` and `Auth.hs`, for requests that no file of `static`
answers.  What the SQL server makes of the texts that it is given is a parameter: an id is passed to
it as a text, and the columns of an article may not keep every text.
-/

namespace Etude
namespace Blog

open Base

/-! ## The database -/

/-- `idOf` is the integer that a text equals in `id=?`, and `writeId` the same for a statement that
writes, which may be refused for it; `keeps` is what the two columns keep of a title and a text, if
they take them, and `passwords` the passwords of the rows of `user` with a login. -/
structure Server where
  idOf : String → Option ℤ
  writeId : String → Option (Option ℤ)
  keeps : String × String → Option (String × String)
  passwords : String → List String
  md5s : String → String

/-- The table `article`: titles and texts by id. -/
abbrev Articles := AutoTable (String × String)

/-- The table of `dump.sql`. -/
def dump : Articles :=
  AutoTable.empty 13

/-- The largest value of the column `id`. -/
def maxId : ℤ :=
  2147483647

def ofRow (row : ℤ × (String × String)) : Article :=
  { id := row.1
    title := row.2.1
    bodyText := row.2.2 }

section Statements

variable (server : Server) (articles : Articles)

/-- `WHERE id=?`, for the integer that the text equals. -/
def whereId (key : Option ℤ) : ℤ → Bool :=
  fun n => key == some n

def listArticles : List Article :=
  articles.rows.reverse.map ofRow

def findArticle (id : String) : Option Article :=
  ((articles.select (whereId (server.idOf id))).head?).map ofRow

/-- `none` if the server refuses the statement, which then has no effect. -/
def insertArticle : Option Article → Option Articles
  -- `insertArticle pool Nothing = return ()`
  | none => some articles
  | some article =>
      if articles.next ≤ maxId then
        (server.keeps (article.title, article.bodyText)).map articles.insert
      else
        none

def updateArticle : Option Article → Option Articles
  | none => some articles
  | some article => do
      let key ← server.writeId (toString article.id)
      let kept ← server.keeps (article.title, article.bodyText)
      return articles.update (whereId key) kept

def deleteArticle (id : String) : Option Articles :=
  (server.writeId id).map fun key => articles.delete (whereId key)

end Statements

/-! ## Authentication -/

def findUserByLogin (server : Server) (login : String) : Option String :=
  match server.passwords login with
  | [pwd] => some pwd
  -- `password _ = Nothing`: no row, and also several.
  | _ => none

def verifyCredentials (server : Server) (user password : String) : Bool :=
  match findUserByLogin server user with
  | none => false
  | some p => p = server.md5s password

/-! ## Requests -/

structure Request where
  method : String
  pathInfo : List String
  credentials : Option (String × String)
  body : List UInt8
  deriving DecidableEq, Repr

def Request.route (router : Router) (r : Request) : Option Route :=
  router.find r.method (pathOf r.pathInfo)

def protectedResources (request : Request) : Bool :=
  match request.pathInfo with
  | p :: _ => p = "admin"
  | [] => false

inductive Answer
  | json (v : Value)
  | unauthorized
  | notFound
  | failed

/-- `json ()` -/
def unit : Value :=
  .array []

def viewArticle : Option Article → Value
  | none => unit
  | some article => toJSON article

section Service

variable [FromJSON ℤ] (server : Server) (text : JsonText) (router : Router)

def verified (r : Request) : Bool :=
  match r.credentials with
  | none => false
  | some (user, password) => verifyCredentials server user password

/-- A change of the table, or the failure of the request. -/
def written (articles : Articles) : Option Articles → Articles × Answer
  | none => (articles, .failed)
  | some changed => (changed, .json unit)

/-- The action of a route. -/
def action (articles : Articles) (body : List UInt8) : Route → Articles × Answer
  | .list => (articles, .json (.array ((listArticles articles).map toJSON)))
  | .view id => (articles, .json (viewArticle (findArticle server articles id)))
  | .create =>
      written articles ((decodeArticle text body).bind (insertArticle server articles))
  | .update =>
      written articles ((decodeArticle text body).bind (updateArticle server articles))
  | .delete id => written articles (deleteArticle server articles id)

def handle (articles : Articles) (r : Request) : Articles × Answer :=
  if protectedResources r && !verified server r then
    (articles, .unauthorized)
  else
    match r.route router with
    | none => (articles, .notFound)
    | some route => action server text articles r.body route

inductive Event
  | request (r : Request)
  /-- The server sets the counter of ids: it computes it when it is started, and numbers of
  insertions that were rolled back are lost. -/
  | recount (next : ℤ)
  deriving DecidableEq, Repr

def step (articles : Articles) : Event → Articles
  | .request r => (handle server text router articles r).1
  | .recount next => articles.recount next

/-- The table after some events. -/
def articlesAfter (events : List Event) : Articles :=
  events.foldl (step server text router) dump

end Service

end Blog
end Etude
