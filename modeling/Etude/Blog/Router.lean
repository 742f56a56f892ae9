import Etude.Base.Split

/-!
# Router — which route of the blog a request finds

The routes of `Main.hs`.  Matching a request with them is the library's, and so a parameter.  It
looks at the path as a whole, the segments of the request joined again: a slash that a segment
brings with it (`/admin%2Farticles`) is one like any other there.
-/

namespace Etude
namespace Blog

open Base

inductive Route
  | list
  | view (id : String)
  | create
  | update
  | delete (id : String)
  deriving DecidableEq, Repr

/-- The routes that change articles. -/
def Route.changes : Route → Bool
  | .list | .view _ => false
  | .create | .update | .delete _ => true

/-- The segments of a request as a path. -/
def pathOf (pathInfo : List String) : List Char :=
  '/' :: ['/'].intercalate (pathInfo.map String.toList)

/-- What stands between the slashes of a path. -/
def pieces (path : List Char) : List String :=
  ((path.splitOn '/').filter fun piece => piece ≠ []).map String.ofList

/-- The route for a method and a path.  Slashes may be doubled, but a route that changes articles is
found only below `/admin`. -/
structure Router where
  find : String → List Char → Option Route
  find_create : find "POST" "/admin/articles".toList = some .create
  find_changes : ∀ method path route, find method path = some route → route.changes = true →
    (pieces path).head? = some "admin"

/-- The routes by the pieces of their paths. -/
def routeOf (method : String) (path : List String) : Option Route :=
  match method, path with
  | "GET", ["articles"] => some .list
  | "GET", ["articles", id] => some (.view id)
  | "POST", ["admin", "articles"] => some .create
  | "PUT", ["admin", "articles"] => some .update
  | "DELETE", ["admin", "articles", id] => some (.delete id)
  | _, _ => none

theorem head_of_routeOf {method : String} {path : List String} {route : Route}
    (h : routeOf method path = some route) (hchanges : route.changes = true) :
    path.head? = some "admin" := by
  unfold routeOf at h
  split at h
  · cases h
    cases hchanges
  · cases h
    cases hchanges
  · rfl
  · rfl
  · rfl
  · cases h

/-- A router that takes doubled slashes for one. -/
def Router.byPieces : Router where
  find method path := routeOf method (pieces path)
  find_create := by decide
  find_changes _ _ _ h hchanges := head_of_routeOf h hchanges

/-! ## The first segment -/

/-- The path goes on with a slash, if at all. -/
theorem pathOf_cons (p : String) (pathInfo : List String) :
    pathOf (p :: pathInfo) = '/' :: p.toList ∨
      ∃ tail, pathOf (p :: pathInfo) = '/' :: (p.toList ++ '/' :: tail) := by
  cases pathInfo with
  | nil =>
      left
      simp [pathOf]
  | cons q pathInfo =>
      right
      exact ⟨['/'].intercalate ((q :: pathInfo).map String.toList), by simp [pathOf]⟩

/-- A segment without slashes is the first piece of the path. -/
theorem head_pieces_pathOf {p : String} (hp : p ≠ "") (hslash : '/' ∉ p.toList)
    (pathInfo : List String) : (pieces (pathOf (p :: pathInfo))).head? = some p := by
  have hne : p.toList ≠ [] := by
    simpa using hp
  have hsplit : ∃ rest, (pathOf (p :: pathInfo)).splitOn '/' = [] :: p.toList :: rest := by
    rcases pathOf_cons p pathInfo with h | ⟨tail, h⟩
    · refine ⟨[], ?_⟩
      rw [h, splitOn_cons_self, List.splitOn_eq_singleton hslash]
    · refine ⟨tail.splitOn '/', ?_⟩
      rw [h, splitOn_cons_self, splitOn_append hslash (splitOn_cons_self tail), List.append_nil]
  rcases hsplit with ⟨rest, hrest⟩
  rw [pieces, hrest, List.filter_cons_of_neg (by simp), List.filter_cons_of_pos (by simp [hne])]
  simp

theorem pieces_pathOf_nil : pieces (pathOf []) = [] := by
  decide

end Blog
end Etude
