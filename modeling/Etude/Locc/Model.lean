import Etude.Base.JavaString
import Etude.Base.Tally
import Mathlib.Data.List.Sort

/-!
# Model — lines of code changed

`calculate` of the counter of changed lines: lines of three fields separated by commas are summed
by path in a map, and the map is printed by row or in total.
-/

namespace Etude
namespace Locc

open Base
open Base.JavaString (Digits)

/-- A path with the lines added and deleted, a `(String, (Long, Long))`. -/
abbrev Update :=
  JavaString × (Int64 × Int64)

/-- A `Map[String, (Long, Long)]` -/
abbrev Updates :=
  Tally JavaString (Int64 × Int64)

/-- The order in which a map is traversed, which its hash table decides. -/
structure Iteration where
  toSeq : Updates → List Update
  perm : ∀ m, (toSeq m).Perm (m.entries.map fun e => (e.1, e.2))

/-- `map` on a map: a new map, filled in the order of the traversal. -/
def Iteration.map (it : Iteration) (f : Update → Update) (m : Updates) : Updates :=
  Tally.ofList ((it.toSeq m).map f)

/-- The order of the entries themselves. -/
def Iteration.inPlace : Iteration where
  toSeq m := m.entries.map fun e => (e.1, e.2)
  perm _ := List.Perm.refl _

def add (l r : Int64 × Int64) : Int64 × Int64 :=
  (l.1 + r.1, l.2 + r.2)

def sum (l : Updates) (r : Update) : Updates :=
  l.insert r.1 (add ((l.lookup r.1).getD (0, 0)) r.2)

/-- The order of `sortBy(_._1)`. -/
def PathLE (x y : Update) : Prop :=
  JavaString.compareTo x.1 y.1 ≤ 0

instance : DecidableRel PathLE :=
  fun x y => inferInstanceAs (Decidable (JavaString.compareTo x.1 y.1 ≤ 0))

/-- What goes to the standard output, its texts apart: the quotient in the summary is a
floating-point number. -/
inductive Report
  | perFile (rows : List Update)
  | summary (total : Int64 × Int64) (net : Int64)
  deriving DecidableEq

structure Output where
  err : List Update
  out : Report
  deriving DecidableEq

/-- The fields of a line, already known to be three; `none` is a `NumberFormatException`. -/
def update (digits : Digits) (x : List JavaString) : Option Update := do
  let added ← JavaString.parseLong digits (x.getD 0 [])
  let deleted ← JavaString.parseLong digits (x.getD 1 [])
  return (x.getD 2 [], (added, deleted))

def comma : UInt16 :=
  44

/-- The updates that the map is folded from. -/
def parsed (digits : Digits) (text : JavaString) : Option (List Update) :=
  (((JavaString.readLines false text).map (JavaString.split comma)).filter
    fun x => x.length = 3).mapM (update digits)

/-- The map of all updates, after the two traversals that keep every entry. -/
def merged (it : Iteration) (us : List Update) : Updates :=
  it.map (fun x => (x.1, (x.2.1, x.2.2))) (us.foldl sum ∅)

def rows (it : Iteration) (us : List Update) : List Update :=
  (it.toSeq (it.map (fun x => x) (merged it us))).insertionSort PathLE

def total (updates : List Update) : Int64 × Int64 :=
  (updates.map fun x => x.2).foldl (fun l r => (l.1 + r.1, l.2 + r.2)) (0, 0)

def calculate (digits : Digits) (it : Iteration) (option : String) (text : JavaString) :
    Option Output := do
  let us ← parsed digits text
  let updates := rows it us
  let t := total updates
  return {
    err := (it.toSeq (merged it us)).filter fun x => x.2.1 < x.2.2
    out := if option = "per-file" then .perFile updates else .summary t (t.1 - t.2) }

end Locc
end Etude
