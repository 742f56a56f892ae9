import Etude.Base.Printf
import Etude.Cat.Model
import Mathlib.Data.List.DropRight

/-!
# Model — from CSV to the text of a map

The program `put-kv-csv` writes the records of two fields of a CSV file as an expression of Scala.
The parser of CSV is a library and its records are the input here.
-/

namespace Etude
namespace PutKvCsv

open Base
open Cat (GeneralCategory isSpace)

abbrev Str :=
  List Char

abbrev Record :=
  List Str

inductive Flag
  | help | skipHeader
  deriving DecidableEq, Repr

def formatOutput : List Str → Str
  | [] => []
  | [s] => s
  | s :: list =>
    list.foldl (fun r x => r ++ ",\n  ".toList ++ x) ("  ".toList ++ s)

def wrapMap (s : Str) : Str :=
  "Map(\n".toList ++ s ++ "\n)".toList

section Fields

variable (generalCategory : Char → GeneralCategory)

/-- `T.strip`, on a text that `T.pack` leaves as it is. -/
def strip (s : Str) : Str :=
  (s.dropWhile (isSpace generalCategory)).rdropWhile (isSpace generalCategory)

/-- `putSingle`: the format's exception cannot happen, it has two strings for two arguments. -/
def putSingle : Record → Option Str
  | [k, v] =>
    uprintfs "\"%s\" -> \"%s\"".toList [strip generalCategory k, strip generalCategory v]
  | _ => none

def putAll (list : List Record) : List Str :=
  ((list.map (putSingle generalCategory)).filter fun x => x.isSome).map fun x => x.getD []

/-- `tail`, an exception on the empty list -/
def tail (list : List Record) : Option (List Record) :=
  match list with
  | [] => none
  | _ :: rest => some rest

/-- What `doWork` prints; `none` is an exception. -/
def doWork (args : List Flag) (csv : List Record) : Option Str := do
  let records ← if .skipHeader ∈ args then tail csv else some csv
  uprintfs (wrapMap (formatOutput (putAll generalCategory records))) []

end Fields

/-! ## Texts -/

def quoted (s : Str) : Str :=
  '\"' :: (s ++ ['\"'])

/-- The text of one pair. -/
def entry (p : Str × Str) : Str :=
  quoted p.1 ++ (" -> ".toList ++ quoted p.2)

theorem formatOutput_cons_cons (s t : Str) (list : List Str) :
    formatOutput (s :: t :: list) =
      "  ".toList ++ s ++ (t :: list).flatMap fun x => ",\n  ".toList ++ x := by
  have hfold : ∀ (list : List Str) (init : Str),
      list.foldl (fun r x => r ++ ",\n  ".toList ++ x) init =
        init ++ list.flatMap fun x => ",\n  ".toList ++ x := by
    intro list
    induction list with
    | nil =>
        intro init
        exact (List.append_nil init).symm
    | cons x list ih =>
        intro init
        rw [List.foldl_cons, ih, List.flatMap_cons]
        simp only [List.append_assoc]
  exact hfold (t :: list) ("  ".toList ++ s)

section Pairs

variable (generalCategory : Char → GeneralCategory)

theorem putSingle_pair (k v : Str) :
    putSingle generalCategory [k, v] =
      some (entry (strip generalCategory k, strip generalCategory v)) := by
  have hformat : "\"%s\" -> \"%s\"".toList =
      '\"' :: '%' :: 's' :: ("\" -> \"".toList ++ '%' :: 's' :: ['\"']) := rfl
  have harrow : "\" -> \"".toList = '\"' :: (" -> ".toList ++ ['\"']) := rfl
  have hlast : uprintfs ['\"'] [] = some ['\"'] := rfl
  rw [putSingle, hformat, uprintfs_cons (by decide), uprintfs_string, uprintfs_append (by decide),
    uprintfs_string, hlast, harrow]
  simp only [Option.map_some, entry, quoted, List.cons_append, List.append_assoc, List.nil_append]

/-- The texts of the records of two fields, in order. -/
theorem putAll_eq (list : List Record) :
    putAll generalCategory list = list.filterMap (putSingle generalCategory) := by
  induction list with
  | nil =>
      rfl
  | cons r list ih =>
      rw [putAll, List.map_cons] at *
      cases hr : putSingle generalCategory r with
      | none =>
          rw [List.filterMap_cons_none hr, ← ih, List.filter_cons_of_neg (by simp)]
      | some s =>
          rw [List.filterMap_cons_some hr, ← ih, List.filter_cons_of_pos (by rfl), List.map_cons]
          rfl

theorem putAll_pairs (ps : List (Str × Str)) :
    putAll generalCategory (ps.map fun p => [p.1, p.2]) =
      ps.map fun p => entry (strip generalCategory p.1, strip generalCategory p.2) := by
  rw [putAll_eq, List.filterMap_map]
  have hsingle : putSingle generalCategory ∘ (fun p : Str × Str => [p.1, p.2]) =
      some ∘ fun p => entry (strip generalCategory p.1, strip generalCategory p.2) := by
    funext p
    exact putSingle_pair generalCategory p.1 p.2
  rw [hsingle, List.filterMap_eq_map]

end Pairs

end PutKvCsv
end Etude
