import Etude.Base.Champion
import Etude.Base.Read
import Etude.Cat.Model

/-!
# FindOldest — the oldest record of a CSV file

`age` has no equation for a record of three fields or more and reads the second of two fields as a
number.  As soon as there are two records to compare, the age of every record is needed.
-/

namespace Etude
namespace HelloCsv

open Base
open Cat (GeneralCategory isSpace)

abbrev Str :=
  List Char

abbrev Record :=
  List Str

inductive Exception
  | nonExhaustivePatterns
  | noParse
  | emptyList
  deriving DecidableEq, Repr

inductive Flag
  | help | skipHeader
  deriving DecidableEq, Repr

section Ages

variable (generalCategory : Char → GeneralCategory)

/-- `read s :: Int`, where a number out of range is taken modulo `2 ^ 64` -/
def toInt (s : Str) : Except Exception Int64 :=
  match Read.readInt (isSpace generalCategory) s with
  | some i => .ok (Int64.ofInt i)
  | none => .error .noParse

def age : Record → Except Exception Int64
  | [] => .ok 0
  | [_, b] => toInt generalCategory b
  | [_] => .ok 0
  | _ => .error .nonExhaustivePatterns

/-- `if age x > age a then x else a` -/
def older (a x : Record) : Except Exception Record := do
  let ageX ← age generalCategory x
  let ageA ← age generalCategory a
  return if ageX > ageA then x else a

/-- `foldl1` on a list that is not empty; the ages are looked at only where two are compared. -/
def findOldest : List Record → Except Exception Record
  | [] => .ok []
  | a :: xs => xs.foldlM (older generalCategory) a

def tail : List Record → Except Exception (List Record)
  | [] => .error .emptyList
  | _ :: csv => .ok csv

/-- What `doWork` prints; `findOldest` looks at its list at once. -/
def doWork (args : List Flag) (csv : List Record) : Except Exception Record := do
  let xs ← if .skipHeader ∈ args then tail csv else .ok csv
  findOldest generalCategory xs

end Ages

section Oldest

variable {generalCategory : Char → GeneralCategory}

/-! ## Ages -/

/-- Two fields at most, and the second one is a number if there are two. -/
def HasAge (generalCategory : Char → GeneralCategory) (r : Record) : Prop :=
  r.length < 2 ∨
    ∃ a b, r = [a, b] ∧ (Read.readInt (isSpace generalCategory) b).isSome = true

theorem age_eq_ok_iff (r : Record) :
    (∃ n, age generalCategory r = .ok n) ↔ HasAge generalCategory r := by
  match r with
  | [] =>
      exact iff_of_true ⟨0, rfl⟩ (Or.inl (by decide))
  | [a] =>
      exact iff_of_true ⟨0, rfl⟩ (Or.inl (Nat.lt_succ_self 1))
  | [a, b] =>
      cases hread : Read.readInt (isSpace generalCategory) b with
      | none =>
          refine iff_of_false ?_ ?_
          · rintro ⟨n, hn⟩
            rw [age, toInt, hread] at hn
            cases hn
          · rintro (hlength | ⟨a', b', heq, hsome⟩)
            · exact absurd hlength (by simp)
            · cases heq
              rw [hread] at hsome
              cases hsome
      | some n =>
          refine iff_of_true ⟨Int64.ofInt n, ?_⟩ (Or.inr ⟨a, b, rfl, by rw [hread]; rfl⟩)
          rw [age, toInt, hread]
  | a :: b :: c :: rest =>
      refine iff_of_false ?_ ?_
      · rintro ⟨n, hn⟩
        cases hn
      · rintro (hlength | ⟨a', b', heq, -⟩)
        · simp only [List.length_cons] at hlength
          omega
        · cases heq

/-! ## The oldest record -/

theorem older_eq_challenge : older generalCategory = challenge (age generalCategory) :=
  rfl

theorem findOldest_eq_ok_iff (xs : List Record) :
    (∃ r, findOldest generalCategory xs = .ok r) ↔
      xs.length ≤ 1 ∨ ∀ r ∈ xs, HasAge generalCategory r := by
  match xs with
  | [] =>
      exact iff_of_true ⟨[], rfl⟩ (Or.inl (Nat.zero_le 1))
  | [a] =>
      exact iff_of_true ⟨a, rfl⟩ (Or.inl (Nat.le_refl 1))
  | a :: b :: xs =>
      rw [findOldest, older_eq_challenge]
      constructor
      · rintro ⟨r, hr⟩
        exact Or.inr fun x hx => (age_eq_ok_iff x).mp
          (keys_of_foldlM_challenge (List.cons_ne_nil b xs) hr x hx)
      · rintro (hlength | hages)
        · simp only [List.length_cons] at hlength
          omega
        · rcases exists_foldlM_challenge (b :: xs) fun x hx => (age_eq_ok_iff x).mpr (hages x hx)
            with ⟨r, i, hr, -⟩
          exact ⟨r, hr⟩

/-- `findOldest` returns a record than which no other is older and no earlier one as old. -/
def FindsOldest (generalCategory : Char → GeneralCategory) (xs : List Record) : Prop :=
  ∃ (r : Record) (i : ℕ), findOldest generalCategory xs = .ok r ∧ xs[i]? = some r ∧
    ∀ j y, j ≠ i → xs[j]? = some y →
      ∃ b c : Int64, age generalCategory r = .ok b ∧ age generalCategory y = .ok c ∧ c ≤ b ∧
        (j < i → c < b)

/-- The oldest record is found exactly if all records have an age, or if there is only one. -/
theorem findsOldest_iff (generalCategory : Char → GeneralCategory) {xs : List Record}
    (hne : xs ≠ []) :
    FindsOldest generalCategory xs ↔ xs.length = 1 ∨ ∀ r ∈ xs, HasAge generalCategory r := by
  cases xs with
  | nil =>
      exact absurd rfl hne
  | cons a xs =>
      rw [FindsOldest, findOldest, older_eq_challenge]
      constructor
      · rintro ⟨r, i, hr, -⟩
        by_cases hnil : xs = []
        · exact Or.inl (by rw [hnil]; rfl)
        · right
          intro x hx
          exact (age_eq_ok_iff x).mp (keys_of_foldlM_challenge hnil hr x hx)
      · rintro (hlength | hages)
        · obtain rfl : xs = [] := List.length_eq_zero_iff.mp (Nat.succ.inj hlength)
          exact ⟨a, 0, rfl, firstGreatest_singleton (age generalCategory) a⟩
        · exact exists_foldlM_challenge xs fun x hx => (age_eq_ok_iff x).mpr (hages x hx)

/-- A record is printed, unless the header of an empty file is to be skipped or one of two or more
records has no age. -/
theorem doWork_eq_ok_iff (args : List Flag) (csv : List Record) :
    (∃ r, doWork generalCategory args csv = .ok r) ↔
      (.skipHeader ∈ args → csv ≠ []) ∧
        ((csv.drop (if .skipHeader ∈ args then 1 else 0)).length ≤ 1 ∨
          ∀ r ∈ csv.drop (if .skipHeader ∈ args then 1 else 0), HasAge generalCategory r) := by
  unfold doWork
  split_ifs with hskip
  · cases csv with
    | nil =>
        refine iff_of_false ?_ fun h => h.1 hskip rfl
        rintro ⟨r, hr⟩
        cases hr
    | cons header csv =>
        rw [and_iff_right fun _ => List.cons_ne_nil header csv, List.drop_one, List.tail_cons,
          ← findOldest_eq_ok_iff]
        rfl
  · rw [and_iff_right fun h => absurd h hskip, List.drop_zero, ← findOldest_eq_ok_iff]
    rfl

end Oldest

/-- The record of an empty line has the age zero. -/
theorem findsOldest_empty_line :
    [[['a'], ['7']], [[]]] ≠ ([] : List Record) ∧
      FindsOldest Cat.asciiCategory [[['a'], ['7']], [[]]] := by
  have hne : [[['a'], ['7']], [[]]] ≠ ([] : List Record) := by simp
  refine ⟨hne, (findsOldest_iff Cat.asciiCategory hne).mpr (Or.inr ?_)⟩
  intro r hr
  rw [← age_eq_ok_iff]
  rcases List.mem_cons.mp hr with rfl | hr
  · exact ⟨7, by decide⟩
  · rw [List.mem_singleton.mp hr]
    exact ⟨0, rfl⟩

/-- A third field is too much. -/
theorem not_findsOldest_third_field :
    ¬ FindsOldest Cat.asciiCategory [[['a'], ['7']], [['b'], ['8'], ['c']]] := by
  rintro ⟨r, i, hr, -⟩
  cases hr

end HelloCsv
end Etude
