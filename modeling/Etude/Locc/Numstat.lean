import Etude.Locc.Totals
import Mathlib.Algebra.Order.BigOperators.Group.List

/-!
# Numstat — the records of `git log --numstat`

The usage text joins the three fields of a record with commas and quotes nothing.  A path with a
comma gives a line of more fields, or one whose last fields are empty.
-/

namespace Etude
namespace Locc

open Base
open Base.JavaString (Digits)

/-- White space of ASCII. -/
def isSpace (c : UInt16) : Bool :=
  c = 32 || (9 ≤ c && c ≤ 13)

/-- A record of changed lines; the path has no white space, where `awk` would break it. -/
structure Numstat where
  added : ℕ
  deleted : ℕ
  path : JavaString
  nonempty : path ≠ []
  solid : ∀ c ∈ path, isSpace c = false

namespace Numstat

/-- `awk '{print $1 "," $2 "," $3}'` -/
def line (r : Numstat) : JavaString :=
  JavaString.decimal r.added ++ comma :: (JavaString.decimal r.deleted ++ comma :: r.path)

def rendered (rs : List Numstat) : JavaString :=
  rs.flatMap fun r => r.line ++ [10]

/-- The update that a record is meant to be. -/
def update (r : Numstat) : Update :=
  (r.path, (Int64.ofNat r.added, Int64.ofNat r.deleted))

/-! ## Lines -/

theorem notMem_decimal {c : UInt16} (h : c.toNat < 48) (n : ℕ) : c ∉ JavaString.decimal n := by
  intro hc
  have hrange := JavaString.toNat_of_mem_decimal hc
  omega

theorem notMem_line {c : UInt16} (hspace : isSpace c = true) (hdigit : c.toNat < 48)
    (hcomma : c ≠ comma) (r : Numstat) : c ∉ r.line := by
  have hpath : c ∉ r.path := by
    intro hc
    rw [r.solid c hc] at hspace
    cases hspace
  simp only [line, List.mem_append, List.mem_cons, not_or]
  exact ⟨notMem_decimal hdigit r.added, hcomma, notMem_decimal hdigit r.deleted, hcomma, hpath⟩

theorem readLines_rendered (rs : List Numstat) :
    JavaString.readLines false (rendered rs) = rs.map line := by
  have hlines : rendered rs = (rs.map line).flatMap fun l => l ++ [10] := by
    rw [List.flatMap_map]
    rfl
  rw [hlines, JavaString.readLines_flatMap]
  intro l hl
  rcases List.mem_map.mp hl with ⟨r, -, rfl⟩
  exact ⟨notMem_line (by decide) (by decide) (by decide) r,
    notMem_line (by decide) (by decide) (by decide) r⟩

theorem reads_line (digits : Digits) {r : Numstat} (hpath : comma ∉ r.path)
    (hadded : r.added < 9223372036854775808) (hdeleted : r.deleted < 9223372036854775808) :
    Reads digits r.line r.update := by
  have hparse : ∀ n : ℕ, n < 9223372036854775808 →
      JavaString.parseLong digits (JavaString.decimal n) = some (Int64.ofNat n) := by
    intro n hn
    rw [JavaString.parseLong_decimal, if_pos hn]
  exact reads_of_fields (u := r.update) (notMem_decimal (by decide) r.added)
    (notMem_decimal (by decide) r.deleted) hpath r.nonempty (hparse r.added hadded)
    (hparse r.deleted hdeleted)

/-! ## Sums -/

theorem sum_updates (rs : List Numstat) :
    ((rs.map update).map Prod.snd).sum =
      (Int64.ofNat (rs.map added).sum, Int64.ofNat (rs.map deleted).sum) := by
  induction rs with
  | nil =>
      rfl
  | cons r rs ih =>
      calc
        (((r :: rs).map update).map Prod.snd).sum
            = (Int64.ofNat r.added, Int64.ofNat r.deleted) +
                ((rs.map update).map Prod.snd).sum := by
              rw [List.map_cons, List.map_cons, List.sum_cons]
              rfl
        _ = (Int64.ofNat r.added + Int64.ofNat (rs.map added).sum,
              Int64.ofNat r.deleted + Int64.ofNat (rs.map deleted).sum) := by
              rw [ih]
              rfl
        _ = (Int64.ofNat ((r :: rs).map added).sum, Int64.ofNat ((r :: rs).map deleted).sum) := by
              rw [List.map_cons, List.map_cons, List.sum_cons, List.sum_cons, Int64.ofNat_add,
                Int64.ofNat_add]

theorem amount_updates (p : JavaString) (rs : List Numstat) :
    Tally.amount p (rs.map update) =
      (Int64.ofNat ((rs.filter fun r => r.path = p).map added).sum,
        Int64.ofNat ((rs.filter fun r => r.path = p).map deleted).sum) := by
  rw [Tally.amount, List.filter_map, sum_updates]
  rfl

theorem sum_filter_le (f : Numstat → ℕ) (p : JavaString) (rs : List Numstat) :
    ((rs.filter fun r => r.path = p).map f).sum ≤ (rs.map f).sum :=
  (List.filter_sublist.map f).sum_le_sum fun _ _ => Nat.zero_le _

end Numstat

/-! ## Nothing is dropped -/

theorem update_fst {digits : Digits} {x : List JavaString} {u : Update}
    (h : Locc.update digits x = some u) : u.1 = x.getD 2 [] := by
  rw [Locc.update] at h
  cases hadded : JavaString.parseLong digits (x.getD 0 []) with
  | none =>
      rw [hadded] at h
      cases h
  | some a =>
      cases hdeleted : JavaString.parseLong digits (x.getD 1 []) with
      | none =>
          rw [hadded, hdeleted] at h
          cases h
      | some d =>
          rw [hadded, hdeleted] at h
          cases h
          rfl

/-- A path that comes out of a line has no comma. -/
theorem comma_notMem_of_parsed {digits : Digits} {text : JavaString} {us : List Update}
    (h : parsed digits text = some us) {p : JavaString} (hp : p ∈ us.map Prod.fst) :
    comma ∉ p := by
  rcases List.mem_map.mp hp with ⟨u, hu, rfl⟩
  rcases exists_of_mem_mapM h hu with ⟨x, hx, hupdate⟩
  rcases List.mem_filter.mp hx with ⟨hsplit, hlength⟩
  rcases List.mem_map.mp hsplit with ⟨l, -, rfl⟩
  rcases List.length_eq_three.mp (of_decide_eq_true hlength) with ⟨added, deleted, path, hthree⟩
  have hpart : path ∈ JavaString.split comma l := by
    rw [hthree]
    exact List.mem_of_getLast? rfl
  rw [update_fst hupdate, hthree]
  exact JavaString.notMem_of_mem_split hpart

/-- The rows of a run are those of its updates. -/
theorem rows_of_calculate {digits : Digits} {it : Iteration} {text : JavaString}
    {err updates : List Update}
    (h : calculate digits it "per-file" text = some { err := err, out := .perFile updates }) :
    ∃ us, parsed digits text = some us ∧ updates = rows it us := by
  rw [calculate] at h
  cases hus : parsed digits text with
  | none =>
      rw [hus] at h
      cases h
  | some us =>
      rw [hus] at h
      cases h
      exact ⟨us, rfl, rfl⟩

/-- The totals are the sums over all records, and every path has a row with its sums. -/
def NothingDropped (digits : Digits) (it : Iteration) (rs : List Numstat) : Prop :=
  ∃ updates t err err',
    calculate digits it "per-file" (Numstat.rendered rs) =
        some { err := err, out := .perFile updates } ∧
      calculate digits it "summary" (Numstat.rendered rs) =
        some { err := err', out := .summary t (t.1 - t.2) } ∧
      t.1.toInt = (rs.map Numstat.added).sum ∧ t.2.toInt = (rs.map Numstat.deleted).sum ∧
      ∀ r ∈ rs, ∃ x ∈ updates, x.1 = r.path ∧
        x.2.1.toInt = ((rs.filter fun s => s.path = r.path).map Numstat.added).sum ∧
        x.2.2.toInt = ((rs.filter fun s => s.path = r.path).map Numstat.deleted).sum

theorem reads_rendered (digits : Digits) {rs : List Numstat} (hpath : ∀ r ∈ rs, comma ∉ r.path)
    (hadded : (rs.map Numstat.added).sum < 9223372036854775808)
    (hdeleted : (rs.map Numstat.deleted).sum < 9223372036854775808) :
    List.Forall₂ (Reads digits) (JavaString.readLines false (Numstat.rendered rs))
      (rs.map Numstat.update) := by
  rw [Numstat.readLines_rendered, List.forall₂_map_left_iff, List.forall₂_map_right_iff,
    List.forall₂_same]
  intro r hr
  have ha := List.single_le_sum (fun _ _ => Nat.zero_le _) _
    (List.mem_map_of_mem (f := Numstat.added) hr)
  have hd := List.single_le_sum (fun _ _ => Nat.zero_le _) _
    (List.mem_map_of_mem (f := Numstat.deleted) hr)
  exact Numstat.reads_line digits (hpath r hr) (by omega) (by omega)

/-- Without commas and overflow the rows and totals are those of the records. -/
theorem nothingDropped_of_no_comma (digits : Digits) (it : Iteration) {rs : List Numstat}
    (hpath : ∀ r ∈ rs, comma ∉ r.path)
    (hadded : (rs.map Numstat.added).sum < 9223372036854775808)
    (hdeleted : (rs.map Numstat.deleted).sum < 9223372036854775808) :
    NothingDropped digits it rs := by
  have hreads := reads_rendered digits hpath hadded hdeleted
  rcases calculate_of_reads hreads it "per-file" with ⟨err, hrows⟩
  rcases calculate_of_reads hreads it "summary" with ⟨err', hsummary⟩
  have htotal : total (rows it (rs.map Numstat.update)) =
      (Int64.ofNat (rs.map Numstat.added).sum, Int64.ofNat (rs.map Numstat.deleted).sum) := by
    rw [total_eq_sum, sum_rows, Numstat.sum_updates]
  refine ⟨_, _, err, err', hrows, hsummary, ?_, ?_, ?_⟩
  · rw [htotal]
    exact Int64.toInt_ofNat_of_lt hadded
  · rw [htotal]
    exact Int64.toInt_ofNat_of_lt hdeleted
  · intro r hr
    have hkey : r.path ∈ (rs.map Numstat.update).map Prod.fst := by
      rw [List.map_map]
      exact List.mem_map_of_mem (f := Numstat.path) hr
    refine ⟨(r.path, Tally.amount r.path (rs.map Numstat.update)), mem_rows.mpr ⟨hkey, rfl⟩, rfl,
      ?_⟩
    have ha := Numstat.sum_filter_le Numstat.added r.path rs
    have hd := Numstat.sum_filter_le Numstat.deleted r.path rs
    rw [Numstat.amount_updates]
    exact ⟨Int64.toInt_ofNat_of_lt (by omega), Int64.toInt_ofNat_of_lt (by omega)⟩

/-- Nothing is dropped exactly when no path has a comma and both sums are `Long`s. -/
theorem nothingDropped_iff (digits : Digits) (it : Iteration) (rs : List Numstat) :
    NothingDropped digits it rs ↔
      (∀ r ∈ rs, comma ∉ r.path) ∧
        (rs.map Numstat.added).sum ≤ Int64.maxValue.toInt ∧
        (rs.map Numstat.deleted).sum ≤ Int64.maxValue.toInt := by
  have hmax : Int64.maxValue.toInt = 9223372036854775807 := rfl
  constructor
  · rintro ⟨updates, t, err, err', hrows, -, hadded, hdeleted, hpaths⟩
    rcases rows_of_calculate hrows with ⟨us, hus, rfl⟩
    refine ⟨?_, ?_, ?_⟩
    · intro r hr
      rcases hpaths r hr with ⟨x, hx, hxr, -⟩
      rw [← hxr]
      exact comma_notMem_of_parsed hus (mem_rows.mp hx).1
    · rw [← hadded]
      exact Int64.toInt_le t.1
    · rw [← hdeleted]
      exact Int64.toInt_le t.2
  · rintro ⟨hpath, hadded, hdeleted⟩
    exact nothingDropped_of_no_comma digits it hpath (by omega) (by omega)

/-- A record with the path `a,b`. -/
def commaRecord : Numstat where
  added := 1
  deleted := 2
  path := [97, 44, 98]
  nonempty := List.cons_ne_nil _ _
  solid := fun c hc => Bool.eq_false_iff.mpr (List.any_eq_false.mp rfl c hc)

/-- Its line has four fields, and nothing is left of it. -/
theorem dropped_comma : ¬ NothingDropped JavaString.asciiDigits .inPlace [commaRecord] := by
  rintro ⟨updates, t, err, err', -, hsummary, hadded, -⟩
  have hrun : calculate JavaString.asciiDigits .inPlace "summary"
      [49, 44, 50, 44, 97, 44, 98, 10] = some { err := [], out := .summary (0, 0) 0 } := by
    decide
  have htext : Numstat.rendered [commaRecord] = [49, 44, 50, 44, 97, 44, 98, 10] := by
    simp [commaRecord, Numstat.rendered, Numstat.line, JavaString.decimal, padDigits, comma]
  rw [htext, hrun] at hsummary
  cases hsummary
  exact absurd hadded (by decide)

end Locc
end Etude
