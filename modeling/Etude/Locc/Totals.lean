import Etude.Locc.Model
import Mathlib.Data.List.Forall2

/-!
# Totals — the rows and the summary agree

The map is folded update by update, in any order of the lines, and traversed in an order that its
hash table decides.  The sorted rows and the totals depend on neither.
-/

namespace Etude
namespace Locc

open Base
open Base.JavaString (Digits)

/-- The addition of `Long`s, which wraps around. -/
instance longAddition : AddCommMonoid Int64 where
  add_assoc := Int64.add_assoc
  zero_add := Int64.zero_add
  add_zero := Int64.add_zero
  add_comm := Int64.add_comm
  nsmul := nsmulRec

/-! ## Lines -/

/-- The line is three parts separated by commas, the first two decimal `Long`s, and stands for the
update. -/
def Reads (digits : Digits) (line : JavaString) (u : Update) : Prop :=
  ∃ added deleted, JavaString.split comma line = [added, deleted, u.1] ∧
    JavaString.parseLong digits added = some u.2.1 ∧
    JavaString.parseLong digits deleted = some u.2.2

theorem reads_of_fields {digits : Digits} {added deleted : JavaString} {u : Update}
    (hadded : comma ∉ added) (hdeleted : comma ∉ deleted) (hpath : comma ∉ u.1) (hne : u.1 ≠ [])
    (hfirst : JavaString.parseLong digits added = some u.2.1)
    (hsecond : JavaString.parseLong digits deleted = some u.2.2) :
    Reads digits (added ++ comma :: (deleted ++ comma :: u.1)) u :=
  ⟨added, deleted, JavaString.split_three hadded hdeleted hpath hne, hfirst, hsecond⟩

theorem parsed_of_reads {digits : Digits} {text : JavaString} {us : List Update}
    (h : List.Forall₂ (Reads digits) (JavaString.readLines false text) us) :
    parsed digits text = some us := by
  rw [parsed]
  generalize JavaString.readLines false text = lines at h
  induction h with
  | nil =>
      rfl
  | cons hline _ ih =>
      rcases hline with ⟨added, deleted, hsplit, hadded, hdeleted⟩
      rw [List.map_cons, hsplit, List.filter_cons_of_pos (by rfl), List.mapM_cons, ih]
      simp only [update, List.getD_cons_zero, List.getD_cons_succ, hadded, hdeleted]
      rfl

/-! ## Traversals -/

theorem mem_toSeq (it : Iteration) (m : Updates) (x : Update) :
    x ∈ it.toSeq m ↔ m.lookup x.1 = some x.2 := by
  rw [(it.perm m).mem_iff, List.mem_map, ← Option.mem_def, AList.mem_lookup_iff]
  constructor
  · rintro ⟨e, he, rfl⟩
    exact he
  · intro hx
    exact ⟨⟨x.1, x.2⟩, hx, rfl⟩

theorem keys_toSeq (it : Iteration) (m : Updates) : ((it.toSeq m).map Prod.fst).Nodup := by
  rw [((it.perm m).map Prod.fst).nodup_iff, List.map_map]
  exact m.keys_nodup

theorem lookup_map (it : Iteration) (m : Updates) (p : JavaString) (v : Int64 × Int64) :
    (it.map (fun x => x) m).lookup p = some v ↔ m.lookup p = some v := by
  rw [Iteration.map, List.map_id', Tally.lookup_ofList (keys_toSeq it m), mem_toSeq]

/-- Both traversals keep every entry, so the last map holds what the fold has put there. -/
theorem lookup_last (it : Iteration) (us : List Update) (p : JavaString) (v : Int64 × Int64) :
    (it.map (fun x => x) (merged it us)).lookup p = some v ↔
      p ∈ us.map Prod.fst ∧ v = Tally.amount p us := by
  rw [lookup_map]
  exact (lookup_map it (us.foldl sum ∅) p v).trans (Tally.lookup_tally us p v)

/-! ## Rows -/

instance : Std.Total PathLE where
  total x y := by
    have hswap := JavaString.compareTo_swap x.1 y.1
    rw [PathLE, PathLE]
    omega

instance : IsTrans Update PathLE where
  trans _ _ _ := JavaString.compareTo_trans

theorem rows_perm (it : Iteration) (us : List Update) :
    (rows it us).Perm (it.toSeq (it.map (fun x => x) (merged it us))) :=
  List.perm_insertionSort PathLE _

theorem mem_rows {it : Iteration} {us : List Update} {x : Update} :
    x ∈ rows it us ↔ x.1 ∈ us.map Prod.fst ∧ x.2 = Tally.amount x.1 us := by
  rw [(rows_perm it us).mem_iff, mem_toSeq, lookup_last]

def PathLT (x y : Update) : Prop :=
  JavaString.compareTo x.1 y.1 < 0

instance : Std.Irrefl PathLT where
  irrefl x := by
    have hswap := JavaString.compareTo_swap x.1 x.1
    rw [PathLT]
    omega

instance : Std.Antisymm PathLT where
  antisymm x y hxy hyx := by
    have hswap := JavaString.compareTo_swap x.1 y.1
    rw [PathLT] at hxy hyx
    omega

/-- The rows are sorted, and no path has two. -/
theorem rows_ascending (it : Iteration) (us : List Update) : (rows it us).Pairwise PathLT := by
  have hsorted : (rows it us).Pairwise PathLE := List.pairwise_insertionSort PathLE _
  have hpaths : (rows it us).Pairwise fun x y => x.1 ≠ y.1 := by
    have hnodup := ((rows_perm it us).map Prod.fst).nodup_iff.mpr (keys_toSeq it _)
    exact List.pairwise_map.mp hnodup
  apply (hsorted.and hpaths).imp
  rintro x y ⟨hle, hne⟩
  rw [PathLE] at hle
  have hzero : JavaString.compareTo x.1 y.1 ≠ 0 := fun h =>
    hne (JavaString.compareTo_eq_zero h)
  rw [PathLT]
  omega

theorem rows_eq_of_perm (it it' : Iteration) {us us' : List Update} (h : us'.Perm us) :
    rows it' us' = rows it us := by
  apply List.Pairwise.eq_of_mem_iff (rows_ascending it' us') (rows_ascending it us)
  intro x
  rw [mem_rows, mem_rows, (h.map Prod.fst).mem_iff, Tally.amount_perm h]

/-! ## Totals -/

theorem total_eq_sum (updates : List Update) : total updates = (updates.map Prod.snd).sum := by
  rw [List.sum_eq_foldl]
  rfl

theorem sum_rows (it : Iteration) (us : List Update) :
    ((rows it us).map Prod.snd).sum = (us.map Prod.snd).sum := by
  have hentries : (it.map (fun x => x) (merged it us)).entries.Perm
      (us.foldl Tally.bump (∅ : Updates)).entries := by
    apply Tally.entries_perm_of_lookup
    intro p v
    rw [lookup_last, Tally.lookup_tally]
  have hseq := (rows_perm it us).trans (it.perm _)
  calc ((rows it us).map Prod.snd).sum
      = Tally.total (it.map (fun x => x) (merged it us)) := by
        rw [(hseq.map Prod.snd).sum_eq, List.map_map]
        rfl
    _ = Tally.total (us.foldl Tally.bump (∅ : Updates)) := (hentries.map _).sum_eq
    _ = (us.map Prod.snd).sum := Tally.total_tally us

/-! ## The two reports -/

/-- One row for each path, in ascending order, with the sums of the path's updates; the total is
the sum of the rows and the sum of the updates. -/
structure Aggregates (us rows : List Update) (total : Int64 × Int64) : Prop where
  ascending : rows.Pairwise fun x y => JavaString.compareTo x.1 y.1 < 0
  paths : ∀ p, p ∈ rows.map Prod.fst ↔ p ∈ us.map Prod.fst
  sums : ∀ x ∈ rows, x.2 = ((us.filter fun u => u.1 = x.1).map Prod.snd).sum
  total_rows : total = (rows.map Prod.snd).sum
  total_lines : total = (us.map Prod.snd).sum

theorem aggregates_rows (it : Iteration) (us : List Update) :
    Aggregates us (rows it us) (total (rows it us)) where
  ascending := rows_ascending it us
  paths p := by
    constructor
    · intro hp
      rcases List.mem_map.mp hp with ⟨x, hx, rfl⟩
      exact (mem_rows.mp hx).1
    · intro hp
      exact List.mem_map.mpr ⟨(p, Tally.amount p us), mem_rows.mpr ⟨hp, rfl⟩, rfl⟩
  sums _ hx := (mem_rows.mp hx).2
  total_rows := total_eq_sum (rows it us)
  total_lines := (total_eq_sum (rows it us)).trans (sum_rows it us)

theorem calculate_of_reads {digits : Digits} {text : JavaString} {us : List Update}
    (h : List.Forall₂ (Reads digits) (JavaString.readLines false text) us) (it : Iteration)
    (option : String) :
    ∃ err, calculate digits it option text = some
      { err := err
        out := if option = "per-file" then .perFile (rows it us)
          else .summary (total (rows it us))
            ((total (rows it us)).1 - (total (rows it us)).2) } := by
  rw [calculate, parsed_of_reads h]
  exact ⟨_, rfl⟩

/-- Both reports are those of one list of rows and its total, in every order of the lines and of
the traversals. -/
theorem calculate_aggregates {digits : Digits} {text : JavaString} {us : List Update}
    (h : List.Forall₂ (Reads digits) (JavaString.readLines false text) us) :
    ∃ updates t, Aggregates us updates t ∧
      ∀ (it : Iteration) (text' : JavaString),
        (JavaString.readLines false text').Perm (JavaString.readLines false text) →
        ∀ option, ∃ err, calculate digits it option text' = some
          { err := err
            out := if option = "per-file" then .perFile updates
              else .summary t (t.1 - t.2) } := by
  refine ⟨rows .inPlace us, total (rows .inPlace us), aggregates_rows .inPlace us, ?_⟩
  intro it text' hperm option
  rcases List.perm_comp_forall₂ hperm h with ⟨us', hreads, hus⟩
  rw [← rows_eq_of_perm .inPlace it hus]
  exact calculate_of_reads hreads it option

/-- The lines `1,2,b`, `3,4,a` and `5,6,b`, the path `b` twice. -/
theorem calculate_aggregates_sample :
    ∃ updates t, Aggregates [([98], (1, 2)), ([97], (3, 4)), ([98], (5, 6))] updates t ∧
      ∀ (it : Iteration) (text' : JavaString),
        (JavaString.readLines false text').Perm
          [[49, 44, 50, 44, 98], [51, 44, 52, 44, 97], [53, 44, 54, 44, 98]] →
        ∀ option, ∃ err, calculate JavaString.asciiDigits it option text' = some
          { err := err
            out := if option = "per-file" then .perFile updates
              else .summary t (t.1 - t.2) } := by
  refine @calculate_aggregates JavaString.asciiDigits
    [49, 44, 50, 44, 98, 10, 51, 44, 52, 44, 97, 10, 53, 44, 54, 44, 98] _ ?_
  exact .cons ⟨[49], [50], by decide, by decide, by decide⟩
    (.cons ⟨[51], [52], by decide, by decide, by decide⟩
      (.cons ⟨[53], [54], by decide, by decide, by decide⟩ .nil))

end Locc
end Etude
