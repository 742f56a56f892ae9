import Mathlib.Data.List.Basic

/-!
# Split — the parts of a list between separators

The parts of a list have no separator.  Joined lists have the parts of all of them
(`splitOn_intercalate_flatMap`), and what is put in front of a list goes to its first part.
-/

namespace Etude
namespace Base

universe u

variable {α : Type u} [BEq α] [LawfulBEq α] {sep : α}

theorem splitOn_cons_self (s : List α) : (sep :: s).splitOn sep = [] :: s.splitOn sep := by
  rw [List.splitOn_cons_eq_if_modifyHead, beq_self_eq_true, if_pos rfl]

theorem splitOn_cons_of_ne {c : α} (hc : c ≠ sep) {s first : List α} {rest : List (List α)}
    (hs : s.splitOn sep = first :: rest) : (c :: s).splitOn sep = (c :: first) :: rest := by
  have hbeq : (c == sep) = false := beq_eq_false_iff_ne.mpr hc
  rw [List.splitOn_cons_eq_if_modifyHead, hbeq, hs]
  rfl

omit [LawfulBEq α] in
theorem exists_splitOn (sep : α) (s : List α) :
    ∃ first rest, s.splitOn sep = first :: rest :=
  List.exists_cons_of_ne_nil (List.splitOn_ne_nil sep s)

theorem notMem_of_mem_splitOn {s part : List α} (h : part ∈ s.splitOn sep) : sep ∉ part := by
  induction s generalizing part with
  | nil =>
      rw [List.splitOn_nil, List.mem_singleton] at h
      rw [h]
      exact List.not_mem_nil
  | cons c s ih =>
      rcases exists_splitOn sep s with ⟨first, rest, hs⟩
      by_cases hc : c = sep
      · rw [hc, splitOn_cons_self, List.mem_cons] at h
        rcases h with rfl | h
        · exact List.not_mem_nil
        · exact ih h
      · rw [splitOn_cons_of_ne hc hs, List.mem_cons] at h
        rw [hs] at ih
        rcases h with rfl | h
        · rw [List.mem_cons, not_or]
          exact ⟨Ne.symm hc, ih List.mem_cons_self⟩
        · exact ih (List.mem_cons_of_mem first h)

/-- What has no separator goes to the front of the first part. -/
theorem splitOn_append {l : List α} (hl : sep ∉ l) {s first : List α} {rest : List (List α)}
    (hs : s.splitOn sep = first :: rest) : (l ++ s).splitOn sep = (l ++ first) :: rest := by
  induction l with
  | nil =>
      exact hs
  | cons c l ih =>
      rw [List.mem_cons, not_or] at hl
      exact splitOn_cons_of_ne (Ne.symm hl.1) (ih hl.2)

/-- Joined lists have the parts of all of them. -/
theorem splitOn_intercalate_flatMap (sep : α) {ls : List (List α)} (hls : ls ≠ []) :
    ([sep].intercalate ls).splitOn sep = ls.flatMap fun l => l.splitOn sep := by
  induction ls with
  | nil =>
      exact absurd rfl hls
  | cons l ls ih =>
      cases ls with
      | nil =>
          rw [List.intercalate_singleton, List.flatMap_singleton]
      | cons l' ls =>
          rw [List.intercalate_cons_cons, List.append_assoc, List.singleton_append,
            List.splitOn_append_cons_self, ih (List.cons_ne_nil l' ls)]
          exact List.flatMap_cons.symm

end Base
end Etude
