import Mathlib.Data.List.Basic

/-!
# Printf — formats of text and strings

`Text.Printf` for arguments that are strings.  A format is copied up to its percent signs: two of
them print one, and one in front of an `s` takes an argument.
-/

namespace Etude
namespace Base

/-- `uprintfs`; `none` is an exception: an argument missing or one too many.  Where an argument is
left, flags, widths and the conversions other than `s` are not modelled, and `none` stands for them
too. -/
def uprintfs : List Char → List (List Char) → Option (List Char)
  | [], us => if us = [] then some [] else none
  | [c], us => if c = '%' ∨ us ≠ [] then none else some [c]
  | c :: d :: cs, us =>
    if c = '%' then
      if d = '%' then
        (uprintfs cs us).map ('%' :: ·)
      else
        match us with
        | [] => none
        | u :: us => if d = 's' then (uprintfs cs us).map (u ++ ·) else none
    else
      (uprintfs (d :: cs) us).map (c :: ·)

theorem uprintfs_cons {c : Char} (hc : c ≠ '%') (cs : List Char) (us : List (List Char)) :
    uprintfs (c :: cs) us = (uprintfs cs us).map (c :: ·) := by
  cases cs with
  | nil =>
      by_cases hus : us = []
      · simp [uprintfs, hc, hus]
      · simp [uprintfs, hus]
  | cons d cs =>
      simp only [uprintfs, if_neg hc]

/-- Text without percent signs is copied. -/
theorem uprintfs_append {s : List Char} (hs : '%' ∉ s) (cs : List Char) (us : List (List Char)) :
    uprintfs (s ++ cs) us = (uprintfs cs us).map (s ++ ·) := by
  induction s with
  | nil =>
      exact Option.map_id'.symm
  | cons c s ih =>
      rw [List.mem_cons, not_or] at hs
      rw [List.cons_append, uprintfs_cons (Ne.symm hs.1), ih hs.2, Option.map_map]
      rfl

theorem uprintfs_string (u cs : List Char) (us : List (List Char)) :
    uprintfs ('%' :: 's' :: cs) (u :: us) = (uprintfs cs us).map (u ++ ·) :=
  rfl

/-- Without arguments nothing is added to the format, and each percent sign that does not fail
takes another with it. -/
theorem length_uprintfs_nil :
    ∀ {s t : List Char}, uprintfs s [] = some t →
      t.length ≤ s.length ∧ ('%' ∈ s → t.length < s.length)
  | [], t, h => by
    cases h
    exact ⟨Nat.le_refl 0, fun hs => absurd hs List.not_mem_nil⟩
  | [c], t, h => by
    by_cases hc : c = '%'
    · rw [uprintfs, if_pos (Or.inl hc)] at h
      cases h
    · rw [uprintfs, if_neg (by simp [hc])] at h
      cases h
      exact ⟨Nat.le_refl 1, fun hs => absurd (List.mem_singleton.mp hs).symm hc⟩
  | c :: d :: cs, t, h => by
    by_cases hc : c = '%'
    · by_cases hd : d = '%'
      · rw [uprintfs, if_pos hc, if_pos hd, Option.map_eq_some_iff] at h
        rcases h with ⟨u, hu, rfl⟩
        have hle := (length_uprintfs_nil hu).1
        simp only [List.length_cons]
        omega
      · rw [uprintfs, if_pos hc, if_neg hd] at h
        cases h
    · rw [uprintfs, if_neg hc, Option.map_eq_some_iff] at h
      rcases h with ⟨u, hu, rfl⟩
      have hrest := length_uprintfs_nil hu
      rw [List.mem_cons]
      simp only [List.length_cons] at hrest ⊢
      refine ⟨by omega, ?_⟩
      rintro (hs | hs)
      · exact absurd hs.symm hc
      · have hlt := hrest.2 hs
        omega

/-- A format without arguments prints itself exactly when it has no percent sign. -/
theorem uprintfs_eq_self_iff (s : List Char) : uprintfs s [] = some s ↔ '%' ∉ s := by
  constructor
  · intro h hs
    exact absurd ((length_uprintfs_nil h).2 hs) (Nat.lt_irrefl s.length)
  · intro hs
    have hcopy := uprintfs_append hs [] []
    rw [List.append_nil] at hcopy
    rw [hcopy]
    simp [uprintfs]

end Base
end Etude
