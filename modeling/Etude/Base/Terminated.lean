import Mathlib.Data.List.Basic

/-!
# Terminated — complete lines of a stream that is still growing

`cut stop xs` splits what has come of a stream into its complete lines, each with the terminator
`stop` at its end, and the remainder, the beginning of a line that is not complete yet.  More of the
stream continues the remainder (`cut_append`).  `nextLine` is the reader's view: the first complete
line and what follows it.
-/

namespace Etude
namespace Base

universe u

section Cut

variable {α : Type u} [DecidableEq α]

/-- The complete lines of a stream and its remainder. -/
def cut (stop : α) : List α → List (List α) × List α
  | [] => ([], [])
  | c :: cs =>
      if c = stop then ([c] :: (cut stop cs).1, (cut stop cs).2)
      else
        match (cut stop cs).1 with
        | [] => ([], c :: (cut stop cs).2)
        | l :: ls => ((c :: l) :: ls, (cut stop cs).2)

def completeLines (stop : α) (xs : List α) : List (List α) :=
  (cut stop xs).1

def remainder (stop : α) (xs : List α) : List α :=
  (cut stop xs).2

/-- The first complete line and what follows it. -/
def nextLine (stop : α) : List α → Option (List α × List α)
  | [] => none
  | c :: cs =>
      if c = stop then some ([c], cs)
      else (nextLine stop cs).map fun p => (c :: p.1, p.2)

variable {stop : α}

/-! ## The remainder -/

theorem cut_of_notMem {xs : List α} (h : stop ∉ xs) : cut stop xs = ([], xs) := by
  induction xs with
  | nil =>
      rfl
  | cons c cs ih =>
      rw [List.mem_cons, not_or] at h
      simp [cut, Ne.symm h.1, ih h.2]

theorem notMem_remainder (xs : List α) : stop ∉ remainder stop xs := by
  induction xs with
  | nil =>
      exact List.not_mem_nil
  | cons c cs ih =>
      rw [remainder] at ih
      by_cases hc : c = stop
      · simpa [remainder, cut, hc] using ih
      · cases hls : (cut stop cs).1 with
        | nil =>
            simpa [remainder, cut, hc, hls, Ne.symm hc] using ih
        | cons l ls =>
            simpa [remainder, cut, hc, hls] using ih

/-- What comes after `xs` continues the remainder of `xs`. -/
theorem cut_append (xs ys : List α) :
    cut stop (xs ++ ys) =
      (completeLines stop xs ++ completeLines stop (remainder stop xs ++ ys),
        remainder stop (remainder stop xs ++ ys)) := by
  induction xs with
  | nil =>
      rfl
  | cons c cs ih =>
      rw [List.cons_append, cut, ih]
      by_cases hc : c = stop
      · simp [hc, completeLines, remainder, cut]
      · cases hls : (cut stop cs).1 with
        | nil =>
            simp [hc, hls, completeLines, remainder, cut]
        | cons l ls =>
            simp [hc, hls, completeLines, remainder, cut]

theorem completeLines_append (xs ys : List α) :
    completeLines stop (xs ++ ys) =
      completeLines stop xs ++ completeLines stop (remainder stop xs ++ ys) := by
  rw [completeLines, cut_append]

theorem remainder_append (xs ys : List α) :
    remainder stop (xs ++ ys) = remainder stop (remainder stop xs ++ ys) := by
  rw [remainder, cut_append]

theorem flatten_completeLines (xs : List α) :
    (completeLines stop xs).flatten ++ remainder stop xs = xs := by
  induction xs with
  | nil =>
      rfl
  | cons c cs ih =>
      rw [completeLines, remainder] at ih ⊢
      by_cases hc : c = stop
      · simp [cut, hc, ih]
      · cases hls : (cut stop cs).1 with
        | nil =>
            rw [hls] at ih
            simpa [cut, hc, hls] using ih
        | cons l ls =>
            rw [hls] at ih
            simpa [cut, hc, hls] using ih

/-- A complete line has the terminator at its end and nowhere else. -/
theorem exists_of_mem_completeLines {xs l : List α} (h : l ∈ completeLines stop xs) :
    ∃ m, l = m ++ [stop] ∧ stop ∉ m := by
  induction xs generalizing l with
  | nil =>
      cases h
  | cons c cs ih =>
      rw [completeLines] at h ih
      by_cases hc : c = stop
      · rw [cut, if_pos hc, List.mem_cons] at h
        rcases h with rfl | h
        · exact ⟨[], by rw [hc]; rfl, List.not_mem_nil⟩
        · exact ih h
      · cases hls : (cut stop cs).1 with
        | nil =>
            simp [cut, hc, hls] at h
        | cons l' ls =>
            simp only [cut, if_neg hc, hls, List.mem_cons] at h
            rw [hls] at ih
            rcases h with rfl | h
            · rcases ih (List.mem_cons_self ..) with ⟨m, rfl, hm⟩
              exact ⟨c :: m, rfl, by simp [hm, Ne.symm hc]⟩
            · exact ih (List.mem_cons_of_mem _ h)

theorem remainder_of_completeLines_eq_nil {xs : List α} (h : completeLines stop xs = []) :
    remainder stop xs = xs := by
  have hxs : (completeLines stop xs).flatten ++ remainder stop xs = xs := flatten_completeLines xs
  rwa [h, List.flatten_nil, List.nil_append] at hxs

/-! ## The next line -/

theorem nextLine_eq_none {xs : List α} (h : nextLine stop xs = none) : stop ∉ xs := by
  induction xs with
  | nil =>
      exact List.not_mem_nil
  | cons c cs ih =>
      by_cases hc : c = stop
      · simp [nextLine, hc] at h
      · rw [nextLine, if_neg hc, Option.map_eq_none_iff] at h
        rw [List.mem_cons, not_or]
        exact ⟨Ne.symm hc, ih h⟩

theorem cut_of_nextLine {xs l rest : List α} (h : nextLine stop xs = some (l, rest)) :
    cut stop xs = (l :: completeLines stop rest, remainder stop rest) := by
  induction xs generalizing l with
  | nil =>
      cases h
  | cons c cs ih =>
      by_cases hc : c = stop
      · rw [nextLine, if_pos hc] at h
        cases h
        rw [cut, if_pos hc]
        rfl
      · rw [nextLine, if_neg hc, Option.map_eq_some_iff] at h
        rcases h with ⟨⟨l', rest'⟩, hnext, heq⟩
        cases heq
        rw [cut, if_neg hc, ih hnext]

/-- A reader that holds `held`, no complete line, finds the first line of all it has. -/
theorem nextLine_append {held xs l rest : List α} (hheld : stop ∉ held)
    (h : nextLine stop xs = some (l, rest)) :
    nextLine stop (held ++ xs) = some (held ++ l, rest) := by
  induction held with
  | nil =>
      exact h
  | cons c cs ih =>
      rw [List.mem_cons, not_or] at hheld
      rw [List.cons_append, nextLine, if_neg (Ne.symm hheld.1), ih hheld.2]
      rfl

/-! ## One more element -/

/-- The terminator completes the line that the remainder has begun. -/
theorem cut_concat_stop (xs : List α) :
    cut stop (xs ++ [stop]) = (completeLines stop xs ++ [remainder stop xs ++ [stop]], []) := by
  have hcut : cut stop (remainder stop xs ++ [stop]) = ([remainder stop xs ++ [stop]], []) := by
    have hnext : nextLine stop [stop] = some ([stop], []) := by simp [nextLine]
    exact cut_of_nextLine (nextLine_append (notMem_remainder xs) hnext)
  have hsplit : cut stop (xs ++ [stop]) = _ := cut_append xs [stop]
  rw [completeLines.eq_def stop (_ ++ _), remainder.eq_def stop (_ ++ _), hcut] at hsplit
  exact hsplit

/-- Any other element continues the remainder. -/
theorem cut_concat_of_ne {c : α} (hc : c ≠ stop) (xs : List α) :
    cut stop (xs ++ [c]) = (completeLines stop xs, remainder stop xs ++ [c]) := by
  have hmem : stop ∉ remainder stop xs ++ [c] := by
    rw [List.mem_append, List.mem_singleton, not_or]
    exact ⟨notMem_remainder xs, Ne.symm hc⟩
  have hsplit : cut stop (xs ++ [c]) = _ := cut_append xs [c]
  rw [completeLines.eq_def stop (_ ++ _), remainder.eq_def stop (_ ++ _), cut_of_notMem hmem,
    List.append_nil] at hsplit
  exact hsplit

end Cut

end Base
end Etude
