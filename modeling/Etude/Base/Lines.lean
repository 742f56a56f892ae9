import Mathlib.Data.List.Flatten
import Etude.Base.Terminated

/-!
# Lines — texts as lists of lines

`lines` cuts a text behind each newline and `unlines` ends each line with one, as the functions of
the Haskell Prelude do.  A map of characters that keeps newlines, adds none and erases nothing may
be applied to a text or to its lines (`lines_flatMap`), and the newlines of a text count its lines
(`count_unlines`).  Of a text that is still growing, the complete lines are there already
(`lines_eq_completeLines`).
-/

namespace Etude
namespace Base

/-- The lines of a text; a newline at its end starts no further line. -/
def lines : List Char → List (List Char)
  | [] => []
  | c :: cs =>
      if c = '\n' then [] :: lines cs
      else
        match lines cs with
        | [] => [[c]]
        | l :: ls => (c :: l) :: ls

def unlines (ls : List (List Char)) : List Char :=
  ls.flatMap fun l => l ++ ['\n']

/-- A character other than the newline goes to the front of the first line. -/
theorem lines_cons {c : Char} (hc : c ≠ '\n') (cs : List Char) :
    lines (c :: cs) = (c :: (lines cs).headD []) :: (lines cs).tail := by
  rw [lines, if_neg hc]
  cases lines cs with
  | nil =>
      rfl
  | cons l ls =>
      rfl

theorem lines_newline (cs : List Char) : lines ('\n' :: cs) = [] :: lines cs := by
  rw [lines, if_pos rfl]

theorem newline_notMem_of_mem_lines {s l : List Char} (h : l ∈ lines s) : '\n' ∉ l := by
  induction s generalizing l with
  | nil =>
      cases h
  | cons c cs ih =>
      by_cases hc : c = '\n'
      · subst hc
        rw [lines_newline, List.mem_cons] at h
        rcases h with rfl | h
        · exact List.not_mem_nil
        · exact ih h
      · rw [lines_cons hc, List.mem_cons] at h
        rcases h with rfl | h
        · rw [List.mem_cons, not_or]
          refine ⟨Ne.symm hc, ?_⟩
          cases hcs : lines cs with
          | nil =>
              exact List.not_mem_nil
          | cons l ls =>
              exact ih (by simp [hcs])
        · exact ih (List.mem_of_mem_tail h)

/-- Characters without a newline go to the front of the first line. -/
theorem lines_append {s : List Char} (hs : '\n' ∉ s) (hne : s ≠ []) (cs : List Char) :
    lines (s ++ cs) = (s ++ (lines cs).headD []) :: (lines cs).tail := by
  induction s with
  | nil =>
      exact absurd rfl hne
  | cons c s ih =>
      rw [List.mem_cons, not_or] at hs
      rw [List.cons_append, lines_cons (Ne.symm hs.1)]
      by_cases hnil : s = []
      · subst hnil
        rfl
      · rw [ih hs.2 hnil]
        rfl

section FlatMap

variable {f : Char → List Char}

/-- Mapping the characters of a text maps those of its lines. -/
theorem lines_flatMap (hnewline : f '\n' = ['\n'])
    (hother : ∀ c, c ≠ '\n' → '\n' ∉ f c ∧ f c ≠ []) (s : List Char) :
    lines (s.flatMap f) = (lines s).map fun l => l.flatMap f := by
  induction s with
  | nil =>
      rfl
  | cons c cs ih =>
      rw [List.flatMap_cons]
      by_cases hc : c = '\n'
      · subst hc
        rw [hnewline, List.singleton_append, lines_newline, lines_newline, ih]
        rfl
      · rcases hother c hc with ⟨hmem, hne⟩
        rw [lines_append hmem hne, lines_cons hc, ih]
        cases lines cs with
        | nil =>
            simp
        | cons l ls =>
            simp

end FlatMap

/-- Lines without newlines are as many as the newlines of the text they make. -/
theorem count_unlines {ls : List (List Char)} (h : ∀ l ∈ ls, '\n' ∉ l) :
    (unlines ls).count '\n' = ls.length := by
  induction ls with
  | nil =>
      rfl
  | cons l ls ih =>
      have hl : l.count '\n' = 0 := List.count_eq_zero_of_not_mem (h l (by simp))
      have hrest := ih fun l' hl' => h l' (by simp [hl'])
      rw [unlines, List.flatMap_cons, List.count_append, List.count_append, hl,
        List.length_cons, ← hrest, unlines]
      simp [Nat.add_comm]

/-- Lines without newlines are those of the text they make. -/
theorem lines_unlines {ls : List (List Char)} (h : ∀ l ∈ ls, '\n' ∉ l) :
    lines (unlines ls) = ls := by
  induction ls with
  | nil =>
      rfl
  | cons l ls ih =>
      rw [List.forall_mem_cons] at h
      have hcons : unlines (l :: ls) = l ++ '\n' :: unlines ls := by
        rw [unlines, List.flatMap_cons, List.append_assoc]
        rfl
      rw [hcons]
      by_cases hnil : l = []
      · rw [hnil, List.nil_append, lines_newline, ih h.2]
      · rw [lines_append h.1 hnil, lines_newline, ih h.2, List.headD_cons, List.append_nil,
          List.tail_cons]

theorem lines_eq_completeLines (s : List Char) :
    lines s = (completeLines '\n' s).map List.dropLast ++ lines (remainder '\n' s) := by
  induction s with
  | nil =>
      rfl
  | cons c cs ih =>
      by_cases hc : c = '\n'
      · subst hc
        rw [lines_newline, ih]
        simp [completeLines, remainder, cut]
      · rw [lines_cons hc, ih]
        cases hls : completeLines '\n' cs with
        | nil =>
            have hcut : cut '\n' (c :: cs) = ([], c :: remainder '\n' cs) := by
              rw [completeLines] at hls
              rw [cut, if_neg hc, hls]
              rfl
            simp [completeLines, remainder, hcut, lines_cons hc]
        | cons l ls =>
            have hcut : cut '\n' (c :: cs) = ((c :: l) :: ls, remainder '\n' cs) := by
              rw [completeLines] at hls
              rw [cut, if_neg hc, hls]
              rfl
            -- The first line has its newline, so what is dropped is not `c`.
            have hne : l ≠ [] := by
              rcases exists_of_mem_completeLines (hls ▸ List.mem_cons_self ..) with ⟨m, rfl, -⟩
              simp
            simp [completeLines, remainder, hcut, List.dropLast_cons_of_ne_nil hne]

/-- A text without a newline is one line. -/
theorem lines_of_notMem {s : List Char} (hs : '\n' ∉ s) (hne : s ≠ []) : lines s = [s] := by
  have h := lines_append hs hne []
  simpa [lines] using h

theorem lines_concat_newline (s : List Char) :
    lines (s ++ ['\n']) = (completeLines '\n' s).map List.dropLast ++ [remainder '\n' s] := by
  rw [lines_eq_completeLines, completeLines, remainder, cut_concat_stop]
  simp [lines, remainder]

/-- Whatever comes after `s`, its complete lines are the first ones of the text. -/
theorem lines_append_eq_completeLines (s t : List Char) :
    lines (s ++ t) = (completeLines '\n' s).map List.dropLast ++ lines (remainder '\n' s ++ t) := by
  rw [lines_eq_completeLines, completeLines_append, remainder_append, List.map_append,
    List.append_assoc, ← lines_eq_completeLines]

end Base
end Etude
