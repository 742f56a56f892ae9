import Mathlib.Data.List.DropRight
import Etude.Base.Split

/-!
# Margin — multi-line string literals of Scala

A literal between triple quotes is a list of lines.  `stripMargin` drops in each line the blanks up
to a bar and the bar itself, and `trim` drops the blanks at both ends of a text.  Margins may be
stripped line by line (`stripMargin_tripleQuoted`); a template of one line is that line
(`trim_stripMargin`).
-/

namespace Etude
namespace Base

/-! ## Margins -/

/-- A literal between triple quotes, given by its lines. -/
def tripleQuoted (ls : List (List Char)) : List Char :=
  ['\n'].intercalate ls

def isLineBreak (c : Char) : Bool :=
  c = '\n' || c = '\x0c'

def isBlank (c : Char) : Bool :=
  c ≤ ' '

def linesWithSeparators : List Char → List (List Char)
  | [] => []
  | c :: cs =>
      if isLineBreak c then [c] :: linesWithSeparators cs
      else
        match linesWithSeparators cs with
        | [] => [[c]]
        | l :: ls => (c :: l) :: ls

def stripLine (line : List Char) : List Char :=
  match line.dropWhile isBlank with
  | '|' :: rest => rest
  | _ => line

def stripMargin (s : List Char) : List Char :=
  (linesWithSeparators s).flatMap stripLine

def trim (s : List Char) : List Char :=
  (s.dropWhile isBlank).rdropWhile isBlank

section Lines

variable {l : List Char}

theorem linesWithSeparators_append (hl : ∀ c ∈ l, isLineBreak c = false) {b : Char}
    (hb : isLineBreak b = true) (rest : List Char) :
    linesWithSeparators (l ++ b :: rest) = (l ++ [b]) :: linesWithSeparators rest := by
  induction l with
  | nil =>
      rw [List.nil_append, linesWithSeparators, if_pos hb]
      rfl
  | cons c l ih =>
      rw [List.forall_mem_cons] at hl
      rw [List.cons_append, linesWithSeparators, hl.1, if_neg (by decide), ih hl.2]
      rfl

theorem linesWithSeparators_of_noBreak (hl : ∀ c ∈ l, isLineBreak c = false) (hne : l ≠ []) :
    linesWithSeparators l = [l] := by
  induction l with
  | nil =>
      exact absurd rfl hne
  | cons c l ih =>
      rw [List.forall_mem_cons] at hl
      rw [linesWithSeparators, hl.1, if_neg (by decide)]
      by_cases hnil : l = []
      · rw [hnil]
        rfl
      · rw [ih hl.2 hnil]

/-- The separator at the end of a line is blank. -/
theorem stripLine_append {b : Char} (hb : isBlank b = true) :
    stripLine (l ++ [b]) = stripLine l ++ [b] := by
  cases hl : l.dropWhile isBlank with
  | nil =>
      have hall : (l ++ [b]).dropWhile isBlank = [] := by
        rw [List.dropWhile_append, hl]
        simp [hb]
      rw [stripLine, hall, stripLine, hl]
  | cons c rest =>
      have hcons : (l ++ [b]).dropWhile isBlank = c :: (rest ++ [b]) := by
        rw [List.dropWhile_append, hl]
        rfl
      rw [stripLine, hcons, stripLine, hl]
      split
      · rename_i heq
        cases heq
        rfl
      · rename_i hbar
        split
        · rename_i heq
          cases heq
          exact absurd rfl (hbar _)
        · rfl

theorem stripMargin_of_noBreak (hl : ∀ c ∈ l, isLineBreak c = false) :
    stripMargin l = stripLine l := by
  by_cases hne : l = []
  · rw [hne]
    rfl
  · rw [stripMargin, linesWithSeparators_of_noBreak hl hne, List.flatMap_singleton]

end Lines

/-- The margins of a text are stripped line by line. -/
theorem stripMargin_tripleQuoted {ls : List (List Char)}
    (hls : ∀ l ∈ ls, ∀ c ∈ l, isLineBreak c = false) :
    stripMargin (tripleQuoted ls) = tripleQuoted (ls.map stripLine) := by
  induction ls with
  | nil =>
      rfl
  | cons l ls ih =>
      rw [List.forall_mem_cons] at hls
      cases ls with
      | nil =>
          rw [tripleQuoted, List.intercalate_singleton, stripMargin_of_noBreak hls.1]
          exact List.intercalate_singleton.symm
      | cons l' ls =>
          have hrest := ih hls.2
          rw [tripleQuoted] at hrest
          rw [tripleQuoted, List.intercalate_cons_cons, List.append_assoc, List.singleton_append,
            stripMargin, linesWithSeparators_append hls.1 rfl, List.flatMap_cons,
            stripLine_append rfl, ← stripMargin, hrest]
          exact List.intercalate_cons_cons.symm

theorem notMem_stripLine {c : Char} {l : List Char} (h : c ∉ l) : c ∉ stripLine l := by
  rw [stripLine]
  split
  · rename_i rest hrest
    intro hmem
    have hbar : c ∈ l.dropWhile isBlank := by
      rw [hrest]
      exact List.mem_cons_of_mem '|' hmem
    exact h ((List.dropWhile_sublist isBlank).subset hbar)
  · exact h

/-- The lines of a literal whose lines may contain line feeds, without their margins. -/
theorem splitOn_stripMargin {ls : List (List Char)} (hne : ls ≠ [])
    (hls : ∀ l ∈ ls, ∀ part ∈ l.splitOn '\n', ∀ c ∈ part, isLineBreak c = false) :
    (stripMargin (tripleQuoted ls)).splitOn '\n' =
      (ls.flatMap fun l => l.splitOn '\n').map stripLine := by
  have hsplit : (tripleQuoted ls).splitOn '\n' = ls.flatMap fun l => l.splitOn '\n' :=
    splitOn_intercalate_flatMap '\n' hne
  have hjoin : tripleQuoted (ls.flatMap fun l => l.splitOn '\n') = tripleQuoted ls := by
    rw [← hsplit]
    exact List.intercalate_splitOn '\n'
  rw [← hjoin, stripMargin_tripleQuoted, tripleQuoted, List.splitOn_intercalate]
  · intro l hl
    rcases List.mem_map.mp hl with ⟨part, hpart, rfl⟩
    rw [← hsplit] at hpart
    exact notMem_stripLine (notMem_of_mem_splitOn hpart)
  · rw [← hsplit]
    exact fun h => List.splitOn_ne_nil '\n' _ (List.map_eq_nil_iff.mp h)
  · intro part hpart
    rcases List.mem_flatMap.mp hpart with ⟨l, hl, hmem⟩
    exact hls l hl part hmem

theorem blank_of_mem_replicate {k : ℕ} {c : Char} (hc : c ∈ List.replicate k ' ') :
    isBlank c = true ∧ isLineBreak c = false := by
  rw [List.eq_of_mem_replicate hc]
  exact ⟨rfl, rfl⟩

theorem stripLine_margin (k : ℕ) (body : List Char) :
    stripLine (List.replicate k ' ' ++ '|' :: body) = body := by
  rw [stripLine, List.dropWhile_append_of_pos fun _ hc => (blank_of_mem_replicate hc).1]
  rfl

theorem stripLine_replicate (k : ℕ) : stripLine (List.replicate k ' ') = List.replicate k ' ' := by
  rw [stripLine, List.dropWhile_eq_nil_iff.mpr fun _ hc => (blank_of_mem_replicate hc).1]

/-- `trim` finds a text that neither starts nor ends with a blank. -/
theorem trim_append {before body after : List Char} {a b : Char}
    (hbefore : ∀ c ∈ before, isBlank c = true) (hafter : ∀ c ∈ after, isBlank c = true)
    (ha : body.head? = some a) (ha' : isBlank a = false)
    (hb : body.getLast? = some b) (hb' : isBlank b = false) :
    trim (before ++ (body ++ after)) = body := by
  have hleft : (before ++ (body ++ after)).dropWhile isBlank = body ++ after := by
    rw [List.dropWhile_append_of_pos hbefore]
    cases body with
    | nil =>
        cases ha
    | cons c cs =>
        cases ha
        rw [List.cons_append, List.dropWhile_cons_of_neg (by simp [ha'])]
  have hright : (body ++ after).rdropWhile isBlank = body := by
    have hall : ∀ c ∈ after.reverse, isBlank c = true := fun c hc =>
      hafter c (List.mem_reverse.mp hc)
    rcases List.getLast?_eq_some_iff.mp hb with ⟨init, rfl⟩
    rw [List.rdropWhile, List.reverse_append, List.dropWhile_append_of_pos hall, ← List.rdropWhile,
      List.rdropWhile_concat_neg _ _ _ (by simp [hb'])]
  rw [trim, hleft, hright]

/-- A template of one line, with a margin before it and blanks around it, is that line. -/
theorem trim_stripMargin {body : List Char} {a b : Char} (m n : ℕ)
    (hbody : ∀ c ∈ body, isLineBreak c = false)
    (ha : body.head? = some a) (ha' : isBlank a = false)
    (hb : body.getLast? = some b) (hb' : isBlank b = false) :
    trim (stripMargin (tripleQuoted
      [[], List.replicate m ' ' ++ '|' :: body, List.replicate n ' '])) = body := by
  have hstrip : stripMargin (tripleQuoted
      [[], List.replicate m ' ' ++ '|' :: body, List.replicate n ' ']) =
        ['\n'] ++ (body ++ '\n' :: List.replicate n ' ') := by
    rw [stripMargin_tripleQuoted]
    · rw [List.map_cons, List.map_cons, List.map_singleton, stripLine_margin, stripLine_replicate,
        tripleQuoted, List.intercalate_cons_cons, List.intercalate_cons_cons,
        List.intercalate_singleton]
      simp [stripLine]
    · simp only [List.forall_mem_cons, List.forall_mem_append]
      exact ⟨by simp, ⟨fun _ hc => (blank_of_mem_replicate hc).2, rfl, hbody⟩,
        fun _ hc => (blank_of_mem_replicate hc).2, by simp⟩
  have hclosing : ∀ c ∈ '\n' :: List.replicate n ' ', isBlank c = true := by
    rw [List.forall_mem_cons]
    exact ⟨rfl, fun _ hc => (blank_of_mem_replicate hc).1⟩
  rw [hstrip]
  exact trim_append (List.forall_mem_singleton.mpr rfl) hclosing ha ha' hb hb'

end Base
end Etude
