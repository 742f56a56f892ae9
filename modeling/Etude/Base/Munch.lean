import Mathlib.Data.List.Chain
import Mathlib.Data.List.TakeWhile

/-!
# Munch — segmentation into maximal lexemes

A lexeme is a non-empty list whose later elements may all follow its first one; `cont c d` says
that `d` may occur in a lexeme that starts with `c`.  `munch cont input` cuts `input` into
lexemes, each as long as possible, and `IsMunch.unique` says that it is the only list of lexemes
with that concatenation in which no lexeme could take the first element of the next one.
-/

namespace Etude
namespace Base

variable {α : Type*}

def Lexeme (cont : α → α → Bool) (t : List α) : Prop :=
  ∃ c cs, t = c :: cs ∧ ∀ d ∈ cs, cont c d = true

/-- `t` cannot be extended by the first element of `u`. -/
def Blocked (cont : α → α → Bool) (t u : List α) : Prop :=
  ∀ d, u.head? = some d → ¬ Lexeme cont (t ++ [d])

/-- A list of lexemes with concatenation `input` in which no lexeme can be extended. -/
structure IsMunch (cont : α → α → Bool) (ts : List (List α)) (input : List α) : Prop where
  flatten_eq : ts.flatten = input
  lexemes : ∀ t ∈ ts, Lexeme cont t
  maximal : ts.IsChain (Blocked cont)

def munch (cont : α → α → Bool) : List α → List (List α)
  | [] => []
  | c :: cs => (c :: cs.takeWhile (cont c)) :: munch cont (cs.dropWhile (cont c))
termination_by input => input.length
decreasing_by
  have h := List.length_dropWhile_le (cont c) cs
  simp only [List.length_cons]
  omega

section Lemmas

variable {cont : α → α → Bool}

theorem Lexeme.ne_nil {t : List α} (h : Lexeme cont t) : t ≠ [] := by
  rcases h with ⟨c, cs, rfl, _⟩
  simp

theorem lexeme_cons {c : α} {cs : List α} :
    Lexeme cont (c :: cs) ↔ ∀ d ∈ cs, cont c d = true := by
  constructor
  · rintro ⟨c', cs', heq, h⟩
    cases heq
    exact h
  · intro h
    exact ⟨c, cs, rfl, h⟩

/-- A lexeme is blocked by `d` exactly if `d` may not follow its first element. -/
theorem lexeme_append_iff {c d : α} {cs : List α} (h : Lexeme cont (c :: cs)) :
    Lexeme cont (c :: cs ++ [d]) ↔ cont c d = true := by
  have hcs := lexeme_cons.mp h
  rw [List.cons_append, lexeme_cons]
  constructor
  · intro hall
    exact hall d (by simp)
  · intro hd e he
    rcases List.mem_append.mp he with he | he
    · exact hcs e he
    · rw [List.mem_singleton.mp he]
      exact hd

theorem munch_cons (c : α) (cs : List α) :
    munch cont (c :: cs) =
      (c :: cs.takeWhile (cont c)) :: munch cont (cs.dropWhile (cont c)) := by
  rw [munch]

/-- The lexemes of a non-empty input start with its first element. -/
theorem head?_munch {input t : List α} (h : (munch cont input).head? = some t) :
    t.head? = input.head? := by
  cases input with
  | nil =>
      simp [munch] at h
  | cons c cs =>
      rw [munch_cons] at h
      cases h
      rfl

theorem munch_isMunch (input : List α) : IsMunch cont (munch cont input) input := by
  -- Along the recursion of `munch`: one lexeme, and the rest of the input.
  induction input using munch.induct cont with
  | case1 =>
      exact
        { flatten_eq := by simp [munch]
          lexemes := by simp [munch]
          maximal := by simp [munch] }
  | case2 c cs ih =>
      have hlex : Lexeme cont (c :: cs.takeWhile (cont c)) :=
        lexeme_cons.mpr fun d hd => List.mem_takeWhile_imp hd
      rw [munch_cons]
      refine
        { flatten_eq := ?_
          lexemes := ?_
          maximal := ?_ }
      · simp [ih.flatten_eq, List.takeWhile_append_dropWhile]
      · intro t ht
        rcases List.mem_cons.mp ht with rfl | ht
        · exact hlex
        · exact ih.lexemes t ht
      · refine List.isChain_cons.mpr ⟨?_, ih.maximal⟩
        intro u hu d hd hext
        -- The next lexeme starts where `takeWhile` stopped.
        have hd' : (cs.dropWhile (cont c)).head? = some d := by
          rw [← head?_munch hu, hd]
        have hstop := List.head?_dropWhile_not (cont c) cs
        rw [hd'] at hstop
        have hcont := (lexeme_append_iff hlex).mp hext
        simp [hcont] at hstop

/-- A function that acts on lexemes as `f` does on their elements acts on all of `input` so. -/
theorem IsMunch.flatMap_eq {β : Type*} {ts : List (List α)} {input : List α}
    (h : IsMunch cont ts input) {g : List α → List β} {f : α → List β}
    (hg : ∀ t, Lexeme cont t → g t = t.flatMap f) : ts.flatMap g = input.flatMap f := by
  have hlexemes : ts.flatMap g = ts.flatMap fun t => t.flatMap f :=
    List.flatMap_congr fun t ht => hg t (h.lexemes t ht)
  rw [hlexemes, ← h.flatten_eq, List.flatten_eq_flatMap, List.flatMap_assoc]
  rfl

/-- Maximal segmentation is unique. -/
theorem IsMunch.unique {ts : List (List α)} {input : List α} (h : IsMunch cont ts input) :
    ts = munch cont input := by
  induction ts generalizing input with
  | nil =>
      have hnil : input = [] := by simpa using h.flatten_eq.symm
      simp [hnil, munch]
  | cons t ts ih =>
      rcases h.lexemes t (by simp) with ⟨c, w, rfl, hw⟩
      have hlex : Lexeme cont (c :: w) := lexeme_cons.mpr hw
      have hchain := List.isChain_cons.mp h.maximal
      have hinput : input = c :: (w ++ ts.flatten) := by
        simpa using h.flatten_eq.symm
      -- The next lexeme starts with an element that `t` could not take.
      have hstop : ∀ d, ts.flatten.head? = some d → cont c d = false := by
        intro d hd
        cases ts with
        | nil =>
            simp at hd
        | cons u us =>
            rcases h.lexemes u (by simp) with ⟨e, v, rfl, _⟩
            have hed : e = d := by simpa using hd
            have hblocked := hchain.1 (e :: v) rfl e rfl
            rw [lexeme_append_iff hlex, hed] at hblocked
            simpa using hblocked
      -- So `munch` cuts the input where `t` ends.
      have htake : (w ++ ts.flatten).takeWhile (cont c) = w := by
        rw [List.takeWhile_append_of_pos hw]
        cases hf : ts.flatten with
        | nil =>
            simp
        | cons d ds =>
            simp [hstop d (by simp [hf])]
      have hdrop : (w ++ ts.flatten).dropWhile (cont c) = ts.flatten := by
        rw [List.dropWhile_append_of_pos hw]
        cases hf : ts.flatten with
        | nil =>
            simp
        | cons d ds =>
            simp [hstop d (by simp [hf])]
      have hrest : IsMunch cont ts ts.flatten :=
        { flatten_eq := rfl
          lexemes := fun u hu => h.lexemes u (by simp [hu])
          maximal := hchain.2 }
      rw [hinput, munch_cons, htake, hdrop, ← ih hrest]

end Lemmas

end Base
end Etude
