import Etude.Base.Lines
import Etude.Tokenizer.Segmentation

/-!
# Substitution — `toExprTk` and the program that applies it to files

`toExprTk` puts `get_signal(` for the token `[` and `)` for the token `]`.  A bracket is always a
token of its own, so this is the substitution of two characters.
-/

namespace Etude
namespace Tokenizer

open Base

/-! ## The code -/

def toGetSignal (t : Text) : Text :=
  if t = ['['] then "get_signal(".toList
  else if t = [']'] then [')']
  else t

def toExprTk (t : Text) : Option Text :=
  (tokenize t).map fun p => (p.1.map toGetSignal).flatten

/-- `transform` of `ToExprTkMain.hs`, which does not look at the options. -/
def transform (content : Text) : Option (List Text) :=
  (lines content).mapM toExprTk

/-! ## Brackets -/

def IsBracket (c : Char) : Prop := c = '[' ∨ c = ']'

/-- What a character is replaced by. -/
def substituteBracket (c : Char) : Text :=
  if c = '[' then "get_signal(".toList
  else if c = ']' then [')']
  else [c]

theorem substituteBracket_of_not {c : Char} (h : ¬ IsBracket c) : substituteBracket c = [c] := by
  rw [IsBracket, not_or] at h
  simp [substituteBracket, h.1, h.2]

/-- No longer token holds a bracket. -/
theorem IsToken.eq_singleton {t : Text} (h : IsToken t) {c : Char} (hc : c ∈ t)
    (hbracket : IsBracket c) : t = [c] := by
  have hnot : c ∉ blankChars ∧ c ∉ numberChars ∧ c ∉ symbolChars ∧ c ∉ comparatorChars := by
    rcases hbracket with rfl | rfl <;> decide
  cases h with
  | blank _ hall =>
      exact absurd (mem_blankChars.mpr (hall c hc)) hnot.1
  | number hd hall =>
      rcases List.mem_cons.mp hc with rfl | hmem
      · exact absurd (mem_numberChars.mpr (Or.inr hd)) hnot.2.1
      · exact absurd (mem_numberChars.mpr (hall c hmem)) hnot.2.1
  | symbol hd hall =>
      rcases List.mem_cons.mp hc with rfl | hmem
      · exact absurd (mem_symbolChars.mpr (Or.inl hd)) hnot.2.2.1
      · exact absurd (mem_symbolChars.mpr (hall c hmem)) hnot.2.2.1
  | comparator _ hall =>
      exact absurd (mem_comparatorChars.mpr (hall c hc)) hnot.2.2.2
  | single _ _ _ _ =>
      rw [List.mem_singleton.mp hc]

/-- On tokens the replacement of whole tokens is that of characters. -/
theorem toGetSignal_eq_flatMap {t : Text} (h : IsToken t) :
    toGetSignal t = t.flatMap substituteBracket := by
  by_cases hbracket : ∃ c ∈ t, IsBracket c
  · rcases hbracket with ⟨c, hc, hcb⟩
    rw [h.eq_singleton hc hcb]
    rcases hcb with rfl | rfl <;> rfl
  · have hplain : ∀ c ∈ t, ¬ IsBracket c := fun c hc hcb => hbracket ⟨c, hc, hcb⟩
    have hsame : t.flatMap substituteBracket = t.flatMap fun c => [c] :=
      List.flatMap_congr fun c hc => substituteBracket_of_not (hplain c hc)
    have hopen : t ≠ ['['] := fun heq => hplain '[' (by simp [heq]) (Or.inl rfl)
    have hclose : t ≠ [']'] := fun heq => hplain ']' (by simp [heq]) (Or.inr rfl)
    rw [hsame, List.flatMap_singleton', toGetSignal, if_neg hopen, if_neg hclose]

/-! ## The substitution -/

theorem toExprTk_eq_flatMap (t : Text) : toExprTk t = some (t.flatMap substituteBracket) := by
  have hmunch : IsMunch continues (munch continues t) t := munch_isMunch t
  rw [toExprTk, tokenize_eq, Option.map_some, ← List.flatMap_def,
    hmunch.flatMap_eq fun u hu => toGetSignal_eq_flatMap (isToken_iff_lexeme.mpr hu)]

/-- A text is transformed line by line, which changes none of the breaks. -/
theorem transform_eq_lines (content : Text) :
    transform content = some (lines (content.flatMap substituteBracket)) := by
  have hother : ∀ c, c ≠ '\n' → '\n' ∉ substituteBracket c ∧ substituteBracket c ≠ [] := by
    intro c hc
    by_cases hbracket : IsBracket c
    · rcases hbracket with rfl | rfl <;> decide
    · rw [substituteBracket_of_not hbracket]
      exact ⟨fun hmem => hc (List.mem_singleton.mp hmem).symm, List.cons_ne_nil _ _⟩
  have hfun : toExprTk = fun t => pure (t.flatMap substituteBracket) :=
    funext toExprTk_eq_flatMap
  rw [transform, hfun, lines_flatMap rfl hother, List.mapM_pure]
  rfl

/-- `toExprTk` replaces each `[` by `get_signal(`, each `]` by `)` and nothing else; of the tokens
it goes through, those with a bracket in them are the bracket alone. -/
theorem toExprTk_substitutes (t : Text) :
    toExprTk t = some (t.flatMap substituteBracket) ∧
      ∃ ts, tokenize t = some (ts, []) ∧ ts.flatten = t ∧
        ∀ tk ∈ ts, ∀ c ∈ tk, IsBracket c → tk = [c] := by
  have hmunch : IsMunch continues (munch continues t) t := munch_isMunch t
  refine ⟨toExprTk_eq_flatMap t, munch continues t, tokenize_eq t, hmunch.flatten_eq, ?_⟩
  intro tk htk c hc hbracket
  exact (isToken_iff_lexeme.mpr (hmunch.lexemes tk htk)).eq_singleton hc hbracket

end Tokenizer
end Etude
