import Mathlib.Data.List.Infix
import Etude.Base.Munch
import Etude.Tokenizer.Model

/-!
# Segmentation — what `tokenize` returns

The token classes are stated with predicates on characters of their own (`IsToken`), and related
to the sets of the source.  `tokenize` is the maximal segmentation of the text into such tokens.
-/

namespace Etude
namespace Tokenizer

open Base

/-! ## Character classes as predicates -/

def IsBlank (c : Char) : Prop := c = '\n' ∨ c = '\r' ∨ c = '\t' ∨ c = ' '

def IsLetterOrUnderscore (c : Char) : Prop := c = '_' ∨ c.isAlpha = true

def IsComparator (c : Char) : Prop := c = '<' ∨ c = '=' ∨ c = '>'

theorem mem_charRange {lo hi c : Char} (hhi : hi.toNat < 0xd800) :
    c ∈ charRange lo hi ↔ lo.toNat ≤ c.toNat ∧ c.toNat ≤ hi.toNat := by
  simp only [charRange, List.mem_map, List.mem_range'_1]
  constructor
  · rintro ⟨n, hn, rfl⟩
    -- Below the surrogates every number is a character.
    have hvalid : n.isValidChar := Or.inl (by omega)
    have hn' : (Char.ofNat n).toNat = n := by
      rw [show Char.ofNat n = Char.ofNatAux n hvalid from dif_pos hvalid]
      rfl
    omega
  · intro hc
    exact ⟨c.toNat, by omega, Char.ofNat_toNat c⟩

theorem mem_blankChars {c : Char} : c ∈ blankChars ↔ IsBlank c := by
  simp [blankChars, IsBlank]

theorem mem_comparatorChars {c : Char} : c ∈ comparatorChars ↔ IsComparator c := by
  simp [comparatorChars, IsComparator]

theorem numberStartChars_eq : numberStartChars = charRange '0' '9' := by
  decide

theorem mem_numberStartChars {c : Char} : c ∈ numberStartChars ↔ c.isDigit = true := by
  rw [numberStartChars_eq, mem_charRange (by decide), Char.isDigit_iff_toNat]

theorem mem_numberChars {c : Char} : c ∈ numberChars ↔ c = '.' ∨ c.isDigit = true := by
  rw [numberChars, List.mem_cons, mem_numberStartChars]

theorem isAlpha_iff_toNat {c : Char} :
    c.isAlpha = true ↔ ('A'.toNat ≤ c.toNat ∧ c.toNat ≤ 'Z'.toNat) ∨
      ('a'.toNat ≤ c.toNat ∧ c.toNat ≤ 'z'.toNat) := by
  have hdef : c.isAlpha = (decide (c.val ≥ 'A'.val ∧ c.val ≤ 'Z'.val) ||
      decide (c.val ≥ 'a'.val) && decide (c.val ≤ 'z'.val)) := rfl
  rw [hdef]
  simp [UInt32.le_iff_toNat_le]

theorem mem_symbolStartChars {c : Char} :
    c ∈ symbolStartChars ↔ IsLetterOrUnderscore c := by
  simp only [symbolStartChars, List.mem_append, List.mem_singleton, IsLetterOrUnderscore,
    isAlpha_iff_toNat, mem_charRange (show ('Z').toNat < 0xd800 by decide),
    mem_charRange (show ('z').toNat < 0xd800 by decide), or_assoc]

theorem mem_symbolChars {c : Char} :
    c ∈ symbolChars ↔ IsLetterOrUnderscore c ∨ c.isDigit = true := by
  rw [symbolChars, List.mem_append, mem_symbolStartChars, ← numberStartChars_eq,
    mem_numberStartChars]

/-! ## Tokens -/

/-- The tokens of the language. -/
inductive IsToken : Text → Prop
  | blank {t : Text} : t ≠ [] → (∀ c ∈ t, IsBlank c) → IsToken t
  | number {c : Char} {cs : Text} :
      c.isDigit = true → (∀ d ∈ cs, d = '.' ∨ d.isDigit = true) → IsToken (c :: cs)
  | symbol {c : Char} {cs : Text} :
      IsLetterOrUnderscore c → (∀ d ∈ cs, IsLetterOrUnderscore d ∨ d.isDigit = true) →
      IsToken (c :: cs)
  | comparator {t : Text} : t ≠ [] → (∀ c ∈ t, IsComparator c) → IsToken t
  | single {c : Char} :
      ¬ IsBlank c → ¬ c.isDigit = true → ¬ IsLetterOrUnderscore c → ¬ IsComparator c →
      IsToken [c]

/-- Tokens with concatenation `input`, none of which could be extended by the first character of
the next one. -/
structure IsSegmentation (ts : List Text) (input : Text) : Prop where
  flatten_eq : ts.flatten = input
  tokens : ∀ t ∈ ts, IsToken t
  maximal : ts.IsChain fun t u => ∀ d, u.head? = some d → ¬ IsToken (t ++ [d])

/-- Whether `d` may occur in a token that starts with `c`, by the dispatch of `token`. -/
def continues (c d : Char) : Bool :=
  if c ∈ blankChars then d ∈ blankChars
  else if c ∈ numberStartChars then d ∈ numberChars
  else if c ∈ symbolStartChars then d ∈ symbolChars
  else if c ∈ arithOpChars then false
  else if c ∈ comparatorChars then d ∈ comparatorChars
  else false

theorem classes_disjoint :
    (∀ c ∈ numberStartChars, c ∉ blankChars) ∧
      (∀ c ∈ symbolStartChars, c ∉ blankChars ∧ c ∉ numberStartChars) ∧
      (∀ c ∈ comparatorChars,
        c ∉ blankChars ∧ c ∉ numberStartChars ∧ c ∉ symbolStartChars ∧ c ∉ arithOpChars) := by
  have hnum : numberStartChars.all (fun c => c ∉ blankChars) = true := by decide
  have hsym : symbolStartChars.all (fun c => c ∉ blankChars ∧ c ∉ numberStartChars) = true := by
    decide
  have hcmp : comparatorChars.all (fun c =>
      c ∉ blankChars ∧ c ∉ numberStartChars ∧ c ∉ symbolStartChars ∧ c ∉ arithOpChars) = true := by
    decide
  refine ⟨?_, ?_, ?_⟩
  · intro c hc
    simpa using List.all_eq_true.mp hnum c hc
  · intro c hc
    simpa using List.all_eq_true.mp hsym c hc
  · intro c hc
    simpa using List.all_eq_true.mp hcmp c hc

/-- A start character is in no class that the dispatch tests before its own. -/
theorem IsToken.lexeme {t : Text} (h : IsToken t) : Lexeme continues t := by
  rcases classes_disjoint with ⟨hnum, hsym, hcmp⟩
  cases h with
  | blank hne hall =>
      rcases List.exists_cons_of_ne_nil hne with ⟨c, cs, rfl⟩
      have hc : c ∈ blankChars := mem_blankChars.mpr (hall c (by simp))
      refine lexeme_cons.mpr fun d hd => ?_
      simp [continues, hc, mem_blankChars, hall d (by simp [hd])]
  | number hc hall =>
      rw [← mem_numberStartChars] at hc
      refine lexeme_cons.mpr fun d hd => ?_
      simp [continues, hnum _ hc, hc, mem_numberChars, hall d hd]
  | symbol hc hall =>
      rw [← mem_symbolStartChars] at hc
      refine lexeme_cons.mpr fun d hd => ?_
      simp [continues, hsym _ hc, hc, mem_symbolChars, hall d hd]
  | comparator hne hall =>
      rcases List.exists_cons_of_ne_nil hne with ⟨c, cs, rfl⟩
      have hc : c ∈ comparatorChars := mem_comparatorChars.mpr (hall c (by simp))
      refine lexeme_cons.mpr fun d hd => ?_
      simp [continues, hcmp _ hc, hc, mem_comparatorChars, hall d (by simp [hd])]
  | single _ _ _ _ =>
      exact lexeme_cons.mpr fun d hd => by simp at hd

/-- The cases are those of the dispatch, in its order. -/
theorem isToken_of_lexeme {t : Text} (h : Lexeme continues t) : IsToken t := by
  rcases h with ⟨c, cs, rfl, hcs⟩
  by_cases hb : c ∈ blankChars
  · refine .blank (by simp) fun d hd => ?_
    rcases List.mem_cons.mp hd with rfl | hd
    · exact mem_blankChars.mp hb
    · exact mem_blankChars.mp (by simpa [continues, hb] using hcs d hd)
  by_cases hn : c ∈ numberStartChars
  · refine .number (mem_numberStartChars.mp hn) fun d hd => ?_
    exact mem_numberChars.mp (by simpa [continues, hb, hn] using hcs d hd)
  by_cases hs : c ∈ symbolStartChars
  · refine .symbol (mem_symbolStartChars.mp hs) fun d hd => ?_
    exact mem_symbolChars.mp (by simpa [continues, hb, hn, hs] using hcs d hd)
  by_cases hk : c ∈ comparatorChars
  · have ha := (classes_disjoint.2.2 c hk).2.2.2
    refine .comparator (by simp) fun d hd => ?_
    rcases List.mem_cons.mp hd with rfl | hd
    · exact mem_comparatorChars.mp hk
    · exact mem_comparatorChars.mp (by simpa [continues, hb, hn, hs, ha, hk] using hcs d hd)
  -- No character may follow `c`.
  have hnil : cs = [] := by
    cases cs with
    | nil =>
        rfl
    | cons d ds =>
        have hd := hcs d (by simp)
        simp [continues, hb, hn, hs, hk] at hd
  subst hnil
  rw [mem_blankChars] at hb
  rw [mem_numberStartChars] at hn
  rw [mem_symbolStartChars] at hs
  rw [mem_comparatorChars] at hk
  exact .single hb hn hs hk

/-- The token classes are the lexemes of the dispatch. -/
theorem isToken_iff_lexeme {t : Text} : IsToken t ↔ Lexeme continues t :=
  ⟨IsToken.lexeme, isToken_of_lexeme⟩

theorem isSegmentation_iff_isMunch {ts : List Text} {input : Text} :
    IsSegmentation ts input ↔ IsMunch continues ts input := by
  constructor
  · intro h
    exact
      { flatten_eq := h.flatten_eq
        lexemes := fun t ht => isToken_iff_lexeme.mp (h.tokens t ht)
        maximal := h.maximal.imp fun t u hb d hd hlex =>
          hb d hd (isToken_iff_lexeme.mpr hlex) }
  · intro h
    exact
      { flatten_eq := h.flatten_eq
        tokens := fun t ht => isToken_iff_lexeme.mpr (h.lexemes t ht)
        maximal := h.maximal.imp fun t u hb d hd htok =>
          hb d hd (isToken_iff_lexeme.mp htok) }

/-! ## The code computes the segmentation -/

/-- One call of `token` takes the longest lexeme from the front. -/
theorem token_cons (c : Char) (tail : Text) :
    token (c :: tail) =
      some (c :: tail.takeWhile (continues c), tail.dropWhile (continues c)) := by
  by_cases hb : c ∈ blankChars
  · have hcont : continues c = fun d => decide (d ∈ blankChars) := by
      funext d
      simp [continues, hb]
    simp [token, blank, accumulate_eq, hcont, hb]
  by_cases hn : c ∈ numberStartChars
  · have hcont : continues c = fun d => decide (d ∈ numberChars) := by
      funext d
      simp [continues, hb, hn]
    simp [token, number, accumulate_eq, hcont, hb, hn]
  by_cases hs : c ∈ symbolStartChars
  · have hcont : continues c = fun d => decide (d ∈ symbolChars) := by
      funext d
      simp [continues, hb, hn, hs]
    simp [token, symbol, accumulate_eq, hcont, hb, hn, hs]
  by_cases hk : c ∈ comparatorChars
  · have ha := (classes_disjoint.2.2 c hk).2.2.2
    have hcont : continues c = fun d => decide (d ∈ comparatorChars) := by
      funext d
      simp [continues, hb, hn, hs, ha, hk]
    simp [token, comparator, accumulate_eq, hcont, hb, hn, hs, ha, hk]
  · -- The three remaining branches return the one character.
    have hcont : continues c = fun _ => false := by
      funext d
      simp [continues, hb, hn, hs, hk]
    have hspan : tail.takeWhile (continues c) = [] ∧ tail.dropWhile (continues c) = tail := by
      rw [hcont]
      cases tail <;> simp
    simp [token, hspan, hb, hn, hs, hk]

theorem loop_eq (tokens : List Text) {remaining : Text} (h : remaining ≠ []) :
    loop tokens remaining = some (tokens ++ munch continues remaining, []) := by
  -- `loop` and `munch` make the same recursive call.
  induction remaining using munch.induct continues generalizing tokens with
  | case1 =>
      exact absurd rfl h
  | case2 c cs ih =>
      rw [loop, token_cons, munch_cons]
      by_cases hrest : cs.dropWhile (continues c) = []
      · simp [hrest, munch]
      · simp [hrest, ih _ hrest]

theorem tokenize_eq (input : Text) :
    tokenize input = some (munch continues input, []) := by
  by_cases h : input = []
  · simp [tokenize, h, munch]
  · simp [tokenize, h, loop_eq [] h]

/-! ## Runs of blanks -/

/-- A token that ends in a blank consists of blanks. -/
theorem isBlank_of_getLast {t : Text} (h : IsToken t) {c : Char} (hc : t.getLast? = some c)
    (hb : IsBlank c) : ∀ d ∈ t, IsBlank d := by
  rcases classes_disjoint with ⟨hnum, hsym, hcmp⟩
  have hmem : c ∈ t := List.mem_of_getLast? hc
  -- No other token may contain a blank at all.
  have hnot : c ∉ numberChars ∧ c ∉ symbolChars ∧ c ∉ comparatorChars := by
    rcases hb with rfl | rfl | rfl | rfl <;> decide
  cases h with
  | blank _ hall =>
      exact hall
  | number hd hall =>
      rcases List.mem_cons.mp hmem with rfl | hmem
      · exact absurd (mem_numberChars.mpr (Or.inr hd)) hnot.1
      · exact absurd (mem_numberChars.mpr (hall c hmem)) hnot.1
  | symbol hd hall =>
      rcases List.mem_cons.mp hmem with rfl | hmem
      · exact absurd (mem_symbolChars.mpr (Or.inl hd)) hnot.2.1
      · exact absurd (mem_symbolChars.mpr (hall c hmem)) hnot.2.1
  | comparator _ hall =>
      exact absurd (mem_comparatorChars.mpr (hall c hmem)) hnot.2.2
  | single hnb _ _ _ =>
      have heq : c = _ := List.mem_singleton.mp hmem
      subst heq
      exact absurd hb hnb

/-- In a segmentation a blank token reaches from one non-blank character to the next. -/
theorem IsSegmentation.blank_maximal {ts : List Text} {input : Text}
    (h : IsSegmentation ts input) {l r : List Text} {t : Text} (hts : ts = l ++ t :: r)
    (ht : ∀ c ∈ t, IsBlank c) :
    (∀ c, l.flatten.getLast? = some c → ¬ IsBlank c) ∧
      (∀ c, r.flatten.head? = some c → ¬ IsBlank c) := by
  subst hts
  have htok : IsToken t := h.tokens t (by simp)
  have hne : t ≠ [] := (isToken_iff_lexeme.mp htok).ne_nil
  have hright := (List.isChain_append.mp h.maximal).2.1
  constructor
  · intro c hc hb
    rcases List.eq_nil_or_concat l with rfl | ⟨l', s, rfl⟩
    · simp at hc
    · have hs : IsToken s := h.tokens s (by simp)
      have hsne : s ≠ [] := (isToken_iff_lexeme.mp hs).ne_nil
      rcases List.exists_cons_of_ne_nil hne with ⟨d, ds, rfl⟩
      have hlast : s.getLast? = some c := by
        simpa [List.getLast?_append, hsne] using hc
      -- A blank before the token could have been followed by its first character.
      have hblocked := (List.isChain_append.mp h.maximal).2.2 s (by simp) (d :: ds) (by simp)
      refine hblocked d rfl (.blank (by simp) fun e he => ?_)
      rcases List.mem_append.mp he with he | he
      · exact isBlank_of_getLast hs hlast hb e he
      · rw [List.mem_singleton.mp he]
        exact ht d (by simp)
  · intro c hc hb
    cases r with
    | nil =>
        simp at hc
    | cons u us =>
        have hu : IsToken u := h.tokens u (by simp)
        rcases List.exists_cons_of_ne_nil (isToken_iff_lexeme.mp hu).ne_nil with ⟨d, ds, rfl⟩
        have hdc : d = c := by simpa using hc
        -- And the token itself could have been extended by a blank behind it.
        have hblocked := (List.isChain_cons.mp hright).1 (d :: ds) rfl
        refine hblocked d rfl (.blank (by simp) fun e he => ?_)
        rcases List.mem_append.mp he with he | he
        · exact ht e he
        · rw [List.mem_singleton.mp he, hdc]
          exact hb

/-- `tokenize` returns, with nothing left over, the only segmentation of its input into tokens
none of which can be extended; in it a run of blanks is never cut. -/
theorem tokenize_maximal_munch (input : Text) (h : input ≠ []) :
    ∃ ts, tokenize input = some (ts, []) ∧ ts ≠ [] ∧ (∀ t ∈ ts, t ≠ []) ∧
      IsSegmentation ts input ∧
      (∀ us, IsSegmentation us input → us = ts) ∧
      (∀ l t r, ts = l ++ t :: r → (∀ c ∈ t, IsBlank c) →
        (∀ c, l.flatten.getLast? = some c → ¬ IsBlank c) ∧
          (∀ c, r.flatten.head? = some c → ¬ IsBlank c)) := by
  have hmunch : IsMunch continues (munch continues input) input := munch_isMunch input
  have hseg := isSegmentation_iff_isMunch.mpr hmunch
  refine ⟨munch continues input, tokenize_eq input, ?_, ?_, hseg, ?_, ?_⟩
  · intro hnil
    have hflat := hmunch.flatten_eq
    rw [hnil] at hflat
    exact h hflat.symm
  · exact fun t ht => (hmunch.lexemes t ht).ne_nil
  · exact fun us hus => (isSegmentation_iff_isMunch.mp hus).unique
  · exact fun l t r hts ht => hseg.blank_maximal hts ht

theorem tokenize_maximal_munch_expr :
    ∃ ts, tokenize ['a', '1', '<', '=', ' ', ' ', '2', '.', '5', 'x'] = some (ts, []) ∧
      ts ≠ [] ∧ (∀ t ∈ ts, t ≠ []) ∧
      IsSegmentation ts ['a', '1', '<', '=', ' ', ' ', '2', '.', '5', 'x'] ∧
      (∀ us, IsSegmentation us ['a', '1', '<', '=', ' ', ' ', '2', '.', '5', 'x'] → us = ts) ∧
      (∀ l t r, ts = l ++ t :: r → (∀ c ∈ t, IsBlank c) →
        (∀ c, l.flatten.getLast? = some c → ¬ IsBlank c) ∧
          (∀ c, r.flatten.head? = some c → ¬ IsBlank c)) :=
  tokenize_maximal_munch _ (by simp)

end Tokenizer
end Etude
