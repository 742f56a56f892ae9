import Etude.Base.ShowString
import Etude.PutKvCsv.Model
import Etude.Tokenizer.Segmentation
import Mathlib.Data.Char
import Mathlib.Data.Finset.Sort
import Mathlib.Data.List.Lex

/-!
# Listings — which tokens and which characters the expressions use

`FilterOperatorMain` prints the tokens without a digit of all lines of its files, and
`FilterExprCharsMain` the characters of its files.  Both collect a set and print what `show` makes
of it, the one without the constructor and the other without the quotes.  A file is its text, and
`none` is an exception.
-/

namespace Etude
namespace Tokenizer

open Base Base.Read
open Cat (GeneralCategory isSpace)
open PutKvCsv (strip)

/-! ## FilterOperatorMain -/

/-- `matchRegex (mkRegex "[0-9]+")` finds a match. -/
def hasNumber (t : Text) : Bool :=
  t.any (· ∈ numberStartChars)

/-- `transform` -/
def operators (content : Text) : Option (List Text) := do
  let tokens ← (lines content).mapM tokenize
  some ((tokens.flatMap Prod.fst).filter fun t => !hasNumber t)

/-- `show`, of a set of texts. -/
def showSet (s : Finset Text) : Text :=
  "fromList ".toList ++ showStrings (s.sort (· ≤ ·)) []

/-- What is printed for the files of the command line; without any, there is only the usage. -/
def filterOperatorMain (generalCategory : Char → GeneralCategory) (files : List Text) :
    Option Text :=
  if files = [] then some []
  else do
    let tokens ← files.mapM operators
    -- The first token of the text is the constructor, and is thrown away.
    let (_, a) ← token (showSet tokens.flatten.toFinset)
    some (strip generalCategory a ++ ['\n'])

/-! ## FilterExprCharsMain -/

/-- `transform` -/
def chars (content : Text) : Finset Char :=
  content.foldl (fun s c => insert c s) ∅

def filterExprCharsMain (files : List Text) : Text :=
  if files = [] then []
  else
    let charSet := (files.map chars).foldl (· ∪ ·) ∅
    -- `init . tail . show`
    (showString (charSet.sort (· ≤ ·)) []).tail.dropLast ++ ['\n']

/-! ## What the set of tokens holds -/

theorem hasNumber_eq_false {t : Text} : hasNumber t = false ↔ ∀ c ∈ t, ¬ c.isDigit = true := by
  rw [hasNumber, List.any_eq_false]
  simp only [decide_eq_true_eq, mem_numberStartChars]

theorem operators_eq (content : Text) :
    operators content =
      some (((lines content).flatMap (munch continues)).filter fun t => !hasNumber t) := by
  have htokens : (lines content).mapM tokenize =
      some ((lines content).map fun line => (munch continues line, [])) := by
    have hpure : tokenize = fun line => pure (munch continues line, []) := funext tokenize_eq
    rw [hpure, List.mapM_pure]
    rfl
  simp [operators, htokens, List.flatMap_map]

theorem mem_munch_iff {line t : Text} :
    t ∈ munch continues line ↔ ∃ tokens, IsSegmentation tokens line ∧ t ∈ tokens := by
  constructor
  · exact fun h => ⟨_, isSegmentation_iff_isMunch.mpr (munch_isMunch line), h⟩
  · rintro ⟨tokens, hseg, ht⟩
    rwa [← (isSegmentation_iff_isMunch.mp hseg).unique]

/-- The set for all files. -/
theorem mapM_operators (files : List Text) :
    ∃ tokens : List (List Text), files.mapM operators = some tokens ∧
      ∀ t, t ∈ tokens.flatten ↔
        (∃ content ∈ files, ∃ line ∈ lines content, ∃ ts, IsSegmentation ts line ∧ t ∈ ts) ∧
          ∀ c ∈ t, ¬ c.isDigit = true := by
  have hpure : operators = fun content => pure
      (((lines content).flatMap (munch continues)).filter fun t => !hasNumber t) :=
    funext operators_eq
  refine ⟨_, by rw [hpure, List.mapM_pure]; rfl, ?_⟩
  intro t
  simp only [List.mem_flatten, List.mem_map, exists_exists_and_eq_and, List.mem_filter,
    List.mem_flatMap, mem_munch_iff, Bool.not_eq_true', hasNumber_eq_false]
  constructor
  · rintro ⟨content, hcontent, htoken, hdigits⟩
    exact ⟨⟨content, hcontent, htoken⟩, hdigits⟩
  · rintro ⟨⟨content, hcontent, htoken⟩, hdigits⟩
    exact ⟨content, hcontent, htoken, hdigits⟩

/-! ## What is printed -/

/-- The name of the constructor is a symbol, which the blank behind it ends. -/
theorem token_fromList (shown : Text) :
    ∃ name, token ("fromList ".toList ++ shown) = some (name, ' ' :: shown) := by
  have hname : "fromList ".toList = 'f' :: ("romList".toList ++ [' ']) := by decide
  have hsymbol : ∀ d ∈ "romList".toList, continues 'f' d = true :=
    List.all_eq_true.mp (by decide +kernel)
  have hblank : continues 'f' ' ' = false := by decide +kernel
  refine ⟨'f' :: "romList".toList, ?_⟩
  rw [hname, List.cons_append, List.append_assoc, token_cons,
    List.takeWhile_append_of_pos hsymbol, List.dropWhile_append_of_pos hsymbol,
    List.singleton_append, List.takeWhile_cons_of_neg, List.dropWhile_cons_of_neg, List.append_nil]
  · simp [hblank]
  · simp [hblank]

theorem token_showSet (s : Finset Text) :
    ∃ name, token (showSet s) = some (name, ' ' :: showStrings (s.sort (· ≤ ·)) []) :=
  token_fromList _

theorem strip_space (generalCategory : Char → GeneralCategory) (xs : List Text) :
    strip generalCategory (' ' :: showStrings xs []) = showStrings xs [] := by
  have hfirst : ∃ rest, showStrings xs [] = '[' :: rest := by
    cases xs with
    | nil =>
        exact ⟨_, rfl⟩
    | cons x xs =>
        exact ⟨_, rfl⟩
  rcases hfirst with ⟨rest, hrest⟩
  rcases suffix_showStrings xs [] with ⟨front, hfront⟩
  have hleft : (' ' :: showStrings xs []).dropWhile (isSpace generalCategory) =
      showStrings xs [] := by
    have hopen : isSpace generalCategory '[' = false := rfl
    have hspace : isSpace generalCategory ' ' = true := rfl
    rw [List.dropWhile_cons_of_pos hspace, hrest, List.dropWhile_cons_of_neg (by simp [hopen])]
  -- A list ends with its bracket, so nothing is stripped on the right.
  have hclose : isSpace generalCategory ']' = false := rfl
  rw [strip, hleft, ← hfront, List.rdropWhile_concat_neg _ _ _ (by simp [hclose])]

/-- The tokens without a digit of all lines of all files, each once and in ascending order, can be
read back from what is printed. -/
theorem filterOperatorMain_lists (generalCategory : Char → GeneralCategory) (files : List Text)
    (h : files ≠ []) :
    ∃ out ts, filterOperatorMain generalCategory files = some (out ++ ['\n']) ∧
      readStrings out = some (ts, []) ∧ ts.Pairwise (· < ·) ∧
      ∀ t, t ∈ ts ↔
        (∃ content ∈ files, ∃ line ∈ lines content, ∃ tokens,
          IsSegmentation tokens line ∧ t ∈ tokens) ∧ ∀ c ∈ t, ¬ c.isDigit = true := by
  rcases mapM_operators files with ⟨tokens, hmap, hmem⟩
  let ts := tokens.flatten.toFinset.sort (· ≤ ·)
  rcases token_showSet tokens.flatten.toFinset with ⟨name, hname⟩
  refine ⟨showStrings ts [], ts, ?_, readStrings_showStrings ts [], ?_, ?_⟩
  · simp only [filterOperatorMain, if_neg h, hmap, hname, Option.bind_eq_bind, Option.bind_some,
      strip_space, ts]
  · exact (Finset.sortedLT_sort _).pairwise
  · intro t
    rw [← hmem t, Finset.mem_sort, List.mem_toFinset]

theorem filterOperatorMain_lists_sum :
    ∃ out ts, filterOperatorMain (fun _ => .notAssigned) ["a1 + b".toList] =
        some (out ++ ['\n']) ∧
      readStrings out = some (ts, []) ∧ ts.Pairwise (· < ·) ∧
      ∀ t, t ∈ ts ↔
        (∃ content ∈ ["a1 + b".toList], ∃ line ∈ lines content, ∃ tokens,
          IsSegmentation tokens line ∧ t ∈ tokens) ∧ ∀ c ∈ t, ¬ c.isDigit = true :=
  filterOperatorMain_lists (fun _ => .notAssigned) ["a1 + b".toList] (by simp)

/-! ## The set of characters -/

/-- What folding over a list has put into a set. -/
theorem mem_foldl_iff {α β : Type} {f : Finset α → β → Finset α} {P : β → α → Prop}
    (hf : ∀ s b a, a ∈ f s b ↔ a ∈ s ∨ P b a) (bs : List β) (s : Finset α) (a : α) :
    a ∈ bs.foldl f s ↔ a ∈ s ∨ ∃ b ∈ bs, P b a := by
  induction bs generalizing s with
  | nil =>
      simp
  | cons b bs ih =>
      rw [List.foldl_cons, ih, hf]
      simp [or_assoc]

theorem mem_chars {content : Text} {c : Char} : c ∈ chars content ↔ c ∈ content := by
  have hinsert : ∀ (s : Finset Char) (b a : Char), a ∈ insert b s ↔ a ∈ s ∨ a = b := by
    intro s b a
    rw [Finset.mem_insert, or_comm]
  rw [chars, mem_foldl_iff hinsert]
  simp

/-- The characters of all files, each once and in ascending order, can be read back from what is
printed between quotes. -/
theorem filterExprCharsMain_lists (files : List Text) (h : files ≠ []) :
    ∃ out cs, filterExprCharsMain files = out ++ ['\n'] ∧
      readString ('"' :: out ++ ['"']) = some (cs, []) ∧ cs.Pairwise (· < ·) ∧
      ∀ c, c ∈ cs ↔ ∃ content ∈ files, c ∈ content := by
  let charSet := (files.map chars).foldl (· ∪ ·) ∅
  let cs := charSet.sort (· ≤ ·)
  rcases suffix_showLitString cs ['"'] with ⟨out, hout⟩
  have hshown : showString cs [] = '"' :: (out ++ ['"']) := by rw [showString, hout]
  refine ⟨out, cs, ?_, ?_, (Finset.sortedLT_sort _).pairwise, ?_⟩
  · change (if files = [] then [] else (showString cs []).tail.dropLast ++ ['\n']) = _
    rw [if_neg h, hshown, List.tail_cons, List.dropLast_concat]
  · rw [List.cons_append, ← hshown]
    exact readString_showString cs []
  · intro c
    have hmem : c ∈ charSet ↔ c ∈ (∅ : Finset Char) ∨ ∃ set ∈ files.map chars, c ∈ set :=
      mem_foldl_iff (P := fun set c => c ∈ set) (fun _ _ _ => Finset.mem_union) _ _ _
    rw [Finset.mem_sort, hmem]
    simp [mem_chars]

theorem filterExprCharsMain_lists_sum :
    ∃ out cs, filterExprCharsMain ["a1 + b".toList] = out ++ ['\n'] ∧
      readString ('"' :: out ++ ['"']) = some (cs, []) ∧ cs.Pairwise (· < ·) ∧
      ∀ c, c ∈ cs ↔ ∃ content ∈ ["a1 + b".toList], c ∈ content :=
  filterExprCharsMain_lists ["a1 + b".toList] (by simp)

end Tokenizer
end Etude
