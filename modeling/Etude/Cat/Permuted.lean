import Mathlib.Data.List.Perm.Basic
import Etude.Cat.Characters

/-!
# Permuted — two command lines with the same options

What `cat` prints depends on the order of the flags only through the lines that `-s` leaves out.
The number of these lines shows in the text, and of two orders that `parse` can return one always
leaves out at least the lines of the other.
-/

namespace Etude
namespace Cat

open Base Base.GetOpt

section Text

variable {generalCategory : Char → GeneralCategory}

/-! ## Numbers and line breaks -/

/-- No line holds a line break. -/
def Unbroken (ls : List Line) : Prop :=
  ∀ l ∈ ls, '\n' ∉ l

theorem unbroken_iff {ls : List Line} : Unbroken ls ↔ AllChars (fun c => c ≠ '\n') ls := by
  constructor
  · intro h l hl c hc heq
    exact h l hl (heq ▸ hc)
  · intro h l hl hmem
    exact h l hl '\n' hmem rfl

theorem ne_newline_of_graphic {c : Char} (h : Graphic c) : c ≠ '\n' := by
  rintro rfl
  exact absurd h (by decide)

theorem ne_newline_tabs {c : Char} (hc : c ≠ '\n') : ∀ d ∈ tabs c, d ≠ '\n' := by
  rw [tabs]
  split_ifs
  · exact List.forall_mem_cons.mpr ⟨by decide, List.forall_mem_singleton.mpr (by decide)⟩
  · exact List.forall_mem_singleton.mpr hc

theorem ne_newline_visible {c : Char} (hc : c ≠ '\n') :
    ∀ d ∈ visible generalCategory c, d ≠ '\n' := by
  rcases visible_spec generalCategory c with hsame | hescaped
  · rw [hsame]
    exact List.forall_mem_singleton.mpr hc
  · intro d hd heq
    exact hescaped.newline (heq ▸ hd)

theorem unbroken_rendered (as : List Flag) {ls : List Line} (h : Unbroken ls) :
    Unbroken (rendered generalCategory as ls) := by
  rw [unbroken_iff] at *
  exact h.rendered (fun _ => ne_newline_tabs) (fun _ => ne_newline_visible)

theorem newline_number_spec (generalCategory : Char → GeneralCategory) (as : List Flag)
    {ls : List Line} (h : Unbroken ls) :
    Unbroken (newline as (number generalCategory as ls)) ∧
      (newline as (number generalCategory as ls)).length = ls.length := by
  rw [unbroken_iff] at *
  have hgraphic : ∀ c, Graphic c → c ≠ '\n' := fun _ => ne_newline_of_graphic
  exact ⟨(h.number hgraphic).newline hgraphic, by rw [length_newline, length_number]⟩

/-! ## The text -/

theorem cat_eq (as : List Flag) (content : Str) :
    cat generalCategory as content =
      unlines (newline as (number generalCategory as
        (rendered generalCategory as (lines content)))) := by
  cases as with
  | nil =>
      rfl
  | cons flag as =>
      rfl

/-- The line breaks of the text count the lines that are left. -/
theorem length_rendered_of_cat_eq {as as' : List Flag} {content : Str}
    (h : cat generalCategory as content = cat generalCategory as' content) :
    (rendered generalCategory as (lines content)).length =
      (rendered generalCategory as' (lines content)).length := by
  have hlines : Unbroken (lines content) := fun l => newline_notMem_of_mem_lines
  have hcount : ∀ bs : List Flag, (cat generalCategory bs content).count '\n' =
      (rendered generalCategory bs (lines content)).length := by
    intro bs
    rcases newline_number_spec generalCategory bs
      (unbroken_rendered bs hlines) with ⟨hbreak, hlen⟩
    rw [cat_eq, count_unlines hbreak, hlen]
  rw [← hcount as, h, hcount as']

/-- The same flags print the same text if they leave the same lines. -/
theorem cat_eq_of_rendered_eq {as as' : List Flag} (hmem : ∀ f, f ∈ as ↔ f ∈ as') {content : Str}
    (h : rendered generalCategory as (lines content) =
      rendered generalCategory as' (lines content)) :
    cat generalCategory as content = cat generalCategory as' content := by
  simp only [cat_eq, h, newline, number, hmem]

/-! ## Two orders -/

/-- `-t` stands for `-v` as well, so `-v` takes effect before `-s` if `-t` does. -/
def TabsImplyInvisible (as : List Flag) : Prop :=
  .tabs ∈ beforeSqueeze as → .invisible ∈ beforeSqueeze as

/-- Both of two lines are blank to `-s` in one order exactly if they are in the other. -/
def AlikeBlank (generalCategory : Char → GeneralCategory) (as as' : List Flag) (x y : Line) :
    Prop :=
  BlankToSqueeze generalCategory as x ∧ BlankToSqueeze generalCategory as y ↔
    BlankToSqueeze generalCategory as' x ∧ BlankToSqueeze generalCategory as' y

/-- In one of two orders the blank lines are blank in the other as well. -/
theorem blankToSqueeze_comparable (generalCategory : Char → GeneralCategory) {as as' : List Flag}
    (h : TabsImplyInvisible as) (h' : TabsImplyInvisible as') :
    (∀ l, BlankToSqueeze generalCategory as l → BlankToSqueeze generalCategory as' l) ∨
      ∀ l, BlankToSqueeze generalCategory as' l → BlankToSqueeze generalCategory as l := by
  -- One of the orders has both flags before `-s` that the other one has.
  have hsub : ∀ {bs bs' : List Flag},
      (.invisible ∈ beforeSqueeze bs' → .invisible ∈ beforeSqueeze bs) →
        (.tabs ∈ beforeSqueeze bs' → .tabs ∈ beforeSqueeze bs) →
          ∀ l, BlankToSqueeze generalCategory bs l → BlankToSqueeze generalCategory bs' l :=
    fun hinvisible htabs l hl =>
      ⟨hl.1, fun hi => hl.2.1 (hinvisible hi), fun ht => hl.2.2 (htabs ht)⟩
  by_cases hinvisible : .invisible ∈ beforeSqueeze as' → .invisible ∈ beforeSqueeze as
  · by_cases htabs : .tabs ∈ beforeSqueeze as' → .tabs ∈ beforeSqueeze as
    · exact Or.inl (hsub hinvisible htabs)
    · rw [Classical.not_imp] at htabs
      exact Or.inr (hsub (fun _ => h' htabs.1) fun ht => absurd ht htabs.2)
  · rw [Classical.not_imp] at hinvisible
    exact Or.inr (hsub (fun _ => hinvisible.1) fun ht => absurd (h ht) hinvisible.2)

/-- The lines that `-s` keeps are as many in both orders exactly if no two neighbours differ. -/
theorem cat_eq_iff_chain {as as' : List Flag} (hnodup : as.Nodup) (hnodup' : as'.Nodup)
    (hmem : ∀ f, f ∈ as ↔ f ∈ as') (h : TabsImplyInvisible as) (h' : TabsImplyInvisible as')
    (content : Str) :
    cat generalCategory as content = cat generalCategory as' content ↔
      (.squeeze ∈ as → (lines content).IsChain (AlikeBlank generalCategory as as')) := by
  have hline : renderedLine generalCategory as = renderedLine generalCategory as' := by
    funext l
    rw [renderedLine_eq hnodup, renderedLine_eq hnodup']
    simp only [hmem]
  by_cases hsqueeze : .squeeze ∈ as
  · have hrendered := rendered_eq_squeeze generalCategory hnodup hsqueeze
      (lines content)
    have hrendered' := rendered_eq_squeeze generalCategory hnodup'
      ((hmem _).mp hsqueeze) (lines content)
    have halike : ∀ x y, Alike
        (fun l => allSpace generalCategory (renderedLine generalCategory (beforeSqueeze as) l))
        (fun l => allSpace generalCategory (renderedLine generalCategory (beforeSqueeze as') l))
        x y ↔ AlikeBlank generalCategory as as' x y := by
      intro x y
      rw [Alike, Bool.eq_iff_iff, Bool.and_eq_true, Bool.and_eq_true, blankToSqueeze_iff hnodup,
        blankToSqueeze_iff hnodup, blankToSqueeze_iff hnodup', blankToSqueeze_iff hnodup',
        AlikeBlank]
    have hcomparable := blankToSqueeze_comparable generalCategory h h'
    simp only [← blankToSqueeze_iff hnodup, ← blankToSqueeze_iff hnodup'] at hcomparable
    have hchain := length_squeeze_iff_chain hcomparable (lines content)
    rw [List.IsChain.iff halike] at hchain
    constructor
    · intro hcat _
      have hlen := length_rendered_of_cat_eq hcat
      rw [hrendered, hrendered', List.length_map, List.length_map] at hlen
      exact hchain.mp hlen
    · intro hall
      have hsame := squeeze_eq_of_chain ((List.IsChain.iff halike).mpr (hall hsqueeze))
      apply cat_eq_of_rendered_eq hmem
      rw [hrendered, hrendered', hsame, hline]
  · have hsame : rendered generalCategory as (lines content) =
        rendered generalCategory as' (lines content) := by
      rw [rendered_eq_map hsqueeze, rendered_eq_map (fun hs => hsqueeze ((hmem _).mpr hs)), hline]
    exact ⟨fun _ hs => absurd hs hsqueeze, fun _ => cat_eq_of_rendered_eq hmem hsame⟩

end Text

/-! ## Flags that `parse` returns -/

section Nub

variable {α : Type} [DecidableEq α]

theorem nodup_nub (xs : List α) : (nub xs).Nodup := by
  induction xs with
  | nil =>
      exact List.nodup_nil
  | cons x xs ih =>
      exact List.nodup_cons.mpr ⟨by simp, ih.filter _⟩

/-- The elements in front of the first `s` are those in front of it at first. -/
theorem mem_takeWhile_nub (s y : α) (xs : List α) :
    y ∈ (nub xs).takeWhile (· ≠ s) ↔ y ∈ xs.takeWhile (· ≠ s) := by
  induction xs with
  | nil =>
      rfl
  | cons x xs ih =>
      by_cases hx : x = s
      · simp [nub, hx]
      · have hwhile : (fun a => !decide (a ≠ x) || decide (a ≠ s)) =
            fun a => decide (a ≠ s) := by
          funext a
          by_cases ha : a = x
          · simp [ha, hx]
          · simp [ha]
        rw [nub, List.takeWhile_cons_of_pos (by simpa using hx),
          List.takeWhile_cons_of_pos (by simpa using hx), List.takeWhile_filter, hwhile,
          List.mem_cons, List.mem_cons, List.mem_filter, ih]
        by_cases hy : y = x <;> simp [hy]

theorem mem_nub (y : α) (xs : List α) : y ∈ nub xs ↔ y ∈ xs := by
  induction xs with
  | nil =>
      rfl
  | cons x xs ih =>
      rw [nub, List.mem_cons, List.mem_cons, List.mem_filter, ih]
      by_cases hy : y = x <;> simp [hy]

end Nub

theorem parse_eq_ok {argv fs : List Str} {as : List Flag} (h : parse argv = .ok (as, fs)) :
    as = nub ((getOpt flags argv).1.flatMap set) := by
  unfold parse at h
  split at h
  · next args files heq =>
    rw [heq]
    by_cases hhelp : .help ∈ args
    · rw [if_pos hhelp] at h
      cases h
    · rw [if_neg hhelp] at h
      cases h
      rfl
  · cases h

theorem tabsImplyInvisible_parsed (args : List Flag) :
    TabsImplyInvisible (nub (args.flatMap set)) := by
  rw [TabsImplyInvisible, beforeSqueeze, mem_takeWhile_nub, mem_takeWhile_nub]
  induction args with
  | nil =>
      simp
  | cons flag args ih =>
      cases flag with
      | dollar | squeeze | tabs | invisible =>
          simp [set]
      | _ =>
          simpa [set] using ih

section Commute

variable {generalCategory : Char → GeneralCategory} {argv argv' fs fs' : List Str}
  {as as' : List Flag}

/-- The same options in two orders print the same text exactly if `-s` is not among them or no two
neighbouring lines are blank to it in one order and not in the other. -/
theorem cat_permuted_iff (h : parse argv = .ok (as, fs)) (h' : parse argv' = .ok (as', fs'))
    (hperm : (getOpt flags argv).1.Perm (getOpt flags argv').1) (content : Str) :
    cat generalCategory as content = cat generalCategory as' content ↔
      (.squeeze ∈ as → (lines content).IsChain (AlikeBlank generalCategory as as')) := by
  rw [parse_eq_ok h, parse_eq_ok h']
  have hmem : ∀ f, f ∈ nub ((getOpt flags argv).1.flatMap set) ↔
      f ∈ nub ((getOpt flags argv').1.flatMap set) := by
    intro f
    rw [mem_nub, mem_nub]
    exact (hperm.flatMap_right set).mem_iff
  exact cat_eq_iff_chain (nodup_nub _) (nodup_nub _) hmem (tabsImplyInvisible_parsed _)
    (tabsImplyInvisible_parsed _) content

end Commute

/-- A line with a tab that has no blank neighbour. -/
theorem cat_permuted_apart :
    cat asciiCategory [.squeeze, .tabs, .invisible] ['a', '\n', '\t', '\n', 'b', '\n'] =
      cat asciiCategory [.tabs, .invisible, .squeeze] ['a', '\n', '\t', '\n', 'b', '\n'] := by
  have hsqueezeFirst : parse [['-', 's'], ['-', 't']] =
      .ok ([.squeeze, .tabs, .invisible], [['-']]) := rfl
  have htabsFirst : parse [['-', 't'], ['-', 's']] =
      .ok ([.tabs, .invisible, .squeeze], [['-']]) := rfl
  refine (cat_permuted_iff hsqueezeFirst htabsFirst (by decide) _).mpr fun _ => ?_
  have hlines : lines ['a', '\n', '\t', '\n', 'b', '\n'] = [['a'], ['\t'], ['b']] := rfl
  have hletter : ∀ as, ¬ BlankToSqueeze asciiCategory as ['a'] ∧
      ¬ BlankToSqueeze asciiCategory as ['b'] :=
    fun as => ⟨fun h => absurd h.1 (by decide), fun h => absurd h.1 (by decide)⟩
  rw [hlines]
  simp [AlikeBlank, hletter]

/-- Behind an empty line it is left out if `-s` stands first. -/
theorem not_cat_permuted :
    parse [['-', 's'], ['-', 't']] = .ok ([.squeeze, .tabs, .invisible], [['-']]) ∧
      parse [['-', 't'], ['-', 's']] = .ok ([.tabs, .invisible, .squeeze], [['-']]) ∧
      (getOpt flags [['-', 's'], ['-', 't']]).1.Perm (getOpt flags [['-', 't'], ['-', 's']]).1 ∧
      cat asciiCategory [.squeeze, .tabs, .invisible] ['\n', '\t', '\n'] ≠
        cat asciiCategory [.tabs, .invisible, .squeeze] ['\n', '\t', '\n'] := by
  refine ⟨rfl, rfl, by decide, ?_⟩
  rw [cat_eq, cat_eq]
  simp only [rendered, List.foldl_cons, List.foldl_nil, render_squeeze]
  decide

end Cat
end Etude
