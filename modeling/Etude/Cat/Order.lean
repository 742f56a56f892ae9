import Etude.Cat.Model

/-!
# Order — when the order of the options does not matter

Only `-s` looks at several lines at once, and it looks at them as the options before it have
rendered them: `-v` and `-t` turn some white space into other characters.  So two orders print
different texts exactly for files in which two neighbouring lines are blank to `-s` in one order
and not in the other.
-/

namespace Etude
namespace Cat

open Base Base.GetOpt

section Order

variable {generalCategory : Char → GeneralCategory}

/-! ## Characters -/

/-- A backslash, and neither tabs nor line breaks. -/
structure Escaped (s : Str) : Prop where
  backslash : '\\' ∈ s
  tab : '\t' ∉ s
  newline : '\n' ∉ s

theorem escaped_cons {s : Str} (h : '\t' ∉ s ∧ '\n' ∉ s) : Escaped ('\\' :: s) :=
  { backslash := by simp
    tab := by simpa using h.1
    newline := by simpa using h.2 }

theorem escaped_ite {p : Prop} [Decidable p] {s t : Str} (hs : Escaped s) (ht : Escaped t) :
    Escaped (if p then s else t) := by
  split_ifs
  · exact hs
  · exact ht

theorem asciiTab_plain : ∀ name ∈ asciiTab, '\t' ∉ name ∧ '\n' ∉ name := by
  decide

theorem showLitChar_spec (c : Char) : showLitChar c = [c] ∨ Escaped (showLitChar c) := by
  have hdigit : ∀ d, d.isDigit = false → d ∉ Nat.toDigits 10 c.toNat := by
    intro d hd hmem
    rw [Nat.isDigit_of_mem_toDigits (by decide) (by decide) hmem] at hd
    cases hd
  have hname : '\t' ∉ asciiTab.getD c.toNat [] ∧ '\n' ∉ asciiTab.getD c.toNat [] := by
    rw [List.getD_eq_getElem?_getD]
    cases h : asciiTab[c.toNat]? with
    | none => simp
    | some name => exact asciiTab_plain name (List.mem_of_getElem? h)
  by_cases hbeyond : 0x7f < c.toNat
  · right
    rw [showLitChar, if_pos hbeyond]
    exact escaped_cons ⟨hdigit '\t' rfl, hdigit '\n' rfl⟩
  by_cases hdel : c.toNat = 0x7f
  · right
    rw [showLitChar, if_neg hbeyond, if_pos hdel]
    exact escaped_cons (by decide)
  by_cases hbackslash : c = '\\'
  · right
    rw [showLitChar, if_neg hbeyond, if_neg hdel, if_pos hbackslash]
    exact escaped_cons (by decide)
  by_cases hplain : 0x20 ≤ c.toNat
  · left
    rw [showLitChar, if_neg hbeyond, if_neg hdel, if_neg hbackslash, if_pos hplain]
  -- The control characters, some by a letter and the others by name.
  right
  rw [showLitChar, if_neg hbeyond, if_neg hdel, if_neg hbackslash, if_neg hplain]
  refine escaped_ite (escaped_cons (by decide)) ?_
  refine escaped_ite (escaped_cons (by decide)) ?_
  refine escaped_ite (escaped_cons (by decide)) ?_
  refine escaped_ite (escaped_cons (by decide)) ?_
  refine escaped_ite (escaped_cons (by decide)) ?_
  refine escaped_ite (escaped_cons (by decide)) ?_
  refine escaped_ite (escaped_cons (by decide)) ?_
  exact escaped_cons hname

/-- A character is shown as it is, or escaped. -/
theorem visible_spec (generalCategory : Char → GeneralCategory) (c : Char) :
    visible generalCategory c = [c] ∨ Escaped (visible generalCategory c) := by
  by_cases hplain : (c = '\t' || isPrint generalCategory c) = true
  · left
    rw [visible, if_pos hplain]
  by_cases hquote : c = '\''
  · right
    rw [visible, if_neg hplain, showChar, if_pos hquote]
    exact escaped_cons (by decide)
  have hshow : visible generalCategory c = showLitChar c := by
    rw [visible, if_neg hplain, showChar, if_neg hquote, List.cons_append, List.tail_cons,
      List.dropLast_concat]
  rw [hshow]
  exact showLitChar_spec c

theorem isSpace_backslash : isSpace generalCategory '\\' = false := by
  simp [isSpace]

theorem visible_tab : visible generalCategory '\t' = ['\t'] := by
  simp [visible]

theorem tabs_of_ne {c : Char} (h : c ≠ '\t') : tabs c = [c] := by
  simp [tabs, h]

/-- It does not matter which of the two renders a character first. -/
theorem flatMap_tabs_visible (c : Char) :
    (visible generalCategory c).flatMap tabs = (tabs c).flatMap (visible generalCategory) := by
  by_cases hc : c = '\t'
  · subst hc
    have hcaret : visible generalCategory '^' = ['^'] := by
      unfold visible
      split_ifs <;> rfl
    have hI : visible generalCategory 'I' = ['I'] := by
      unfold visible
      split_ifs <;> rfl
    rw [visible_tab]
    simp [tabs, hcaret, hI]
  · rw [tabs_of_ne hc, List.flatMap_singleton]
    rcases visible_spec generalCategory c with h | hescaped
    · rw [h, List.flatMap_singleton, tabs_of_ne hc]
    · have hsame : (visible generalCategory c).flatMap tabs =
          (visible generalCategory c).flatMap fun d => [d] :=
        List.flatMap_congr fun d hd => tabs_of_ne fun heq => hescaped.tab (heq ▸ hd)
      rw [hsame, List.flatMap_singleton']

/-! ## Lines -/

/-- What the flags other than `-s` do to a line. -/
def renderLine (generalCategory : Char → GeneralCategory) (flag : Flag) (l : Line) : Line :=
  match flag with
  | .tabs => l.flatMap tabs
  | .invisible => l.flatMap (visible generalCategory)
  | _ => l

def renderedLine (generalCategory : Char → GeneralCategory) (as : List Flag) (l : Line) : Line :=
  as.foldl (fun l flag => renderLine generalCategory flag l) l

/-- The two renderings of a line, each only if it is asked for. -/
def shown (generalCategory : Char → GeneralCategory) (invisible tab : Prop) [Decidable invisible]
    [Decidable tab] (l : Line) : Line :=
  let l := if invisible then l.flatMap (visible generalCategory) else l
  if tab then l.flatMap tabs else l

theorem shown_tabs (generalCategory : Char → GeneralCategory) (invisible : Prop)
    [Decidable invisible] (l : Line) :
    shown generalCategory invisible False (l.flatMap tabs) =
      shown generalCategory invisible True l := by
  by_cases h : invisible
  · simp only [shown, h, if_true, if_false, List.flatMap_assoc]
    exact (List.flatMap_congr fun c _ => flatMap_tabs_visible c).symm
  · simp [shown, h]

/-- Flags without repetition render a line alike in any order. -/
theorem renderedLine_eq {as : List Flag} (h : as.Nodup) (l : Line) :
    renderedLine generalCategory as l =
      shown generalCategory (.invisible ∈ as) (.tabs ∈ as) l := by
  induction as generalizing l with
  | nil =>
      simp [renderedLine, shown]
  | cons flag as ih =>
      rcases List.nodup_cons.mp h with ⟨hnot, hrest⟩
      have hcons : renderedLine generalCategory (flag :: as) l =
          renderedLine generalCategory as (renderLine generalCategory flag l) := rfl
      rw [hcons, ih hrest]
      cases flag with
      | tabs =>
          have hshown := shown_tabs generalCategory (.invisible ∈ as) l
          simpa [hnot, renderLine, List.mem_cons] using hshown
      | invisible =>
          simp [hnot, renderLine, shown, List.mem_cons]
      | _ =>
          simp [renderLine, List.mem_cons]

/-! ## Lines that are blank to `-s` -/

/-- The flags that render the lines before they are squeezed. -/
def beforeSqueeze (as : List Flag) : List Flag :=
  as.takeWhile (· ≠ .squeeze)

/-- White space, none of which the flags before `-s` turn into something else. -/
def BlankToSqueeze (generalCategory : Char → GeneralCategory) (as : List Flag) (l : Line) : Prop :=
  allSpace generalCategory l ∧
    (.invisible ∈ beforeSqueeze as → ∀ c ∈ l, visible generalCategory c = [c]) ∧
    (.tabs ∈ beforeSqueeze as → '\t' ∉ l)

theorem allSpace_flatMap {f : Char → Str} (l : Line) :
    allSpace generalCategory (l.flatMap f) ↔ ∀ c ∈ l, allSpace generalCategory (f c) := by
  simp only [allSpace, List.all_eq_true, List.mem_flatMap]
  exact ⟨fun h c hc d hd => h d ⟨c, hc, hd⟩, fun h d ⟨c, hc, hd⟩ => h c hc d hd⟩

theorem allSpace_iff (l : Line) :
    allSpace generalCategory l ↔ ∀ c ∈ l, isSpace generalCategory c := by
  simp only [allSpace, List.all_eq_true]

theorem allSpace_visible (l : Line) :
    allSpace generalCategory (l.flatMap (visible generalCategory)) ↔
      allSpace generalCategory l ∧ ∀ c ∈ l, visible generalCategory c = [c] := by
  rw [allSpace_flatMap, allSpace_iff, ← forall₂_and]
  refine forall₂_congr fun c _ => ?_
  rcases visible_spec generalCategory c with h | hescaped
  · simp [h, allSpace]
  · -- The backslash is not white space, and would have to be the character itself.
    have hnot : ¬ allSpace generalCategory (visible generalCategory c) := by
      rw [allSpace_iff]
      intro hall
      have hspace := hall '\\' hescaped.backslash
      rw [isSpace_backslash] at hspace
      cases hspace
    refine ⟨fun hall => absurd hall hnot, ?_⟩
    rintro ⟨hspace, hsame⟩
    rw [hsame]
    simpa [allSpace] using hspace

theorem allSpace_tabs (l : Line) :
    allSpace generalCategory (l.flatMap tabs) ↔ allSpace generalCategory l ∧ '\t' ∉ l := by
  have hmem : '\t' ∉ l ↔ ∀ c ∈ l, c ≠ '\t' :=
    ⟨fun h c hc heq => h (heq ▸ hc), fun h hmem => h '\t' hmem rfl⟩
  rw [allSpace_flatMap, allSpace_iff, hmem, ← forall₂_and]
  refine forall₂_congr fun c _ => ?_
  by_cases hc : c = '\t'
  · subst hc
    have hcaret : allSpace generalCategory (tabs '\t') = false := by
      simp [allSpace, tabs, isSpace]
    simp [hcaret]
  · simp [tabs_of_ne hc, hc, allSpace]

theorem allSpace_shown (invisible tab : Prop) [Decidable invisible] [Decidable tab] (l : Line) :
    allSpace generalCategory (shown generalCategory invisible tab l) ↔
      allSpace generalCategory l ∧ (invisible → ∀ c ∈ l, visible generalCategory c = [c]) ∧
        (tab → '\t' ∉ l) := by
  by_cases hinvisible : invisible
  · by_cases htab : tab
    · simp only [shown, hinvisible, htab, if_true, true_imp_iff, allSpace_tabs, allSpace_visible,
        and_assoc]
      refine and_congr_right fun _ => and_congr_right fun hsame => ?_
      have hl : l.flatMap (visible generalCategory) = l := by
        rw [List.flatMap_congr hsame, List.flatMap_singleton']
      rw [hl]
    · simp [shown, hinvisible, htab, allSpace_visible]
  · by_cases htab : tab
    · simp [shown, hinvisible, htab, allSpace_tabs]
    · simp [shown, hinvisible, htab]

theorem blankToSqueeze_iff {as : List Flag} (h : as.Nodup) (l : Line) :
    allSpace generalCategory (renderedLine generalCategory (beforeSqueeze as) l) ↔
      BlankToSqueeze generalCategory as l := by
  have hbefore : (beforeSqueeze as).Nodup := h.sublist (List.takeWhile_sublist _)
  rw [renderedLine_eq hbefore, allSpace_shown, BlankToSqueeze]

/-! ## All lines -/

theorem render_squeeze (s : List Line) :
    render generalCategory .squeeze s = squeeze (allSpace generalCategory) s := by
  have hboth : (fun x y => [x, y].all (allSpace generalCategory)) =
      fun x y => allSpace generalCategory x && allSpace generalCategory y := by
    funext x y
    simp
  rw [render, hboth, head_munch]

theorem render_eq_map {flag : Flag} (h : flag ≠ .squeeze) (s : List Line) :
    render generalCategory flag s = s.map (renderLine generalCategory flag) := by
  cases flag with
  | squeeze =>
      exact absurd rfl h
  | tabs =>
      rfl
  | invisible =>
      rfl
  | _ =>
      exact (List.map_id s).symm

theorem rendered_eq_map {as : List Flag} (h : .squeeze ∉ as) (s : List Line) :
    rendered generalCategory as s = s.map (renderedLine generalCategory as) := by
  induction as generalizing s with
  | nil =>
      exact (List.map_id s).symm
  | cons flag as ih =>
      rw [List.mem_cons, not_or] at h
      have hcons : rendered generalCategory (flag :: as) s =
          rendered generalCategory as (render generalCategory flag s) := rfl
      rw [hcons, render_eq_map (Ne.symm h.1), ih h.2, List.map_map]
      rfl

/-- With `-s` the lines are chosen as the flags before it show them, and rendered by all. -/
theorem rendered_eq_squeeze (generalCategory : Char → GeneralCategory) {as : List Flag}
    (hnodup : as.Nodup) (h : .squeeze ∈ as) (s : List Line) :
    rendered generalCategory as s =
      (squeeze (fun l =>
        allSpace generalCategory (renderedLine generalCategory (beforeSqueeze as) l)) s).map
          (renderedLine generalCategory as) := by
  rcases List.eq_append_cons_of_mem h with ⟨pre, post, rfl, hpre⟩
  have hbefore : beforeSqueeze (pre ++ .squeeze :: post) = pre := by
    have hne : ∀ f ∈ pre, decide (f ≠ Flag.squeeze) = true := by
      intro f hf
      simpa using fun heq : f = .squeeze => hpre (heq ▸ hf)
    rw [beforeSqueeze, List.takeWhile_append_of_pos hne]
    simp
  have hafter : .squeeze ∉ post := (List.nodup_cons.mp (List.nodup_append.mp hnodup).2.1).1
  have hrendered : rendered generalCategory (pre ++ .squeeze :: post) s =
      rendered generalCategory post (render generalCategory .squeeze
        (rendered generalCategory pre s)) := by
    simp [rendered, List.foldl_append]
  rw [hbefore, hrendered, rendered_eq_map hpre, render_squeeze, squeeze_map,
    rendered_eq_map hafter, List.map_map]
  congr 1
  funext l
  simp [renderedLine, List.foldl_append, renderLine]

end Order

end Cat
end Etude
