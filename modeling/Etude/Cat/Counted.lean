import Etude.Cat.Numbers
import Etude.Cat.Order

/-!
# Counted — which lines `-b` counts

The lines are numbered as they are shown, and `-t` and `-v` turn some white space into other
characters.  So a line that is blank in the file is counted exactly if it has such white space.
-/

namespace Etude
namespace Cat

open Base Base.GetOpt

section Counted

variable {generalCategory : Char → GeneralCategory}

/-! ## Lines that are shown blank -/

/-- White space, none of which the flags turn into something else. -/
def BlankShown (generalCategory : Char → GeneralCategory) (as : List Flag) (l : Line) : Prop :=
  allSpace generalCategory l ∧
    (.invisible ∈ as → ∀ c ∈ l, visible generalCategory c = [c]) ∧ (.tabs ∈ as → '\t' ∉ l)

theorem flatMap_visible_of_same {l : Line} (h : ∀ c ∈ l, visible generalCategory c = [c]) :
    l.flatMap (visible generalCategory) = l := by
  rw [List.flatMap_congr h, List.flatMap_singleton']

theorem flatMap_tabs_of_notMem {l : Line} (h : '\t' ∉ l) : l.flatMap tabs = l := by
  have hsame : ∀ c ∈ l, tabs c = [c] := fun c hc => tabs_of_ne fun heq => h (heq ▸ hc)
  rw [List.flatMap_congr hsame, List.flatMap_singleton']

/-- What Unicode has for the white space below 256. -/
structure LatinSpaces (generalCategory : Char → GeneralCategory) : Prop where
  space : generalCategory ' ' = .space
  noBreakSpace : generalCategory '\xa0' = .space
  control : ∀ c : Char, 9 ≤ c.toNat → c.toNat ≤ 13 → generalCategory c = .control

theorem visible_of_space {c : Char} (h : generalCategory c = .space) :
    visible generalCategory c = [c] := by
  simp [visible, isPrint, h]

theorem visible_of_control {c : Char} (h : generalCategory c = .control) (htab : c ≠ '\t') :
    visible generalCategory c = (showChar c).tail.dropLast := by
  simp [visible, isPrint, h, htab]

theorem LatinSpaces.eq_space (hlatin : LatinSpaces generalCategory) {c : Char}
    (hspace : isSpace generalCategory c) (hlow : ¬ (9 ≤ c.toNat ∧ c.toNat ≤ 13)) :
    generalCategory c = .space := by
  unfold isSpace at hspace
  split_ifs at hspace
  · have hcode : (c.toNat = 32 ∨ 9 ≤ c.toNat ∧ c.toNat ≤ 13) ∨ c.toNat = 0xa0 := by
      simpa using hspace
    have hcases : c = ' ' ∨ c = '\xa0' := by
      simp only [← Char.toNat_inj, Char.reduceToNat]
      omega
    rcases hcases with rfl | rfl
    · exact hlatin.space
    · exact hlatin.noBreakSpace
  · exact of_decide_eq_true hspace

/-- White space of a line that `-v` shows as something else: vertical tabs, form feeds and carriage
returns. -/
theorem visible_eq_self_iff (hlatin : LatinSpaces generalCategory) {c : Char}
    (hspace : isSpace generalCategory c) (hnewline : c ≠ '\n') :
    visible generalCategory c = [c] ↔ c ≠ '\x0b' ∧ c ≠ '\x0c' ∧ c ≠ '\r' := by
  by_cases hlow : 9 ≤ c.toNat ∧ c.toNat ≤ 13
  · have hcontrol := hlatin.control c hlow.1 hlow.2
    have hcases : c = '\t' ∨ c = '\n' ∨ c = '\x0b' ∨ c = '\x0c' ∨ c = '\r' := by
      simp only [← Char.toNat_inj, Char.reduceToNat]
      omega
    rcases hcases with rfl | rfl | rfl | rfl | rfl
    · simp [visible_tab]
    · exact absurd rfl hnewline
    · simp [visible_of_control hcontrol, showChar, showLitChar]
    · simp [visible_of_control hcontrol, showChar, showLitChar]
    · simp [visible_of_control hcontrol, showChar, showLitChar]
  · have hcategory := hlatin.eq_space hspace hlow
    have hne : c ≠ '\x0b' ∧ c ≠ '\x0c' ∧ c ≠ '\r' := by
      refine ⟨?_, ?_, ?_⟩ <;> rintro rfl <;> exact hlow (by decide)
    simp [visible_of_space hcategory, hne]

theorem forall_visible_eq_iff (hlatin : LatinSpaces generalCategory) {l : Line}
    (hspace : allSpace generalCategory l) (hnewline : '\n' ∉ l) :
    (∀ c ∈ l, visible generalCategory c = [c]) ↔ '\x0b' ∉ l ∧ '\x0c' ∉ l ∧ '\r' ∉ l := by
  have hsame : ∀ c ∈ l, (visible generalCategory c = [c] ↔
      c ≠ '\x0b' ∧ c ≠ '\x0c' ∧ c ≠ '\r') := fun c hc =>
    visible_eq_self_iff hlatin ((allSpace_iff l).mp hspace c hc) fun heq => hnewline (heq ▸ hc)
  have hnotMem : ∀ d : Char, d ∉ l ↔ ∀ c ∈ l, c ≠ d := fun d =>
    ⟨fun h c hc heq => h (heq ▸ hc), fun h hmem => h d hmem rfl⟩
  rw [forall₂_congr hsame, hnotMem, hnotMem, hnotMem, forall₂_and, forall₂_and]

/-- Whatever the order and number of the flags. -/
theorem allSpace_renderedLine (as : List Flag) (l : Line) :
    allSpace generalCategory (renderedLine generalCategory as l) ↔
      BlankShown generalCategory as l := by
  induction as generalizing l with
  | nil =>
      simp [renderedLine, BlankShown]
  | cons flag as ih =>
      have hcons : renderedLine generalCategory (flag :: as) l =
          renderedLine generalCategory as (renderLine generalCategory flag l) := rfl
      rw [hcons, ih, BlankShown, BlankShown]
      -- A line that stays blank stays as it is.
      cases flag with
      | tabs =>
          rw [renderLine, allSpace_tabs, and_assoc]
          refine and_congr_right fun _ => ?_
          by_cases htab : '\t' ∈ l
          · simp [htab]
          · rw [flatMap_tabs_of_notMem htab]
            simp [htab]
      | invisible =>
          rw [renderLine, allSpace_visible, and_assoc]
          refine and_congr_right fun _ => ?_
          by_cases hsame : ∀ c ∈ l, visible generalCategory c = [c]
          · rw [flatMap_visible_of_same hsame]
            constructor
            · rintro ⟨-, -, htabs⟩
              exact ⟨fun _ => hsame, fun htab => htabs (by simpa using htab)⟩
            · rintro ⟨-, htabs⟩
              exact ⟨hsame, fun _ => hsame, fun htab => htabs (List.mem_cons_of_mem _ htab)⟩
          · simp [hsame]
      | _ =>
          simp [renderLine]

/-! ## Numbers -/

/-- The line `i` of the file gets the number `k`. -/
def Receives (generalCategory : Char → GeneralCategory) (as : List Flag) (content : Str)
    (i k : ℕ) : Prop :=
  ∃ l, (rendered generalCategory as (lines content))[i]? = some l ∧
    (number generalCategory as (rendered generalCategory as (lines content)))[i]? =
      some (numberLine k l)

theorem numberLine_ne (n : ℕ) (l : Line) : l ≠ numberLine n l := by
  intro h
  have hlength := congrArg List.length h
  simp only [numberLine, List.length_append, List.length_cons, List.length_nil] at hlength
  omega

/-- A line that is not shown blank gets the number of those up to it. -/
theorem receives_iff {as : List Flag} (hblanks : .blanks ∈ as) (hsqueeze : .squeeze ∉ as)
    (content : Str) (i k : ℕ) :
    Receives generalCategory as content i k ↔
      ∃ l, (lines content)[i]? = some l ∧ ¬ BlankShown generalCategory as l ∧
        k = 1 + nonBlanks generalCategory
          (((lines content).take i).map (renderedLine generalCategory as)) := by
  rw [Receives, rendered_eq_map hsqueeze, number, if_pos hblanks, numberSome_eq]
  simp only [← allSpace_renderedLine, List.map_take]
  constructor
  · rintro ⟨l, hl, hnumbered⟩
    rw [getElem?_numberFrom _ 1 i l hl] at hnumbered
    rw [List.getElem?_map] at hl
    rcases Option.map_eq_some_iff.mp hl with ⟨l', hl', rfl⟩
    split_ifs at hnumbered with hblank
    · exact absurd (Option.some.inj hnumbered) (numberLine_ne k _)
    · exact ⟨l', hl', hblank, (numberLine_injective _ (Option.some.inj hnumbered)).symm⟩
  · rintro ⟨l, hl, hblank, rfl⟩
    have hl' : ((lines content).map (renderedLine generalCategory as))[i]? =
        some (renderedLine generalCategory as l) := by
      rw [List.getElem?_map, hl]
      rfl
    refine ⟨renderedLine generalCategory as l, hl', ?_⟩
    rw [getElem?_numberFrom _ 1 i _ hl', if_neg hblank]

/-! ## The display options -/

/-- The flags other than `-t`, `-e` and `-v`. -/
def plain (as : List Flag) : List Flag :=
  as.filter fun f => f ≠ .tabs ∧ f ≠ .dollar ∧ f ≠ .invisible

/-- The same lines get the same numbers without the display options, and blank ones get none. -/
def CountsAlike (generalCategory : Char → GeneralCategory) (as : List Flag) (content : Str) :
    Prop :=
  (∀ i k, Receives generalCategory as content i k ↔
    Receives generalCategory (plain as) content i k) ∧
    ∀ i l, (lines content)[i]? = some l → allSpace generalCategory l = true →
      ∀ k, ¬ Receives generalCategory as content i k

theorem blankShown_plain (as : List Flag) (l : Line) :
    BlankShown generalCategory (plain as) l ↔ allSpace generalCategory l = true := by
  simp [BlankShown, plain]

/-- What is counted up to a line depends only on which lines are shown blank. -/
theorem nonBlanks_rendered_eq {as bs : List Flag} {ls : List Line}
    (h : ∀ l ∈ ls, (BlankShown generalCategory as l ↔ BlankShown generalCategory bs l)) (i : ℕ) :
    nonBlanks generalCategory ((ls.take i).map (renderedLine generalCategory as)) =
      nonBlanks generalCategory ((ls.take i).map (renderedLine generalCategory bs)) := by
  rw [nonBlanks, nonBlanks, List.countP_map, List.countP_map]
  refine List.countP_congr fun l hl => ?_
  have hsame : allSpace generalCategory (renderedLine generalCategory as l) =
      allSpace generalCategory (renderedLine generalCategory bs l) := by
    rw [Bool.eq_iff_iff, allSpace_renderedLine, allSpace_renderedLine]
    exact h l (List.mem_of_mem_take hl)
  simp [hsame]

/-- The numbers do not depend on the display options exactly if none of the blank lines has a tab
that `-t` shows or white space that `-v` does. -/
theorem countsAlike_iff {as : List Flag} (hblanks : .blanks ∈ as) (hsqueeze : .squeeze ∉ as)
    (content : Str) :
    CountsAlike generalCategory as content ↔
      ∀ l ∈ lines content, allSpace generalCategory l = true →
        (.tabs ∈ as → '\t' ∉ l) ∧
          (.invisible ∈ as → ∀ c ∈ l, visible generalCategory c = [c]) := by
  have hblanks' : .blanks ∈ plain as := by simp [plain, hblanks]
  have hsqueeze' : .squeeze ∉ plain as := by simp [plain, hsqueeze]
  constructor
  · rintro ⟨-, hnever⟩ l hmem hspace
    rcases List.getElem?_of_mem hmem with ⟨i, hi⟩
    -- were it not shown blank it would be counted
    by_contra hshown
    have hnot : ¬ BlankShown generalCategory as l := fun h => hshown ⟨h.2.2, h.2.1⟩
    exact hnever i l hi hspace _
      ((receives_iff hblanks hsqueeze content i _).mpr ⟨l, hi, hnot, rfl⟩)
  · intro hall
    have hblank : ∀ l ∈ lines content,
        (BlankShown generalCategory as l ↔ allSpace generalCategory l = true) := by
      intro l hmem
      refine ⟨fun h => h.1, fun hspace => ?_⟩
      exact ⟨hspace, (hall l hmem hspace).2, (hall l hmem hspace).1⟩
    have hplain : ∀ l ∈ lines content,
        (BlankShown generalCategory as l ↔ BlankShown generalCategory (plain as) l) := by
      intro l hmem
      rw [hblank l hmem, blankShown_plain]
    constructor
    · intro i k
      rw [receives_iff hblanks hsqueeze, receives_iff hblanks' hsqueeze',
        nonBlanks_rendered_eq hplain i]
      refine exists_congr fun l => and_congr_right fun hl => ?_
      rw [hplain l (List.mem_of_getElem? hl)]
    · intro i l hl hspace k hk
      rcases (receives_iff hblanks hsqueeze content i k).mp hk with ⟨l', hl', hnot, -⟩
      rw [hl] at hl'
      cases hl'
      exact hnot ((hblank l (List.mem_of_getElem? hl)).mpr hspace)

end Counted

theorem countsAlike_blank_line :
    Flag.blanks ∈ [.blanks, .tabs, .invisible] ∧ Flag.squeeze ∉ [.blanks, .tabs, .invisible] ∧
      CountsAlike asciiCategory [.blanks, .tabs, .invisible] ['a', '\n', ' ', '\n'] := by
  refine ⟨by decide, by decide, (countsAlike_iff (by decide) (by decide) _).mpr ?_⟩
  have hlines : lines ['a', '\n', ' ', '\n'] = [['a'], [' ']] := rfl
  rw [hlines]
  refine List.forall_mem_cons.mpr ⟨fun h => absurd h (by decide), ?_⟩
  refine List.forall_mem_singleton.mpr fun _ => ⟨fun _ => by decide, fun _ => ?_⟩
  exact List.forall_mem_singleton.mpr (by decide)

/-- With `-t` a line that is a tab gets a number. -/
theorem not_countsAlike_tab :
    parse [['-', 'b'], ['-', 't']] = .ok ([.blanks, .tabs, .invisible], [['-']]) ∧
      ¬ CountsAlike asciiCategory [.blanks, .tabs, .invisible] ['\t', '\n'] := by
  refine ⟨rfl, fun h => ?_⟩
  refine h.2 0 ['\t'] rfl (by decide) 1 ⟨['^', 'I'], ?_, ?_⟩
  · decide
  · decide

end Cat
end Etude
