import Etude.Cat.Permuted

/-!
# Displayed — what `-v` leaves of a file

`parse` adds `-v` to `-e` and `-t`.  Wherever the flag stands, the lines have printable characters
and tabs only from there on, and no tabs from `-t` on.
-/

namespace Etude
namespace Cat

open Base Base.GetOpt

/-! ## Escapes -/

/-- Texts that are given can be checked character by character. -/
theorem graphic_of_all {s : Str} (h : (s.all fun c => decide (Graphic c)) = true) :
    ∀ c ∈ s, Graphic c :=
  fun c hc => of_decide_eq_true (List.all_eq_true.mp h c hc)

theorem graphic_ite {p : Prop} [Decidable p] {s t : Str} (hs : p → ∀ d ∈ s, Graphic d)
    (ht : ¬ p → ∀ d ∈ t, Graphic d) : ∀ d ∈ (if p then s else t), Graphic d := by
  split_ifs with hp
  · exact hs hp
  · exact ht hp

theorem graphic_asciiTab : ∀ name ∈ asciiTab, ∀ d ∈ name, Graphic d := by
  have hall : (asciiTab.all fun name => name.all fun c => decide (Graphic c)) = true := by decide
  exact fun name hname => graphic_of_all (List.all_eq_true.mp hall name hname)

theorem graphic_backslash (c : Char) (hc : Graphic c) : ∀ d ∈ ['\\', c], Graphic d :=
  graphic_cons (by decide) (graphic_cons hc (by simp))

theorem graphic_showLitChar (c : Char) : ∀ d ∈ showLitChar c, Graphic d := by
  have hname : ∀ d ∈ asciiTab.getD c.toNat [], Graphic d := by
    rw [List.getD_eq_getElem?_getD]
    cases h : asciiTab[c.toNat]? with
    | none => simp
    | some name => exact graphic_asciiTab name (List.mem_of_getElem? h)
  refine graphic_ite (fun _ => ?_) fun hbeyond => ?_
  · exact graphic_cons (by decide) fun d hd => graphic_of_isDigit (isDigit_toDigits hd)
  refine graphic_ite (fun _ => graphic_of_all rfl) fun hdel => ?_
  refine graphic_ite (fun _ => graphic_of_all rfl) fun _ => ?_
  refine graphic_ite (fun hplain => ?_) fun _ => ?_
  · refine graphic_cons ⟨hplain, ?_⟩ (by simp)
    omega
  -- the control characters
  refine graphic_ite (fun _ => graphic_backslash 'a' (by decide)) fun _ => ?_
  refine graphic_ite (fun _ => graphic_backslash 'b' (by decide)) fun _ => ?_
  refine graphic_ite (fun _ => graphic_backslash 'f' (by decide)) fun _ => ?_
  refine graphic_ite (fun _ => graphic_backslash 'n' (by decide)) fun _ => ?_
  refine graphic_ite (fun _ => graphic_backslash 'r' (by decide)) fun _ => ?_
  refine graphic_ite (fun _ => graphic_backslash 't' (by decide)) fun _ => ?_
  refine graphic_ite (fun _ => graphic_backslash 'v' (by decide)) fun _ => ?_
  exact graphic_cons (by decide) hname

theorem graphic_showChar (c : Char) : ∀ d ∈ showChar c, Graphic d := by
  refine graphic_ite (fun _ => graphic_of_all rfl) fun _ => ?_
  rw [List.cons_append]
  refine graphic_cons (by decide) (List.forall_mem_append.mpr ⟨graphic_showLitChar c, ?_⟩)
  exact graphic_of_all rfl

section Displayed

variable {generalCategory : Char → GeneralCategory}

/-- The table has the printable characters of ASCII among its printable ones. -/
def PrintsAscii (generalCategory : Char → GeneralCategory) : Prop :=
  ∀ c, Graphic c → isPrint generalCategory c = true

/-! ## Characters -/

/-- Printable, or a tab. -/
def Displayable (generalCategory : Char → GeneralCategory) (c : Char) : Prop :=
  isPrint generalCategory c = true ∨ c = '\t'

theorem displayable_visible (hascii : PrintsAscii generalCategory) (c : Char) :
    ∀ d ∈ visible generalCategory c, Displayable generalCategory d := by
  rw [visible]
  split_ifs with hplain
  · intro d hd
    rw [List.mem_singleton] at hd
    rw [Bool.or_eq_true, decide_eq_true_iff] at hplain
    exact hd ▸ hplain.symm
  · intro d hd
    have hmem : d ∈ showChar c := List.mem_of_mem_tail (List.dropLast_subset _ hd)
    exact Or.inl (hascii d (graphic_showChar c d hmem))

theorem tab_notMem_tabs (c : Char) : '\t' ∉ tabs c := by
  rw [tabs]
  split_ifs with hc
  · decide
  · rw [List.mem_singleton]
    exact Ne.symm hc

theorem displayable_tabs (hascii : PrintsAscii generalCategory) {c : Char}
    (hc : Displayable generalCategory c) : ∀ d ∈ tabs c, Displayable generalCategory d := by
  rw [tabs]
  split_ifs
  · exact fun d hd => Or.inl (hascii d (graphic_of_all rfl d hd))
  · exact List.forall_mem_singleton.mpr hc

theorem tab_notMem_visible {c : Char} (hc : c ≠ '\t') : '\t' ∉ visible generalCategory c := by
  rcases visible_spec generalCategory c with hsame | hescaped
  · rw [hsame, List.mem_singleton]
    exact Ne.symm hc
  · exact hescaped.tab

/-! ## The text -/

theorem lines_cat (as : List Flag) (content : Str) :
    lines (cat generalCategory as content) =
      newline as (number generalCategory as (rendered generalCategory as (lines content))) := by
  have hlines : Unbroken (lines content) := fun l => newline_notMem_of_mem_lines
  rw [cat_eq,
    lines_unlines (newline_number_spec generalCategory as (unbroken_rendered as hlines)).1]

theorem displayable_cat (hascii : PrintsAscii generalCategory) {as : List Flag}
    (h : .invisible ∈ as) (content : Str) :
    AllChars (Displayable generalCategory) (lines (cat generalCategory as content)) := by
  have hgraphic : ∀ c, Graphic c → Displayable generalCategory c := fun c hc => Or.inl (hascii c hc)
  have hinvisible : ∀ s, AllChars (Displayable generalCategory)
      (render generalCategory .invisible s) := by
    intro s l hl c hc
    rcases List.mem_map.mp hl with ⟨l', -, rfl⟩
    rcases List.mem_flatMap.mp hc with ⟨c', -, hc⟩
    exact displayable_visible hascii c' c hc
  rw [lines_cat]
  exact ((AllChars.rendered_of_mem h hinvisible (fun c hc => displayable_tabs hascii hc)
    (fun c _ => displayable_visible hascii c) (lines content)).number hgraphic).newline hgraphic

theorem tab_notMem_cat {as : List Flag} (h : .tabs ∈ as) (content : Str) :
    AllChars (fun c => c ≠ '\t') (lines (cat generalCategory as content)) := by
  have hgraphic : ∀ c, Graphic c → c ≠ '\t' := by
    rintro c hc rfl
    exact absurd hc (by decide)
  have htabs : ∀ s, AllChars (fun c => c ≠ '\t') (render generalCategory .tabs s) := by
    intro s l hl c hc heq
    rcases List.mem_map.mp hl with ⟨l', -, rfl⟩
    rcases List.mem_flatMap.mp hc with ⟨c', -, hc⟩
    exact tab_notMem_tabs c' (heq ▸ hc)
  rw [lines_cat]
  exact ((AllChars.rendered_of_mem h htabs (fun c _ d hd heq => tab_notMem_tabs c (heq ▸ hd))
    (fun c hc d hd heq => tab_notMem_visible hc (heq ▸ hd))
    (lines content)).number hgraphic).newline hgraphic

/-- With `-v`, `-e` or `-t` among the options every character of every line is printable or a tab,
and with `-t` there is no tab. -/
theorem cat_displayable {argv fs : List Str} {as : List Flag} (hparse : parse argv = .ok (as, fs))
    (hoption : .invisible ∈ (getOpt flags argv).1 ∨ .dollar ∈ (getOpt flags argv).1 ∨
      .tabs ∈ (getOpt flags argv).1)
    (hascii : PrintsAscii generalCategory) (content : Str) :
    (∀ l ∈ lines (cat generalCategory as content), ∀ c ∈ l,
      isPrint generalCategory c = true ∨ c = '\t') ∧
      (.tabs ∈ (getOpt flags argv).1 →
        ∀ l ∈ lines (cat generalCategory as content), ∀ c ∈ l, c ≠ '\t') := by
  have hset : ∀ {f g : Flag}, f ∈ (getOpt flags argv).1 → g ∈ set f → g ∈ as := by
    intro f g hf hg
    rw [parse_eq_ok hparse, mem_nub, List.mem_flatMap]
    exact ⟨f, hf, hg⟩
  have hinvisible : .invisible ∈ as := by
    rcases hoption with hf | hf | hf
    · exact hset hf (by decide)
    · exact hset hf (by decide)
    · exact hset hf (by decide)
  exact ⟨displayable_cat hascii hinvisible content,
    fun htabs => tab_notMem_cat (hset htabs (by decide)) content⟩

end Displayed

theorem printsAscii_asciiCategory : PrintsAscii asciiCategory := by
  intro c hc
  have hplain : ¬ ((c.toNat < 0x20 || c.toNat = 0x7f) = true) := by
    simp only [Bool.or_eq_true, decide_eq_true_iff, not_or]
    exact ⟨Nat.not_lt.mpr hc.1, Nat.ne_of_lt hc.2⟩
  rw [isPrint, asciiCategory, if_neg hplain]
  split_ifs <;> rfl

/-- A line with a bell and a tab, of which `-t` shows both. -/
theorem cat_displayable_bell :
    lines (cat asciiCategory [.tabs, .invisible] ['a', '\x07', '\t', '\n']) =
        [['a', '\\', 'a', '^', 'I']] ∧
      ((∀ l ∈ lines (cat asciiCategory [.tabs, .invisible] ['a', '\x07', '\t', '\n']),
        ∀ c ∈ l, isPrint asciiCategory c = true ∨ c = '\t') ∧
        (.tabs ∈ (getOpt flags [['-', 't']]).1 →
          ∀ l ∈ lines (cat asciiCategory [.tabs, .invisible] ['a', '\x07', '\t', '\n']),
            ∀ c ∈ l, c ≠ '\t')) := by
  have hparse : parse [['-', 't']] = .ok ([.tabs, .invisible], [['-']]) := rfl
  exact ⟨by decide, cat_displayable hparse (by decide) printsAscii_asciiCategory _⟩

end Cat
end Etude
