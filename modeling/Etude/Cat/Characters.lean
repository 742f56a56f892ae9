import Etude.Cat.Numbers
import Etude.Cat.Order

/-!
# Characters — what holds of all characters of the lines

A property of characters that the printable characters of ASCII have goes through the numbers and
the dollar signs, and through the renderings if their two maps of characters keep it.
-/

namespace Etude
namespace Cat

open Base Base.GetOpt

/-! ## Printable characters -/

/-- The printable characters of ASCII. -/
def Graphic (c : Char) : Prop :=
  0x20 ≤ c.toNat ∧ c.toNat < 0x7f

instance (c : Char) : Decidable (Graphic c) :=
  inferInstanceAs (Decidable (_ ∧ _))

theorem graphic_of_isDigit {c : Char} (h : c.isDigit = true) : Graphic c := by
  have hrange := toNat_of_isDigit h
  exact ⟨by omega, by omega⟩

theorem graphic_cons {c : Char} {s : Str} (hc : Graphic c) (h : ∀ d ∈ s, Graphic d) :
    ∀ d ∈ c :: s, Graphic d :=
  List.forall_mem_cons.mpr ⟨hc, h⟩

section Lines

variable {generalCategory : Char → GeneralCategory}

/-! ## Lines -/

/-- A property that all characters of all lines have. -/
def AllChars (p : Char → Prop) (s : List Line) : Prop :=
  ∀ l ∈ s, ∀ c ∈ l, p c

variable {p : Char → Prop}

/-- A rendering keeps what its two maps of characters keep. -/
theorem AllChars.render {flag : Flag} {s : List Line} (h : AllChars p s)
    (htabs : ∀ c, p c → ∀ d ∈ tabs c, p d)
    (hvisible : ∀ c, p c → ∀ d ∈ visible generalCategory c, p d) :
    AllChars p (render generalCategory flag s) := by
  by_cases hflag : flag = .squeeze
  · subst hflag
    rw [render_squeeze]
    exact fun l hl => h l ((squeeze_sublist _ _).subset hl)
  · rw [render_eq_map hflag]
    intro l hl
    rcases List.mem_map.mp hl with ⟨l', hl', rfl⟩
    have heach : ∀ f : Char → Str, (∀ c, p c → ∀ d ∈ f c, p d) → ∀ d ∈ l'.flatMap f, p d := by
      intro f hf d hd
      rcases List.mem_flatMap.mp hd with ⟨c, hc, hd⟩
      exact hf c (h l' hl' c hc) d hd
    cases flag with
    | tabs =>
        exact heach tabs htabs
    | invisible =>
        exact heach (visible generalCategory) hvisible
    | _ =>
        exact h l' hl'

/-- What all renderings keep. -/
theorem AllChars.rendered {as : List Flag} {s : List Line} (h : AllChars p s)
    (htabs : ∀ c, p c → ∀ d ∈ tabs c, p d)
    (hvisible : ∀ c, p c → ∀ d ∈ visible generalCategory c, p d) :
    AllChars p (rendered generalCategory as s) := by
  induction as generalizing s with
  | nil =>
      exact h
  | cons flag as ih =>
      exact ih (h.render htabs hvisible)

/-- What one flag brings about, the flags after it keep. -/
theorem AllChars.rendered_of_mem {flag : Flag} {as : List Flag} (hmem : flag ∈ as)
    (hflag : ∀ s, AllChars p (Cat.render generalCategory flag s))
    (htabs : ∀ c, p c → ∀ d ∈ tabs c, p d)
    (hvisible : ∀ c, p c → ∀ d ∈ visible generalCategory c, p d) (s : List Line) :
    AllChars p (Cat.rendered generalCategory as s) := by
  rcases List.append_of_mem hmem with ⟨pre, post, rfl⟩
  rw [Cat.rendered, List.foldl_append, List.foldl_cons]
  exact (hflag _).rendered htabs hvisible

/-! ## Numbers and dollar signs -/

theorem AllChars.number {as : List Flag} {s : List Line} (h : AllChars p s)
    (hgraphic : ∀ c, Graphic c → p c) : AllChars p (number generalCategory as s) := by
  have hline : ∀ (n : ℕ) (l : Line), (∀ c ∈ l, p c) → ∀ c ∈ numberLine n l, p c := by
    intro n l hl c hc
    rw [numberLine, List.mem_append, List.mem_append, List.mem_append] at hc
    rcases hc with ((hpad | hdigit) | hgap) | hc
    · rw [List.eq_of_mem_replicate hpad]
      exact hgraphic ' ' (by decide)
    · exact hgraphic c (graphic_of_isDigit (isDigit_toDigits hdigit))
    · exact hgraphic c (graphic_cons (by decide) (graphic_cons (by decide) (by simp)) c hgap)
    · exact hl c hc
  rw [Cat.number]
  split_ifs
  · rw [numberSome_eq]
    -- the induction is on the lines, whatever the first number
    have hfrom : ∀ (n : ℕ), AllChars p (numberFrom generalCategory n s) := by
      induction s with
      | nil =>
          exact fun _ => h
      | cons l s ih =>
          rw [AllChars, List.forall_mem_cons] at h
          intro n
          rw [numberFrom]
          split_ifs
          · exact List.forall_mem_cons.mpr ⟨h.1, ih h.2 n⟩
          · exact List.forall_mem_cons.mpr ⟨hline n l h.1, ih h.2 (n + 1)⟩
    exact hfrom 1
  · intro l hl
    rw [numberAll, ← List.map_uncurry_zip_eq_zipWith] at hl
    rcases List.mem_map.mp hl with ⟨⟨n, l'⟩, hmem, rfl⟩
    exact hline n l' (h l' (List.of_mem_zip hmem).2)
  · exact h

theorem AllChars.newline {as : List Flag} {s : List Line} (h : AllChars p s)
    (hgraphic : ∀ c, Graphic c → p c) : AllChars p (newline as s) := by
  rw [Cat.newline]
  split_ifs
  · intro l hl
    rcases List.mem_map.mp hl with ⟨l', hl', rfl⟩
    exact List.forall_mem_append.mpr
      ⟨h l' hl', List.forall_mem_singleton.mpr (hgraphic '$' (by decide))⟩
  · exact h

theorem length_number (generalCategory : Char → GeneralCategory) (as : List Flag)
    (s : List Line) : (number generalCategory as s).length = s.length := by
  rw [number]
  split_ifs
  · rw [numberSome_eq, length_numberFrom]
  · simp [numberAll]
  · rfl

theorem length_newline (as : List Flag) (s : List Line) : (newline as s).length = s.length := by
  rw [newline]
  split_ifs
  · exact List.length_map _
  · rfl

end Lines

end Cat
end Etude
