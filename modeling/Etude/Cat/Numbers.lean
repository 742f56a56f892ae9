import Etude.Base.Decimal
import Etude.Cat.Model

/-!
# Numbers — lines numbered with `-b`

`numberSome` folds the lines with a counter and collects them in reverse.  Its result is read off
line by line: a blank line stays, and any other gets the number of those up to it.
-/

namespace Etude
namespace Cat

open Base Base.GetOpt

section Numbers

variable {generalCategory : Char → GeneralCategory}

/-- The lines numbered from `n` on, blank ones left without a number. -/
def numberFrom (generalCategory : Char → GeneralCategory) : ℕ → List Line → List Line
  | _, [] => []
  | n, l :: ls =>
      if allSpace generalCategory l then l :: numberFrom generalCategory n ls
      else numberLine n l :: numberFrom generalCategory (n + 1) ls

theorem foldl_draw (n : ℕ) (acc ls : List Line) :
    (ls.foldl (draw generalCategory) (n, acc)).2.reverse =
      acc.reverse ++ numberFrom generalCategory n ls := by
  induction ls generalizing n acc with
  | nil =>
      simp [numberFrom]
  | cons l ls ih =>
      rw [List.foldl_cons, draw, numberFrom]
      split_ifs <;> simp [ih]

theorem numberSome_eq (ls : List Line) :
    numberSome generalCategory ls = numberFrom generalCategory 1 ls :=
  foldl_draw 1 [] ls

theorem length_numberFrom (n : ℕ) (ls : List Line) :
    (numberFrom generalCategory n ls).length = ls.length := by
  induction ls generalizing n with
  | nil =>
      rfl
  | cons l ls ih =>
      rw [numberFrom]
      split_ifs
      · exact congrArg Nat.succ (ih n)
      · exact congrArg Nat.succ (ih (n + 1))

/-- The number of lines that are not blank. -/
def nonBlanks (generalCategory : Char → GeneralCategory) (ls : List Line) : ℕ :=
  ls.countP fun l => !allSpace generalCategory l

theorem getElem?_numberFrom (ls : List Line) :
    ∀ (n i : ℕ) (l : Line), ls[i]? = some l →
      (numberFrom generalCategory n ls)[i]? =
        some (if allSpace generalCategory l then l
          else numberLine (n + nonBlanks generalCategory (ls.take i)) l) := by
  induction ls with
  | nil =>
      intro n i l h
      cases h
  | cons l' ls ih =>
      intro n i l h
      cases i with
      | zero =>
          cases h
          rw [numberFrom]
          split_ifs <;> rfl
      | succ i =>
          rw [List.getElem?_cons_succ] at h
          rw [numberFrom, List.take_succ_cons, nonBlanks, List.countP_cons]
          cases hblank : allSpace generalCategory l' with
          | true =>
              rw [if_pos rfl, List.getElem?_cons_succ, ih n i l h]
              rfl
          | false =>
              have hcount : n + 1 + nonBlanks generalCategory (ls.take i) =
                  n + (nonBlanks generalCategory (ls.take i) + 1) := by omega
              rw [if_neg (by decide), List.getElem?_cons_succ, ih (n + 1) i l h, hcount]
              rfl

/-! ## Removing the numbers -/

/-- Takes the prefix of `numberLine` away, from a line that is not blank. -/
def unnumber (generalCategory : Char → GeneralCategory) (l : Line) : Line :=
  if allSpace generalCategory l then l
  else ((l.dropWhile fun c => c = ' ').dropWhile Char.isDigit).drop 2

theorem isDigit_toDigits {n : ℕ} {c : Char} (h : c ∈ Nat.toDigits 10 n) : c.isDigit = true :=
  Nat.isDigit_of_mem_toDigits (by decide) (by decide) h

theorem toNat_of_isDigit {c : Char} (h : c.isDigit = true) : 48 ≤ c.toNat ∧ c.toNat ≤ 57 :=
  Char.isDigit_iff_toNat.mp h

/-- A digit is not white space. -/
theorem isSpace_of_isDigit {c : Char} (h : c.isDigit = true) :
    isSpace generalCategory c = false := by
  have hrange := toNat_of_isDigit h
  rw [isSpace, if_pos (by omega)]
  simp only [Bool.or_eq_false_iff, decide_eq_false_iff_not, Bool.and_eq_false_iff]
  omega

theorem exists_toDigits (n : ℕ) :
    ∃ d ds, Nat.toDigits 10 n = d :: ds ∧ d.isDigit = true := by
  rcases List.exists_cons_of_ne_nil (@Nat.toDigits_ne_nil n 10) with ⟨d, ds, hdigits⟩
  refine ⟨d, ds, hdigits, isDigit_toDigits (n := n) ?_⟩
  rw [hdigits]
  exact List.mem_cons_self

theorem allSpace_numberLine (n : ℕ) (l : Line) :
    allSpace generalCategory (numberLine n l) = false := by
  rcases exists_toDigits n with ⟨d, ds, hdigits, hd⟩
  have hmem : d ∈ numberLine n l := by
    rw [numberLine, hdigits]
    simp
  rw [allSpace, List.all_eq_false]
  exact ⟨d, hmem, by rw [isSpace_of_isDigit hd]; decide⟩

/-- Behind the padding the digits come, the first of which is no space. -/
theorem dropWhile_numberLine (n : ℕ) (l : Line) :
    (numberLine n l).dropWhile (fun c => c = ' ') = Nat.toDigits 10 n ++ ([' ', ' '] ++ l) := by
  rcases exists_toDigits n with ⟨d, ds, hdigits, hd⟩
  have hspace : d ≠ ' ' := by
    rintro rfl
    exact absurd hd (by decide)
  rw [numberLine, List.append_assoc, List.append_assoc,
    List.dropWhile_append_of_pos (fun c hc => by simp [List.eq_of_mem_replicate hc]), hdigits,
    List.cons_append, List.dropWhile_cons_of_neg (by simpa using hspace)]

/-- A line has one number at most. -/
theorem numberLine_injective (l : Line) : Function.Injective fun n => numberLine n l := by
  intro m n h
  have hdigits : Nat.toDigits 10 m ++ ([' ', ' '] ++ l) =
      Nat.toDigits 10 n ++ ([' ', ' '] ++ l) := by
    rw [← dropWhile_numberLine, ← dropWhile_numberLine]
    exact congrArg _ h
  exact Base.toDigits_injective (List.append_cancel_right hdigits)

theorem unnumber_numberLine (n : ℕ) (l : Line) :
    unnumber generalCategory (numberLine n l) = l := by
  have hdigits : (Nat.toDigits 10 n ++ ([' ', ' '] ++ l)).dropWhile Char.isDigit =
      [' ', ' '] ++ l := by
    rw [List.dropWhile_append_of_pos (fun c hc => isDigit_toDigits hc)]
    rfl
  rw [unnumber, allSpace_numberLine, if_neg (by decide), dropWhile_numberLine, hdigits]
  rfl

theorem map_unnumber_numberFrom (n : ℕ) (ls : List Line) :
    (numberFrom generalCategory n ls).map (unnumber generalCategory) = ls := by
  induction ls generalizing n with
  | nil =>
      rfl
  | cons l ls ih =>
      rw [numberFrom]
      split_ifs with hblank
      · rw [List.map_cons, ih n, unnumber, if_pos hblank]
      · rw [List.map_cons, ih (n + 1), unnumber_numberLine]

theorem numberFrom_eq_zipWith (n : ℕ) {ls : List Line}
    (h : ∀ l ∈ ls, allSpace generalCategory l = false) :
    numberFrom generalCategory n ls = List.zipWith numberLine (List.range' n ls.length) ls := by
  induction ls generalizing n with
  | nil =>
      rfl
  | cons l ls ih =>
      rw [List.forall_mem_cons] at h
      calc
        numberFrom generalCategory n (l :: ls)
            = numberLine n l :: numberFrom generalCategory (n + 1) ls := by
              rw [numberFrom, h.1, if_neg (by decide)]
        _ = numberLine n l :: List.zipWith numberLine (List.range' (n + 1) ls.length) ls := by
              rw [ih (n + 1) h.2]
        _ = List.zipWith numberLine (List.range' n (l :: ls).length) (l :: ls) := by
              rw [List.length_cons, List.range'_succ, List.zipWith_cons_cons]

/-- The lines keep their number and order, the `k`-th that is not blank gets the number `k` and the
others stay, the prefixes can be taken away again, and without blank lines `-b` numbers like
`-n`. -/
theorem numberSome_spec (generalCategory : Char → GeneralCategory) (s : List Line) :
    (numberSome generalCategory s).length = s.length ∧
      (∀ i l, s[i]? = some l → (numberSome generalCategory s)[i]? =
        some (if allSpace generalCategory l then l
          else numberLine (nonBlanks generalCategory (s.take i) + 1) l)) ∧
      (numberSome generalCategory s).map (unnumber generalCategory) = s ∧
      ((∀ l ∈ s, allSpace generalCategory l = false) →
        numberSome generalCategory s = numberAll s) := by
  rw [numberSome_eq]
  refine ⟨length_numberFrom 1 s, ?_, map_unnumber_numberFrom 1 s, numberFrom_eq_zipWith 1⟩
  intro i l h
  rw [getElem?_numberFrom s 1 i l h, Nat.add_comm]

end Numbers

end Cat
end Etude
