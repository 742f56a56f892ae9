import Etude.Base.Decimal
import Etude.Base.Read

/-!
# ReadShow — `read` gives back what `show` has written

The decimal text of an integer is read as that integer, at any notion of white space that leaves
the digits and the minus sign alone.
-/

namespace Etude
namespace Base
namespace Read

/-! ## Texts of numbers -/

def showNat (n : ℕ) : Str :=
  (padDigits 1 n).map Nat.digitChar

/-- `show`, at a type of integers. -/
def showInt (n : ℤ) : Str :=
  if n < 0 then '-' :: showNat n.natAbs else showNat n.natAbs

/-! ## Digits -/

theorem valDig_digitChar : ∀ d < 10, valDig 10 (Nat.digitChar d) = some d := by
  decide

/-- No digit starts a text that is not a number. -/
theorem digitChar_ne : ∀ d < 10, Nat.digitChar d ≠ '-' ∧ Nat.digitChar d ≠ '(' ∧
    Nat.digitChar d ≠ 'x' ∧ Nat.digitChar d ≠ 'X' ∧ Nat.digitChar d ≠ 'o' ∧
      Nat.digitChar d ≠ 'O' := by
  decide

theorem moreDigits_map (n : ℕ) {ds : List ℕ} {s : Str} (h : ∀ d ∈ ds, d < 10)
    (hs : ∀ c ∈ s.head?, valDig 10 c = none) :
    moreDigits 10 n (ds.map Nat.digitChar ++ s) =
      (ds.foldl (fun m d => 10 * m + d) n, s) := by
  induction ds generalizing n with
  | nil =>
      cases s with
      | nil =>
          rfl
      | cons c cs =>
          simp [moreDigits, hs c rfl]
  | cons d ds ih =>
      rw [List.map_cons, List.cons_append, moreDigits, valDig_digitChar d (h d (by simp)),
        List.foldl_cons]
      exact ih _ fun e he => h e (by simp [he])

theorem foldl_eq_ofDigits (ds : List ℕ) :
    ds.foldl (fun m d => 10 * m + d) 0 = Nat.ofDigits 10 ds.reverse := by
  rw [Nat.ofDigits_eq_foldr, List.foldr_reverse]
  congr 1
  funext m d
  simp [Nat.add_comm]

theorem lexDigits_map {ds : List ℕ} {s : Str} (hne : ds ≠ []) (h : ∀ d ∈ ds, d < 10)
    (hs : ∀ c ∈ s.head?, valDig 10 c = none) :
    lexDigits 10 (ds.map Nat.digitChar ++ s) = some (Nat.ofDigits 10 ds.reverse, s) := by
  cases ds with
  | nil =>
      exact absurd rfl hne
  | cons d ds =>
      rw [List.map_cons, List.cons_append, lexDigits, valDig_digitChar d (h d (by simp)),
        Option.map_some, moreDigits_map d (fun e he => h e (by simp [he])) hs,
        ← foldl_eq_ofDigits, List.foldl_cons]
      simp

/-- Behind a leading zero there are only digits. -/
theorem lexNumber_map {ds : List ℕ} (hne : ds ≠ []) (h : ∀ d ∈ ds, d < 10) :
    lexNumber (ds.map Nat.digitChar) = some (Nat.ofDigits 10 ds.reverse, []) := by
  have hlex := lexDigits_map hne h (s := []) (by simp)
  rw [List.append_nil] at hlex
  unfold lexNumber
  split
  · rename_i c cs heq
    rw [heq] at hlex
    have hc : c ∈ ds.map Nat.digitChar := by
      rw [heq]
      simp
    -- The prefixes `0x` and `0o` go on with a letter.
    rcases List.mem_map.mp hc with ⟨d, hd, rfl⟩
    rcases digitChar_ne d (h d hd) with ⟨-, -, hx, hX, ho, hO⟩
    rw [if_neg (by simp [hx, hX]), if_neg (by simp [ho, hO]), heq]
    exact hlex
  · exact hlex

/-! ## Reading back -/

theorem padDigits_one_ne_nil (n : ℕ) : padDigits 1 n ≠ [] := by
  have hlen := length_padDigits 1 n
  intro h
  rw [h, List.length_nil] at hlen
  omega

theorem lexNumber_showNat (n : ℕ) : lexNumber (showNat n) = some (n, []) := by
  rw [showNat, lexNumber_map (padDigits_one_ne_nil n) fun _ hd => padDigits_lt hd,
    ofDigits_padDigits]

theorem exists_showNat_cons (n : ℕ) : ∃ d < 10, ∃ cs, showNat n = Nat.digitChar d :: cs := by
  cases hds : padDigits 1 n with
  | nil =>
      exact absurd hds (padDigits_one_ne_nil n)
  | cons d ds =>
      have hd : d < 10 := padDigits_lt (by rw [hds]; simp)
      exact ⟨d, hd, ds.map Nat.digitChar, by rw [showNat, hds]; rfl⟩

section Space

variable {isSpace : Char → Bool}

theorem opening_of_ne {c : Char} (hspace : isSpace c = false) (hparen : c ≠ '(') (n : ℕ)
    (cs : Str) : opening isSpace n (c :: cs) = (n, c :: cs) := by
  rw [opening, if_neg (by simp [hspace]), if_neg hparen]

/-- Numbers are read back. -/
theorem readInt_showInt (hminus : isSpace '-' = false)
    (hdigits : ∀ d < 10, isSpace (Nat.digitChar d) = false) (n : ℤ) :
    readInt isSpace (showInt n) = some n := by
  rcases exists_showNat_cons n.natAbs with ⟨d, hd, cs, hcs⟩
  have hlex := lexNumber_showNat n.natAbs
  have hspace := hdigits d hd
  rcases digitChar_ne d hd with ⟨hnotminus, hparen, -⟩
  unfold readInt showInt
  by_cases hneg : n < 0
  · rw [if_pos hneg, opening_of_ne hminus (by decide)]
    have hsign : sign isSpace ('-' :: showNat n.natAbs) = (true, showNat n.natAbs) := by
      rw [sign, hcs, List.dropWhile_cons, if_neg (by simp [hspace])]
    simp only [hsign, hlex]
    have hvalue : -(n.natAbs : ℤ) = n := by omega
    change some (-(n.natAbs : ℤ)) = some n
    rw [hvalue]
  · rw [if_neg hneg, hcs, opening_of_ne hspace hparen, ← hcs]
    have hsign : sign isSpace (showNat n.natAbs) = (false, showNat n.natAbs) := by
      rw [hcs, sign]
      intro cs' h
      exact hnotminus (List.cons.inj h).1
    simp only [hsign, hlex]
    have hvalue : (n.natAbs : ℤ) = n := by omega
    change some (n.natAbs : ℤ) = some n
    rw [hvalue]

end Space

end Read
end Base
end Etude
