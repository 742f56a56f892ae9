import Mathlib.Data.Nat.Digits.Lemmas

/-!
# Decimal — numbers printed with leading zeros

`padDigits w n` are the decimal digits that `%0wd` prints for a number that is not negative.
-/

namespace Etude
namespace Base

/-- The decimal digits of `n`, first digit first, padded with zeros to the width `w`. -/
def padDigits (w n : ℕ) : List ℕ :=
  List.replicate (w - (Nat.digits 10 n).length) 0 ++ (Nat.digits 10 n).reverse

theorem length_padDigits (w n : ℕ) :
    (padDigits w n).length = max w (Nat.digits 10 n).length := by
  simp only [padDigits, List.length_append, List.length_replicate, List.length_reverse]
  omega

theorem length_padDigits_le {w n k : ℕ} (hw : w ≤ k) (hn : n < 10 ^ k) :
    (padDigits w n).length ≤ k := by
  have hdigits : (Nat.digits 10 n).length ≤ k := (Nat.digits_length_le_iff (by decide) n).mpr hn
  rw [length_padDigits]
  omega

theorem length_padDigits_eq {w n : ℕ} (hn : n < 10 ^ w) : (padDigits w n).length = w := by
  have hle := length_padDigits_le (Nat.le_refl w) hn
  rw [length_padDigits] at *
  omega

theorem padDigits_lt {w n d : ℕ} (h : d ∈ padDigits w n) : d < 10 := by
  rcases List.mem_append.mp h with hzero | hdigit
  · rw [List.eq_of_mem_replicate hzero]
    decide
  · exact Nat.digits_lt_base (by decide) (List.mem_reverse.mp hdigit)

theorem ofDigits_padDigits (w n : ℕ) : Nat.ofDigits 10 (padDigits w n).reverse = n := by
  rw [padDigits, List.reverse_append, List.reverse_reverse, List.reverse_replicate,
    Nat.ofDigits_append_replicate_zero, Nat.ofDigits_digits]

theorem padDigits_injective (w : ℕ) : Function.Injective (padDigits w) := by
  intro m n h
  rw [← ofDigits_padDigits w m, h, ofDigits_padDigits]

/-- A number can be read off its decimal digits without leading zeros. -/
theorem toDigits_injective : Function.Injective (Nat.toDigits 10) := by
  intro m n h
  calc
    m = Nat.ofDigitChars 10 (Nat.toDigits 10 m) 0 := Nat.ofDigitChars_ten_toDigits.symm
    _ = Nat.ofDigitChars 10 (Nat.toDigits 10 n) 0 := by rw [h]
    _ = n := Nat.ofDigitChars_ten_toDigits

end Base
end Etude
