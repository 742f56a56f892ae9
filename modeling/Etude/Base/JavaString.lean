import Etude.Base.Decimal
import Etude.Base.Split
import Etude.Base.Traverse
import Mathlib.Data.List.DropRight
import Mathlib.Order.Defs.Unbundled

/-!
# JavaString — the strings of the JVM

A string is a list of UTF-16 code units.  Here are the operations of its library that a program
reading lines of separated fields uses: lines, splitting, comparison and decimal numbers.
-/

namespace Etude
namespace Base

abbrev JavaString :=
  List UInt16

namespace JavaString

/-! ## Lines -/

/-- `BufferedReader.readLine` until the end: a line ends with a line feed, a carriage return, or
both.  After a carriage return one line feed is skipped. -/
def readLines (skipLF : Bool) : JavaString → List JavaString
  | [] => []
  | c :: cs =>
    if c = 10 then
      if skipLF then readLines false cs else [] :: readLines false cs
    else if c = 13 then
      [] :: readLines true cs
    else
      match readLines false cs with
      | [] => [[c]]
      | l :: ls => (c :: l) :: ls

/-- A line and the end of it: whatever follows a line feed or a carriage return is read first,
which is why a text that starts a line with another character keeps its first line. -/
theorem readLines_append {l : JavaString} (hlf : 10 ∉ l) (hcr : 13 ∉ l) (cs : JavaString) :
    readLines false (l ++ 10 :: cs) = l :: readLines false cs := by
  induction l with
  | nil =>
      rfl
  | cons c l ih =>
      rw [List.mem_cons, not_or] at hlf hcr
      rw [List.cons_append, readLines, if_neg (Ne.symm hlf.1), if_neg (Ne.symm hcr.1),
        ih hlf.2 hcr.2]

/-- Lines written with a line feed after each are read back. -/
theorem readLines_flatMap {ls : List JavaString} (h : ∀ l ∈ ls, 10 ∉ l ∧ 13 ∉ l) :
    readLines false (ls.flatMap fun l => l ++ [10]) = ls := by
  induction ls with
  | nil =>
      rfl
  | cons l ls ih =>
      have hl := h l List.mem_cons_self
      rw [List.flatMap_cons, List.append_assoc, List.singleton_append,
        readLines_append hl.1 hl.2, ih fun l' hl' => h l' (List.mem_cons_of_mem l hl')]

/-! ## Splitting -/

/-- `String.split` at a single character: empty parts at the end are dropped, and a string without
the character is its only part. -/
def split (sep : UInt16) (s : JavaString) : List JavaString :=
  if sep ∈ s then (s.splitOn sep).rdropWhile List.isEmpty else [s]

/-- No part has the separator. -/
theorem notMem_of_mem_split {sep : UInt16} {s part : JavaString} (h : part ∈ split sep s) :
    sep ∉ part := by
  by_cases hs : sep ∈ s
  · rw [split, if_pos hs] at h
    exact notMem_of_mem_splitOn ((List.rdropWhile_prefix List.isEmpty _).subset h)
  · rw [split, if_neg hs, List.mem_singleton] at h
    rw [h]
    exact hs

/-- Three parts without the separator, the last of them not empty, are split again. -/
theorem split_three {sep : UInt16} {a b c : JavaString} (ha : sep ∉ a) (hb : sep ∉ b)
    (hc : sep ∉ c) (hne : c ≠ []) : split sep (a ++ sep :: (b ++ sep :: c)) = [a, b, c] := by
  have hmem : sep ∈ a ++ sep :: (b ++ sep :: c) := List.mem_append_right a List.mem_cons_self
  have hlast : ¬ List.isEmpty c = true := by
    rw [List.isEmpty_iff]
    exact hne
  rw [split, if_pos hmem, List.splitOn_append_cons_self_of_not_mem ha,
    List.splitOn_append_cons_self_of_not_mem hb, List.splitOn_eq_singleton hc]
  exact List.rdropWhile_concat_neg List.isEmpty [a, b] c hlast

/-! ## Comparison -/

/-- `String.compareTo` -/
def compareTo : JavaString → JavaString → ℤ
  | [], t => -t.length
  | c :: s, [] => (c :: s).length
  | c :: s, d :: t => if c = d then compareTo s t else c.toNat - d.toNat

theorem compareTo_nil_right (s : JavaString) : compareTo s [] = s.length := by
  cases s with
  | nil =>
      rfl
  | cons c s =>
      rfl

theorem compareTo_swap (s t : JavaString) : compareTo t s = -compareTo s t := by
  induction s generalizing t with
  | nil =>
      rw [compareTo_nil_right, compareTo, Int.neg_neg]
  | cons c s ih =>
      cases t with
      | nil =>
          rfl
      | cons d t =>
          by_cases hcd : c = d
          · rw [compareTo, compareTo, if_pos hcd, if_pos hcd.symm]
            exact ih t
          · rw [compareTo, compareTo, if_neg hcd, if_neg (Ne.symm hcd)]
            omega

theorem compareTo_eq_zero {s t : JavaString} (h : compareTo s t = 0) : s = t := by
  induction s generalizing t with
  | nil =>
      cases t with
      | nil =>
          rfl
      | cons d t =>
          rw [compareTo, List.length_cons] at h
          omega
  | cons c s ih =>
      cases t with
      | nil =>
          rw [compareTo_nil_right, List.length_cons] at h
          omega
      | cons d t =>
          by_cases hcd : c = d
          · rw [compareTo, if_pos hcd] at h
            rw [hcd, ih h]
          · rw [compareTo, if_neg hcd] at h
            have hnat : c.toNat = d.toNat := by omega
            exact absurd (UInt16.toNat_inj.mp hnat) hcd

theorem compareTo_cons_le_iff {c d : UInt16} {s t : JavaString} :
    compareTo (c :: s) (d :: t) ≤ 0 ↔ c.toNat < d.toNat ∨ c = d ∧ compareTo s t ≤ 0 := by
  rw [compareTo]
  by_cases hcd : c = d
  · rw [if_pos hcd, hcd]
    simp
  · have hne : c.toNat ≠ d.toNat := fun h => hcd (UInt16.toNat_inj.mp h)
    rw [if_neg hcd]
    simp only [hcd, false_and, or_false]
    omega

theorem compareTo_trans {s t u : JavaString} (hst : compareTo s t ≤ 0) (htu : compareTo t u ≤ 0) :
    compareTo s u ≤ 0 := by
  induction s generalizing t u with
  | nil =>
      rw [compareTo]
      omega
  | cons c s ih =>
      cases t with
      | nil =>
          rw [compareTo_nil_right, List.length_cons] at hst
          omega
      | cons d t =>
          cases u with
          | nil =>
              rw [compareTo_nil_right, List.length_cons] at htu
              omega
          | cons e u =>
              rw [compareTo_cons_le_iff] at *
              rcases hst with hcd | ⟨rfl, hst⟩
              · rcases htu with hde | ⟨rfl, -⟩
                · exact Or.inl (Nat.lt_trans hcd hde)
                · exact Or.inl hcd
              · rcases htu with hce | ⟨rfl, htu⟩
                · exact Or.inl hce
                · exact Or.inr ⟨rfl, ih hst htu⟩

/-! ## Decimal numbers -/

/-- `Character.digit` in base ten: known on ASCII, a table of the JVM beyond it. -/
structure Digits where
  value : UInt16 → Option ℕ
  ascii : ∀ c, c.toNat < 128 →
    value c = if 48 ≤ c.toNat ∧ c.toNat ≤ 57 then some (c.toNat - 48) else none

/-- The table that has no digits beyond ASCII. -/
def asciiDigits : Digits where
  value c := if 48 ≤ c.toNat ∧ c.toNat ≤ 57 then some (c.toNat - 48) else none
  ascii _ _ := rfl

def magnitude (digits : Digits) (s : JavaString) : Option ℕ :=
  if s = [] then none else (s.mapM digits.value).map fun ds => Nat.ofDigits 10 ds.reverse

/-- `Long.parseLong`; `none` is a `NumberFormatException`. -/
def parseLong (digits : Digits) : JavaString → Option Int64
  | [] => none
  | c :: cs =>
    if c = 45 then
      (magnitude digits cs).bind fun n =>
        if n ≤ 9223372036854775808 then some (Int64.ofInt (-n)) else none
    else
      (magnitude digits (if c = 43 then cs else c :: cs)).bind fun n =>
        if n < 9223372036854775808 then some (Int64.ofNat n) else none

/-- `Long.toString` of a number that is not negative. -/
def decimal (n : ℕ) : JavaString :=
  (padDigits 1 n).map fun d => UInt16.ofNat (48 + d)

theorem toNat_digit {d : ℕ} (h : d < 10) : (UInt16.ofNat (48 + d)).toNat = 48 + d :=
  UInt16.toNat_ofNat_of_lt' (Nat.lt_trans (Nat.add_lt_add_left h 48) (by decide))

theorem toNat_of_mem_decimal {n : ℕ} {c : UInt16} (h : c ∈ decimal n) :
    48 ≤ c.toNat ∧ c.toNat ≤ 57 := by
  rcases List.mem_map.mp h with ⟨d, hd, rfl⟩
  have hlt := padDigits_lt hd
  rw [toNat_digit hlt]
  omega

theorem decimal_ne_nil (n : ℕ) : decimal n ≠ [] := by
  intro h
  have hlength := congrArg List.length h
  rw [decimal, List.length_map, length_padDigits, List.length_nil] at hlength
  omega

theorem value_digit (digits : Digits) {d : ℕ} (h : d < 10) :
    digits.value (UInt16.ofNat (48 + d)) = some d := by
  rw [digits.ascii _ (by rw [toNat_digit h]; omega), toNat_digit h, if_pos (by omega),
    Nat.add_sub_cancel_left]

theorem mapM_digits (digits : Digits) {ds : List ℕ} (h : ∀ d ∈ ds, d < 10) :
    (ds.map fun d => UInt16.ofNat (48 + d)).mapM digits.value = some ds := by
  rw [mapM_eq_some_iff, List.map_map]
  exact List.map_congr_left fun d hd => value_digit digits (h d hd)

theorem magnitude_decimal (digits : Digits) (n : ℕ) : magnitude digits (decimal n) = some n := by
  rw [magnitude, if_neg (decimal_ne_nil n), decimal,
    mapM_digits digits (fun d hd => padDigits_lt hd), Option.map_some, ofDigits_padDigits]

/-- A number that is not negative is read back if a `long` holds it. -/
theorem parseLong_decimal (digits : Digits) (n : ℕ) :
    parseLong digits (decimal n) =
      if n < 9223372036854775808 then some (Int64.ofNat n) else none := by
  cases hs : decimal n with
  | nil =>
      exact absurd hs (decimal_ne_nil n)
  | cons c cs =>
      have hc := toNat_of_mem_decimal (n := n) (c := c) (by rw [hs]; exact List.mem_cons_self)
      have hminus : c ≠ 45 := by
        rintro rfl
        exact absurd hc.1 (by decide)
      have hplus : c ≠ 43 := by
        rintro rfl
        exact absurd hc.1 (by decide)
      rw [parseLong, if_neg hminus, if_neg hplus, ← hs, magnitude_decimal, Option.bind_some]

end JavaString

end Base
end Etude
