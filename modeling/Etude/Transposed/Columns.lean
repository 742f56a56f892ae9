import Etude.Transposed.Model

/-!
# Columns — the lines of a range of columns

The range of field numbers ends at `offset + length`, an `Int`.  As long as that sum is one,
`dataColumns` joins the lines of all columns; otherwise the sum is negative and the range is empty.
-/

namespace Etude
namespace Transposed

open Base

/-- The lines that the columns should have: the `i`-th is for the field number `offset + i - 1`. -/
def columnLines (offset length : Int32) (f : Template) : List Text :=
  (List.range length.toInt.toNat).map fun k =>
    let i := Int32.ofNat (k + 1)
    f (offset + i - 1) voltage i

/-- The lines of a text; the empty text has none. -/
def textLines (s : Text) : List Text :=
  if s = [] then [] else s.splitOn '\n'

/-- The number behind the last column is an `Int`, or there is no column. -/
def Fits (offset length : Int32) : Prop :=
  length = 0 ∨ offset.toInt + length.toInt ≤ 2147483647

/-! ## Joined lines -/

theorem foldl_join (l : Text) (ls : List Text) :
    ls.foldl (fun l r => l ++ '\n' :: r) l = ['\n'].intercalate (l :: ls) := by
  induction ls generalizing l with
  | nil =>
      exact List.intercalate_singleton.symm
  | cons m ls ih =>
      rw [List.foldl_cons, ih, List.intercalate_cons_cons]
      cases ls with
      | nil =>
          simp
      | cons n ls =>
          simp [List.intercalate_cons_cons]

theorem reduceOption_join (ls : List Text) :
    (reduceOption (fun l r => l ++ '\n' :: r) ls).getD [] = ['\n'].intercalate ls := by
  cases ls with
  | nil =>
      rfl
  | cons l ls =>
      exact foldl_join l ls

theorem textLines_join {ls : List Text} (hne : ∀ l ∈ ls, l ≠ []) (hnl : ∀ l ∈ ls, '\n' ∉ l) :
    textLines (['\n'].intercalate ls) = ls := by
  cases ls with
  | nil =>
      rfl
  | cons l ls =>
      have hjoin : ['\n'].intercalate (l :: ls) ≠ [] := by
        have hl := hne l List.mem_cons_self
        cases ls with
        | nil => simpa using hl
        | cons m ls => simp [List.intercalate_cons_cons]
      rw [textLines, if_neg hjoin, List.splitOn_intercalate '\n' hnl (List.cons_ne_nil l ls)]

/-! ## The range -/

section Range

variable {offset length : Int32}

theorem rangeUntil_add (hlength : 0 ≤ length.toInt)
    (hfits : offset.toInt + length.toInt ≤ 2147483647) :
    rangeUntil offset (offset + length) =
      (List.range length.toInt.toNat).map fun k => offset + Int32.ofNat k := by
  have hsum : (offset + length).toInt = offset.toInt + length.toInt := by
    have hlow := Int32.le_toInt offset
    rw [Int32.toInt_add, Int.bmod_eq_of_le] <;> omega
  have hcount : (offset + length).toInt - offset.toInt = length.toInt := by omega
  rw [rangeUntil, hcount]

/-- A sum that is no `Int` wraps around to a number before `offset`. -/
theorem rangeUntil_wrapped (hfits : 2147483647 < offset.toInt + length.toInt) :
    rangeUntil offset (offset + length) = [] := by
  have hoffset := Int32.toInt_lt offset
  have hlength := Int32.toInt_lt length
  have hsum : (offset + length).toInt = offset.toInt + length.toInt - 4294967296 := by
    rw [Int32.toInt_add, Int.bmod_def]
    split <;> omega
  have hcount : ((offset + length).toInt - offset.toInt).toNat = 0 := by omega
  rw [rangeUntil, hcount]
  rfl

theorem dataColumns_wrapped (hfits : 2147483647 < offset.toInt + length.toInt) (f : Template) :
    dataColumns offset length f = [] := by
  rw [dataColumns, rangeUntil_wrapped hfits]
  rfl

/-- Every column is on its line. -/
theorem dataColumns_eq (hlength : 0 ≤ length.toInt) (hfits : Fits offset length) (f : Template) :
    dataColumns offset length f = ['\n'].intercalate (columnLines offset length f) := by
  rw [dataColumns, reduceOption_join]
  apply congrArg
  rcases hfits with rfl | hfits
  · have hnone : rangeUntil offset (offset + 0) = [] := by
      rw [rangeUntil, Int32.add_zero, Int.sub_self]
      rfl
    rw [hnone]
    rfl
  · rw [rangeUntil_add hlength hfits, List.map_map, columnLines]
    refine List.map_congr_left fun k _ => ?_
    have hsucc : Int32.ofNat (k + 1) = Int32.ofNat k + 1 := Int32.ofNat_add k 1
    have hnumber : offset + Int32.ofNat k = offset + Int32.ofNat (k + 1) - 1 :=
      calc
        offset + Int32.ofNat k = offset + Int32.ofNat k + 1 - 1 := (Int32.add_sub_cancel _ 1).symm
        _ = offset + (Int32.ofNat k + 1) - 1 := by rw [Int32.add_assoc]
        _ = offset + Int32.ofNat (k + 1) - 1 := by rw [hsucc]
    have hindex : offset + Int32.ofNat k - offset + 1 = Int32.ofNat (k + 1) :=
      calc
        offset + Int32.ofNat k - offset + 1 = Int32.ofNat k + offset - offset + 1 := by
          rw [Int32.add_comm offset]
        _ = Int32.ofNat k + 1 := by rw [Int32.add_sub_cancel]
        _ = Int32.ofNat (k + 1) := hsucc.symm
    simp only [Function.comp_apply, hindex, ← hnumber]

end Range

end Transposed
end Etude
