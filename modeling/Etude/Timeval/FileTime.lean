import Mathlib.Data.Int.Basic
import Mathlib.Data.Nat.Bitwise

/-!
# FileTime — `time_t` as a `FILETIME` and back

`TimetToFileTime` of `timeval.c` multiplies with a macro that takes 32-bit numbers, and `main` of
the same file turns a `FILETIME` into seconds again.  The two agree for the times that are 32-bit
numbers, and for no others.
-/

namespace Etude
namespace Timeval

/-! ## The code -/

structure FileTime where
  dwLowDateTime : UInt32
  dwHighDateTime : UInt32
  deriving DecidableEq, Repr

/-- The macro of the Windows SDK: the product of its operands as `LONG`s. -/
def int32x32To64 (a b : Int64) : Int64 :=
  a.toInt32.toInt64 * b.toInt32.toInt64

/-- `TimetToFileTime` -/
def timetToFileTime (t : Int64) : FileTime :=
  let ll := int32x32To64 t 10000000 + 116444736000000000
  { dwLowDateTime := ll.toUInt64.toUInt32
    dwHighDateTime := (ll >>> 32).toUInt64.toUInt32 }

/-- `EPOCH_DIFF` -/
def epochDiff : UInt64 :=
  116444736000000000

/-- `nanosecs` of `main` -/
def nanosecs (ft : FileTime) : UInt64 :=
  ((ft.dwHighDateTime.toUInt64.toInt64 <<< 32) ||| ft.dwLowDateTime.toUInt64.toInt64).toUInt64

/-- `unix_time` of `main` -/
def unixTime (ft : FileTime) : UInt64 :=
  (nanosecs ft - epochDiff) / 10000000

/-- The order of `CompareFileTime`. -/
def FileTime.Before (a b : FileTime) : Prop :=
  a.dwHighDateTime < b.dwHighDateTime ∨
    a.dwHighDateTime = b.dwHighDateTime ∧ a.dwLowDateTime < b.dwLowDateTime

instance (a b : FileTime) : Decidable (a.Before b) :=
  inferInstanceAs (Decidable (_ ∨ _))

/-! ## The halves of a number -/

theorem join_halves (v : BitVec 64) :
    ((v.sshiftRight 32).setWidth 32).setWidth 64 <<< 32 ||| (v.setWidth 32).setWidth 64 = v := by
  ext i hi
  simp only [BitVec.getElem_or, BitVec.getElem_shiftLeft, BitVec.getElem_setWidth,
    BitVec.getLsbD_setWidth, BitVec.getLsbD_sshiftRight]
  by_cases hlow : i < 32
  · simp [hlow, BitVec.getLsbD_eq_getElem hi]
  · have hoffset : i - 32 < 32 := by omega
    have hindex : 32 + (i - 32) = i := by omega
    have hinside : ¬ 64 ≤ i - 32 := by omega
    simp [hlow, hoffset, hindex, hinside, hi]

/-- The recombination in `main` undoes the split. -/
theorem nanosecs_halves (ll : Int64) :
    nanosecs
      { dwLowDateTime := ll.toUInt64.toUInt32
        dwHighDateTime := (ll >>> 32).toUInt64.toUInt32 } = ll.toUInt64 := by
  have hcount : ((32 : Int64).toBitVec.smod 64).toNat = 32 := by decide
  have hright : (ll >>> 32).toBitVec = ll.toBitVec.sshiftRight 32 := by
    rw [Int64.toBitVec_shiftRight, BitVec.sshiftRight_eq', hcount]
  have hleft : ∀ x : Int64, (x <<< 32).toBitVec = x.toBitVec <<< 32 := by
    intro x
    rw [Int64.toBitVec_shiftLeft, BitVec.shiftLeft_eq', hcount]
  have hhalf : ∀ x : Int64, x.toUInt64.toUInt32.toUInt64.toInt64.toBitVec =
      (x.toBitVec.setWidth 32).setWidth 64 := by
    intro x
    rw [UInt64.toBitVec_toInt64, UInt32.toBitVec_toUInt64, UInt64.toBitVec_toUInt32,
      Int64.toBitVec_toUInt64]
  apply UInt64.toBitVec_inj.mp
  rw [nanosecs, Int64.toBitVec_toUInt64, Int64.toBitVec_or, hleft, hhalf, hhalf, hright]
  exact join_halves ll.toBitVec

theorem toNat_nanosecs (ft : FileTime) :
    (nanosecs ft).toNat = 4294967296 * ft.dwHighDateTime.toNat + ft.dwLowDateTime.toNat := by
  have hcount : ((32 : Int64).toBitVec.smod 64).toNat = 32 := by decide
  have hhigh : ft.dwHighDateTime.toNat < 2 ^ 32 := ft.dwHighDateTime.toNat_lt
  have hlow : ft.dwLowDateTime.toNat < 2 ^ 32 := ft.dwLowDateTime.toNat_lt
  have hbits : (nanosecs ft).toBitVec =
      ft.dwHighDateTime.toBitVec.setWidth 64 <<< 32 ||| ft.dwLowDateTime.toBitVec.setWidth 64 := by
    rw [nanosecs, Int64.toBitVec_toUInt64, Int64.toBitVec_or, Int64.toBitVec_shiftLeft,
      BitVec.shiftLeft_eq', hcount, UInt64.toBitVec_toInt64, UInt64.toBitVec_toInt64,
      UInt32.toBitVec_toUInt64, UInt32.toBitVec_toUInt64]
  have hfirst : (ft.dwHighDateTime.toBitVec.setWidth 64).toNat = ft.dwHighDateTime.toNat := by
    rw [BitVec.toNat_setWidth, UInt32.toNat_toBitVec, Nat.mod_eq_of_lt (by omega)]
  have hsecond : (ft.dwLowDateTime.toBitVec.setWidth 64).toNat = ft.dwLowDateTime.toNat := by
    rw [BitVec.toNat_setWidth, UInt32.toNat_toBitVec, Nat.mod_eq_of_lt (by omega)]
  calc
    (nanosecs ft).toNat
        = ft.dwHighDateTime.toNat * 2 ^ 32 % 2 ^ 64 ||| ft.dwLowDateTime.toNat := by
          rw [← UInt64.toNat_toBitVec, hbits, BitVec.toNat_or, BitVec.toNat_shiftLeft, hfirst,
            hsecond, Nat.shiftLeft_eq]
    _ = 2 ^ 32 * ft.dwHighDateTime.toNat ||| ft.dwLowDateTime.toNat := by
          rw [Nat.mod_eq_of_lt (by omega), Nat.mul_comm]
    _ = 2 ^ 32 * ft.dwHighDateTime.toNat + ft.dwLowDateTime.toNat :=
          (Nat.two_pow_add_eq_or_of_lt hlow _).symm

/-! ## The product -/

theorem toInt_product (t : Int64) :
    (int32x32To64 t 10000000 + 116444736000000000).toInt =
      t.toInt32.toInt * 10000000 + 116444736000000000 := by
  have hlow := Int32.le_toInt t.toInt32
  have hhigh := Int32.toInt_lt t.toInt32
  have hproduct : (int32x32To64 t 10000000).toInt = t.toInt32.toInt * 10000000 := by
    have hfactor : (10000000 : Int64).toInt32.toInt64.toInt = 10000000 := by decide
    rw [int32x32To64, Int64.toInt_mul, Int32.toInt_toInt64, hfactor]
    apply Int.bmod_eq_of_le <;> omega
  have hepoch : (116444736000000000 : Int64).toInt = 116444736000000000 := by decide
  rw [Int64.toInt_add, hproduct, hepoch]
  apply Int.bmod_eq_of_le <;> omega

/-- The number that the conversion splits is never negative. -/
theorem toNat_nanosecs_timetToFileTime (t : Int64) :
    ((nanosecs (timetToFileTime t)).toNat : ℤ) =
      t.toInt32.toInt * 10000000 + 116444736000000000 := by
  have hlow := Int32.le_toInt t.toInt32
  have hvalue := toInt_product t
  have hpos : 0 ≤ int32x32To64 t 10000000 + 116444736000000000 := by
    rw [Int64.le_iff_toInt_le, hvalue, Int64.toInt_zero]
    omega
  have hnat := Int64.toNat_toUInt64_of_le hpos
  rw [timetToFileTime, nanosecs_halves, hnat, Int64.toNatClampNeg, hvalue]
  exact Int.toNat_of_nonneg (by omega)

/-! ## There and back -/

/-- The times whose exact number of intervals fits in 63 bits. -/
def Representable (t : Int64) : Prop :=
  0 ≤ t.toInt ∧ t.toInt * 10000000 + 116444736000000000 ≤ Int64.maxValue.toInt

instance (t : Int64) : Decidable (Representable t) :=
  inferInstanceAs (Decidable (_ ∧ _))

/-- Both times come back, and keep their order. -/
structure Exact (t₁ t₂ : Int64) : Prop where
  first : unixTime (timetToFileTime t₁) = t₁.toUInt64
  second : unixTime (timetToFileTime t₂) = t₂.toUInt64
  ordered : t₁ < t₂ → (timetToFileTime t₁).Before (timetToFileTime t₂)

/-- Such a time is its own `LONG`. -/
theorem toInt_toInt32 {t : Int64} (h : Representable t)
    (hsmall : t.toInt ≤ Int32.maxValue.toInt) : t.toInt32.toInt = t.toInt := by
  have hmax32 : Int32.maxValue.toInt = 2147483647 := rfl
  have hpos := h.1
  rw [Int64.toInt_toInt32]
  apply Int.bmod_eq_of_le <;> omega

theorem before_iff (a b : FileTime) : a.Before b ↔ nanosecs a < nanosecs b := by
  have hlow := a.dwLowDateTime.toNat_lt
  have hlow' := b.dwLowDateTime.toNat_lt
  rw [FileTime.Before, UInt64.lt_iff_toNat_lt, toNat_nanosecs, toNat_nanosecs,
    UInt32.lt_iff_toNat_lt, UInt32.lt_iff_toNat_lt, ← UInt32.toNat_inj]
  omega

theorem toNat_sub_epoch_of_le {n : UInt64} (h : 116444736000000000 ≤ n.toNat) :
    (n - epochDiff).toNat = n.toNat - 116444736000000000 :=
  UInt64.toNat_sub_of_le n epochDiff (UInt64.le_iff_toNat_le.mpr h)

theorem toNat_sub_epoch_of_lt {n : UInt64} (h : n.toNat < 116444736000000000) :
    (n - epochDiff).toNat = 18446744073709551616 - 116444736000000000 + n.toNat := by
  have hepoch : epochDiff.toNat = 116444736000000000 := rfl
  rw [UInt64.toNat_sub, hepoch]
  exact Nat.mod_eq_of_lt (by omega)

theorem before_of_lt {t₁ t₂ : Int64} (h₁ : Representable t₁) (h₂ : Representable t₂)
    (hsmall₁ : t₁.toInt ≤ Int32.maxValue.toInt) (hsmall₂ : t₂.toInt ≤ Int32.maxValue.toInt)
    (hlt : t₁ < t₂) : (timetToFileTime t₁).Before (timetToFileTime t₂) := by
  have hsame₁ := toInt_toInt32 h₁ hsmall₁
  have hsame₂ := toInt_toInt32 h₂ hsmall₂
  have hvalue₁ := toNat_nanosecs_timetToFileTime t₁
  have hvalue₂ := toNat_nanosecs_timetToFileTime t₂
  rw [before_iff, UInt64.lt_iff_toNat_lt]
  rw [Int64.lt_iff_toInt_lt] at hlt
  omega

theorem unixTime_iff {t : Int64} (h : Representable t) :
    unixTime (timetToFileTime t) = t.toUInt64 ↔ t.toInt ≤ Int32.maxValue.toInt := by
  have hmax : Int64.maxValue.toInt = 9223372036854775807 := rfl
  have hmax32 : Int32.maxValue.toInt = 2147483647 := rfl
  have hpos := h.1
  have hfits := h.2
  have hle : 0 ≤ t := by
    rw [Int64.le_iff_toInt_le, Int64.toInt_zero]
    exact hpos
  have ht : (t.toUInt64.toNat : ℤ) = t.toInt := by
    rw [Int64.toNat_toUInt64_of_le hle]
    exact Int.toNat_of_nonneg hpos
  have hvalue := toNat_nanosecs_timetToFileTime t
  have hlow := Int32.le_toInt t.toInt32
  have hhigh := Int32.toInt_lt t.toInt32
  have hten : (10000000 : UInt64).toNat = 10000000 := rfl
  rw [← UInt64.toNat_inj, unixTime, UInt64.toNat_div, hten]
  constructor
  · intro hback
    by_cases hsign : t.toInt32.toInt < 0
    · -- a borrow: the quotient is near the top of the 64-bit range
      have helapsed := toNat_sub_epoch_of_lt (n := nanosecs (timetToFileTime t)) (by omega)
      omega
    · have helapsed := toNat_sub_epoch_of_le (n := nanosecs (timetToFileTime t)) (by omega)
      omega
  · intro hsmall
    have hsame := toInt_toInt32 h hsmall
    have helapsed := toNat_sub_epoch_of_le (n := nanosecs (timetToFileTime t)) (by omega)
    omega

/-- A 64-bit `time_t` makes the round trip, with its order, exactly when it is a 32-bit one. -/
theorem exact_iff {t₁ t₂ : Int64} (h₁ : Representable t₁) (h₂ : Representable t₂) :
    Exact t₁ t₂ ↔
      t₁.toInt ≤ Int32.maxValue.toInt ∧ t₂.toInt ≤ Int32.maxValue.toInt := by
  constructor
  · intro h
    exact ⟨(unixTime_iff h₁).mp h.first, (unixTime_iff h₂).mp h.second⟩
  · rintro ⟨hsmall₁, hsmall₂⟩
    exact
      { first := (unixTime_iff h₁).mpr hsmall₁
        second := (unixTime_iff h₂).mpr hsmall₂
        ordered := before_of_lt h₁ h₂ hsmall₁ hsmall₂ }

/-- The last second of the 32-bit times and the one before it. -/
theorem exact_iff_last_second : Exact 2147483646 2147483647 :=
  (@exact_iff 2147483646 2147483647 (by decide) (by decide)).mpr (by decide)

/-- The first second that a `LONG` does not hold comes back as another one, and sorts before the
second that precedes it. -/
theorem not_exact_first_lost_second :
    Representable 2147483647 ∧ Representable 2147483648 ∧ ¬ Exact 2147483647 2147483648 ∧
      unixTime (timetToFileTime 2147483648) = 1842526923722 ∧
      (timetToFileTime 2147483648).Before (timetToFileTime 2147483647) := by
  have hback : unixTime (timetToFileTime 2147483648) = 1842526923722 := by decide
  refine ⟨by decide, by decide, ?_, hback, by decide⟩
  intro h
  have hsecond := h.second
  rw [hback] at hsecond
  exact absurd hsecond (by decide)

end Timeval
end Etude
