import Mathlib.Data.Nat.Digits.Defs
import Mathlib.Data.List.TakeDrop
import Mathlib.Tactic.Ring

/-!
# Digits — numbers from bits and bytes, and packed fields

* `leBits`, `beBits`, `leBytes`, `beBytes` read a list of bits or bytes as a number, least or
  most significant digit first; `toLeBytes n v` and `toBeBytes n v` are the `n` low bytes of `v`.
* `unpack ws v` cuts `v` into fields of the bit widths `ws`, least significant field first, and
  `pack` puts fields together again.
-/

namespace Etude
namespace Base

/-! ## Bits -/

def leBits (bits : List Bool) : ℕ :=
  Nat.ofDigits 2 (bits.map Bool.toNat)

def beBits (bits : List Bool) : ℕ :=
  leBits bits.reverse

theorem bit_digits (bits : List Bool) : ∀ d ∈ bits.map Bool.toNat, d < 2 := by
  intro d hd
  rcases List.mem_map.mp hd with ⟨b, _, rfl⟩
  exact b.toNat_lt

@[simp] theorem leBits_nil : leBits [] = 0 := rfl

@[simp] theorem leBits_cons (b : Bool) (bits : List Bool) :
    leBits (b :: bits) = b.toNat + 2 * leBits bits := by
  simp [leBits, Nat.ofDigits_cons]

theorem leBits_append (xs ys : List Bool) :
    leBits (xs ++ ys) = leBits xs + 2 ^ xs.length * leBits ys := by
  simp [leBits, Nat.ofDigits_append]

theorem leBits_lt (bits : List Bool) : leBits bits < 2 ^ bits.length := by
  simpa [leBits] using Nat.ofDigits_lt_base_pow_length (by decide) (bit_digits bits)

theorem leBits_take (n : ℕ) (bits : List Bool) :
    leBits (bits.take n) = leBits bits % 2 ^ n := by
  simpa [leBits, List.map_take] using
    (Nat.ofDigits_mod_pow_eq_ofDigits_take n (by decide) _ (bit_digits bits)).symm

theorem leBits_drop (n : ℕ) (bits : List Bool) :
    leBits (bits.drop n) = leBits bits / 2 ^ n := by
  simpa [leBits, List.map_drop] using
    (Nat.ofDigits_div_pow_eq_ofDigits_drop n (by decide) _ (bit_digits bits)).symm

theorem beBits_lt (bits : List Bool) : beBits bits < 2 ^ bits.length := by
  simpa [beBits] using leBits_lt bits.reverse

theorem beBits_append (xs ys : List Bool) :
    beBits (xs ++ ys) = beBits ys + 2 ^ ys.length * beBits xs := by
  simp [beBits, leBits_append]

/-! ## Bytes -/

def leBytes (bytes : List UInt8) : ℕ :=
  Nat.ofDigits 256 (bytes.map UInt8.toNat)

def beBytes (bytes : List UInt8) : ℕ :=
  leBytes bytes.reverse

def toLeBytes : ℕ → ℕ → List UInt8
  | 0, _ => []
  | n + 1, v => UInt8.ofNat v :: toLeBytes n (v / 256)

def toBeBytes (n v : ℕ) : List UInt8 :=
  (toLeBytes n v).reverse

theorem byte_digits (bytes : List UInt8) : ∀ d ∈ bytes.map UInt8.toNat, d < 256 := by
  intro d hd
  rcases List.mem_map.mp hd with ⟨b, _, rfl⟩
  exact b.toNat_lt

@[simp] theorem leBytes_nil : leBytes [] = 0 := rfl

@[simp] theorem leBytes_cons (b : UInt8) (bytes : List UInt8) :
    leBytes (b :: bytes) = b.toNat + 256 * leBytes bytes := by
  simp [leBytes, Nat.ofDigits_cons]

theorem leBytes_lt (bytes : List UInt8) : leBytes bytes < 256 ^ bytes.length := by
  simpa [leBytes] using Nat.ofDigits_lt_base_pow_length (by decide) (byte_digits bytes)

@[simp] theorem length_toLeBytes (n v : ℕ) : (toLeBytes n v).length = n := by
  induction n generalizing v with
  | zero =>
      rfl
  | succ n ih =>
      simp [toLeBytes, ih]

@[simp] theorem length_toBeBytes (n v : ℕ) : (toBeBytes n v).length = n := by
  simp [toBeBytes]

theorem leBytes_toLeBytes (n v : ℕ) : leBytes (toLeBytes n v) = v % 256 ^ n := by
  induction n generalizing v with
  | zero =>
      simp [toLeBytes, Nat.mod_one]
  | succ n ih =>
      have hbyte : (UInt8.ofNat v).toNat = v % 256 := by simp
      rw [toLeBytes, leBytes_cons, ih, hbyte, pow_succ, Nat.mul_comm (256 ^ n), Nat.mod_mul]

theorem toLeBytes_leBytes (bytes : List UInt8) :
    toLeBytes bytes.length (leBytes bytes) = bytes := by
  induction bytes with
  | nil =>
      rfl
  | cons b bytes ih =>
      -- Head and tail of the list are remainder and quotient of the number.
      have hlow : UInt8.ofNat (leBytes (b :: bytes)) = b := by
        apply UInt8.toNat_inj.mp
        have hb := b.toNat_lt
        simp only [leBytes_cons, UInt8.toNat_ofNat']
        omega
      have hhigh : leBytes (b :: bytes) / 256 = leBytes bytes := by
        have hb := b.toNat_lt
        simp only [leBytes_cons]
        omega
      rw [List.length_cons, toLeBytes, hlow, hhigh, ih]

theorem toBeBytes_beBytes (bytes : List UInt8) :
    toBeBytes bytes.length (beBytes bytes) = bytes := by
  have hle := toLeBytes_leBytes bytes.reverse
  rw [List.length_reverse] at hle
  rw [toBeBytes, beBytes, hle, List.reverse_reverse]

theorem beBytes_lt (bytes : List UInt8) : beBytes bytes < 256 ^ bytes.length := by
  have hle := leBytes_lt bytes.reverse
  rwa [List.length_reverse] at hle

theorem beBytes_toBeBytes (n v : ℕ) : beBytes (toBeBytes n v) = v % 256 ^ n := by
  simp [beBytes, toBeBytes, leBytes_toLeBytes]

theorem toBeBytes_inj {n v w : ℕ} (hv : v < 256 ^ n) (hw : w < 256 ^ n)
    (h : toBeBytes n v = toBeBytes n w) : v = w := by
  -- Reading the bytes back gives both numbers.
  have hnum := congrArg beBytes h
  rwa [beBytes_toBeBytes, beBytes_toBeBytes, Nat.mod_eq_of_lt hv, Nat.mod_eq_of_lt hw] at hnum

/-! ## The bits of a byte -/

/-- The bits of a byte, least significant first. -/
def byteBits (b : UInt8) : List Bool :=
  (List.range 8).map b.toNat.testBit

@[simp] theorem length_byteBits (b : UInt8) : (byteBits b).length = 8 := by
  simp [byteBits]

theorem leBits_range_testBit (n v : ℕ) :
    leBits ((List.range n).map v.testBit) = v % 2 ^ n := by
  induction n generalizing v with
  | zero =>
      simp [Nat.mod_one]
  | succ n ih =>
      have htail : (List.range n).map (fun i => v.testBit (i + 1)) =
          (List.range n).map (v / 2).testBit := by
        refine List.map_congr_left fun i _ => ?_
        exact Nat.testBit_succ v i
      have hhead : (v.testBit 0).toNat = v % 2 := by
        rw [Nat.testBit_zero]
        rcases Nat.mod_two_eq_zero_or_one v with h | h <;> simp [h]
      -- The bits of `v` behind the first one are the bits of `v / 2`.
      rw [List.range_succ_eq_map, List.map_cons, List.map_map, leBits_cons]
      have hcomp : v.testBit ∘ Nat.succ = fun i => v.testBit (i + 1) := rfl
      rw [hcomp, htail, ih, hhead, pow_succ, Nat.mul_comm (2 ^ n), Nat.mod_mul]

theorem leBits_byteBits (b : UInt8) : leBits (byteBits b) = b.toNat := by
  rw [byteBits, leBits_range_testBit, Nat.mod_eq_of_lt]
  exact b.toNat_lt

/-- The bits of a list of bytes, least significant first in each byte, spell the little-endian
number. -/
theorem leBits_flatMap_byteBits (bytes : List UInt8) :
    leBits (bytes.flatMap byteBits) = leBytes bytes := by
  induction bytes with
  | nil =>
      rfl
  | cons b bytes ih =>
      -- A byte contributes its number, and eight bits to the place of the others.
      rw [List.flatMap_cons, leBits_append, ih, leBits_byteBits, length_byteBits, leBytes_cons]
      norm_num

theorem length_flatMap_byteBits (bytes : List UInt8) :
    (bytes.flatMap byteBits).length = 8 * bytes.length := by
  induction bytes with
  | nil =>
      rfl
  | cons b bytes ih =>
      simp only [List.flatMap_cons, List.length_append, length_byteBits, ih, List.length_cons]
      omega

/-! ## Packed fields -/

/-- The fields of `v` of the widths `ws`, from the least significant bit on. -/
def unpack : List ℕ → ℕ → List ℕ
  | [], _ => []
  | w :: ws, v => v % 2 ^ w :: unpack ws (v / 2 ^ w)

/-- The number whose fields of the widths `ws` are `ns`. -/
def pack : List ℕ → List ℕ → ℕ
  | w :: ws, n :: ns => n + 2 ^ w * pack ws ns
  | _, _ => 0

@[simp] theorem length_unpack (ws : List ℕ) (v : ℕ) : (unpack ws v).length = ws.length := by
  induction ws generalizing v with
  | nil =>
      rfl
  | cons w ws ih =>
      simp [unpack, ih]

theorem unpack_getElem {ws : List ℕ} {v i : ℕ} (hi : i < ws.length) :
    (unpack ws v)[i]? = some (v / 2 ^ (ws.take i).sum % 2 ^ ws[i]) := by
  induction ws generalizing v i with
  | nil =>
      simp at hi
  | cons w ws ih =>
      cases i with
      | zero =>
          simp [unpack]
      | succ i =>
          have hi' : i < ws.length := by simpa using hi
          simp [unpack, ih hi', pow_add, Nat.div_div_eq_div_mul]

theorem unpack_append (us ws : List ℕ) (v : ℕ) :
    unpack (us ++ ws) v = unpack us v ++ unpack ws (v / 2 ^ us.sum) := by
  induction us generalizing v with
  | nil =>
      simp [unpack]
  | cons u us ih =>
      simp [unpack, ih, pow_add, Nat.div_div_eq_div_mul]

/-- The fields only depend on as many bits as they have together. -/
theorem unpack_mod {ws : List ℕ} {v n : ℕ} (hn : ws.sum ≤ n) :
    unpack ws (v % 2 ^ n) = unpack ws v := by
  induction ws generalizing v n with
  | nil =>
      rfl
  | cons w ws ih =>
      have hsum : w + ws.sum ≤ n := by simpa using hn
      -- The first field and the fields behind it, with the bits that are left for them.
      have hsplit : 2 ^ n = 2 ^ w * 2 ^ (n - w) := by
        rw [← pow_add]
        congr 1
        omega
      have hlow : v % 2 ^ n % 2 ^ w = v % 2 ^ w := by
        rw [hsplit, Nat.mod_mul_right_mod]
      have hhigh : v % 2 ^ n / 2 ^ w = v / 2 ^ w % 2 ^ (n - w) := by
        rw [hsplit, Nat.mod_mul_right_div_self]
      rw [unpack, unpack, hlow, hhigh, ih (by omega)]

theorem pack_unpack (ws : List ℕ) (v : ℕ) : pack ws (unpack ws v) = v % 2 ^ ws.sum := by
  induction ws generalizing v with
  | nil =>
      simp [pack, Nat.mod_one]
  | cons w ws ih =>
      rw [unpack, pack, ih, List.sum_cons, pow_add, Nat.mod_mul]

end Base
end Etude
