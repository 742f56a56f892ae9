import Etude.Base.Binary
import Mathlib.Algebra.Group.Nat.Even
import Mathlib.Algebra.BigOperators.Group.List.Basic

/-!
# ListOfWord16 — words up to the end of the input

The reader of `ListOfWord16Main.hs` and `UserData01Main.hs` takes words of two bytes until the input
is empty, and fails on a single byte that is left over.
-/

namespace Etude
namespace Serialization

open Base

def isEmpty : Get Bool := fun bytes =>
  some (bytes.isEmpty, bytes)

def putWord16be (w : UInt16) : List UInt8 :=
  toBeBytes 2 w.toNat

def getWord16be : Get UInt16 := do
  let bytes ← getByteString 2
  return UInt16.ofNat (beBytes bytes)

/-- A word that is read was written in the bytes that are taken. -/
theorem eq_append_of_getWord16be {bytes rest : List UInt8} {w : UInt16}
    (h : getWord16be bytes = some (w, rest)) : bytes = putWord16be w ++ rest := by
  rcases Option.bind_eq_some_iff.mp h with ⟨⟨s, rest'⟩, hs, hret⟩
  cases hret
  rw [getByteString] at hs
  split_ifs at hs with hle
  cases hs
  have hlength : (bytes.take 2).length = 2 := List.length_take_of_le hle
  have hlt := beBytes_lt (bytes.take 2)
  have hbytes := toBeBytes_beBytes (bytes.take 2)
  rw [hlength] at hlt hbytes
  rw [putWord16be, UInt16.toNat_ofNat_of_lt' (by simpa using hlt), hbytes, List.take_append_drop]

theorem length_putWord16be (w : UInt16) : (putWord16be w).length = 2 :=
  length_toBeBytes 2 w.toNat

theorem getWord16be_append (w : UInt16) (rest : List UInt8) :
    getWord16be (putWord16be w ++ rest) = some (w, rest) := by
  have hword : UInt16.ofNat (beBytes (putWord16be w)) = w := by
    rw [putWord16be, beBytes_toBeBytes, Nat.mod_eq_of_lt (by simpa using w.toNat_lt)]
    exact UInt16.ofNat_toNat
  simp [getWord16be, Get.bind_apply, Get.pure_apply,
    getByteString_append (length_putWord16be w) rest, hword]

theorem getWord16be_isSome_iff (bytes : List UInt8) :
    (getWord16be bytes).isSome ↔ 2 ≤ bytes.length := by
  rw [getWord16be, Get.bind_apply, getByteString]
  split_ifs with hle
  · exact iff_of_true rfl hle
  · exact iff_of_false (by simp) hle

/-! ## All words -/

/-- The recursion ends because every word shortens the input. -/
def listOfWord16 (bytes : List UInt8) : Option (List UInt16 × List UInt8) :=
  if bytes.isEmpty then some ([], bytes)
  else
    match _h : getWord16be bytes with
    | none => none
    | some (v, bytes') => (listOfWord16 bytes').map fun p => (v :: p.1, p.2)
termination_by bytes.length
decreasing_by
  have hbytes := congrArg List.length (eq_append_of_getWord16be _h)
  rw [List.length_append, length_putWord16be] at hbytes
  omega

def runGet {α : Type} (get : Get α) (bytes : List UInt8) : Option α :=
  (get bytes).map Prod.fst

/-- The recursion as the source has it. -/
theorem listOfWord16_eq :
    listOfWord16 = (do
      let empty ← isEmpty
      if empty then return []
      else do
        let v ← getWord16be
        let rest ← listOfWord16
        return v :: rest : Get (List UInt16)) := by
  funext bytes
  rw [listOfWord16, Get.bind_apply, isEmpty, Option.bind_some]
  split_ifs with hempty
  · rfl
  · rw [Get.bind_apply]
    split
    · next hword =>
      rw [hword]
      rfl
    · next v bytes' hword =>
      rw [hword, Option.bind_some, Get.bind_apply]
      cases listOfWord16 bytes' with
      | none => rfl
      | some p => rfl

theorem listOfWord16_nil : listOfWord16 [] = some ([], []) := by
  rw [listOfWord16_eq]
  rfl

theorem listOfWord16_cons (w : UInt16) (bytes : List UInt8) :
    listOfWord16 (putWord16be w ++ bytes) =
      (listOfWord16 bytes).map fun p => (w :: p.1, p.2) := by
  have hne : (putWord16be w ++ bytes).isEmpty = false := by
    rw [List.isEmpty_eq_false_iff]
    exact fun h => absurd (congrArg List.length h) (by
      rw [List.length_append, length_putWord16be]
      exact Nat.ne_of_gt (by rw [List.length_nil]; omega))
  rw [congrFun listOfWord16_eq (putWord16be w ++ bytes), Get.bind_apply, isEmpty, hne,
    Option.bind_some, if_neg Bool.false_ne_true, Get.bind_apply, getWord16be_append,
    Option.bind_some, Get.bind_apply]
  cases listOfWord16 bytes with
  | none => rfl
  | some p => rfl

/-- Reading stops at the end of the input only. -/
theorem listOfWord16_flatMap (ws : List UInt16) :
    listOfWord16 (ws.flatMap putWord16be) = some (ws, []) := by
  induction ws with
  | nil =>
      exact listOfWord16_nil
  | cons w ws ih =>
      rw [List.flatMap_cons, listOfWord16_cons, ih]
      rfl

/-- The words are those of the whole input. -/
theorem eq_flatMap_of_listOfWord16 {bytes rest : List UInt8} {ws : List UInt16}
    (h : listOfWord16 bytes = some (ws, rest)) : bytes = ws.flatMap putWord16be := by
  induction bytes using listOfWord16.induct generalizing ws with
  | case1 bytes hempty =>
      rw [listOfWord16, if_pos hempty] at h
      cases h
      exact List.isEmpty_iff.mp hempty
  | case2 bytes hempty hword =>
      rw [listOfWord16, if_neg hempty] at h
      split at h
      · cases h
      · next hsome =>
        rw [hword] at hsome
        cases hsome
  | case3 bytes hempty v bytes' hword ih =>
      have hbytes := eq_append_of_getWord16be hword
      rw [hbytes, listOfWord16_cons] at h
      rcases Option.map_eq_some_iff.mp h with ⟨⟨vs, rest'⟩, hvs, hret⟩
      cases hret
      rw [hbytes, List.flatMap_cons, ← ih hvs]

theorem length_flatMap_putWord16be (ws : List UInt16) :
    (ws.flatMap putWord16be).length = ws.length * 2 := by
  rw [List.length_flatMap, List.map_congr_left (fun w _ => length_putWord16be w), List.map_const',
    List.sum_replicate]
  rfl

/-- No byte is left over when they come in pairs. -/
theorem isSome_listOfWord16 {bytes : List UInt8} (h : Even bytes.length) :
    (listOfWord16 bytes).isSome := by
  induction bytes using listOfWord16.induct with
  | case1 bytes hempty =>
      rw [List.isEmpty_iff.mp hempty, listOfWord16_nil]
      rfl
  | case2 bytes hempty hword =>
      -- the input is not empty and its length is even, so there are two bytes at least
      have hlength : bytes.length ≠ 0 := fun h => hempty (List.isEmpty_iff_length_eq_zero.mpr h)
      have hsome := (getWord16be_isSome_iff bytes).mpr (by
        rcases h with ⟨n, hn⟩
        omega)
      rw [hword] at hsome
      cases hsome
  | case3 bytes hempty v bytes' hword ih =>
      have hbytes := eq_append_of_getWord16be hword
      have hlength := congrArg List.length hbytes
      rw [List.length_append, length_putWord16be] at hlength
      rw [hbytes, listOfWord16_cons, Option.isSome_map]
      refine ih ?_
      rwa [hlength, Nat.even_add, iff_true_left even_two] at h

/-! ## The parser -/

theorem runGet_flatMap (ws : List UInt16) :
    runGet listOfWord16 (ws.flatMap putWord16be) = some ws := by
  rw [runGet, listOfWord16_flatMap]
  rfl

theorem eq_flatMap_of_runGet {bytes : List UInt8} {ws : List UInt16}
    (h : runGet listOfWord16 bytes = some ws) : bytes = ws.flatMap putWord16be := by
  rcases Option.map_eq_some_iff.mp h with ⟨⟨ws', rest⟩, hwords, rfl⟩
  exact eq_flatMap_of_listOfWord16 hwords

/-- The parser succeeds exactly on inputs of even length, the words it returns are the only ones
that are written as the input, and it returns any words from what they are written as. -/
theorem runGet_listOfWord16_spec :
    (∀ bytes, (runGet listOfWord16 bytes).isSome ↔ Even bytes.length) ∧
      (∀ bytes ws, runGet listOfWord16 bytes = some ws →
        ws.flatMap putWord16be = bytes ∧ ∀ vs, vs.flatMap putWord16be = bytes → vs = ws) ∧
      ∀ ws, runGet listOfWord16 (ws.flatMap putWord16be) = some ws := by
  refine ⟨?_, ?_, runGet_flatMap⟩
  · intro bytes
    constructor
    · intro h
      rcases Option.isSome_iff_exists.mp h with ⟨ws, hws⟩
      rw [eq_flatMap_of_runGet hws, length_flatMap_putWord16be]
      exact even_two.mul_left _
    · intro h
      rw [runGet, Option.isSome_map]
      exact isSome_listOfWord16 h
  · intro bytes ws h
    refine ⟨(eq_flatMap_of_runGet h).symm, ?_⟩
    rintro vs rfl
    rw [runGet_flatMap] at h
    exact Option.some.inj h

end Serialization
end Etude
