import Mathlib.Data.List.TakeDrop

/-!
# Memory — arrays with checked bounds

An array is a list.  A store outside it is `none`, so that a statement that a program returns
also says that it stays inside its arrays.
-/

namespace Etude
namespace Base

variable {α : Type*}

/-- `mem[i] = x` -/
def storeAt (mem : List α) (i : ℕ) (x : α) : Option (List α) :=
  if i < mem.length then some (mem.set i x) else none

/-- Copy `xs` to `mem + off`. -/
def writeAt (mem : List α) (off : ℕ) (xs : List α) : Option (List α) :=
  if off + xs.length ≤ mem.length then
    some (mem.take off ++ xs ++ mem.drop (off + xs.length))
  else
    none

theorem storeAt_of_lt {mem : List α} {i : ℕ} {x : α} (h : i < mem.length) :
    storeAt mem i x = some (mem.set i x) := by
  simp [storeAt, h]

theorem writeAt_of_le {mem : List α} {off : ℕ} {xs : List α}
    (h : off + xs.length ≤ mem.length) :
    writeAt mem off xs = some (mem.take off ++ xs ++ mem.drop (off + xs.length)) := by
  simp [writeAt, h]

/-- A write that fits keeps the length, the part before it, and shows what was written. -/
theorem writeAt_spec {mem : List α} {off : ℕ} {xs : List α}
    (h : off + xs.length ≤ mem.length) :
    ∃ mem', writeAt mem off xs = some mem' ∧ mem'.length = mem.length ∧
      mem'.take (off + xs.length) = mem.take off ++ xs := by
  refine ⟨_, writeAt_of_le h, ?_, ?_⟩
  · simp only [List.length_append, List.length_take, List.length_drop]
    omega
  · have hlen : (mem.take off ++ xs).length = off + xs.length := by
      simp only [List.length_append, List.length_take]
      omega
    rw [← hlen, List.take_left']
    rfl

theorem writeAt_append (pre : List α) {old xs : List α} (post : List α)
    (h : old.length = xs.length) :
    writeAt (pre ++ (old ++ post)) pre.length xs = some (pre ++ (xs ++ post)) := by
  have hle : pre.length + xs.length ≤ (pre ++ (old ++ post)).length := by
    simp only [List.length_append]
    omega
  have hdrop : (pre ++ (old ++ post)).drop (pre.length + xs.length) = post := by
    rw [← h, ← List.append_assoc, ← List.length_append, List.drop_left]
  rw [writeAt_of_le hle, hdrop, List.take_left, List.append_assoc]

/-! ## Strings that end with a zero byte -/

/-- The bytes before the first zero; `none` if the read leaves the memory. -/
def readCString : List UInt8 → Option (List UInt8)
  | [] => none
  | b :: bytes => if b = 0 then some [] else (readCString bytes).map (b :: ·)

theorem readCString_append {s : List UInt8} (hs : 0 ∉ s) (bytes : List UInt8) :
    readCString (s ++ bytes) = (readCString bytes).map (s ++ ·) := by
  induction s with
  | nil =>
      simp
  | cons b s ih =>
      have hb : b ≠ 0 := fun h => hs (by simp [h])
      have hrest : 0 ∉ s := fun h => hs (by simp [h])
      rw [List.cons_append, readCString, if_neg hb, ih hrest]
      simp [Function.comp_def]

/-- Exactly a zero behind the bytes makes them the string. -/
theorem readCString_append_eq_iff {s : List UInt8} (hs : 0 ∉ s) (b : UInt8)
    (bytes : List UInt8) : readCString (s ++ b :: bytes) = some s ↔ b = 0 := by
  rw [readCString_append hs, readCString]
  constructor
  · intro h
    by_contra hb
    rw [if_neg hb, Option.map_map, Option.map_eq_some_iff] at h
    rcases h with ⟨t, -, ht⟩
    -- A byte that is not zero would be part of the string and make it longer.
    have hlen := congrArg List.length ht
    simp only [Function.comp_apply, List.length_append, List.length_cons] at hlen
    omega
  · intro hb
    simp [hb]

end Base
end Etude
