import Mathlib.Data.List.Basic
import Mathlib.Data.UInt

/-!
# MultiSz — lists of strings in one buffer

`multiSz names` is a list of names one behind the other, each with a zero behind it, and a zero
behind the last.  `walk` is the loop that goes from name to name until it finds an empty one; a
read outside the buffer is `none`.  The walk over a buffer that holds a list visits its names,
whatever else is in the buffer (`walk_multiSz`).
-/

namespace Etude
namespace Base
namespace MultiSz

variable {α : Type*} [Zero α]

/-- A string that can be an entry of a list. -/
@[ext] structure Name (α : Type*) [Zero α] where
  chars : List α
  ne_nil : chars ≠ []
  no_zero : 0 ∉ chars

def multiSz (names : List (Name α)) : List α :=
  names.flatMap (fun name => name.chars ++ [0]) ++ [0]

theorem multiSz_cons (name : Name α) (names : List (Name α)) :
    multiSz (name :: names) = name.chars ++ 0 :: multiSz names := by
  simp [multiSz]

/-- Every name of a list fits with two more characters. -/
theorem length_lt_multiSz {names : List (Name α)} {name : Name α} (h : name ∈ names) :
    name.chars.length + 2 ≤ (multiSz names).length := by
  induction names with
  | nil =>
      cases h
  | cons n ns ih =>
      have htail : 0 < (multiSz ns).length := by simp [multiSz]
      rw [multiSz_cons, List.length_append, List.length_cons]
      rcases List.mem_cons.mp h with rfl | hmem
      · omega
      · have hle := ih hmem
        omega

theorem map_chars_injective : Function.Injective (List.map (Name.chars (α := α))) :=
  List.map_injective_iff.mpr fun _ _ h => Name.ext h

/-! ## The walk -/

variable [DecidableEq α]

/-- The characters before the first zero, and what is behind it. -/
def readString : List α → Option (List α × List α)
  | [] => none
  | c :: cs => if c = 0 then some ([], cs) else (readString cs).map fun p => (c :: p.1, p.2)

theorem readString_length {cs s rest : List α} (h : readString cs = some (s, rest)) :
    rest.length < cs.length := by
  induction cs generalizing s with
  | nil =>
      cases h
  | cons c cs ih =>
      rw [readString] at h
      split_ifs at h
      · cases h
        exact Nat.lt_succ_self _
      · rcases Option.map_eq_some_iff.mp h with ⟨⟨s', rest'⟩, hrest, heq⟩
        cases heq
        exact Nat.lt_succ_of_lt (ih hrest)

/-- The strings from the start of the buffer up to an empty one. -/
def walk (buffer : List α) : Option (List (List α)) :=
  match buffer with
  | [] => none
  | c :: cs =>
      if c = 0 then some []
      else
        match _h : readString (c :: cs) with
        | none => none
        | some (s, rest) => (walk rest).map (s :: ·)
termination_by buffer.length
decreasing_by exact readString_length _h

theorem readString_append {s : List α} (hs : 0 ∉ s) (rest : List α) :
    readString (s ++ 0 :: rest) = some (s, rest) := by
  induction s with
  | nil =>
      simp [readString]
  | cons c s ih =>
      rw [List.mem_cons, not_or] at hs
      rw [List.cons_append, readString, if_neg (Ne.symm hs.1), ih hs.2]
      rfl

theorem walk_nil : walk ([] : List α) = none := by
  rw [walk]

theorem walk_zero (cs : List α) : walk (0 :: cs) = some [] := by
  rw [walk, if_pos rfl]

theorem walk_name (name : Name α) (rest : List α) :
    walk (name.chars ++ 0 :: rest) = (walk rest).map (name.chars :: ·) := by
  rcases name with ⟨chars, hne, hzero⟩
  rcases List.exists_cons_of_ne_nil hne with ⟨c, cs, rfl⟩
  have hc : c ≠ 0 := fun h => hzero (by simp [h])
  have hread := readString_append hzero rest
  rw [List.cons_append] at hread ⊢
  rw [walk, if_neg hc]
  split
  · rename_i hnone
    rw [hread] at hnone
    cases hnone
  · rename_i s rest' hsome
    rw [hread] at hsome
    cases hsome
    rfl

/-- The walk visits every name once, in order, and stops, whatever is behind the list. -/
theorem walk_multiSz (names : List (Name α)) (behind : List α) :
    walk (multiSz names ++ behind) = some (names.map Name.chars) := by
  induction names with
  | nil =>
      exact walk_zero behind
  | cons name names ih =>
      rw [multiSz_cons, List.append_assoc, List.cons_append, walk_name, ih]
      rfl

/-! ## Wide characters -/

abbrev WChar := UInt16

/-- `L"..."` -/
def wide (s : String) : List WChar :=
  s.toList.map fun c => UInt16.ofNat c.toNat

end MultiSz
end Base
end Etude
