import Mathlib.Data.List.Basic

/-!
# Positions — counting the positions of a list

`countAt p xs` is the number of positions of `xs` whose element `x`, with the list `before` of the
elements in front of it, satisfies `p before x`.
-/

namespace Etude
namespace Base

universe u

variable {α : Type u}

def countAt (p : List α → α → Bool) (xs : List α) : ℕ :=
  (List.range xs.length).countP fun i => xs[i]?.any (p (xs.take i))

@[simp] theorem countAt_nil (p : List α → α → Bool) : countAt p [] = 0 :=
  rfl

/-- A new last element adds its own position and leaves the others as they are. -/
theorem countAt_concat (p : List α → α → Bool) (xs : List α) (x : α) :
    countAt p (xs ++ [x]) = countAt p xs + if p xs x then 1 else 0 := by
  have hlen : (xs ++ [x]).length = xs.length + 1 := by simp
  have hfront : (List.range xs.length).countP
        (fun i => (xs ++ [x])[i]?.any (p ((xs ++ [x]).take i))) = countAt p xs := by
    apply List.countP_congr
    intro i hi
    have hlt := List.mem_range.mp hi
    rw [List.getElem?_append_left hlt, List.take_append_of_le_length (Nat.le_of_lt hlt)]
  rw [countAt, hlen, List.range_succ, List.countP_append, hfront, List.countP_singleton,
    List.getElem?_concat_length, List.take_left]
  rfl

end Base
end Etude
