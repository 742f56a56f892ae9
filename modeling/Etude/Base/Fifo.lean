import Mathlib.Data.List.Basic
import Mathlib.Data.Nat.ModEq
import Etude.Base.Run

/-!
# Fifo — bounded queues and their circular layout

* `BoundedQueue α cap` is a list that carries the proof that it holds at most `cap` elements.
  `offer` appends the longest prefix that fits, `poll` takes the oldest elements; over any
  sequence of them nothing is lost, repeated or reordered (`conservation`).
* `Holds buf pos items` says that `items` lie in the array `buf` from position `pos` on, the
  positions being counted modulo the length of the array.
-/

namespace Etude
namespace Base

variable {α : Type*}

/-! ## Bounded queues -/

structure BoundedQueue (α : Type*) (cap : ℕ) where
  items : List α
  bounded : items.length ≤ cap

namespace BoundedQueue

variable {cap : ℕ}

def empty : BoundedQueue α cap :=
  { items := []
    bounded := Nat.zero_le cap }

/-- How many of `n` offered elements fit. -/
def accepts (q : BoundedQueue α cap) (n : ℕ) : ℕ :=
  min n (cap - q.items.length)

/-- Append the first elements of `xs`, at most `n` of them and as many as fit. -/
def offer (q : BoundedQueue α cap) (xs : List α) (n : ℕ) : BoundedQueue α cap :=
  { items := q.items ++ xs.take (q.accepts n)
    bounded := by
      have hq := q.bounded
      simp only [List.length_append, List.length_take, accepts]
      omega }

/-- Remove the `n` oldest elements (all of them if there are fewer). -/
def poll (q : BoundedQueue α cap) (n : ℕ) : BoundedQueue α cap :=
  { items := q.items.drop n
    bounded := by
      have hq := q.bounded
      simp only [List.length_drop]
      omega }

/-- A call on a queue: offer a prefix of a list, or poll a number of elements. -/
inductive Call (α : Type*)
  | offer (xs : List α) (n : ℕ)
  | poll (n : ℕ)

/-- What a call moves: the elements accepted, or the elements delivered. -/
inductive Moved (α : Type*)
  | accepted (xs : List α)
  | delivered (xs : List α)

def call (q : BoundedQueue α cap) : Call α → BoundedQueue α cap × Moved α
  | .offer xs n => (q.offer xs n, .accepted (xs.take (q.accepts n)))
  | .poll n => (q.poll n, .delivered (q.items.take n))

def Moved.acceptedItems : Moved α → List α
  | .accepted xs => xs
  | .delivered _ => []

def Moved.deliveredItems : Moved α → List α
  | .accepted _ => []
  | .delivered xs => xs

theorem call_conserves (q : BoundedQueue α cap) (c : Call α) :
    (q.call c).2.deliveredItems ++ (q.call c).1.items =
      q.items ++ (q.call c).2.acceptedItems := by
  cases c with
  | offer xs n =>
      simp [call, offer, Moved.deliveredItems, Moved.acceptedItems]
  | poll n =>
      simp [call, poll, Moved.deliveredItems, Moved.acceptedItems]

/-- What was delivered, followed by what is still queued, is what was there at the start
followed by what was accepted. -/
theorem conservation (q : BoundedQueue α cap) (cs : List (Call α)) :
    (specOut call q cs).2.flatMap Moved.deliveredItems ++ (specOut call q cs).1.items =
      q.items ++ (specOut call q cs).2.flatMap Moved.acceptedItems := by
  induction cs generalizing q with
  | nil =>
      simp [specOut]
  | cons c cs ih =>
      -- The first call conserves, and so do the others from the queue it leaves.
      have hrest := ih (q.call c).1
      have hhead := call_conserves q c
      calc
        (specOut call q (c :: cs)).2.flatMap Moved.deliveredItems ++
              (specOut call q (c :: cs)).1.items
            = (q.call c).2.deliveredItems ++
                ((specOut call (q.call c).1 cs).2.flatMap Moved.deliveredItems ++
                  (specOut call (q.call c).1 cs).1.items) := by
              simp [specOut]
        _ = ((q.call c).2.deliveredItems ++ (q.call c).1.items) ++
              (specOut call (q.call c).1 cs).2.flatMap Moved.acceptedItems := by
              rw [hrest, List.append_assoc]
        _ = q.items ++ (specOut call q (c :: cs)).2.flatMap Moved.acceptedItems := by
              rw [hhead]
              simp [specOut]

end BoundedQueue

/-! ## Circular layout -/

/-- `items` lie in `buf` from `pos` on, wrapping around at its end. -/
def Holds (buf : List α) (pos : ℕ) (items : List α) : Prop :=
  ∀ (k : ℕ) (x : α), items[k]? = some x → buf[(pos + k) % buf.length]? = some x

/-- The elements read from `n` positions on from `pos`. -/
def window (buf : List α) (pos n : ℕ) : List α :=
  (List.range n).filterMap fun k => buf[(pos + k) % buf.length]?

theorem holds_nil (buf : List α) (pos : ℕ) : Holds buf pos [] := by
  intro k x h
  simp at h

/-- Only the position modulo the length of the array matters. -/
theorem Holds.congr_pos {buf : List α} {pos pos' : ℕ} {items : List α}
    (hmod : pos % buf.length = pos' % buf.length) (h : Holds buf pos items) :
    Holds buf pos' items := by
  intro k x hk
  have hpos : (pos' + k) % buf.length = (pos + k) % buf.length :=
    Nat.ModEq.add_right k hmod.symm
  rw [hpos]
  exact h k x hk

theorem Holds.head {buf : List α} {pos : ℕ} {x : α} {items : List α}
    (h : Holds buf pos (x :: items)) : buf[pos % buf.length]? = some x := by
  simpa using h 0 x rfl

theorem Holds.tail {buf : List α} {pos : ℕ} {x : α} {items : List α}
    (h : Holds buf pos (x :: items)) : Holds buf (pos + 1) items := by
  intro k y hk
  have hy : buf[(pos + (k + 1)) % buf.length]? = some y := h (k + 1) y (by simpa using hk)
  have hadd : pos + 1 + k = pos + (k + 1) := by omega
  simpa [hadd] using hy

/-- Offsets below the length of the array address different cells. -/
theorem offset_ne {n pos j k : ℕ} (hj : j < n) (hk : k < n) (hjk : j ≠ k) :
    (pos + j) % n ≠ (pos + k) % n := by
  intro h
  -- The position cancels, and both offsets are their own remainders.
  have hmod : j ≡ k [MOD n] := Nat.ModEq.add_left_cancel' pos h
  exact hjk (Nat.ModEq.eq_of_lt_of_lt hmod hj hk)

/-- Storing an element in the first free cell appends it. -/
theorem Holds.push {buf : List α} {pos : ℕ} {items : List α} (x : α)
    (h : Holds buf pos items) (hfree : items.length < buf.length) :
    Holds (buf.set ((pos + items.length) % buf.length) x) pos (items ++ [x]) := by
  intro k y hk
  have hlen : 0 < buf.length := by omega
  -- An old element, the new one, or nothing.
  rcases Nat.lt_trichotomy k items.length with hlt | heq | hgt
  · have hne : (pos + items.length) % buf.length ≠ (pos + k) % buf.length :=
      offset_ne hfree (by omega) (by omega)
    have hy : items[k]? = some y := by
      simpa [List.getElem?_append_left hlt] using hk
    simpa [List.getElem?_set_ne hne] using h k y hy
  · subst heq
    have hxy : x = y := by simpa using hk
    have hcell : (pos + items.length) % buf.length < buf.length := Nat.mod_lt _ hlen
    simp [List.getElem?_set_self hcell, hxy]
  · have hnone : (items ++ [x])[k]? = none := by
      refine List.getElem?_eq_none ?_
      simp only [List.length_append, List.length_singleton]
      omega
    rw [hnone] at hk
    cases hk

theorem Holds.window_eq {buf : List α} {pos : ℕ} {items : List α}
    (h : Holds buf pos items) : window buf pos items.length = items := by
  induction items generalizing pos with
  | nil =>
      rfl
  | cons x items ih =>
      have hhead : buf[pos % buf.length]? = some x := h.head
      have htail : window buf (pos + 1) items.length = items := ih h.tail
      have hshift :
          (fun k => buf[(pos + (k + 1)) % buf.length]?) =
            fun k => buf[(pos + 1 + k) % buf.length]? := by
        funext k
        have hadd : pos + (k + 1) = pos + 1 + k := by omega
        rw [hadd]
      calc
        window buf pos (items.length + 1)
            = x :: (List.range items.length).filterMap
                (fun k => buf[(pos + (k + 1)) % buf.length]?) := by
              simp [window, List.range_succ_eq_map, List.filterMap_map, hhead]
        _ = x :: window buf (pos + 1) items.length := by
              rw [hshift, window]
        _ = x :: items := by
              rw [htail]

end Base
end Etude
