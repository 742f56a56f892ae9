import Etude.RingBuffer.Refinement

/-!
# Indices — the ring buffer stays inside its array

The loops of `read` and `write` stop on tests for equality and move the positions after the
access, so that the invariant has to hold at every test of a loop and not only between the calls.
Nothing is assumed of the caller's arrays here: a call that leaves one of them is followed up to
that point.
-/

namespace Etude
namespace RingBuffer

open Base

variable {α : Type}

/-! ## The loop of a call -/

section Loops

/-- The number of elements that a call asks for. -/
def Call.amount : Call α → ℕ
  | .write _ toWrite => toWrite
  | .read _ toRead => toRead

/-- Whether a call returns before its loop. -/
def Ring.skips (ring : Ring α) : Call α → Bool
  | .write _ _ => ring.bufferSize = ring.elementCount
  | .read _ _ => 0 = ring.elementCount

def Ring.start (ring : Ring α) : Call α → Loop α
  | .write wbuf _ => { ring := ring, array := wbuf, i := 0 }
  | .read rbuf _ => { ring := ring, array := rbuf, i := 0 }

def Call.test : Call α → Loop α → Bool
  | .write _ toWrite, l => l.i != toWrite && l.i != sizeSub l.ring.bufferSize l.ring.elementCount
  | .read _ toRead, l => l.i != toRead && l.i != l.ring.elementCount

def Call.body : Call α → Loop α → Option (Loop α)
  | .write _ _ => writeBody
  | .read _ _ => readBody

/-- The assignment to `_element_count` behind the loop. -/
def Call.settle : Call α → Loop α → ℕ
  | .write _ _, l => sizeAdd l.ring.elementCount l.i
  | .read _ _, l => sizeSub l.ring.elementCount l.i

/-- The index at which the body of the loop accesses `_buffer`. -/
def Call.index : Call α → Loop α → ℕ
  | .write _ _, l => l.ring.wrPos
  | .read _ _, l => l.ring.rdPos

/-- The states in which the loop of a call is tested, in its first `n` tests. -/
def Ring.heads (ring : Ring α) (c : Call α) (n : ℕ) : List (Loop α) :=
  if ring.skips c then [] else Base.heads c.test c.body n (ring.start c)

/-- The indices at which a call accesses `_buffer`, up to the `n`-th test of its loop. -/
def Ring.accesses (ring : Ring α) (c : Call α) (n : ℕ) : List ℕ :=
  ((ring.heads c n).filter c.test).map c.index

end Loops

/-- A call that returns has skipped its loop or run it to the end. -/
theorem Ring.call_cases {ring ring' : Ring α} {c : Call α} {out : Outcome α}
    (h : ring.call c = some (ring', out)) :
    ring' = ring ∨ ring.skips c = false ∧
      ∃ l, whileLoop c.test c.body (c.amount + 1) (ring.start c) = some l ∧
        ring' = { l.ring with elementCount := c.settle l } := by
  cases c with
  | write wbuf toWrite =>
      by_cases hfull : ring.bufferSize = ring.elementCount
      · simp only [Ring.call, write, if_pos hfull] at h
        cases h
        exact Or.inl rfl
      · simp only [Ring.call, write, if_neg hfull] at h
        rcases Option.bind_eq_some_iff.mp h with ⟨⟨r, k⟩, hr, hout⟩
        rcases Option.bind_eq_some_iff.mp hr with ⟨l, hl, hlr⟩
        cases hlr
        cases hout
        exact Or.inr ⟨decide_eq_false hfull, l, hl, rfl⟩
  | read rbuf toRead =>
      by_cases hempty : 0 = ring.elementCount
      · simp only [Ring.call, read, if_pos hempty] at h
        cases h
        exact Or.inl rfl
      · simp only [Ring.call, read, if_neg hempty] at h
        rcases Option.bind_eq_some_iff.mp h with ⟨⟨r, a, k⟩, hr, hout⟩
        rcases Option.bind_eq_some_iff.mp hr with ⟨l, hl, hlr⟩
        cases hlr
        cases hout
        exact Or.inr ⟨decide_eq_false hempty, l, hl, rfl⟩

/-! ## The bodies -/

theorem readBody_eq_some {l l' : Loop α} (h : readBody l = some l') :
    l'.ring = { l.ring with rdPos := l'.ring.rdPos } ∧
      l'.ring.rdPos =
        (if l.ring.bufferSize = sizeInc l.ring.rdPos then 0 else sizeInc l.ring.rdPos) ∧
      l'.i = sizeInc l.i := by
  rcases Option.bind_eq_some_iff.mp h with ⟨x, -, hx⟩
  rcases Option.bind_eq_some_iff.mp hx with ⟨rbuf, -, hrbuf⟩
  cases hrbuf
  exact ⟨rfl, rfl, rfl⟩

theorem writeBody_eq_some {l l' : Loop α} (h : writeBody l = some l') :
    l'.ring = { l.ring with buffer := l'.ring.buffer, wrPos := l'.ring.wrPos } ∧
      l'.ring.buffer.length = l.ring.buffer.length ∧
      l'.ring.wrPos =
        (if l.ring.bufferSize = sizeInc l.ring.wrPos then 0 else sizeInc l.ring.wrPos) ∧
      l'.i = sizeInc l.i := by
  rcases Option.bind_eq_some_iff.mp h with ⟨x, -, hx⟩
  rcases Option.bind_eq_some_iff.mp hx with ⟨buffer, hstore, hbuffer⟩
  cases hbuffer
  refine ⟨rfl, ?_, rfl, rfl⟩
  by_cases hlt : l.ring.wrPos < l.ring.buffer.length
  · rw [storeAt_of_lt hlt] at hstore
    cases hstore
    exact List.length_set
  · rw [storeAt, if_neg hlt] at hstore
    cases hstore

/-! ## The invariant of the loops -/

/-- The number of rounds after which a loop stops. -/
def Call.limit (N count : ℕ) : Call α → ℕ
  | .write _ toWrite => min toWrite (N - count)
  | .read _ toRead => min toRead count

/-- The number of elements in the ring after `i` rounds. -/
def Call.countAfter (count i : ℕ) : Call α → ℕ
  | .write _ _ => count + i
  | .read _ _ => count - i

/-- At a test of the loop of a call on a ring with `count` elements. -/
structure Turning (N count : ℕ) (c : Call α) (l : Loop α) : Prop where
  i_le : l.i ≤ c.limit N count
  count_le : count ≤ N
  placed : Placed N l.ring (c.countAfter count l.i)
  count_eq : l.ring.elementCount = count

section Turning

variable {N count : ℕ} {c : Call α} {l l' : Loop α}

/-- The subtraction in the condition of `write` does not wrap. -/
theorem Turning.room (h : Turning N count c l) :
    sizeSub l.ring.bufferSize l.ring.elementCount = N - count := by
  rw [h.placed.size_eq, h.count_eq]
  exact sizeSub_of_le h.count_le h.placed.size_lt

/-- The tests for equality cannot miss the limit. -/
theorem Turning.test_iff (h : Turning N count c l) : c.test l = true ↔ l.i < c.limit N count := by
  have hi := h.i_le
  have hroom := h.room
  cases c with
  | write wbuf toWrite =>
      simp only [Call.test, Call.limit, hroom, Bool.and_eq_true, bne_iff_ne] at *
      omega
  | read rbuf toRead =>
      simp only [Call.test, Call.limit, h.count_eq, Bool.and_eq_true, bne_iff_ne] at *
      omega

/-- Where a round is begun, the position that it uses is inside the array. -/
theorem Turning.index_lt (h : Turning N count c l) (htest : c.test l = true) : c.index l < N := by
  have hlt := h.test_iff.mp htest
  have hle := h.count_le
  cases c with
  | write wbuf toWrite =>
      simp only [Call.limit] at hlt
      have hpos : 0 < N := by omega
      simp only [Call.index, h.placed.wr_eq hpos]
      exact Nat.mod_lt _ hpos
  | read rbuf toRead =>
      simp only [Call.limit] at hlt
      exact h.placed.rd_lt (by omega)

/-- A round is begun below the capacity, so `++i` does not wrap. -/
theorem Turning.sizeInc_i (h : Turning N count c l) (htest : c.test l = true) :
    sizeInc l.i = l.i + 1 := by
  have hlt := h.test_iff.mp htest
  have hle := h.count_le
  have hN : l.i < N := by
    cases c with
    | write wbuf toWrite =>
        simp only [Call.limit] at hlt
        omega
    | read rbuf toRead =>
        simp only [Call.limit] at hlt
        omega
  exact sizeInc_of_lt hN h.placed.size_lt

/-- Nor does the position that the round moves: it comes back to the start of the array. -/
theorem Turning.advance (h : Turning N count c l) (htest : c.test l = true) :
    (if l.ring.bufferSize = sizeInc (c.index l) then 0 else sizeInc (c.index l)) =
      (c.index l + 1) % N := by
  rw [h.placed.size_eq]
  exact advance_eq_mod (h.index_lt htest) h.placed.size_lt

theorem Turning.body (h : Turning N count c l) (htest : c.test l = true)
    (hbody : c.body l = some l') : Turning N count c l' ∧ l'.i = l.i + 1 := by
  have hlt := h.test_iff.mp htest
  have hinc := h.sizeInc_i htest
  have hadv := h.advance htest
  have hplaced := h.placed
  cases c with
  | write wbuf toWrite =>
      rcases writeBody_eq_some hbody with ⟨hring, hlength, hwr, hi⟩
      rw [hinc] at hi
      have hnext : l'.ring.wrPos = (l.ring.wrPos + 1) % N := hwr.trans hadv
      rw [hnext] at hring
      simp only [Call.limit] at hlt
      refine ⟨?_, hi⟩
      exact
        { i_le := by simp only [Call.limit, hi]; omega
          count_le := h.count_le
          placed := by
            rw [hring, hi]
            refine hplaced.stored ?_ (hlength.trans hplaced.length_eq)
            simp only [Call.countAfter]
            omega
          count_eq := by rw [hring]; exact h.count_eq }
  | read rbuf toRead =>
      rcases readBody_eq_some hbody with ⟨hring, hrd, hi⟩
      rw [hinc] at hi
      have hnext : l'.ring.rdPos = (l.ring.rdPos + 1) % N := hrd.trans hadv
      rw [hnext] at hring
      simp only [Call.limit] at hlt
      -- The element that is read is one of those that were left.
      have hcount : count - l.i = count - (l.i + 1) + 1 := by omega
      simp only [Call.countAfter, hcount] at hplaced
      refine ⟨?_, hi⟩
      exact
        { i_le := by simp only [Call.limit, hi]; omega
          count_le := h.count_le
          placed := by
            rw [hring, hi]
            exact hplaced.taken
          count_eq := by rw [hring]; exact h.count_eq }

end Turning

/-! ## Calls -/

section Calls

variable {N : ℕ} {ring ring' : Ring α}

theorem turning_start (h : Placed N ring ring.elementCount) (c : Call α) :
    Turning N ring.elementCount c (ring.start c) := by
  have hcount := h.count_le
  cases c with
  | write wbuf toWrite =>
      exact { i_le := Nat.zero_le _, count_le := hcount, placed := h, count_eq := rfl }
  | read rbuf toRead =>
      exact { i_le := Nat.zero_le _, count_le := hcount, placed := h, count_eq := rfl }

/-- What a call leaves behind is placed again, with the number of elements in `_element_count`. -/
theorem call_placed {c : Call α} {out : Outcome α} (h : Placed N ring ring.elementCount)
    (hcall : ring.call c = some (ring', out)) : Placed N ring' ring'.elementCount := by
  rcases Ring.call_cases hcall with rfl | ⟨-, l, hl, rfl⟩
  · exact h
  · have hkeep : ∀ l l', Turning N ring.elementCount c l → c.test l = true →
        c.body l = some l' → Turning N ring.elementCount c l' :=
      fun l l' hl ht hb => (hl.body ht hb).1
    have hturning := (whileLoop_keeps hkeep (turning_start h c) hl).1
    have hsettle : c.settle l = c.countAfter ring.elementCount l.i := by
      have hi := hturning.i_le
      have hle := hturning.count_le
      have hsize := hturning.placed.size_lt
      cases c with
      | write wbuf toWrite =>
          simp only [Call.limit] at hi
          simp only [Call.settle, Call.countAfter, hturning.count_eq]
          exact sizeAdd_of_lt (by omega)
      | read rbuf toRead =>
          simp only [Call.limit] at hi
          simp only [Call.settle, Call.countAfter, hturning.count_eq]
          exact sizeSub_of_le (by omega) (by omega)
    have hplaced := hturning.placed
    rw [← hsettle] at hplaced
    exact { hplaced with }

theorem heads_turning (h : Placed N ring ring.elementCount) (c : Call α) (n : ℕ) :
    (∀ l ∈ ring.heads c n, Turning N ring.elementCount c l) ∧
      (ring.heads c n).length ≤ c.limit N ring.elementCount + 1 := by
  cases hskips : ring.skips c with
  | true =>
      simp [Ring.heads, hskips]
  | false =>
      have hkeep : ∀ l l', Turning N ring.elementCount c l → c.test l = true →
          c.body l = some l' → Turning N ring.elementCount c l' ∧
            c.limit N ring.elementCount - l'.i < c.limit N ring.elementCount - l.i := by
        intro l l' hl ht hb
        rcases hl.body ht hb with ⟨hl', hi⟩
        have hlt := hl.test_iff.mp ht
        exact ⟨hl', by omega⟩
      have hstart := turning_start h c
      have hheads := heads_spec hkeep n hstart
      have hbound : c.limit N ring.elementCount - (ring.start c).i ≤
          c.limit N ring.elementCount := Nat.sub_le _ _
      rw [Ring.heads, hskips, if_neg Bool.false_ne_true]
      exact ⟨hheads.1, by omega⟩

theorem accesses_lt (h : Placed N ring ring.elementCount) (c : Call α) (n : ℕ) :
    ∀ i ∈ ring.accesses c n, i < N := by
  intro i hi
  rcases List.mem_map.mp hi with ⟨l, hl, rfl⟩
  rcases List.mem_filter.mp hl with ⟨hhead, htest⟩
  exact ((heads_turning h c n).1 l hhead).index_lt htest

theorem limit_le_amount (c : Call α) (count : ℕ) : c.limit N count ≤ c.amount := by
  cases c with
  | write wbuf toWrite => exact Nat.min_le_left _ _
  | read rbuf toRead => exact Nat.min_le_left _ _

end Calls

/-- In every run of calls on a new ring: the counts and the positions fit between the calls, and in
the loop of any further call, at every test, the subtraction does not wrap, the number of tests is
bounded, and the array is accessed inside only.  If the caller's arrays are as long as the caller
says, the calls return. -/
theorem ringBuffer_indices (array : List α) (hsize : array.length < sizeMod)
    (cs : List (Call α)) :
    ((∀ c ∈ cs, c.Fits) → ((ringBuffer array.length array).calls cs).isSome) ∧
      ∀ ring outs, (ringBuffer array.length array).calls cs = some (ring, outs) →
        ring.bufferSize = array.length ∧ ring.buffer.length = array.length ∧
        ring.elementCount ≤ array.length ∧
        (0 < array.length → ring.rdPos < array.length ∧ ring.wrPos < array.length ∧
          ring.wrPos = (ring.rdPos + ring.elementCount) % array.length) ∧
        ∀ (c : Call α) (n : ℕ),
          (∀ l ∈ ring.heads c n, l.ring.elementCount ≤ l.ring.bufferSize ∧
            sizeSub l.ring.bufferSize l.ring.elementCount =
              l.ring.bufferSize - l.ring.elementCount) ∧
          (ring.heads c n).length ≤ c.amount + 1 ∧
          ∀ i ∈ ring.accesses c n, i < array.length := by
  have hnew := ringBuffer_represents array hsize
  constructor
  · intro hfit
    have hempty : Represents array.length (ringBuffer array.length array)
        (BoundedQueue.empty : BoundedQueue α array.length).items := hnew
    rcases calls_refine hempty hfit with ⟨ring, hcalls, -⟩
    rw [hcalls]
    rfl
  · intro ring outs hrun
    have hstart : Placed array.length (ringBuffer array.length array)
        (ringBuffer array.length array).elementCount := hnew.placed
    have hplaced : Placed array.length ring ring.elementCount :=
      runOut_keeps (I := fun ring => Placed array.length ring ring.elementCount)
        (fun _ _ _ _ h hcall => call_placed h hcall) hstart hrun
    refine ⟨hplaced.size_eq, hplaced.length_eq, hplaced.count_le, ?_, ?_⟩
    · intro hpos
      have hwr := hplaced.wr_eq hpos
      refine ⟨hplaced.rd_lt hpos, ?_, hwr⟩
      rw [hwr]
      exact Nat.mod_lt _ hpos
    · intro c n
      rcases heads_turning hplaced c n with ⟨hheads, hlength⟩
      refine ⟨?_, ?_, accesses_lt hplaced c n⟩
      · intro l hl
        have hturning := hheads l hl
        have hcount := hturning.count_le
        rw [hturning.room, hturning.placed.size_eq, hturning.count_eq]
        exact ⟨hcount, rfl⟩
      · exact Nat.le_trans hlength (Nat.succ_le_succ (limit_le_amount c _))

/-- Three cells, after a write that does not fit, a read, and a write across the end. -/
theorem ringBuffer_indices_wraps :
    let cs : List (Call ℕ) := [.write [1, 2, 3, 4] 4, .read [0, 0] 2, .write [5, 6, 7] 3]
    ((ringBuffer 3 [9, 9, 9]).calls cs).isSome ∧
      ∀ ring outs, (ringBuffer 3 [9, 9, 9]).calls cs = some (ring, outs) →
        ring.elementCount ≤ 3 ∧ ring.wrPos = (ring.rdPos + ring.elementCount) % 3 ∧
        ∀ (c : Call ℕ) (n : ℕ), ∀ i ∈ ring.accesses c n, i < 3 := by
  intro cs
  rcases ringBuffer_indices [9, 9, 9] (by decide) cs with ⟨hreturns, hruns⟩
  refine ⟨hreturns (by simp [cs, Call.Fits]), ?_⟩
  intro ring outs hrun
  rcases hruns ring outs hrun with ⟨-, -, hcount, hpositions, hloops⟩
  exact ⟨hcount, (hpositions (by decide)).2.2, fun c n => (hloops c n).2.2⟩

example :
    (((ringBuffer 3 [9, 9, 9]).calls
        [.write [1, 2, 3, 4] 4, .read [0, 0] 2, .write [5, 6, 7] 3]).map
      fun p => p.1.accesses (.read [0, 0, 0, 0] 4) 9) = some [2, 0, 1] := by
  decide

end RingBuffer
end Etude
