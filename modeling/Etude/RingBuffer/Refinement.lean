import Mathlib.Data.List.TakeDrop
import Etude.Base.Fifo
import Etude.RingBuffer.Model

/-!
# Refinement — the ring buffer is a bounded FIFO queue

`Represents ring items` is the representation invariant: the positions are inside the array,
the write position lies `element_count` cells after the read position, and the cells between
them hold `items`.  Both loops keep a variant of it in which the count lags behind.
-/

namespace Etude
namespace RingBuffer

open Base

variable {α : Type}

/-! ## Wrap-around -/

theorem sizeInc_of_lt {n m : ℕ} (hn : n < m) (hm : m < sizeMod) : sizeInc n = n + 1 := by
  have hlt : n + 1 < sizeMod := by omega
  simp [sizeInc, Nat.mod_eq_of_lt hlt]

theorem sizeSub_of_le {m n : ℕ} (hn : n ≤ m) (hm : m < sizeMod) : sizeSub m n = m - n := by
  have hsplit : m + sizeMod - n = m - n + sizeMod := by omega
  have hlt : m - n < sizeMod := by omega
  simp [sizeSub, hsplit, Nat.mod_eq_of_lt hlt]

theorem sizeAdd_of_lt {m n : ℕ} (h : m + n < sizeMod) : sizeAdd m n = m + n := by
  simp [sizeAdd, Nat.mod_eq_of_lt h]

/-- `++pos; if(size == pos) pos = 0;` is the successor modulo `size`. -/
theorem advance_eq_mod {size pos : ℕ} (hpos : pos < size) (hsize : size < sizeMod) :
    (if size = sizeInc pos then 0 else sizeInc pos) = (pos + 1) % size := by
  rw [sizeInc_of_lt hpos hsize]
  by_cases h : size = pos + 1
  · simp [h]
  · have hlt : pos + 1 < size := by omega
    simp [h, Nat.mod_eq_of_lt hlt]

/-! ## The representation invariant -/

/-- Positions and size of a ring of capacity `N` whose cells between the read and the write
position are `count` many; `_element_count` itself is not mentioned, as the loops update it
last. -/
structure Placed (N : ℕ) (ring : Ring α) (count : ℕ) : Prop where
  size_eq : ring.bufferSize = N
  length_eq : ring.buffer.length = N
  size_lt : N < sizeMod
  count_le : count ≤ N
  rd_lt : 0 < N → ring.rdPos < N
  wr_eq : 0 < N → ring.wrPos = (ring.rdPos + count) % N
  rd_zero : N = 0 → ring.rdPos = 0
  wr_zero : N = 0 → ring.wrPos = 0

structure Represents (N : ℕ) (ring : Ring α) (items : List α) : Prop where
  placed : Placed N ring items.length
  count_eq : ring.elementCount = items.length
  holds : Holds ring.buffer ring.rdPos items

section Placed

variable {N count : ℕ} {ring : Ring α}

/-- One element is read. -/
theorem Placed.taken (h : Placed N ring (count + 1)) :
    Placed N { ring with rdPos := (ring.rdPos + 1) % N } count := by
  have hcount := h.count_le
  have hpos : 0 < N := by omega
  refine
    { h with
      count_le := by omega
      rd_lt := fun _ => Nat.mod_lt _ hpos
      wr_eq := fun _ => ?_
      rd_zero := fun hzero => by omega }
  have hsum : ring.rdPos + (count + 1) = ring.rdPos + 1 + count := by omega
  rw [h.wr_eq hpos, hsum, Nat.mod_add_mod]

/-- One element is written, for which there is a cell. -/
theorem Placed.stored (h : Placed N ring count) (hroom : count < N) {buffer : List α}
    (hlength : buffer.length = N) :
    Placed N { ring with buffer := buffer, wrPos := (ring.wrPos + 1) % N } (count + 1) :=
  { h with
    length_eq := hlength
    count_le := hroom
    wr_eq := fun hpos => by
      simp only [h.wr_eq hpos, Nat.mod_add_mod]
      rfl
    wr_zero := fun hzero => by omega }

end Placed

/-- The elements of the buffer, oldest first. -/
def Ring.contents (ring : Ring α) : List α :=
  window ring.buffer ring.rdPos ring.elementCount

theorem Represents.contents_eq {N : ℕ} {ring : Ring α} {items : List α}
    (h : Represents N ring items) : ring.contents = items := by
  simpa [Ring.contents, h.count_eq] using h.holds.window_eq

theorem ringBuffer_represents (array : List α) (hsize : array.length < sizeMod) :
    Represents array.length (ringBuffer array.length array) [] :=
  { placed :=
      { size_eq := rfl
        length_eq := rfl
        size_lt := hsize
        count_le := Nat.zero_le _
        rd_lt := fun h => h
        wr_eq := fun _ => by simp [ringBuffer]
        rd_zero := fun _ => rfl
        wr_zero := fun _ => rfl }
    count_eq := rfl
    holds := holds_nil _ _ }

/-! ## The loop of `read` -/

theorem set_take_append_drop {xs ys : List α} {i : ℕ} (hx : i < xs.length)
    (hy : i < ys.length) :
    (xs.take i ++ ys.drop i).set i xs[i] = xs.take (i + 1) ++ ys.drop (i + 1) := by
  have hlen : (xs.take i).length = i := by
    simp only [List.length_take]
    omega
  rw [List.drop_eq_getElem_cons hy, List.set_append_right _ _ (by omega), hlen, Nat.sub_self,
    List.set_cons_zero, List.take_succ_eq_append_getElem hx, List.append_assoc,
    List.singleton_append]

/-- After `i` rounds the first `i` elements are in `rbuf` and the rest is still in the ring. -/
structure ReadInv (N : ℕ) (items rbuf : List α) (toRead : ℕ) (l : Loop α) : Prop where
  i_le : l.i ≤ min toRead items.length
  items_le : items.length ≤ N
  placed : Placed N l.ring (items.length - l.i)
  count_eq : l.ring.elementCount = items.length
  holds : Holds l.ring.buffer l.ring.rdPos (items.drop l.i)
  array_eq : l.array = items.take l.i ++ rbuf.drop l.i

theorem readBody_spec {N : ℕ} {items rbuf : List α} {toRead : ℕ} (hfit : toRead ≤ rbuf.length)
    {l : Loop α} (hinv : ReadInv N items rbuf toRead l)
    (hread : l.i ≠ toRead) (hcount : l.i ≠ items.length) :
    ∃ l', readBody l = some l' ∧ ReadInv N items rbuf toRead l' ∧ l'.i = l.i + 1 := by
  have hi := hinv.i_le
  have hcap := hinv.placed.size_lt
  have hle := hinv.items_le
  -- The loop goes on, so there is an element to read and the ring is not empty.
  have hiItems : l.i < items.length := by omega
  have hpos : 0 < N := by omega
  have hrd := hinv.placed.rd_lt hpos
  have hdrop : items.drop l.i = items[l.i] :: items.drop (l.i + 1) :=
    List.drop_eq_getElem_cons hiItems
  have hholds : Holds l.ring.buffer l.ring.rdPos (items[l.i] :: items.drop (l.i + 1)) := by
    rw [← hdrop]
    exact hinv.holds
  have hcell : l.ring.buffer[l.ring.rdPos]? = some items[l.i] := by
    have hmod : l.ring.rdPos % l.ring.buffer.length = l.ring.rdPos := by
      rw [hinv.placed.length_eq]
      exact Nat.mod_eq_of_lt hrd
    simpa [hmod] using hholds.head
  have harr : l.i < l.array.length := by
    rw [hinv.array_eq]
    simp only [List.length_append, List.length_take, List.length_drop]
    omega
  have hadv := advance_eq_mod hrd hcap
  have hinc : sizeInc l.i = l.i + 1 := sizeInc_of_lt (m := N) (by omega) hcap
  refine ⟨{ ring := { l.ring with rdPos := (l.ring.rdPos + 1) % N }
            array := l.array.set l.i items[l.i]
            i := l.i + 1 }, ?_, ?_, rfl⟩
  · simp [readBody, hcell, storeAt, harr, hinv.placed.size_eq, hadv, hinc]
  · refine
      { i_le := by simp only; omega
        items_le := hle
        placed := ?_
        count_eq := hinv.count_eq
        holds := ?_
        array_eq := ?_ }
    · have hplaced := hinv.placed
      have hcount : items.length - l.i = items.length - (l.i + 1) + 1 := by omega
      rw [hcount] at hplaced
      exact hplaced.taken
    -- The cells from the next position on hold the rest.
    · have htail := hholds.tail
      refine htail.congr_pos ?_
      simp [hinv.placed.length_eq]
    · simp only [hinv.array_eq]
      exact set_take_append_drop hiItems (by omega)

/-- The loop of `read` stops when it has copied what is asked for or what there is. -/
theorem readLoop_spec {N : ℕ} {ring : Ring α} {items : List α} (h : Represents N ring items)
    {rbuf : List α} {toRead : ℕ} (hfit : toRead ≤ rbuf.length) :
    ∃ l, whileLoop (fun l => l.i != toRead && l.i != l.ring.elementCount) readBody (toRead + 1)
        { ring := ring, array := rbuf, i := 0 } = some l ∧
      ReadInv N items rbuf toRead l ∧ l.i = min toRead items.length := by
  have hbody : ∀ l, ReadInv N items rbuf toRead l →
      (l.i != toRead && l.i != l.ring.elementCount) = true →
      ∃ l', readBody l = some l' ∧ ReadInv N items rbuf toRead l' ∧
        toRead - l'.i < toRead - l.i := by
    -- The variant is the number of rounds that `to_read` leaves.
    intro l hinv hc
    simp only [Bool.and_eq_true, bne_iff_ne, hinv.count_eq] at hc
    rcases readBody_spec hfit hinv hc.1 hc.2 with ⟨l', hl', hinv', hi'⟩
    have hi := hinv.i_le
    exact ⟨l', hl', hinv', by omega⟩
  have hstart : ReadInv N items rbuf toRead { ring := ring, array := rbuf, i := 0 } :=
    { i_le := Nat.zero_le _
      items_le := h.placed.count_le
      placed := h.placed
      count_eq := h.count_eq
      holds := by simpa using h.holds
      array_eq := by simp }
  rcases whileLoop_spec hbody (toRead + 1) _ hstart (by simp) with ⟨l, hl, hinv, hc⟩
  refine ⟨l, hl, hinv, ?_⟩
  -- Both conditions of the loop are tests for equality; the invariant excludes passing them.
  have hle := hinv.i_le
  have hstop : ¬ (l.i ≠ toRead ∧ l.i ≠ items.length) := by
    simpa [hinv.count_eq] using hc
  omega

theorem read_spec {N : ℕ} {ring : Ring α} {items : List α} (h : Represents N ring items)
    {rbuf : List α} {toRead : ℕ} (hfit : toRead ≤ rbuf.length) :
    ∃ ring', read ring rbuf toRead =
        some (ring', items.take toRead ++ rbuf.drop (min toRead items.length),
          min toRead items.length) ∧
      Represents N ring' (items.drop toRead) := by
  by_cases hempty : 0 = ring.elementCount
  · have hnil : items = [] := by
      have hlen : items.length = 0 := by rw [← h.count_eq, ← hempty]
      exact List.eq_nil_of_length_eq_zero hlen
    subst hnil
    exact ⟨ring, by simp [read, ← hempty], by simpa using h⟩
  · rcases readLoop_spec h hfit with ⟨l, hl, hinv, hi⟩
    have hbound := hinv.placed.size_lt
    have hcap := hinv.items_le
    -- The count is subtracted once, after the loop, and does not wrap.
    have hsub : sizeSub items.length l.i = items.length - l.i :=
      sizeSub_of_le (by omega) (by omega)
    refine ⟨{ l.ring with elementCount := items.length - l.i }, ?_, ?_⟩
    · have htake : items.take l.i = items.take toRead := by
        rw [hi, List.take_eq_take_iff]
        omega
      rw [← hi]
      simp [read, hempty, hl, hinv.count_eq, hsub, hinv.array_eq, htake]
    · have hdrop : items.drop l.i = items.drop toRead := by
        rw [hi]
        rcases Nat.le_total toRead items.length with hle | hle
        · rw [min_eq_left hle]
        · rw [min_eq_right hle, List.drop_length, List.drop_eq_nil_of_le hle]
      rw [← hdrop]
      exact
        { placed := by
            have hplaced := hinv.placed
            simp only [List.length_drop]
            exact { hplaced with }
          count_eq := by simp
          holds := hinv.holds }

/-! ## The loop of `write` -/

/-- After `i` rounds the first `i` elements of `wbuf` lie behind the ones that were there. -/
structure WriteInv (N : ℕ) (items wbuf : List α) (toWrite : ℕ) (l : Loop α) : Prop where
  i_le : l.i ≤ min toWrite (N - items.length)
  items_le : items.length ≤ N
  placed : Placed N l.ring (items.length + l.i)
  count_eq : l.ring.elementCount = items.length
  holds : Holds l.ring.buffer l.ring.rdPos (items ++ wbuf.take l.i)
  array_eq : l.array = wbuf

theorem writeBody_spec {N : ℕ} {items wbuf : List α} {toWrite : ℕ}
    (hfit : toWrite ≤ wbuf.length) {l : Loop α} (hinv : WriteInv N items wbuf toWrite l)
    (hwrite : l.i ≠ toWrite) (hroom : l.i ≠ N - items.length) :
    ∃ l', writeBody l = some l' ∧ WriteInv N items wbuf toWrite l' ∧ l'.i = l.i + 1 := by
  have hi := hinv.i_le
  have hcap := hinv.placed.size_lt
  have hle := hinv.items_le
  -- The loop goes on, so there is an element to write and a cell for it.
  have hiBuf : l.i < wbuf.length := by omega
  have hpos : 0 < N := by omega
  have hrd := hinv.placed.rd_lt hpos
  have hwr := hinv.placed.wr_eq hpos
  have hwrlt : l.ring.wrPos < N := by
    rw [hwr]
    exact Nat.mod_lt _ hpos
  have hbuf := hinv.placed.length_eq
  have hadv := advance_eq_mod hwrlt hcap
  have hinc : sizeInc l.i = l.i + 1 := sizeInc_of_lt (m := N) (by omega) hcap
  refine ⟨{ ring := { l.ring with
                        buffer := l.ring.buffer.set l.ring.wrPos wbuf[l.i]
                        wrPos := (l.ring.wrPos + 1) % N }
            array := l.array
            i := l.i + 1 }, ?_, ?_, rfl⟩
  · simp [writeBody, hinv.array_eq, hiBuf, storeAt, hbuf, hwrlt, hinv.placed.size_eq, hadv, hinc]
  · have hlen : (items ++ wbuf.take l.i).length = items.length + l.i := by
      simp only [List.length_append, List.length_take]
      omega
    refine
      { i_le := by simp only; omega
        items_le := hle
        placed := ?_
        count_eq := hinv.count_eq
        holds := ?_
        array_eq := hinv.array_eq }
    · exact hinv.placed.stored (by omega) (by rw [List.length_set, hbuf])
    · -- The write position is the first free cell.
      have hfree : (items ++ wbuf.take l.i).length < l.ring.buffer.length := by omega
      have hpush := hinv.holds.push wbuf[l.i] hfree
      rw [hlen, hbuf, ← hwr] at hpush
      simp only
      rw [List.take_succ_eq_append_getElem hiBuf, ← List.append_assoc]
      exact hpush

/-- The loop of `write` stops when it has copied all or the buffer is full. -/
theorem writeLoop_spec {N : ℕ} {ring : Ring α} {items : List α} (h : Represents N ring items)
    {wbuf : List α} {toWrite : ℕ} (hfit : toWrite ≤ wbuf.length) :
    ∃ l, whileLoop
        (fun l => l.i != toWrite && l.i != sizeSub l.ring.bufferSize l.ring.elementCount) writeBody
        (toWrite + 1) { ring := ring, array := wbuf, i := 0 } = some l ∧
      WriteInv N items wbuf toWrite l ∧ l.i = min toWrite (N - items.length) := by
  have hcap := h.placed.count_le
  have hroom : sizeSub N items.length = N - items.length :=
    sizeSub_of_le hcap h.placed.size_lt
  -- As for `read`, with the room in the buffer in place of its contents.
  have hbody : ∀ l, WriteInv N items wbuf toWrite l →
      (l.i != toWrite && l.i != sizeSub l.ring.bufferSize l.ring.elementCount) = true →
      ∃ l', writeBody l = some l' ∧ WriteInv N items wbuf toWrite l' ∧
        toWrite - l'.i < toWrite - l.i := by
    intro l hinv hc
    simp only [Bool.and_eq_true, bne_iff_ne, hinv.count_eq, hinv.placed.size_eq, hroom] at hc
    rcases writeBody_spec hfit hinv hc.1 hc.2 with ⟨l', hl', hinv', hi'⟩
    have hi := hinv.i_le
    exact ⟨l', hl', hinv', by omega⟩
  have hstart : WriteInv N items wbuf toWrite { ring := ring, array := wbuf, i := 0 } :=
    { i_le := Nat.zero_le _
      items_le := hcap
      placed := h.placed
      count_eq := h.count_eq
      holds := by simpa using h.holds
      array_eq := rfl }
  rcases whileLoop_spec hbody (toWrite + 1) _ hstart (by simp) with ⟨l, hl, hinv, hc⟩
  refine ⟨l, hl, hinv, ?_⟩
  -- As in `read`, `i` cannot pass either bound.
  have hle := hinv.i_le
  have hstop : ¬ (l.i ≠ toWrite ∧ l.i ≠ N - items.length) := by
    simpa [hinv.count_eq, hinv.placed.size_eq, hroom] using hc
  omega

theorem write_spec {N : ℕ} {ring : Ring α} {items : List α} (h : Represents N ring items)
    {wbuf : List α} {toWrite : ℕ} (hfit : toWrite ≤ wbuf.length) :
    ∃ ring', write ring wbuf toWrite = some (ring', min toWrite (N - items.length)) ∧
      Represents N ring' (items ++ wbuf.take (min toWrite (N - items.length))) := by
  have hcap := h.placed.count_le
  have hbound := h.placed.size_lt
  by_cases hfull : ring.bufferSize = ring.elementCount
  · have hlen : N - items.length = 0 := by
      rw [← h.placed.size_eq, hfull, h.count_eq, Nat.sub_self]
    exact ⟨ring, by simp [write, hfull, hlen], by simpa [hlen] using h⟩
  · rcases writeLoop_spec h hfit with ⟨l, hl, hinv, hi⟩
    have hadd : sizeAdd items.length l.i = items.length + l.i :=
      sizeAdd_of_lt (by omega)
    refine ⟨{ l.ring with elementCount := items.length + l.i }, ?_, ?_⟩
    · rw [← hi]
      simp [write, hfull, hl, hinv.count_eq, hadd]
    · rw [← hi]
      have hlen : (items ++ wbuf.take l.i).length = items.length + l.i := by
        simp only [List.length_append, List.length_take]
        omega
      exact
        { placed := by
            have hplaced := hinv.placed
            rw [hlen]
            exact { hplaced with }
          count_eq := by simp [hlen]
          holds := hinv.holds }

/-! ## Refinement of the bounded queue -/

/-- What a caller of a bounded queue sees of a call, in the terms of the class: `write` returns
how many elements fit, `read` copies the oldest elements to the front of `rbuf`. -/
def fifoCall {N : ℕ} (q : BoundedQueue α N) : Call α → BoundedQueue α N × Outcome α
  | .write wbuf toWrite => (q.offer wbuf toWrite, .written (q.accepts toWrite))
  | .read rbuf toRead =>
      let n := min toRead q.items.length
      (q.poll toRead, .read n (q.items.take n ++ rbuf.drop n))

theorem call_refines {N : ℕ} {ring : Ring α} {q : BoundedQueue α N}
    (h : Represents N ring q.items) {c : Call α} (hfit : c.Fits) :
    ∃ ring', ring.call c = some (ring', (fifoCall q c).2) ∧
      Represents N ring' (fifoCall q c).1.items := by
  cases c with
  | write wbuf toWrite =>
      rcases write_spec h hfit with ⟨ring', hcall, hrep⟩
      exact ⟨ring', by simp [Ring.call, hcall, fifoCall, BoundedQueue.accepts], hrep⟩
  | read rbuf toRead =>
      rcases read_spec h hfit with ⟨ring', hcall, hrep⟩
      refine ⟨ring', ?_, hrep⟩
      have htake : q.items.take toRead = q.items.take (min toRead q.items.length) := by
        rw [List.take_eq_take_iff]
        omega
      simp [Ring.call, hcall, fifoCall, htake]

/-- Any sequence of calls on a ring that represents a queue succeeds, and shows the caller what
the queue shows. -/
theorem calls_refine {N : ℕ} {ring : Ring α} {q : BoundedQueue α N}
    (h : Represents N ring q.items) {cs : List (Call α)} (hfit : ∀ c ∈ cs, c.Fits) :
    ∃ ring', ring.calls cs = some (ring', (specOut fifoCall q cs).2) ∧
      Represents N ring' (specOut fifoCall q cs).1.items := by
  have hstep : ∀ (ring : Ring α) (q : BoundedQueue α N) (c : Call α),
      Represents N ring q.items → c.Fits →
      ∃ ring', ring.call c = some (ring', (fifoCall q c).2) ∧
        Represents N ring' (fifoCall q c).1.items :=
    fun _ _ _ hrep hc => call_refines hrep hc
  exact runOut_refines hstep h hfit

/-! ## Nothing is lost, repeated or reordered -/

/-- The prefix of `wbuf` that a call was told to have been written. -/
def acceptedBy : Call α → Outcome α → List α
  | .write wbuf _, .written n => wbuf.take n
  | _, _ => []

/-- The elements that a call stored in `rbuf`. -/
def deliveredBy : Outcome α → List α
  | .written _ => []
  | .read n rbuf => rbuf.take n

/-- The concatenation of everything accepted by the calls. -/
def accepted (cs : List (Call α)) (outs : List (Outcome α)) : List α :=
  (List.zipWith acceptedBy cs outs).flatten

/-- The concatenation of everything read by the calls. -/
def delivered (outs : List (Outcome α)) : List α :=
  outs.flatMap deliveredBy

/-- The call on the abstract queue that a call on the ring stands for. -/
def Call.toQueueCall : Call α → BoundedQueue.Call α
  | .write wbuf toWrite => .offer wbuf toWrite
  | .read _ toRead => .poll toRead

theorem fifoCall_moves {N : ℕ} (q : BoundedQueue α N) (c : Call α) :
    (fifoCall q c).1 = (q.call c.toQueueCall).1 ∧
      acceptedBy c (fifoCall q c).2 = (q.call c.toQueueCall).2.acceptedItems ∧
      deliveredBy (fifoCall q c).2 = (q.call c.toQueueCall).2.deliveredItems := by
  cases c with
  | write wbuf toWrite =>
      exact ⟨rfl, rfl, rfl⟩
  | read rbuf toRead =>
      refine ⟨rfl, rfl, ?_⟩
      have hlen : (q.items.take (min toRead q.items.length)).length =
          min toRead q.items.length := by
        simp
      have htake : q.items.take (min toRead q.items.length) = q.items.take toRead := by
        rw [List.take_eq_take_iff]
        omega
      simp only [fifoCall, deliveredBy, BoundedQueue.call, Call.toQueueCall,
        BoundedQueue.Moved.deliveredItems]
      rw [List.take_append_of_le_length (by omega), List.take_of_length_le (by omega), htake]

theorem fifoCalls_move {N : ℕ} (q : BoundedQueue α N) (cs : List (Call α)) :
    (specOut fifoCall q cs).1 =
        (specOut BoundedQueue.call q (cs.map Call.toQueueCall)).1 ∧
      accepted cs (specOut fifoCall q cs).2 =
        (specOut BoundedQueue.call q (cs.map Call.toQueueCall)).2.flatMap
          BoundedQueue.Moved.acceptedItems ∧
      delivered (specOut fifoCall q cs).2 =
        (specOut BoundedQueue.call q (cs.map Call.toQueueCall)).2.flatMap
          BoundedQueue.Moved.deliveredItems := by
  induction cs generalizing q with
  | nil =>
      exact ⟨rfl, rfl, rfl⟩
  | cons c cs ih =>
      rcases fifoCall_moves q c with ⟨hq, hacc, hdel⟩
      rcases ih (fifoCall q c).1 with ⟨ihq, ihacc, ihdel⟩
      -- The queue moves alike, so the tail of the run starts from the same queue.
      rw [hq] at ihq ihacc ihdel
      refine ⟨?_, ?_, ?_⟩
      · simpa [specOut, hq] using ihq
      · simpa [specOut, accepted, hq, hacc] using ihacc
      · simpa [specOut, delivered, hq, hdel] using ihdel

/-- For every sequence of calls on a new ring of capacity `array.length`: the calls return, with
the values and the contents of a bounded FIFO queue, and what was read followed by what is in the
buffer is what was accepted. -/
theorem ringBuffer_refines_fifo (array : List α) (hsize : array.length < sizeMod)
    (cs : List (Call α)) (hfit : ∀ c ∈ cs, c.Fits) :
    let empty : BoundedQueue α array.length := BoundedQueue.empty
    ∃ ring outs, (ringBuffer array.length array).calls cs = some (ring, outs) ∧
      outs = (specOut fifoCall empty cs).2 ∧
      ring.contents = (specOut fifoCall empty cs).1.items ∧
      ring.elementCount = ring.contents.length ∧
      delivered outs ++ ring.contents = accepted cs outs := by
  intro empty
  have hstart : Represents array.length (ringBuffer array.length array) empty.items :=
    ringBuffer_represents array hsize
  rcases calls_refine hstart hfit with ⟨ring, hcalls, hrep⟩
  have hcontents := hrep.contents_eq
  refine ⟨ring, _, hcalls, rfl, hcontents, ?_, ?_⟩
  · rw [hcontents]
    exact hrep.count_eq
  · rcases fifoCalls_move empty cs with ⟨hq, hacc, hdel⟩
    rw [hcontents, hacc, hdel, hq]
    exact BoundedQueue.conservation empty (cs.map Call.toQueueCall)

/-- Three cells, a write that does not fit, a read, and a write and a read across the end of the
array. -/
theorem ringBuffer_refines_fifo_wraps :
    let empty : BoundedQueue ℕ 3 := BoundedQueue.empty
    let cs : List (Call ℕ) :=
      [.write [1, 2, 3, 4] 4, .read [0, 0] 2, .write [5, 6, 7] 3, .read [0, 0, 0, 0] 4]
    ∃ ring outs, (ringBuffer 3 [9, 9, 9]).calls cs = some (ring, outs) ∧
      outs = (specOut fifoCall empty cs).2 ∧
      ring.contents = (specOut fifoCall empty cs).1.items ∧
      ring.elementCount = ring.contents.length ∧
      delivered outs ++ ring.contents = accepted cs outs :=
  ringBuffer_refines_fifo [9, 9, 9] (by decide) _ (by simp [Call.Fits])

example :
    ((ringBuffer 3 [9, 9, 9]).calls
        [.write [1, 2, 3, 4] 4, .read [0, 0] 2, .write [5, 6, 7] 3, .read [0, 0, 0, 0] 4]).map
      Prod.snd =
      some [.written 3, .read 2 [1, 2], .written 2, .read 3 [3, 5, 6, 0]] := by
  decide

end RingBuffer
end Etude
