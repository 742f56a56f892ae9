import Mathlib.Algebra.Group.Nat.Defs
import Etude.Base.Memory
import Etude.Base.Run
import Etude.Base.While

/-!
# RingBuffer — the template class of `ring-buffer.hpp`

`size_t` is 64 bits wide: increments and subtractions wrap.  An access outside an array is
`none`, and so is a loop that does not stop within the rounds it is given.
-/

namespace Etude
namespace RingBuffer

open Base

variable {α : Type}

/-! ## `size_t` arithmetic -/

def sizeMod : ℕ := 2 ^ 64

def sizeInc (n : ℕ) : ℕ := (n + 1) % sizeMod

def sizeAdd (m n : ℕ) : ℕ := (m + n) % sizeMod

def sizeSub (m n : ℕ) : ℕ := (m + sizeMod - n) % sizeMod

/-! ## The class -/

/-- The members of `ring_buffer<T>`; `buffer` is the array behind `_buffer`. -/
structure Ring (α : Type) where
  bufferSize : ℕ
  buffer : List α
  elementCount : ℕ
  rdPos : ℕ
  wrPos : ℕ
  deriving DecidableEq, Repr

/-- The constructor.  `new value_type[size]` leaves the elements of a fundamental type
indeterminate, so the array is a parameter. -/
def ringBuffer (size : ℕ) (array : List α) : Ring α :=
  { bufferSize := size
    buffer := array
    elementCount := 0
    rdPos := 0
    wrPos := 0 }

/-- The object, the caller's array and the local `i` in the loops of `read` and `write`. -/
structure Loop (α : Type) where
  ring : Ring α
  array : List α
  i : ℕ

/-- `*(rbuf + i) = *(_buffer + _rd_pos); ++_rd_pos; if(_buffer_size == _rd_pos) _rd_pos = 0;` -/
def readBody (l : Loop α) : Option (Loop α) := do
  let x ← l.ring.buffer[l.ring.rdPos]?
  let rbuf ← storeAt l.array l.i x
  let rdPos := sizeInc l.ring.rdPos
  let rdPos := if l.ring.bufferSize = rdPos then 0 else rdPos
  some { ring := { l.ring with rdPos := rdPos }, array := rbuf, i := sizeInc l.i }

/-- `*(_buffer + _wr_pos) = *(wbuf + i); ++_wr_pos; if(_buffer_size == _wr_pos) _wr_pos = 0;` -/
def writeBody (l : Loop α) : Option (Loop α) := do
  let x ← l.array[l.i]?
  let buffer ← storeAt l.ring.buffer l.ring.wrPos x
  let wrPos := sizeInc l.ring.wrPos
  let wrPos := if l.ring.bufferSize = wrPos then 0 else wrPos
  some { ring := { l.ring with buffer := buffer, wrPos := wrPos }
         array := l.array
         i := sizeInc l.i }

/-- `read(rbuf, to_read)`: the object and `rbuf` after the call, and the value returned. -/
def read (ring : Ring α) (rbuf : List α) (toRead : ℕ) : Option (Ring α × List α × ℕ) :=
  if 0 = ring.elementCount then
    some (ring, rbuf, 0)
  else do
    let l ← whileLoop (fun l => l.i != toRead && l.i != l.ring.elementCount) readBody
      (toRead + 1) { ring := ring, array := rbuf, i := 0 }
    some ({ l.ring with elementCount := sizeSub l.ring.elementCount l.i }, l.array, l.i)

/-- `write(wbuf, to_write)`: the object after the call, and the value returned. -/
def write (ring : Ring α) (wbuf : List α) (toWrite : ℕ) : Option (Ring α × ℕ) :=
  if ring.bufferSize = ring.elementCount then
    some (ring, 0)
  else do
    let l ← whileLoop
      (fun l => l.i != toWrite && l.i != sizeSub l.ring.bufferSize l.ring.elementCount) writeBody
      (toWrite + 1) { ring := ring, array := wbuf, i := 0 }
    some ({ l.ring with elementCount := sizeAdd l.ring.elementCount l.i }, l.i)

/-! ## Sequences of calls -/

/-- A call with its arguments; the arrays are the caller's. -/
inductive Call (α : Type)
  | write (wbuf : List α) (toWrite : ℕ)
  | read (rbuf : List α) (toRead : ℕ)

/-- The caller's array is at least as long as the length that is passed with it. -/
def Call.Fits : Call α → Prop
  | .write wbuf toWrite => toWrite ≤ wbuf.length
  | .read rbuf toRead => toRead ≤ rbuf.length

/-- What the caller sees of a call: the value returned, and `rbuf` after a `read`. -/
inductive Outcome (α : Type)
  | written (n : ℕ)
  | read (n : ℕ) (rbuf : List α)
  deriving DecidableEq, Repr

def Ring.call (ring : Ring α) : Call α → Option (Ring α × Outcome α)
  | .write wbuf toWrite => do
      let (ring', n) ← RingBuffer.write ring wbuf toWrite
      some (ring', .written n)
  | .read rbuf toRead => do
      let (ring', rbuf', n) ← RingBuffer.read ring rbuf toRead
      some (ring', .read n rbuf')

def Ring.calls : Ring α → List (Call α) → Option (Ring α × List (Outcome α)) :=
  runOut Ring.call

end RingBuffer
end Etude
