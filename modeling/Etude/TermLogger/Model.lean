import Mathlib.Data.Nat.Digits.Defs
import Etude.Base.Memory

/-!
# Model — the term logger `hello.c`

The state machine in `main` that cuts the bytes it reads into terms, as the `WIN32` build has it:
`char` is signed.  `none` is a store outside `term_buf`.
-/

namespace Etude
namespace TermLogger

open Base

/-- The variables of `main` that outlive a byte. -/
structure Logger where
  state : ℕ
  termLen : ℕ
  termIdx : ℕ
  termBuf : List UInt8
  deriving DecidableEq, Repr

/-- What is printed to `fp` for a byte, and at the end of a term `term_len` and the bytes from
`term_buf[2]` on, where `PRINT_TERM` starts to decode. -/
structure Out where
  text : List Char
  term : Option (ℕ × List UInt8)
  deriving DecidableEq, Repr

/-- A signed `char` as an `int`. -/
def promote (c : UInt8) : BitVec 32 :=
  c.toBitVec.signExtend 32

/-- `(0xFFFF & ((term_buf[0] << 8) | (term_buf[1])))` -/
def announced (hi lo : UInt8) : ℕ :=
  (0xFFFF#32 &&& (promote hi <<< 8 ||| promote lo)).toNat

/-- `"%02X "` -/
def printfHex (c : UInt8) : List Char :=
  [(Nat.digitChar (c.toNat / 16)).toUpper, (Nat.digitChar (c.toNat % 16)).toUpper, ' ']

/-- The body of the `for` loop, for the byte `c`. -/
def step (s : Logger) (c : UInt8) : Option (Logger × Out) :=
  match s.state with
  | 0 => do
      let termBuf ← storeAt s.termBuf 0 c
      some
        ({ s with
           termBuf := termBuf
           state := 1 },
          { text := printfHex c
            term := none })
  | 1 => do
      let termBuf ← storeAt s.termBuf 1 c
      let hi ← termBuf[0]?
      let lo ← termBuf[1]?
      some
        ({ termBuf := termBuf
           termLen := announced hi lo
           termIdx := 0
           state := 2 },
          { text := printfHex c
            term := none })
  | 2 => do
      let termBuf ← storeAt s.termBuf (s.termIdx + 2) c
      let termIdx := s.termIdx + 1
      -- The index is compared after it has been incremented.
      if termIdx = s.termLen then
        some
          ({ s with
             termBuf := termBuf
             termIdx := termIdx
             state := 0 },
            { text := printfHex c ++ ['\r', '\n']
              term := some (s.termLen, (termBuf.drop 2).take s.termLen) })
      else
        some
          ({ s with
             termBuf := termBuf
             termIdx := termIdx },
            { text := printfHex c
              term := none })
  | state =>
      some
        ({ s with
           state := 0
           termIdx := 0 },
          { text := printfHex c ++ "\r\nstate = ".toList ++ Nat.toDigits 10 state ++ ['\r', '\n']
            term := none })

/-- The variables before the first byte; `term_buf` is not initialised. -/
def start (termBuf : Vector UInt8 0xFFFF) : Logger :=
  { state := 0
    termLen := 0
    termIdx := 0
    termBuf := termBuf.toList }

end TermLogger
end Etude
