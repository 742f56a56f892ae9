import Etude.Base.Digits
import Etude.Base.Memory

/-!
# Types — the foreign structure `my_bar_t`

The model of `Mylib/Base/Types.hsc`, of the packed layout that `mylib.h` gives the structure, and
of `setBar` and `updateBar` of `Mylib/Base.hs`.  Memory is the list of bytes from the pointer on.
-/

namespace Etude
namespace Mylib

open Base

/-! ## Strings -/

/-- A Haskell `Char` is a code point, surrogates included. -/
abbrev CodePoint := Fin 0x110000

/-- A single-byte locale: how it writes a character, if it can, and how it reads a byte. -/
structure Locale where
  enc : CodePoint → Option UInt8
  dec : UInt8 → CodePoint
  dec_enc : ∀ c b, enc c = some b → dec b = c
  dec_nul : dec 0 = 0

namespace Locale

/-- The bytes that `withCStringLen` supplies; it throws on a character that the locale cannot
write. -/
def encode (locale : Locale) (s : List CodePoint) : Option (List UInt8) :=
  s.mapM locale.enc

def peekCString (locale : Locale) (mem : List UInt8) : Option (List CodePoint) :=
  (readCString mem).map fun bytes => bytes.map locale.dec

end Locale

/-! ## The structure -/

/-- `MAX_STR_LEN` -/
def maxLen : ℕ := 128

/-- The offsets of `#pragma pack(push, 1)`. -/
def offsetX : ℕ := 0
def offsetS : ℕ := 4
def offsetY : ℕ := 132

def sizeOfMyBar : ℕ := 140

/-- `barX` is a `CInt`, `barY` the bit pattern of a `CDouble`. -/
structure MyBar where
  barX : Int32
  barS : List CodePoint
  barY : UInt64
  deriving DecidableEq, Repr

def intBytes (x : Int32) : List UInt8 :=
  toLeBytes 4 x.toUInt32.toNat

def doubleBytes (y : UInt64) : List UInt8 :=
  toLeBytes 8 y.toNat

def peekInt (mem : List UInt8) : Int32 :=
  (UInt32.ofNat (leBytes (mem.take 4))).toInt32

def peekDouble (mem : List UInt8) : UInt64 :=
  UInt64.ofNat (leBytes (mem.take 8))

def peekMyBar (locale : Locale) (mem : List UInt8) : Option MyBar := do
  let i := peekInt (mem.drop offsetX)
  let s ← locale.peekCString (mem.drop offsetS)
  let d := peekDouble (mem.drop offsetY)
  return { barX := i, barS := s, barY := d }

/-- `copyArray` copies the encoded bytes and nothing behind them. -/
def pokeMyBar (locale : Locale) (mem : List UInt8) (bar : MyBar) : Option (List UInt8) := do
  let mem ← writeAt mem offsetX (intBytes bar.barX)
  -- At most `maxLen` characters are encoded; no terminator is added.
  let bytes ← locale.encode (bar.barS.take maxLen)
  let mem ← writeAt mem offsetS bytes
  writeAt mem offsetY (doubleBytes bar.barY)

/-! ## The calls that hand a structure to C -/

/-- `my_set_bar` prints the structure. -/
def mySetBar (mem : List UInt8) : List UInt8 × ℤ :=
  (mem, 2)

/-- `my_update_bar` prints the structure and returns its pointer. -/
def myUpdateBar (mem : List UInt8) : List UInt8 :=
  mem

/-- `setBar bar f`, as the value that it passes to `f` and its result.  `mem` is what `with`
finds in the memory it allocates. -/
def setBar (locale : Locale) (mem : List UInt8) (bar : MyBar) : Option (MyBar × ℤ) := do
  let mem ← pokeMyBar locale mem bar
  let (mem, result) := mySetBar mem
  let bar' ← peekMyBar locale mem
  return (bar', result)

def updateBar (locale : Locale) (mem : List UInt8) (bar : MyBar) : Option MyBar := do
  let mem ← pokeMyBar locale mem bar
  peekMyBar locale (myUpdateBar mem)

end Mylib
end Etude
