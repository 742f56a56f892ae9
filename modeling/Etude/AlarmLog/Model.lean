import Etude.Base.Digits

/-!
# AlarmLog — the two decoders of `alarm-log.escript`

A binary is the list of its bytes.  `none` is an Erlang error: a failed match (`badmatch`), or
`lists:split` with a number larger than the length of the list (`badarg`).
-/

namespace Etude
namespace Alarm

open Base

/-! ## Binaries as bit strings -/

/-- `[ X || <<X:1>> <= <<B:8>> ]`: the bits of a byte, most significant first. -/
def bitsOfByte (b : UInt8) : List Bool :=
  [b.toNat.testBit 7, b.toNat.testBit 6, b.toNat.testBit 5, b.toNat.testBit 4,
    b.toNat.testBit 3, b.toNat.testBit 2, b.toNat.testBit 1, b.toNat.testBit 0]

/-- The bits of a binary in the order in which a bit pattern matches them. -/
def bitsOf (bin : List UInt8) : List Bool :=
  bin.flatMap bitsOfByte

/-- `<<F1:W1, F2:W2, ...>> = Bits`: every field takes its width from the front and is read as a
big-endian number; nothing may be left over. -/
def matchFields : List ℕ → List Bool → Option (List ℕ)
  | [], [] => some []
  | [], _ :: _ => none
  | w :: ws, bits =>
      if w ≤ bits.length then
        (matchFields ws (bits.drop w)).map (beBits (bits.take w) :: ·)
      else
        none

def reverseBinary : List UInt8 → List UInt8 → List UInt8
  | [], bin => bin
  | b :: rest, bin => reverseBinary rest (b :: bin)

def reverseBitsAux : List UInt8 → List (List Bool) → List Bool
  | [], xxs => xxs.reverse.flatten
  | b :: rest, xxs => reverseBitsAux rest ((bitsOfByte b).reverse :: xxs)

def reverseBits (bin : List UInt8) : List Bool :=
  reverseBitsAux bin []

/-! ## Numbers from a list of bit sizes -/

def decodeNumber (nBit : ℕ) (xs : List Bool) : Option (ℕ × List Bool) :=
  if nBit ≤ xs.length then
    some (beBits (xs.take nBit).reverse, xs.drop nBit)
  else
    none

def decodeNumbersAux : List ℕ → List Bool → List ℕ → Option (List ℕ)
  | [], _, numberList => some numberList
  -- Running out of bits ends the decoding early, without an error.
  | _ :: _, [], numberList => some numberList
  | nBit :: rest, bitList, numberList => do
      let (number, restBitList) ← decodeNumber nBit bitList
      decodeNumbersAux rest restBitList (number :: numberList)

def decodeNumbers (numberDefinitions : List ℕ) (bin : List UInt8) : Option (List ℕ) :=
  (decodeNumbersAux numberDefinitions (reverseBits bin) []).map List.reverse

/-! ## The alarm log -/

/-- The fields of `struct AlarmLog`. -/
structure AlarmLog where
  alarmCode : ℕ
  alarmDay : ℕ
  alarmMonth : ℕ
  alarmYear : ℕ
  alarmHour : ℕ
  alarmMin : ℕ
  alarmSec : ℕ
  deriving DecidableEq, Repr

/-- `NumberDefinitions`: the widths of the fields in the order of `struct AlarmLog`. -/
def numberDefinitions : List ℕ := [7, 5, 4, 7, 5, 6, 6]

/-- The fields that `decode_plan_A` prints, before it adds 2000 to the year. -/
def decodePlanA (bin : List UInt8) : Option AlarmLog :=
  match matchFields [6, 6, 5, 7, 4, 5, 7] (bitsOf (reverseBinary bin [])) with
  | some [alarmSec, alarmMin, alarmHour, alarmYear, alarmMonth, alarmDay, alarmCode] =>
      some
        { alarmCode := alarmCode
          alarmDay := alarmDay
          alarmMonth := alarmMonth
          alarmYear := alarmYear
          alarmHour := alarmHour
          alarmMin := alarmMin
          alarmSec := alarmSec }
  | _ => none

/-- The fields that `decode_plan_B` prints, before it adds 2000 to the year. -/
def decodePlanB (bin : List UInt8) : Option AlarmLog :=
  match decodeNumbers numberDefinitions bin with
  | some [alarmCode, alarmDay, alarmMonth, alarmYear, alarmHour, alarmMin, alarmSec] =>
      some
        { alarmCode := alarmCode
          alarmDay := alarmDay
          alarmMonth := alarmMonth
          alarmYear := alarmYear
          alarmHour := alarmHour
          alarmMin := alarmMin
          alarmSec := alarmSec }
  | _ => none

end Alarm
end Etude
