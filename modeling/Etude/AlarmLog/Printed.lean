import Etude.AlarmLog.Layout
import Mathlib.Data.Nat.Digits.Lemmas

/-!
# Printed — what the programs print of a record

`alarm-log.c` reads a record through a union with a packed struct of bit fields, and the escript
decodes the bytes in two ways.  They print the same date and the same code, although `printf` lets a
number that is too wide grow and `io:format` puts asterisks for it.
-/

namespace Etude
namespace Alarm

open Base

abbrev Str := List Char

/-! ## Formats -/

def upperDigit (d : ℕ) : Char :=
  (Nat.digitChar d).toUpper

def digitsOf (base n : ℕ) : Str :=
  if n = 0 then ['0'] else (Nat.digits base n).reverse.map upperDigit

/-- `%0wd` and `%0wX`, of a number that is not negative. -/
def cFormat (w base n : ℕ) : Str :=
  List.replicate (w - (digitsOf base n).length) '0' ++ digitsOf base n

/-- `~w.base.0B`, of a number that is not negative. -/
def erlangFormat (w base n : ℕ) : Str :=
  if (digitsOf base n).length ≤ w then
    List.replicate (w - (digitsOf base n).length) '0' ++ digitsOf base n
  else
    List.replicate w '*'

/-- `%04d-%02d-%02d %02d:%02d:%02d`, in either language. -/
def dateTime (format : ℕ → ℕ → ℕ → Str) (log : AlarmLog) : Str :=
  format 4 10 (log.alarmYear + 2000) ++ "-".toList ++ format 2 10 log.alarmMonth ++ "-".toList ++
    format 2 10 log.alarmDay ++ " ".toList ++ format 2 10 log.alarmHour ++ ":".toList ++
    format 2 10 log.alarmMin ++ ":".toList ++ format 2 10 log.alarmSec

/-! ## alarm-log.escript -/

def formatBytes (bin : List UInt8) : Str :=
  bin.flatMap fun b => erlangFormat 2 16 b.toNat ++ " ".toList

/-- What `decode_plan_A` prints. -/
def printPlanA (bin : List UInt8) : Option Str :=
  (decodePlanA bin).map fun log =>
    "Plan A : just reverse fields order.\r\n".toList ++ "         [ ".toList ++ formatBytes bin ++
      "] => (\"".toList ++ dateTime erlangFormat log ++ "\", 0x".toList ++
      erlangFormat 4 16 log.alarmCode ++ ")\r\n".toList

/-- What `decode_plan_B` prints. -/
def printPlanB (bin : List UInt8) : Option Str :=
  (decodePlanB bin).map fun log =>
    "Plan B : keep fields order, and keep bytes order,\r\n".toList ++
      "         numbers defined by a list of bit-sizes(META-DATA).\r\n".toList ++
      "         [ ".toList ++ formatBytes bin ++ "] + [7,5,4,7,5,6,6] => (\"".toList ++
      dateTime erlangFormat log ++ "\", 0x".toList ++ erlangFormat 4 16 log.alarmCode ++
      ")\r\n".toList

/-! ## alarm-log.c -/

/-- The bit field at an offset of a packed struct, on a machine that puts the first field and the
first byte lowest. -/
def bitField (bytes : List UInt8) (offset width : ℕ) : ℕ :=
  leBytes bytes / 2 ^ offset % 2 ^ width

/-- `repr.Log`, of the union with these `repr.Bytes`. -/
def reprLog (bytes : List UInt8) : AlarmLog :=
  { alarmCode := bitField bytes 0 7
    alarmDay := bitField bytes 7 5
    alarmMonth := bitField bytes 12 4
    alarmYear := bitField bytes 16 7
    alarmHour := bitField bytes 23 5
    alarmMin := bitField bytes 28 6
    alarmSec := bitField bytes 34 6 }

/-- The lines in front of the last one. -/
def printBytes (bytes : List UInt8) : Str :=
  "sizeof(repr) = 0x00000005\r\n".toList ++
    (bytes.zipIdx.flatMap fun p => "repr.Bytes[".toList ++ digitsOf 10 p.2 ++ "] = 0x".toList ++
      cFormat 2 16 p.1.toNat ++ "\r\n".toList)

/-- What `main` prints for the bytes of the union. -/
def printRepr (bytes : List UInt8) : Str :=
  let log := reprLog bytes
  printBytes bytes ++ dateTime cFormat log ++ " => 0x".toList ++ cFormat 4 16 log.alarmCode ++
    "\r\n".toList

/-! ## The formats agree on what fits -/

theorem length_digitsOf_le {base w n : ℕ} (hbase : 1 < base) (hw : 0 < w) (hn : n < base ^ w) :
    (digitsOf base n).length ≤ w := by
  unfold digitsOf
  split_ifs
  · exact hw
  · rw [List.length_map, List.length_reverse]
    exact (Nat.digits_length_le_iff hbase n).mpr hn

theorem erlangFormat_eq {base w n : ℕ} (hbase : 1 < base) (hw : 0 < w) (hn : n < base ^ w) :
    erlangFormat w base n = cFormat w base n :=
  if_pos (length_digitsOf_le hbase hw hn)

theorem length_cFormat {base w n : ℕ} (hbase : 1 < base) (hw : 0 < w) (hn : n < base ^ w) :
    (cFormat w base n).length = w := by
  have hlen := length_digitsOf_le hbase hw hn
  rw [cFormat, List.length_append, List.length_replicate]
  omega

/-! ## Every field fits -/

theorem bitField_lt (bytes : List UInt8) (offset width : ℕ) :
    bitField bytes offset width < 2 ^ width :=
  Nat.mod_lt _ (by positivity)

theorem year_lt (bytes : List UInt8) : (reprLog bytes).alarmYear + 2000 < 10 ^ 4 := by
  -- The last year of seven bits is 2127.
  have hlt : (reprLog bytes).alarmYear < 2 ^ 7 := bitField_lt bytes 16 7
  omega

/-- A number of six bits has no more than two decimal digits. -/
theorem bitField_lt_hundred {bytes : List UInt8} {offset width : ℕ} (h : width ≤ 6) :
    bitField bytes offset width < 10 ^ 2 := by
  have hlt := bitField_lt bytes offset width
  have hpow : (2 : ℕ) ^ width ≤ 2 ^ 6 := Nat.pow_le_pow_right (by decide) h
  omega

theorem fields_lt (bytes : List UInt8) :
    (reprLog bytes).alarmMonth < 10 ^ 2 ∧ (reprLog bytes).alarmDay < 10 ^ 2 ∧
      (reprLog bytes).alarmHour < 10 ^ 2 ∧ (reprLog bytes).alarmMin < 10 ^ 2 ∧
      (reprLog bytes).alarmSec < 10 ^ 2 :=
  ⟨bitField_lt_hundred (by decide), bitField_lt_hundred (by decide),
    bitField_lt_hundred (by decide), bitField_lt_hundred (by decide),
    bitField_lt_hundred (by decide)⟩

theorem dateTime_erlangFormat (bytes : List UInt8) :
    dateTime erlangFormat (reprLog bytes) = dateTime cFormat (reprLog bytes) := by
  rcases fields_lt bytes with ⟨hmonth, hday, hhour, hmin, hsec⟩
  have htwo : ∀ {n : ℕ}, n < 10 ^ 2 → erlangFormat 2 10 n = cFormat 2 10 n :=
    fun h => erlangFormat_eq (by decide) (by decide) h
  rw [dateTime, dateTime, erlangFormat_eq (by decide) (by decide) (year_lt bytes), htwo hmonth,
    htwo hday, htwo hhour, htwo hmin, htwo hsec]

theorem length_dateTime (bytes : List UInt8) :
    (dateTime cFormat (reprLog bytes)).length = 19 := by
  rcases fields_lt bytes with ⟨hmonth, hday, hhour, hmin, hsec⟩
  have htwo : ∀ {n : ℕ}, n < 10 ^ 2 → (cFormat 2 10 n).length = 2 :=
    fun h => length_cFormat (by decide) (by decide) h
  have hfour := length_cFormat (by decide) (by decide) (year_lt bytes)
  simp [dateTime, hfour, htwo hmonth, htwo hday, htwo hhour, htwo hmin, htwo hsec]

theorem alarmCode_lt (bytes : List UInt8) : (reprLog bytes).alarmCode < 16 ^ 4 := by
  have hlt : (reprLog bytes).alarmCode < 2 ^ 7 := bitField_lt bytes 0 7
  omega

/-! ## The three ways agree -/

theorem unpack_numberDefinitions (bytes : List UInt8) :
    unpack numberDefinitions (leBytes bytes) =
      [bitField bytes 0 7, bitField bytes 7 5, bitField bytes 12 4, bitField bytes 16 7,
        bitField bytes 23 5, bitField bytes 28 6, bitField bytes 34 6] := by
  simp [numberDefinitions, unpack, bitField, Nat.div_div_eq_div_mul]

theorem decodePlan_eq {bin : List UInt8} (h : bin.length = 5) :
    decodePlanA bin = some (reprLog bin) ∧ decodePlanB bin = some (reprLog bin) := by
  -- The widths of the fields fill the five bytes.
  have hsum : numberDefinitions.sum = 8 * bin.length := by
    rw [h]
    rfl
  have hA := planA_eq hsum
  have hB := decodeNumbers_eq (by decide) (Nat.le_of_eq hsum)
  rw [unpack_numberDefinitions] at hA hB
  constructor
  · -- Plan A matches the fields in the reverse order.
    have hwidths : numberDefinitions.reverse = [6, 6, 5, 7, 4, 5, 7] := rfl
    rw [hwidths] at hA
    simp [decodePlanA, hA, reprLog]
  · simp [decodePlanB, hB, reprLog]

/-- For every record of five bytes there are one date, of 19 characters, and one code, of four
digits, that all three ways print. -/
theorem printed_alike (bin : List UInt8) (h : bin.length = 5) :
    ∃ time code : Str, time.length = 19 ∧ code.length = 4 ∧
      printPlanA bin = some ("Plan A : just reverse fields order.\r\n".toList ++
        "         [ ".toList ++ formatBytes bin ++ "] => (\"".toList ++ time ++
        "\", 0x".toList ++ code ++ ")\r\n".toList) ∧
      printPlanB bin = some ("Plan B : keep fields order, and keep bytes order,\r\n".toList ++
        "         numbers defined by a list of bit-sizes(META-DATA).\r\n".toList ++
        "         [ ".toList ++ formatBytes bin ++ "] + [7,5,4,7,5,6,6] => (\"".toList ++ time ++
        "\", 0x".toList ++ code ++ ")\r\n".toList) ∧
      printRepr bin = printBytes bin ++ time ++ " => 0x".toList ++ code ++ "\r\n".toList := by
  rcases decodePlan_eq h with ⟨hA, hB⟩
  have hcode : erlangFormat 4 16 (reprLog bin).alarmCode = cFormat 4 16 (reprLog bin).alarmCode :=
    erlangFormat_eq (by decide) (by decide) (alarmCode_lt bin)
  refine ⟨dateTime cFormat (reprLog bin), cFormat 4 16 (reprLog bin).alarmCode,
    length_dateTime bin, length_cFormat (by decide) (by decide) (alarmCode_lt bin), ?_, ?_, rfl⟩
  · rw [printPlanA, hA, Option.map_some, dateTime_erlangFormat, hcode]
  · rw [printPlanB, hB, Option.map_some, dateTime_erlangFormat, hcode]

theorem printed_alike_record :
    ∃ time code : Str, time.length = 19 ∧ code.length = 4 ∧
      printRepr [0x8B, 0x56, 0x1A, 0x08, 0x72] =
        printBytes [0x8B, 0x56, 0x1A, 0x08, 0x72] ++ time ++ " => 0x".toList ++ code ++
          "\r\n".toList := by
  rcases printed_alike [0x8B, 0x56, 0x1A, 0x08, 0x72] rfl with ⟨time, code, htime, hcode, -, -, h⟩
  exact ⟨time, code, htime, hcode, h⟩

end Alarm
end Etude
