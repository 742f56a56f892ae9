import Etude.Clock.Response

/-!
# LocalTime — the instants that the texts of requests 2 and 3 denote

Request 2 writes the UTC time and request 3 the local time with an offset from UTC.  The offset is
rebuilt from `Bias` alone, while the local time is also shifted by the bias of the season.  Here the
texts are read back, and compared.
-/

namespace Etude
namespace Clock

open Base

/-! ## The offset -/

/-- The biases of `TIME_ZONE_INFORMATION`, in minutes. -/
structure TimeZoneInformation where
  bias : Int32
  standardBias : Int32
  daylightBias : Int32
  deriving DecidableEq, Repr

/-- The bias of the period that is in effect. -/
def TimeZoneInformation.seasonalBias (tz : TimeZoneInformation) (daylight : Bool) : Int32 :=
  if daylight then tz.daylightBias else tz.standardBias

structure Offset where
  sign : UInt8
  offsetHour : ℕ
  offsetMinute : ℕ
  deriving DecidableEq, Repr

/-- `abs`, which is not defined at the least number. -/
def abs? (x : Int32) : Option ℕ :=
  if x = Int32.minValue then none else some x.toInt.natAbs

/-- `sign`, `offsetHour` and `offsetMinute` of request 3. -/
def offsetOf (tzBias : Int32) : Option Offset :=
  if 0 = tzBias.toInt then
    some
      { sign := 43
        offsetHour := 0
        offsetMinute := 0 }
  else do
    let bias ← abs? tzBias
    some
      { sign := if 0 ≤ (bias : ℤ).tdiv tzBias.toInt then 45 else 43
        offsetHour := bias / 60
        offsetMinute := bias % 60 }

/-- `"%c%02d:%02d"` -/
def Offset.text (off : Offset) : List UInt8 :=
  [off.sign] ++ padDec 2 off.offsetHour ++ [58] ++ padDec 2 off.offsetMinute

/-- Minutes to the east. -/
def Offset.minutes (off : Offset) : ℤ :=
  let n : ℤ := off.offsetHour * 60 + off.offsetMinute
  if off.sign = 45 then -n else n

theorem offsetOf_eq_none_iff (tzBias : Int32) :
    offsetOf tzBias = none ↔ tzBias = Int32.minValue := by
  by_cases hmin : tzBias = Int32.minValue
  · subst hmin
    decide
  · have hsome : ∃ off, offsetOf tzBias = some off := by
      rw [offsetOf, abs?, if_neg hmin]
      split_ifs <;> exact ⟨_, rfl⟩
    rcases hsome with ⟨off, hoff⟩
    simp [hoff, hmin]

theorem sign_of_offsetOf {tzBias : Int32} {off : Offset} (h : offsetOf tzBias = some off) :
    off.sign = 43 ∨ off.sign = 45 := by
  rw [offsetOf] at h
  split_ifs at h
  · cases h
    exact Or.inl rfl
  · rcases Option.bind_eq_some_iff.mp h with ⟨bias, -, heq⟩
    cases heq
    dsimp only
    split_ifs
    · exact Or.inr rfl
    · exact Or.inl rfl

/-- The quotient of a number and its absolute value has its sign. -/
theorem zero_le_natAbs_tdiv_iff {b : ℤ} (hb : b ≠ 0) : 0 ≤ (b.natAbs : ℤ).tdiv b ↔ 0 < b := by
  rcases Int.natAbs_eq b with h | h
  · have hpos : 0 < b := by omega
    rw [← h, Int.tdiv_self hb]
    exact ⟨fun _ => hpos, fun _ => Int.one_nonneg⟩
  · have hneg : (b.natAbs : ℤ) = -b := by omega
    rw [hneg, Int.neg_tdiv, Int.tdiv_self hb]
    omega

/-- The offset is the bias with the other sign. -/
theorem minutes_eq_neg {tzBias : Int32} {off : Offset} (h : offsetOf tzBias = some off) :
    off.minutes = -tzBias.toInt := by
  by_cases hzero : 0 = tzBias.toInt
  · rw [offsetOf, if_pos hzero] at h
    cases h
    rw [← hzero]
    rfl
  · have hmin : tzBias ≠ Int32.minValue := by
      intro hmin
      rw [(offsetOf_eq_none_iff tzBias).mpr hmin] at h
      cases h
    rw [offsetOf, if_neg hzero, abs?, if_neg hmin] at h
    cases h
    have hsign := zero_le_natAbs_tdiv_iff (b := tzBias.toInt) (by omega)
    by_cases hpos : 0 < tzBias.toInt
    · simp only [Offset.minutes, hsign, hpos, if_true]
      omega
    · have h43 : (43 : UInt8) ≠ 45 := by decide
      simp only [Offset.minutes, hsign, hpos, if_false, h43]
      omega

theorem localTimeText_eq {env : Env} {off : Offset} (h : offsetOf env.bias = some off) :
    localTimeText env = formatTime env.localTime ++ off.text := by
  by_cases hzero : 0 = env.bias.toInt
  · rw [offsetOf, if_pos hzero] at h
    cases h
    simp [localTimeText, hzero, Offset.text]
  · have hmin : env.bias ≠ Int32.minValue := by
      intro hmin
      rw [(offsetOf_eq_none_iff env.bias).mpr hmin] at h
      cases h
    rw [offsetOf, if_neg hzero, abs?, if_neg hmin] at h
    cases h
    simp [localTimeText, hzero, Offset.text]

/-! ## Instants -/

/-- A date and a time of day. -/
structure DateTime where
  year : ℕ
  month : ℕ
  day : ℕ
  hour : ℕ
  minute : ℕ
  second : ℕ
  millisecond : ℕ
  deriving DecidableEq, Repr

def isLeapYear (year : ℕ) : Bool :=
  year % 4 = 0 ∧ (year % 100 ≠ 0 ∨ year % 400 = 0)

def daysBeforeMonth (year month : ℕ) : ℕ :=
  ([0, 31, 59, 90, 120, 151, 181, 212, 243, 273, 304, 334].getD (month - 1) 0) +
    if isLeapYear year ∧ 2 < month then 1 else 0

/-- Days of the Gregorian calendar, counted from its first day. -/
def dayNumber (year month day : ℕ) : ℤ :=
  let y : ℤ := year - 1
  365 * y + y / 4 - y / 100 + y / 400 + daysBeforeMonth year month + day - 1

/-- Milliseconds from the first day on. -/
def DateTime.instant (t : DateTime) : ℤ :=
  (((dayNumber t.year t.month t.day * 24 + t.hour) * 60 + t.minute) * 60 + t.second) * 1000 +
    t.millisecond

def SystemTime.dateTime (st : SystemTime) : DateTime :=
  { year := st.wYear.toNat
    month := st.wMonth.toNat
    day := st.wDay.toNat
    hour := st.wHour.toNat
    minute := st.wMinute.toNat
    second := st.wSecond.toNat
    millisecond := st.wMilliseconds.toNat }

def SystemTime.instant (st : SystemTime) : ℤ :=
  st.dateTime.instant

/-! ## Reading the texts -/

def isDigit (b : UInt8) : Bool :=
  48 ≤ b ∧ b ≤ 57

/-- A decimal number, as long as there are digits. -/
def readDec (bytes : List UInt8) : Option (ℕ × List UInt8) :=
  match bytes.takeWhile isDigit with
  | [] => none
  | ds => some (Nat.ofDigits 10 (ds.map fun b => b.toNat - 48).reverse, bytes.dropWhile isDigit)

def readByte (c : UInt8) : List UInt8 → Option (List UInt8)
  | [] => none
  | b :: bytes => if b = c then some bytes else none

/-- A number and the separator behind it. -/
def readDecThen (c : UInt8) (bytes : List UInt8) : Option (ℕ × List UInt8) := do
  let (n, bytes) ← readDec bytes
  let bytes ← readByte c bytes
  some (n, bytes)

/-- `YYYY-MM-DD hh:mm:ss.mmm` -/
def readDateTime (bytes : List UInt8) : Option (DateTime × List UInt8) := do
  let (year, bytes) ← readDecThen 45 bytes
  let (month, bytes) ← readDecThen 45 bytes
  let (day, bytes) ← readDecThen 32 bytes
  let (hour, bytes) ← readDecThen 58 bytes
  let (minute, bytes) ← readDecThen 58 bytes
  let (second, bytes) ← readDecThen 46 bytes
  let (millisecond, bytes) ← readDec bytes
  some
    ({ year := year
       month := month
       day := day
       hour := hour
       minute := minute
       second := second
       millisecond := millisecond }, bytes)

/-- `Z`, or a sign with hours and minutes; the offset in minutes. -/
def readOffset : List UInt8 → Option ℤ
  | [] => none
  | sign :: bytes =>
      if sign = 90 then
        if bytes = [] then some 0 else none
      else if sign = 43 ∨ sign = 45 then do
        let (hour, bytes) ← readDecThen 58 bytes
        let (minute, bytes) ← readDec bytes
        if bytes = [] then
          some (if sign = 45 then -(hour * 60 + minute : ℤ) else hour * 60 + minute)
        else none
      else none

/-- The instant that a text denotes: its date and time less its offset. -/
def readInstant (bytes : List UInt8) : Option ℤ := do
  let (t, bytes) ← readDateTime bytes
  let minutes ← readOffset bytes
  some (t.instant - minutes * 60000)

theorem isDigit_digit {d : ℕ} (h : d < 10) : isDigit (UInt8.ofNat (48 + d)) = true := by
  have hall : ∀ d < 10, isDigit (UInt8.ofNat (48 + d)) = true := by decide
  exact hall d h

theorem toNat_digit {d : ℕ} (h : d < 10) : (UInt8.ofNat (48 + d)).toNat - 48 = d := by
  rw [UInt8.toNat_ofNat']
  omega

/-- A printed number is read back if no digit is behind it. -/
theorem readDec_padDec {w : ℕ} (hw : 0 < w) (n : ℕ) {rest : List UInt8}
    (hrest : ∀ b, rest.head? = some b → isDigit b = false) :
    readDec (padDec w n ++ rest) = some (n, rest) := by
  have hdigits : ∀ b ∈ padDec w n, isDigit b = true := by
    intro b hb
    rcases List.mem_map.mp hb with ⟨d, hd, rfl⟩
    exact isDigit_digit (padDigits_lt hd)
  have hstop : rest.takeWhile isDigit = [] ∧ rest.dropWhile isDigit = rest := by
    cases rest with
    | nil =>
        exact ⟨rfl, rfl⟩
    | cons b bytes =>
        have hb := hrest b rfl
        simp [hb]
  have htake : (padDec w n ++ rest).takeWhile isDigit = padDec w n := by
    rw [List.takeWhile_append_of_pos hdigits, hstop.1, List.append_nil]
  have hdrop : (padDec w n ++ rest).dropWhile isDigit = rest := by
    rw [List.dropWhile_append_of_pos hdigits, hstop.2]
  -- The digits stand for the number.
  have hback : (padDec w n).map (fun b => b.toNat - 48) = padDigits w n := by
    rw [padDec, List.map_map]
    refine (List.map_congr_left fun d hd => ?_).trans (List.map_id _)
    exact toNat_digit (padDigits_lt hd)
  have hne : padDec w n ≠ [] := by
    intro hnil
    have hlen := congrArg List.length hnil
    rw [padDec, List.length_map, length_padDigits, List.length_nil] at hlen
    omega
  rw [readDec, htake, hdrop]
  split
  · rename_i hnil
    exact absurd hnil hne
  · rw [hback, ofDigits_padDigits]

theorem readDecThen_padDec {w : ℕ} {c : UInt8} (hw : 0 < w) (hc : isDigit c = false) (n : ℕ)
    (rest : List UInt8) : readDecThen c (padDec w n ++ c :: rest) = some (n, rest) := by
  have hhead : ∀ b, (c :: rest).head? = some b → isDigit b = false := by
    intro b hb
    cases hb
    exact hc
  simp [readDecThen, readDec_padDec hw n hhead, readByte]

theorem readDateTime_formatTime (st : SystemTime) {rest : List UInt8}
    (hrest : ∀ b, rest.head? = some b → isDigit b = false) :
    readDateTime (formatTime st ++ rest) = some (st.dateTime, rest) := by
  have hlast := readDec_padDec (w := 3) (by decide) st.wMilliseconds.toNat hrest
  have htext : formatTime st ++ rest =
      padDec 4 st.wYear.toNat ++ 45 :: (padDec 2 st.wMonth.toNat ++ 45 ::
        (padDec 2 st.wDay.toNat ++ 32 :: (padDec 2 st.wHour.toNat ++ 58 ::
          (padDec 2 st.wMinute.toNat ++ 58 :: (padDec 2 st.wSecond.toNat ++ 46 ::
            (padDec 3 st.wMilliseconds.toNat ++ rest)))))) := by
    simp [formatTime]
  rw [htext]
  simp (disch := decide) only [readDateTime, readDecThen_padDec, hlast, Option.bind_eq_bind,
    Option.bind_some]
  rfl

theorem readInstant_systemTimeText (env : Env) :
    readInstant (systemTimeText env) = some env.systemTime.instant := by
  have hzulu : ∀ b, [90].head? = some b → isDigit b = false := by
    simp [isDigit]
  have hread := readDateTime_formatTime env.systemTime hzulu
  rw [readInstant, systemTimeText, hread]
  simp [readOffset, SystemTime.instant]

theorem readOffset_text {off : Offset} (hsign : off.sign = 43 ∨ off.sign = 45) :
    readOffset off.text = some off.minutes := by
  have hend : ∀ b, ([] : List UInt8).head? = some b → isDigit b = false := by
    simp
  have hminute := readDec_padDec (w := 2) (by decide) off.offsetMinute hend
  rw [List.append_nil] at hminute
  have htext : off.text =
      off.sign :: (padDec 2 off.offsetHour ++ 58 :: padDec 2 off.offsetMinute) := by
    simp [Offset.text]
  have hutc : off.sign ≠ 90 := by
    rcases hsign with h | h <;> rw [h] <;> decide
  rw [htext, readOffset, if_neg hutc, if_pos hsign]
  simp (disch := decide) only [readDecThen_padDec, hminute, Option.bind_eq_bind,
    Option.bind_some, if_true, Offset.minutes]

theorem readInstant_localTimeText {env : Env} {off : Offset} (h : offsetOf env.bias = some off) :
    readInstant (localTimeText env) = some (env.localTime.instant - off.minutes * 60000) := by
  have hsign := sign_of_offsetOf h
  have hhead : ∀ b, off.text.head? = some b → isDigit b = false := by
    intro b hb
    have hb' : off.sign = b := by simpa [Offset.text] using hb
    rw [← hb']
    rcases hsign with h | h <;> rw [h] <;> rfl
  rw [readInstant, localTimeText_eq h, readDateTime_formatTime _ hhead]
  simp [readOffset_text hsign, SystemTime.instant]

/-! ## Both texts -/

/-- What the calls return at one instant: `GetTimeZoneInformation` the bias of the zone, and
`GetLocalTime` the UTC time less this bias and that of the period in effect. -/
structure ReadsClock (tz : TimeZoneInformation) (daylight : Bool) (env : Env) : Prop where
  bias_eq : env.bias = tz.bias
  localTime_eq : env.localTime.instant =
    env.systemTime.instant - (tz.bias.toInt + (tz.seasonalBias daylight).toInt) * 60000

/-- The local time less the offset that request 3 puts behind it is the UTC time, and so the texts
of requests 2 and 3 denote the same instant. -/
def SameInstant (env : Env) : Prop :=
  ∃ off, offsetOf env.bias = some off ∧
    env.localTime.instant - off.minutes * 60000 = env.systemTime.instant ∧
    ∀ wParam, readInstant (payload 3 wParam env) = some env.systemTime.instant ∧
      readInstant (payload 2 wParam env) = some env.systemTime.instant

/-- The offset is right exactly if the period in effect has no bias of its own, and `abs` is
defined at the bias of the zone. -/
theorem sameInstant_iff_unbiased {tz : TimeZoneInformation} {daylight : Bool} {env : Env}
    (h : ReadsClock tz daylight env) :
    SameInstant env ↔ tz.seasonalBias daylight = 0 ∧ tz.bias ≠ Int32.minValue := by
  have hlocal := h.localTime_eq
  have hseason : tz.seasonalBias daylight = 0 ↔ (tz.seasonalBias daylight).toInt = 0 :=
    Int32.toInt_inj.symm
  rw [hseason, ← h.bias_eq]
  constructor
  · rintro ⟨off, hoff, hutc, -⟩
    have hminutes := minutes_eq_neg hoff
    rw [h.bias_eq] at hminutes
    refine ⟨by omega, ?_⟩
    intro hmin
    rw [(offsetOf_eq_none_iff env.bias).mpr hmin] at hoff
    cases hoff
  · rintro ⟨hzero, hmin⟩
    have hsome : offsetOf env.bias ≠ none := fun hnone =>
      hmin ((offsetOf_eq_none_iff env.bias).mp hnone)
    rcases Option.ne_none_iff_exists'.mp hsome with ⟨off, hoff⟩
    have hminutes := minutes_eq_neg hoff
    rw [h.bias_eq] at hminutes
    have hutc : env.localTime.instant - off.minutes * 60000 = env.systemTime.instant := by
      omega
    refine ⟨off, hoff, hutc, fun wParam => ⟨?_, readInstant_systemTimeText env⟩⟩
    rw [← hutc]
    exact readInstant_localTimeText hoff

/-! ### Two zones -/

/-- The first of July at seven in the evening UTC, with a local time and a bias. -/
def inJuly (localTime : SystemTime) (bias : Int32) : Env :=
  { wallClockNano := 0
    steadyClockNano := 0
    systemTime := ⟨2017, 7, 1, 19, 0, 0, 0⟩
    localTime := localTime
    bias := bias
    writeFile := true }

/-- India, without daylight saving. -/
theorem sameInstant_india : SameInstant (inJuly ⟨2017, 7, 2, 0, 30, 0, 0⟩ (-330)) := by
  have hreads : ReadsClock ⟨-330, 0, -60⟩ false (inJuly ⟨2017, 7, 2, 0, 30, 0, 0⟩ (-330)) :=
    { bias_eq := rfl
      localTime_eq := by decide }
  exact (sameInstant_iff_unbiased hreads).mpr ⟨rfl, by decide⟩

/-- The Pacific coast, where it is noon: the text says eight hours, and it is seven. -/
theorem not_sameInstant_pacific :
    ReadsClock ⟨480, 0, -60⟩ true (inJuly ⟨2017, 7, 1, 12, 0, 0, 0⟩ 480) ∧
      ¬ SameInstant (inJuly ⟨2017, 7, 1, 12, 0, 0, 0⟩ 480) := by
  refine ⟨⟨rfl, by decide⟩, ?_⟩
  rintro ⟨off, hoff, hutc, -⟩
  have hminutes := minutes_eq_neg hoff
  have hlocal : (inJuly ⟨2017, 7, 1, 12, 0, 0, 0⟩ 480).localTime.instant + 25200000 =
      (inJuly ⟨2017, 7, 1, 12, 0, 0, 0⟩ 480).systemTime.instant := by decide
  have hbias : (inJuly ⟨2017, 7, 1, 12, 0, 0, 0⟩ 480).bias.toInt = 480 := rfl
  omega

end Clock
end Etude
