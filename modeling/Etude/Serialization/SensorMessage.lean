import Etude.Base.Digits

/-!
# SensorMessage — what the bytes of a sensor value keep

The model of `SensorMessage.hs`.  `serializeSensorValue` writes the first constructor in full,
but an absent reading as `0`; it leaves out the state of the second constructor and everything
but the tag of the other two.  The file ends with the messages that can be told from all others
by their bytes.
-/

namespace Etude
namespace Serialization

open Base

/-! ## Time -/

/-- Picoseconds in a second, the unit of `DiffTime`. -/
def second : ℕ := 1000000000000

/-- A day, as a modified Julian day, and a time of day, which has a second more for leap
seconds. -/
structure UTCTime where
  day : ℤ
  dayTime : ℕ
  dayTime_lt : dayTime < 86401 * second
  deriving DecidableEq, Repr

/-- `utcTimeToPOSIXSeconds`, in picoseconds. -/
def utcTimeToPOSIXSeconds (ut : UTCTime) : ℤ :=
  (ut.day - 40587) * (86400 * second : ℕ) + min (86400 * second) ut.dayTime

/-- `round` on picoseconds: to the nearest second, and to an even one in the middle. -/
def roundSeconds (pt : ℤ) : ℤ :=
  let n := pt / second
  let r := pt % second
  if 2 * r < second then n
  else if 2 * r = second ∧ n % 2 = 0 then n
  else n + 1

/-- The result is an `Int`, of 64 bits. -/
def posixSeconds (ut : UTCTime) : ℤ :=
  (roundSeconds (utcTimeToPOSIXSeconds ut)).bmod (2 ^ 64)

/-! ## Messages -/

/-- A `Float` is its bit pattern. -/
inductive SensorValue where
  | analogValue (id : List UInt8) (ts : UTCTime) (value : Option UInt32)
  | digitalValue (id : List UInt8) (ts : UTCTime) (state : Option Bool)
  | stringValue (id : List UInt8) (ts : UTCTime) (text : Option (List UInt8))
  | event (id : List UInt8) (ts : UTCTime) (priority : Int64) (desc : Option (List UInt8))
  deriving DecidableEq, Repr

def SensorValue.ts : SensorValue → UTCTime
  | .analogValue _ ts _ => ts
  | .digitalValue _ ts _ => ts
  | .stringValue _ ts _ => ts
  | .event _ ts _ _ => ts

/-- `putWord64be (fromIntegral n)` -/
def putWord64be (n : ℤ) : List UInt8 :=
  toBeBytes 8 (n % 2 ^ 64).toNat

def putFloatbe (bits : UInt32) : List UInt8 :=
  toBeBytes 4 bits.toNat

/-- `runPut (serializeSensorValue sv)` -/
def serializeSensorValue : SensorValue → List UInt8
  | .analogValue id ts value =>
      0 :: (id ++ (putWord64be (posixSeconds ts) ++ putFloatbe (value.getD 0)))
  | .digitalValue id ts _ =>
      -- The state is not written.
      1 :: (id ++ putWord64be (posixSeconds ts))
  | .stringValue _ _ _ => [2]
  | .event _ _ _ _ => [8]

/-! ## Whole seconds -/

namespace UTCTime

/-- The seconds of the POSIX clock, for a time that is a whole number of them. -/
def seconds (ut : UTCTime) : ℤ :=
  (ut.day - 40587) * 86400 + min 86400 (ut.dayTime / second : ℕ)

/-- A whole number of seconds that an `Int` holds. -/
structure WholeSeconds (ut : UTCTime) : Prop where
  whole : ut.dayTime % second = 0
  le_seconds : -2 ^ 63 ≤ ut.seconds
  seconds_lt : ut.seconds < 2 ^ 63

theorem posix_of_whole {ut : UTCTime} (h : ut.dayTime % second = 0) :
    utcTimeToPOSIXSeconds ut = ut.seconds * second := by
  have hdiv : ut.dayTime = second * (ut.dayTime / second) := by
    rw [Nat.mul_div_cancel' (Nat.dvd_of_mod_eq_zero h)]
  simp only [utcTimeToPOSIXSeconds, seconds, second] at *
  omega

theorem roundSeconds_mul (n : ℤ) : roundSeconds (n * second) = n := by
  have hr : n * second % second = 0 := Int.mul_emod_left n second
  have hn : n * second / second = n := by
    apply Int.mul_ediv_cancel
    decide
  have hpos : (0 : ℤ) < second := by
    decide
  -- The remainder is zero, which is below half a second.
  simp only [roundSeconds, hr, hn, Int.mul_zero]
  exact if_pos hpos

theorem posixSeconds_of_whole {ut : UTCTime} (h : ut.WholeSeconds) :
    posixSeconds ut = ut.seconds := by
  rw [posixSeconds, posix_of_whole h.whole, roundSeconds_mul]
  have hlo := h.le_seconds
  have hhi := h.seconds_lt
  apply Int.bmod_eq_of_le
  · omega
  · omega

end UTCTime

theorem putWord64be_inj {m n : ℤ} (hm : -2 ^ 63 ≤ m ∧ m < 2 ^ 63) (hn : -2 ^ 63 ≤ n ∧ n < 2 ^ 63)
    (h : putWord64be m = putWord64be n) : m = n := by
  have hmod : (m % 2 ^ 64).toNat = (n % 2 ^ 64).toNat := by
    apply toBeBytes_inj _ _ h
    · omega
    · omega
  omega

theorem putFloatbe_inj {v w : UInt32} (h : putFloatbe v = putFloatbe w) : v = w := by
  apply UInt32.toNat_inj.mp
  apply toBeBytes_inj _ _ h
  · simpa using v.toNat_lt
  · simpa using w.toNat_lt

/-! ## Recovering a message from its bytes -/

/-- No other message with a time in whole seconds has the same bytes. -/
def Recoverable (a : SensorValue) : Prop :=
  ∀ b : SensorValue, b.ts.WholeSeconds →
    serializeSensorValue a = serializeSensorValue b → a = b

/-- A reading that is present and not `+0.0`, at a time which is not a midnight nor the leap
second before one. -/
def PresentReading : SensorValue → Prop
  | .analogValue _ ts (some value) =>
      value ≠ 0 ∧ 0 < ts.dayTime ∧ ts.dayTime < 86400 * second
  | _ => False

/-- Within a day the count of seconds determines the time; a leap second counts as the midnight
after it. -/
theorem UTCTime.eq_of_seconds_eq {s t : UTCTime} (hs : s.WholeSeconds) (ht : t.WholeSeconds)
    (hpos : 0 < s.dayTime) (hlt : s.dayTime < 86400 * second) (h : s.seconds = t.seconds) :
    s = t := by
  rcases s with ⟨sday, stime, hsvalid⟩
  rcases t with ⟨tday, ttime, htvalid⟩
  have hswhole := hs.whole
  have htwhole := ht.whole
  simp only [seconds, second] at *
  -- Strictly between two midnights the days can be told apart.
  have hday : sday = tday := by
    omega
  have htime : stime = ttime := by
    omega
  subst hday
  subst htime
  rfl

theorem serialize_analog_eq {id : List UInt8} {ts : UTCTime} {value : Option UInt32}
    {b : SensorValue}
    (h : serializeSensorValue (.analogValue id ts value) = serializeSensorValue b) :
    ∃ ts' value', b = .analogValue id ts' value' ∧
      putWord64be (posixSeconds ts) = putWord64be (posixSeconds ts') ∧
      value.getD 0 = value'.getD 0 := by
  cases b with
  | analogValue id' ts' value' =>
      have htail := List.tail_eq_of_cons_eq h
      -- The bytes behind the name are as many on both sides.
      rcases List.append_inj' htail (by simp [putWord64be, putFloatbe]) with ⟨hid, hrest⟩
      rcases List.append_inj hrest (by simp [putWord64be]) with ⟨hts, hvalue⟩
      subst hid
      exact ⟨ts', value', rfl, hts, putFloatbe_inj hvalue⟩
  | digitalValue id' ts' state =>
      exact absurd (List.head_eq_of_cons_eq h) (by decide)
  | stringValue id' ts' text =>
      exact absurd (List.head_eq_of_cons_eq h) (by decide)
  | event id' ts' priority desc =>
      exact absurd (List.head_eq_of_cons_eq h) (by decide)

theorem recoverable_of_presentReading {a : SensorValue} (ha : a.ts.WholeSeconds)
    (h : PresentReading a) : Recoverable a := by
  intro b hb hbytes
  cases a with
  | analogValue id ts value =>
      cases value with
      | none =>
          exact False.elim h
      | some value =>
          rcases h with ⟨hne, hpos, hlt⟩
          rcases serialize_analog_eq hbytes with ⟨ts', value', rfl, hts, hvalue⟩
          have hwhole : ts.WholeSeconds := ha
          have hwhole' : ts'.WholeSeconds := hb
          have hseconds : ts.seconds = ts'.seconds := by
            rw [UTCTime.posixSeconds_of_whole hwhole,
              UTCTime.posixSeconds_of_whole hwhole'] at hts
            exact putWord64be_inj ⟨ha.le_seconds, ha.seconds_lt⟩
              ⟨hb.le_seconds, hb.seconds_lt⟩ hts
          have htime : ts = ts' := UTCTime.eq_of_seconds_eq ha hb hpos hlt hseconds
          -- An absent reading would have the bits of `+0.0`.
          cases value' with
          | none =>
              exact absurd hvalue hne
          | some value' =>
              have hbits : value = value' := hvalue
              rw [htime, hbits]
  | digitalValue id ts state =>
      exact False.elim h
  | stringValue id ts text =>
      exact False.elim h
  | event id ts priority desc =>
      exact False.elim h

/-! ### Messages with the same bytes -/

/-- The leap second that counts as the midnight of this day. -/
def UTCTime.leapBefore (ut : UTCTime) : UTCTime :=
  { day := ut.day - 1
    dayTime := 86400 * second
    dayTime_lt := by decide }

def UTCTime.nextMidnight (ut : UTCTime) : UTCTime :=
  { day := ut.day + 1
    dayTime := 0
    dayTime_lt := by decide }

theorem UTCTime.leapBefore_seconds {ut : UTCTime} (h : ut.dayTime = 0) :
    ut.leapBefore.seconds = ut.seconds := by
  simp only [seconds, leapBefore, h, second]
  omega

theorem UTCTime.nextMidnight_seconds {ut : UTCTime} (h : ut.dayTime = 86400 * second) :
    ut.nextMidnight.seconds = ut.seconds := by
  simp only [seconds, nextMidnight, h, second]
  omega

/-- A time of the same count of seconds is one of whole seconds with the same bytes. -/
theorem UTCTime.WholeSeconds.of_seconds_eq {s t : UTCTime} (hs : s.WholeSeconds)
    (ht : t.dayTime % second = 0) (h : t.seconds = s.seconds) :
    t.WholeSeconds ∧ posixSeconds t = posixSeconds s := by
  have hwhole : t.WholeSeconds := by
    refine ⟨ht, ?_, ?_⟩
    · rw [h]
      exact hs.le_seconds
    · rw [h]
      exact hs.seconds_lt
  exact ⟨hwhole, by rw [posixSeconds_of_whole hwhole, posixSeconds_of_whole hs, h]⟩

/-- Two readings with the same bytes are the same if the first is recoverable. -/
theorem Recoverable.analog {id : List UInt8} {ts : UTCTime} {value : Option UInt32}
    (h : Recoverable (.analogValue id ts value)) (ts' : UTCTime) (value' : Option UInt32)
    (hts' : ts'.WholeSeconds)
    (hsec : posixSeconds ts' = posixSeconds ts) (hvalue : value'.getD 0 = value.getD 0) :
    ts = ts' ∧ value = value' := by
  have heq := h (.analogValue id ts' value') hts' (by
    simp only [serializeSensorValue, hsec, hvalue])
  injection heq with _ hts hval
  exact ⟨hts, hval⟩

section Analog

variable {id : List UInt8} {ts : UTCTime} {value : Option UInt32}

/-- An absent reading looks like a zero. -/
theorem Recoverable.value_present (hts : ts.WholeSeconds)
    (h : Recoverable (.analogValue id ts value)) : ∃ v, value = some v ∧ v ≠ 0 := by
  cases value with
  | none =>
      have hsame := h.analog ts (some 0) hts rfl rfl
      cases hsame.2
  | some v =>
      refine ⟨v, rfl, ?_⟩
      intro hzero
      have hsame := h.analog ts none hts rfl (by simp [hzero])
      cases hsame.2

/-- A midnight looks like the leap second before it. -/
theorem Recoverable.dayTime_pos (hts : ts.WholeSeconds)
    (h : Recoverable (.analogValue id ts value)) : 0 < ts.dayTime := by
  rw [Nat.pos_iff_ne_zero]
  intro hzero
  have hleap := hts.of_seconds_eq (t := ts.leapBefore) (Nat.mul_mod_left _ _)
    (UTCTime.leapBefore_seconds hzero)
  have hsame := h.analog ts.leapBefore value hleap.1 hleap.2 rfl
  have hday := congrArg UTCTime.day hsame.1
  simp only [UTCTime.leapBefore] at hday
  omega

/-- A leap second looks like the midnight after it. -/
theorem Recoverable.dayTime_lt (hts : ts.WholeSeconds)
    (h : Recoverable (.analogValue id ts value)) : ts.dayTime < 86400 * second := by
  by_contra hle
  have hvalid := ts.dayTime_lt
  have hwhole := hts.whole
  have heq : ts.dayTime = 86400 * second := by
    simp only [second] at *
    omega
  have hnext := hts.of_seconds_eq (t := ts.nextMidnight) (Nat.zero_mod _)
    (UTCTime.nextMidnight_seconds heq)
  have hsame := h.analog ts.nextMidnight value hnext.1 hnext.2 rfl
  have hday := congrArg UTCTime.day hsame.1
  simp only [UTCTime.nextMidnight] at hday
  omega

end Analog

theorem presentReading_of_recoverable {a : SensorValue} (ha : a.ts.WholeSeconds)
    (h : Recoverable a) : PresentReading a := by
  cases a with
  | analogValue id ts value =>
      have hts : ts.WholeSeconds := ha
      rcases h.value_present hts with ⟨v, rfl, hv⟩
      exact ⟨hv, h.dayTime_pos hts, h.dayTime_lt hts⟩
  | digitalValue id ts state =>
      -- The state is not written.
      have hsame := h (.digitalValue id ts (if state = none then some true else none)) ha rfl
      injection hsame with _ _ hstate
      cases state with
      | none =>
          cases hstate
      | some b =>
          cases hstate
  | stringValue id ts text =>
      -- Only the tag is written, so another name gives the same byte.
      have hsame := h (.stringValue (0 :: id) ts text) ha rfl
      injection hsame with hid
      exact absurd hid.symm (List.cons_ne_self 0 id)
  | event id ts priority desc =>
      have hsame := h (.event (0 :: id) ts priority desc) ha rfl
      injection hsame with hid
      exact absurd hid.symm (List.cons_ne_self 0 id)

/-- A message with a time in whole seconds can be recovered from its bytes exactly if it is a
reading that is present, not `+0.0`, and not at a midnight. -/
theorem recoverable_iff (a : SensorValue) (ha : a.ts.WholeSeconds) :
    Recoverable a ↔ PresentReading a :=
  ⟨presentReading_of_recoverable ha, recoverable_of_presentReading ha⟩

/-- 2019-01-07 09:00:00 UTC. -/
def mondayMorning : UTCTime :=
  { day := 58490
    dayTime := 32400 * second
    dayTime_lt := by decide }

theorem mondayMorning_whole : mondayMorning.WholeSeconds := by
  constructor <;> decide

theorem recoverable_one :
    Recoverable (.analogValue [49] mondayMorning (some 0x3f800000)) := by
  refine (recoverable_iff (.analogValue [49] mondayMorning _) mondayMorning_whole).mpr ?_
  simp only [PresentReading]
  decide

theorem serialize_not_injective :
    ¬ ∀ a b : SensorValue, a.ts.WholeSeconds → b.ts.WholeSeconds →
      serializeSensorValue a = serializeSensorValue b → a = b := by
  intro h
  have hsame := h (.digitalValue [49] mondayMorning (some true))
    (.digitalValue [49] mondayMorning (some false)) mondayMorning_whole mondayMorning_whole rfl
  injection hsame with _ _ hstate
  cases hstate

end Serialization
end Etude
