import Etude.Mylib.Types

/-!
# RoundTrip — which previous memory lets a structure come back

The string is written without a terminator and read up to one.  A string that does not fill its
array ends where the memory held a zero before, so the round trip depends on a single byte of
the previous contents: the one right behind the string.
-/

namespace Etude
namespace Mylib

open Base

/-! ## Encoded strings -/

namespace Locale

variable {locale : Locale}

theorem map_dec_of_encode {s : List CodePoint} {bytes : List UInt8}
    (h : locale.encode s = some bytes) : bytes.map locale.dec = s := by
  induction s generalizing bytes with
  | nil =>
      cases h
      rfl
  | cons c s ih =>
      rw [encode, List.mapM_cons] at h
      rcases Option.bind_eq_some_iff.mp h with ⟨b, hb, hrest⟩
      rcases Option.bind_eq_some_iff.mp hrest with ⟨bs, hbs, hret⟩
      cases hret
      rw [List.map_cons, ih hbs, locale.dec_enc c b hb]

theorem length_of_encode {s : List CodePoint} {bytes : List UInt8}
    (h : locale.encode s = some bytes) : s.length = bytes.length := by
  rw [← map_dec_of_encode h, List.length_map]

/-- Only the NUL character is written as a zero byte. -/
theorem zero_not_mem_of_encode {s : List CodePoint} {bytes : List UInt8}
    (h : locale.encode s = some bytes) (hs : 0 ∉ s) : 0 ∉ bytes := by
  intro hzero
  apply hs
  rw [← map_dec_of_encode h, ← locale.dec_nul]
  exact List.mem_map_of_mem hzero

end Locale

/-! ## The fields around the string -/

theorem peekInt_intBytes (x : Int32) (mem : List UInt8) :
    peekInt (intBytes x ++ mem) = x := by
  have htake : (intBytes x ++ mem).take 4 = intBytes x :=
    List.take_left' (length_toLeBytes 4 _)
  have hword : UInt32.ofNat (leBytes (intBytes x)) = x.toUInt32 := by
    rw [intBytes, leBytes_toLeBytes, Nat.mod_eq_of_lt (by simpa using x.toUInt32.toNat_lt)]
    exact UInt32.ofNat_toNat
  rw [peekInt, htake, hword]
  rfl

theorem peekDouble_doubleBytes (y : UInt64) (mem : List UInt8) :
    peekDouble (doubleBytes y ++ mem) = y := by
  have htake : (doubleBytes y ++ mem).take 8 = doubleBytes y :=
    List.take_left' (length_toLeBytes 8 _)
  rw [peekDouble, htake, doubleBytes, leBytes_toLeBytes,
    Nat.mod_eq_of_lt (by simpa using y.toNat_lt)]
  exact UInt64.ofNat_toNat

/-! ## The memory after `pokeMyBar` -/

/-- Memory from `i` on, cut `n` bytes later. -/
theorem drop_cut (mem : List UInt8) (i n : ℕ) :
    (mem.drop i).take n ++ mem.drop (i + n) = mem.drop i := by
  rw [← List.drop_drop, List.take_append_drop]

/-- Memory with the fields `x` and `y` of `bar`, and `bytes` and `behind` in its array. -/
def layout (bar : MyBar) (bytes behind tail : List UInt8) : List UInt8 :=
  intBytes bar.barX ++ (bytes ++ (behind ++ (doubleBytes bar.barY ++ tail)))

/-- Memory that holds the structure, cut at the fields and behind `n` bytes of the string. -/
theorem exists_cut {mem : List UInt8} (hmem : sizeOfMyBar ≤ mem.length) {n : ℕ}
    (hn : n < maxLen) :
    ∃ x s b rest y tail, mem = x ++ (s ++ (b :: rest ++ (y ++ tail))) ∧ x.length = 4 ∧
      s.length = n ∧ n + (b :: rest).length = maxLen ∧ y.length = 8 ∧
      mem[offsetS + n]? = some b := by
  have hlt : 4 + n < mem.length := by
    simp only [sizeOfMyBar, maxLen] at hmem hn
    omega
  have hrest : 4 + n + 1 + (127 - n) = 132 := by
    simp only [maxLen] at hn
    omega
  have h132 := drop_cut mem (4 + n + 1) (127 - n)
  rw [hrest] at h132
  -- From the front: `x`, the string, the byte behind it, the rest of the array, and `y`.
  have hcut : mem = mem.take 4 ++ ((mem.drop 4).take n ++
      (mem[4 + n] :: (mem.drop (4 + n + 1)).take (127 - n) ++
        ((mem.drop 132).take 8 ++ mem.drop 140))) := by
    rw [List.cons_append, drop_cut mem 132 8, h132, ← List.drop_eq_getElem_cons hlt,
      drop_cut, List.take_append_drop]
  refine ⟨_, _, _, _, _, _, hcut, ?_, ?_, ?_, ?_, List.getElem?_eq_getElem hlt⟩ <;>
    simp only [List.length_take, List.length_drop, List.length_cons, sizeOfMyBar, maxLen] at * <;>
    omega

section Layout

variable {locale : Locale} {bar : MyBar} {bytes behind : List UInt8}

/-- The offset of the last field, behind the string and the rest of its array. -/
theorem length_before_y (hlen : bytes.length + behind.length = maxLen) :
    (intBytes bar.barX ++ (bytes ++ behind)).length = offsetY := by
  have hxlen : (intBytes bar.barX).length = 4 := length_toLeBytes 4 _
  simp only [List.length_append, hxlen, hlen]
  rfl

theorem pokeMyBar_cut (henc : locale.encode bar.barS = some bytes)
    (hlen : bytes.length + behind.length = maxLen) {x s y : List UInt8} (tail : List UInt8)
    (hx : x.length = 4) (hs : s.length = bytes.length) (hy : y.length = 8) :
    pokeMyBar locale (x ++ (s ++ (behind ++ (y ++ tail)))) bar =
      some (layout bar bytes behind tail) := by
  have hxlen : (intBytes bar.barX).length = 4 := length_toLeBytes 4 _
  have hylen : (doubleBytes bar.barY).length = 8 := length_toLeBytes 8 _
  -- A string that fits is not shortened.
  have htake : bar.barS.take maxLen = bar.barS := by
    apply List.take_of_length_le
    rw [Locale.length_of_encode henc]
    omega
  -- The three writes, each in front of what the ones before it left.
  have hpokeX := writeAt_append [] (s ++ (behind ++ (y ++ tail))) (hx.trans hxlen.symm)
  have hpokeS := writeAt_append (intBytes bar.barX) (behind ++ (y ++ tail)) hs
  have hpokeY := writeAt_append (intBytes bar.barX ++ (bytes ++ behind)) tail
    (hy.trans hylen.symm)
  rw [hxlen] at hpokeS
  rw [length_before_y hlen] at hpokeY
  simp only [List.nil_append, List.length_nil, List.append_assoc] at hpokeX hpokeY
  simp only [pokeMyBar, offsetX, offsetS, htake, henc, hpokeX, hpokeS, hpokeY, bind,
    Option.bind]
  rfl

theorem peekMyBar_layout (hlen : bytes.length + behind.length = maxLen) (tail : List UInt8) :
    peekMyBar locale (layout bar bytes behind tail) =
      (locale.peekCString (bytes ++ (behind ++ (doubleBytes bar.barY ++ tail)))).map
        fun s => { bar with barS := s } := by
  have hdropS : (layout bar bytes behind tail).drop offsetS =
      bytes ++ (behind ++ (doubleBytes bar.barY ++ tail)) :=
    List.drop_left' (length_toLeBytes 4 _)
  -- The same memory, cut in front of the last field.
  have hassoc : layout bar bytes behind tail =
      (intBytes bar.barX ++ (bytes ++ behind)) ++ (doubleBytes bar.barY ++ tail) := by
    simp only [layout, List.append_assoc]
  have hdropY : (layout bar bytes behind tail).drop offsetY = doubleBytes bar.barY ++ tail := by
    rw [hassoc]
    exact List.drop_left' (length_before_y hlen)
  have hx : peekInt ((layout bar bytes behind tail).drop offsetX) = bar.barX :=
    peekInt_intBytes bar.barX _
  rw [peekMyBar, hdropS, hdropY, hx, peekDouble_doubleBytes]
  cases locale.peekCString (bytes ++ (behind ++ (doubleBytes bar.barY ++ tail))) with
  | none =>
      rfl
  | some s =>
      rfl

end Layout

theorem peekCString_eq_iff {locale : Locale} {s : List CodePoint} {bytes : List UInt8}
    (henc : locale.encode s = some bytes) (hzero : 0 ∉ bytes) (b : UInt8) (mem : List UInt8) :
    locale.peekCString (bytes ++ b :: mem) = some s ↔ b = 0 := by
  rw [← readCString_append_eq_iff hzero b mem, Locale.peekCString]
  constructor
  · intro h
    rcases Option.map_eq_some_iff.mp h with ⟨read, hread, hdec⟩
    rw [readCString_append hzero] at hread
    rcases Option.map_eq_some_iff.mp hread with ⟨more, hmore, rfl⟩
    -- As many bytes are read as characters come back, so none behind the string.
    have hnil : more = [] := by
      have hlen := congrArg List.length hdec
      rw [List.length_map, List.length_append, Locale.length_of_encode henc] at hlen
      exact List.eq_nil_of_length_eq_zero (by omega)
    rw [readCString_append hzero, hmore, hnil]
    simp
  · intro h
    rw [h, Option.map_some, Locale.map_dec_of_encode henc]

/-- A structure can be stored, and is then read back exactly if the memory held a zero right
behind the place of its string. -/
theorem exists_poke_peek_iff {locale : Locale} {mem : List UInt8}
    (hmem : sizeOfMyBar ≤ mem.length) {bar : MyBar} {bytes : List UInt8}
    (henc : locale.encode bar.barS = some bytes) (hlen : bytes.length < maxLen)
    (hnul : 0 ∉ bar.barS) :
    ∃ mem', pokeMyBar locale mem bar = some mem' ∧
      (peekMyBar locale mem' = some bar ↔ mem[offsetS + bytes.length]? = some 0) := by
  rcases exists_cut hmem hlen with ⟨x, s, b, rest, y, tail, hcut, hx, hs, hrest, hy, hb⟩
  have hzero := Locale.zero_not_mem_of_encode henc hnul
  refine ⟨layout bar bytes (b :: rest) tail, ?_, ?_⟩
  · rw [hcut]
    exact pokeMyBar_cut henc hrest tail hx hs hy
  · rw [peekMyBar_layout hrest, hb, Option.some.injEq, Option.map_eq_some_iff, List.cons_append,
      ← peekCString_eq_iff henc hzero]
    constructor
    · rintro ⟨s', hs', hbar⟩
      rw [hs', ← hbar]
    · intro h
      exact ⟨bar.barS, h, rfl⟩

/-- The same for `setBar`, whose function is handed the structure, and `updateBar`, which
returns it. -/
theorem myBar_round_trip_iff (locale : Locale) (mem : List UInt8)
    (hmem : sizeOfMyBar ≤ mem.length) (bar : MyBar) (bytes : List UInt8)
    (henc : locale.encode bar.barS = some bytes) (hlen : bytes.length < maxLen)
    (hnul : 0 ∉ bar.barS) :
    ((pokeMyBar locale mem bar).bind (peekMyBar locale) = some bar ↔
      mem[offsetS + bytes.length]? = some 0) ∧
    (setBar locale mem bar = some (bar, 2) ↔ mem[offsetS + bytes.length]? = some 0) ∧
    (updateBar locale mem bar = some bar ↔ mem[offsetS + bytes.length]? = some 0) := by
  rcases exists_poke_peek_iff hmem henc hlen hnul with ⟨mem', hpoke, hpeek⟩
  refine ⟨?_, ?_, ?_⟩
  · rw [hpoke, Option.bind_some, hpeek]
  · rw [← hpeek]
    simp only [setBar, hpoke, mySetBar, bind, Option.bind]
    cases peekMyBar locale mem' with
    | none =>
        simp
    | some bar' =>
        simp [pure]
  · simp only [updateBar, hpoke, myUpdateBar, bind, Option.bind, hpeek]

/-! ### A Latin-1 locale -/

def latin1 : Locale where
  enc c := if c.val < 256 then some (UInt8.ofNat c.val) else none
  dec b := ⟨b.toNat, b.toNat_lt.trans (by decide)⟩
  dec_enc c b h := by
    split at h
    · rename_i hlt
      cases h
      apply Fin.ext
      simpa using Nat.mod_eq_of_lt hlt
    · cases h
  dec_nul := rfl

def barHi : MyBar :=
  { barX := 255
    barS := [72, 105]
    barY := 0x4005bf0995aaf790 }

theorem barHi_on_zeroed_memory :
    (pokeMyBar latin1 (List.replicate 140 0) barHi).bind (peekMyBar latin1) = some barHi ∧
      setBar latin1 (List.replicate 140 0) barHi = some (barHi, 2) ∧
      updateBar latin1 (List.replicate 140 0) barHi = some barHi := by
  have hiff := myBar_round_trip_iff latin1 (List.replicate 140 0) (by simp [sizeOfMyBar]) barHi
    [72, 105] (by decide) (by decide) (by decide)
  exact ⟨hiff.1.mpr (by decide), hiff.2.1.mpr (by decide), hiff.2.2.mpr (by decide)⟩

theorem barHi_on_used_memory :
    ¬ ∀ mem : List UInt8, sizeOfMyBar ≤ mem.length →
      (pokeMyBar latin1 mem barHi).bind (peekMyBar latin1) = some barHi := by
  intro h
  have hmem : sizeOfMyBar ≤ (List.replicate 140 (97 : UInt8)).length := by
    simp [sizeOfMyBar]
  -- Memory full of `a`s holds no zero behind the string.
  have hback := h _ hmem
  have henc : latin1.encode barHi.barS = some [72, 105] := by
    decide
  rcases exists_poke_peek_iff hmem henc (by decide) (by decide) with ⟨mem', hpoke, hpeek⟩
  rw [hpoke, Option.bind_some, hpeek] at hback
  exact absurd hback (by decide)

end Mylib
end Etude
