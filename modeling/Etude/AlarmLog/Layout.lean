import Etude.AlarmLog.Model

/-!
# Layout — the decoders read little-endian packed fields

Both decoders return the fields `unpack ws V` of the little-endian number `V` of the record:
Plan B (`decode_numbers`) because reversing the bits of every byte lists the bits of `V` from the
least significant one on, Plan A because reversing the bytes lists them the other way round.
-/

namespace Etude
namespace Alarm

open Base

/-! ## Bit order -/

theorem bitsOfByte_reverse (b : UInt8) : (bitsOfByte b).reverse = byteBits b := rfl

theorem reverseBitsAux_eq (bin : List UInt8) (xxs : List (List Bool)) :
    reverseBitsAux bin xxs = xxs.reverse.flatten ++ bin.flatMap byteBits := by
  induction bin generalizing xxs with
  | nil =>
      simp [reverseBitsAux]
  | cons b rest ih =>
      simp [reverseBitsAux, ih, bitsOfByte_reverse]

theorem reverseBits_eq (bin : List UInt8) : reverseBits bin = bin.flatMap byteBits := by
  simp [reverseBits, reverseBitsAux_eq]

theorem length_reverseBits (bin : List UInt8) : (reverseBits bin).length = 8 * bin.length := by
  rw [reverseBits_eq, length_flatMap_byteBits]

theorem leBits_reverseBits (bin : List UInt8) : leBits (reverseBits bin) = leBytes bin := by
  rw [reverseBits_eq, leBits_flatMap_byteBits]

theorem reverseBinary_eq (bin acc : List UInt8) : reverseBinary bin acc = bin.reverse ++ acc := by
  induction bin generalizing acc with
  | nil =>
      rfl
  | cons b rest ih =>
      simp [reverseBinary, ih]

/-- Reversing the bytes reverses the whole string of reversed bits. -/
theorem bitsOf_reverseBinary (bin : List UInt8) :
    bitsOf (reverseBinary bin []) = (reverseBits bin).reverse := by
  have hbyte : bitsOfByte = List.reverse ∘ byteBits := by
    funext b
    rw [Function.comp_apply, ← bitsOfByte_reverse, List.reverse_reverse]
  rw [reverseBinary_eq, List.append_nil, reverseBits_eq, List.reverse_flatMap, bitsOf, hbyte]

/-! ## Plan B -/

theorem decodeNumber_eq {w : ℕ} {bits : List Bool} (h : w ≤ bits.length) :
    decodeNumber w bits = some (leBits bits % 2 ^ w, bits.drop w) := by
  rw [decodeNumber, if_pos h, beBits, List.reverse_reverse, leBits_take]

/-- Fields for which there are bits are cut from the low end of the number that the bits spell. -/
theorem decodeNumbersAux_append {us : List ℕ} (vs : List ℕ) {bits : List Bool}
    (numberList : List ℕ) (hpos : ∀ u ∈ us, 0 < u) (hsum : us.sum ≤ bits.length) :
    decodeNumbersAux (us ++ vs) bits numberList =
      decodeNumbersAux vs (bits.drop us.sum)
        ((unpack us (leBits bits)).reverse ++ numberList) := by
  induction us generalizing bits numberList with
  | nil =>
      simp [unpack]
  | cons u us ih =>
      have hu : 0 < u := hpos u (by simp)
      have hlen : u + us.sum ≤ bits.length := by simpa using hsum
      -- Positive widths remain, so the list of bits cannot run out.
      cases bits with
      | nil =>
          simp only [List.length_nil] at hlen
          omega
      | cons b bits =>
          have hrest : us.sum ≤ ((b :: bits).drop u).length := by
            rw [List.length_drop]
            omega
          have htail := ih ((leBits (b :: bits) % 2 ^ u) :: numberList)
            (fun v hv => hpos v (by simp [hv])) hrest
          rw [leBits_drop, List.drop_drop] at htail
          have hnum : decodeNumber u (b :: bits) =
              some (leBits (b :: bits) % 2 ^ u, (b :: bits).drop u) :=
            decodeNumber_eq (by omega)
          simp only [List.cons_append, decodeNumbersAux, hnum, Option.bind_eq_bind,
            Option.bind_some, htail, unpack, List.sum_cons]
          simp

theorem decodeNumbersAux_eq {ws : List ℕ} {bits : List Bool} (numberList : List ℕ)
    (hpos : ∀ w ∈ ws, 0 < w) (hsum : ws.sum ≤ bits.length) :
    decodeNumbersAux ws bits numberList =
      some ((unpack ws (leBits bits)).reverse ++ numberList) := by
  have h := decodeNumbersAux_append [] numberList hpos hsum
  rwa [List.append_nil] at h

theorem decodeNumbers_eq {ws : List ℕ} {bin : List UInt8} (hpos : ∀ w ∈ ws, 0 < w)
    (hsum : ws.sum ≤ 8 * bin.length) :
    decodeNumbers ws bin = some (unpack ws (leBytes bin)) := by
  have hlen : ws.sum ≤ (reverseBits bin).length := by
    rw [length_reverseBits]
    exact hsum
  simp [decodeNumbers, decodeNumbersAux_eq [] hpos hlen, leBits_reverseBits]

/-- Widths that fill the record determine it: packing the numbers gives back every byte. -/
theorem toLeBytes_pack {ws : List ℕ} {bin : List UInt8} (hsum : ws.sum = 8 * bin.length) :
    toLeBytes bin.length (pack ws (unpack ws (leBytes bin))) = bin := by
  have hlt : leBytes bin < 2 ^ (8 * bin.length) := by
    have h := leBytes_lt bin
    rwa [pow_mul]
  rw [pack_unpack, hsum, Nat.mod_eq_of_lt hlt, toLeBytes_leBytes]

/-- `decode_numbers` returns one number for each width, the fields of the little-endian number of
the record; when the widths fill the record, packing the numbers reproduces it. -/
theorem decodeNumbers_packed_layout (ws : List ℕ) (bin : List UInt8) (hpos : ∀ w ∈ ws, 0 < w)
    (hsum : ws.sum ≤ 8 * bin.length) :
    ∃ ns, decodeNumbers ws bin = some ns ∧ ns.length = ws.length ∧
      (∀ (i : ℕ) (hi : i < ws.length),
        ns[i]? = some (leBytes bin / 2 ^ (ws.take i).sum % 2 ^ ws[i])) ∧
      (ws.sum = 8 * bin.length → toLeBytes bin.length (pack ws ns) = bin) := by
  refine ⟨unpack ws (leBytes bin), decodeNumbers_eq hpos hsum, length_unpack ws _, ?_, ?_⟩
  · exact fun i hi => unpack_getElem hi
  · exact toLeBytes_pack

theorem decodeNumbers_packed_layout_record :
    ∃ ns, decodeNumbers [7, 5, 4, 7, 5, 6, 6] [0x8B, 0x56, 0x1A, 0x08, 0x72] = some ns ∧
      ns.length = 7 ∧
      (∀ (i : ℕ) (hi : i < 7),
        ns[i]? = some (leBytes [0x8B, 0x56, 0x1A, 0x08, 0x72] /
          2 ^ (([7, 5, 4, 7, 5, 6, 6] : List ℕ).take i).sum %
            2 ^ ([7, 5, 4, 7, 5, 6, 6] : List ℕ)[i])) ∧
      (([7, 5, 4, 7, 5, 6, 6] : List ℕ).sum = 8 * 5 →
        toLeBytes 5 (pack [7, 5, 4, 7, 5, 6, 6] ns) = [0x8B, 0x56, 0x1A, 0x08, 0x72]) :=
  decodeNumbers_packed_layout [7, 5, 4, 7, 5, 6, 6] [0x8B, 0x56, 0x1A, 0x08, 0x72]
    (by decide) (by decide)

/-! ## Plan A -/

/-- Matching from the most significant end gives the fields in reverse order. -/
theorem matchFields_eq {us : List ℕ} {bits : List Bool} (hsum : us.sum = bits.length) :
    matchFields us bits = some (unpack us.reverse (beBits bits)).reverse := by
  induction us generalizing bits with
  | nil =>
      have hnil : bits = [] := List.eq_nil_of_length_eq_zero hsum.symm
      simp [hnil, matchFields, unpack]
  | cons u us ih =>
      have hlen : u + us.sum = bits.length := by simpa using hsum
      have hdrop : us.sum = (bits.drop u).length := by
        rw [List.length_drop]
        omega
      have htake : (bits.take u).length = u := by
        rw [List.length_take]
        omega
      -- The first field is the quotient by what the later fields take up.
      have hsplit : beBits bits =
          beBits (bits.drop u) + 2 ^ us.sum * beBits (bits.take u) := by
        rw [hdrop, ← beBits_append, List.take_append_drop]
      have hlow : beBits (bits.drop u) < 2 ^ us.sum := by
        rw [hdrop]
        exact beBits_lt _
      have hhigh : beBits (bits.take u) < 2 ^ u := by
        have h := beBits_lt (bits.take u)
        rwa [htake] at h
      have hmod : beBits bits % 2 ^ us.sum = beBits (bits.drop u) := by
        rw [hsplit, Nat.add_mul_mod_self_left, Nat.mod_eq_of_lt hlow]
      have hdiv : beBits bits / 2 ^ us.sum = beBits (bits.take u) := by
        rw [hsplit, Nat.add_mul_div_left _ _ (by positivity), Nat.div_eq_of_lt hlow, Nat.zero_add]
      have hfields : unpack us.reverse (beBits (bits.drop u)) =
          unpack us.reverse (beBits bits) := by
        rw [← hmod]
        exact unpack_mod (by simp)
      rw [matchFields, if_pos (by omega), ih hdrop, hfields, List.reverse_cons, unpack_append]
      simp [unpack, hdiv, Nat.mod_eq_of_lt hhigh]

theorem planA_eq {ws : List ℕ} {bin : List UInt8} (hsum : ws.sum = 8 * bin.length) :
    matchFields ws.reverse (bitsOf (reverseBinary bin [])) =
      some (unpack ws (leBytes bin)).reverse := by
  have hlen : ws.reverse.sum = (reverseBits bin).reverse.length := by
    rw [List.sum_reverse, List.length_reverse, length_reverseBits, hsum]
  rw [bitsOf_reverseBinary, matchFields_eq hlen, List.reverse_reverse, beBits,
    List.reverse_reverse, leBits_reverseBits]

/-- The two decoders agree: on every layout that fills the record, matching the widths in reverse
order against the reversed bytes gives the numbers of `decode_numbers` in reverse order; on
5-byte records `decode_plan_A` and `decode_plan_B` find the same fields. -/
theorem plans_agree :
    (∀ (ws : List ℕ) (bin : List UInt8), (∀ w ∈ ws, 0 < w) → ws.sum = 8 * bin.length →
      ∃ ns, decodeNumbers ws bin = some ns ∧
        matchFields ws.reverse (bitsOf (reverseBinary bin [])) = some ns.reverse) ∧
      ∀ bin : List UInt8, bin.length = 5 →
        ∃ log, decodePlanA bin = some log ∧ decodePlanB bin = some log := by
  constructor
  · intro ws bin hpos hsum
    exact ⟨_, decodeNumbers_eq hpos (Nat.le_of_eq hsum), planA_eq hsum⟩
  -- The widths of the record are those of `NumberDefinitions`, 40 bits in all.
  · intro bin hlen
    have hsum : numberDefinitions.sum = 8 * bin.length := by
      rw [hlen]
      rfl
    have hA := planA_eq hsum
    have hB := decodeNumbers_eq (by decide) (Nat.le_of_eq hsum)
    have hseven : (unpack numberDefinitions (leBytes bin)).length = 7 := length_unpack _ _
    -- Seven fields: both matches succeed.
    match unpack numberDefinitions (leBytes bin), hseven, hA, hB with
    | [code, day, month, year, hour, min, sec], _, hA, hB =>
        refine ⟨⟨code, day, month, year, hour, min, sec⟩, ?_, ?_⟩
        · have hwidths : numberDefinitions.reverse = [6, 6, 5, 7, 4, 5, 7] := rfl
          rw [hwidths] at hA
          simp [decodePlanA, hA]
        · simp [decodePlanB, hB]

theorem plans_agree_record :
    ∃ ns, decodeNumbers [7, 5, 4, 7, 5, 6, 6] [0x8B, 0x56, 0x1A, 0x08, 0x72] = some ns ∧
      matchFields [6, 6, 5, 7, 4, 5, 7]
        (bitsOf (reverseBinary [0x8B, 0x56, 0x1A, 0x08, 0x72] [])) = some ns.reverse :=
  plans_agree.1 [7, 5, 4, 7, 5, 6, 6] [0x8B, 0x56, 0x1A, 0x08, 0x72] (by decide) (by decide)

end Alarm
end Etude
