import Etude.AlarmLog.Layout

/-!
# Truncated — records that are shorter than their widths

`decode_numbers` fails on a record that ends inside a field, and returns the numbers of the fields
in front when it ends exactly behind one of them.
-/

namespace Etude
namespace Alarm

open Base

/-! ## The field in which a record ends -/

theorem exists_split_sum {ws : List ℕ} {n : ℕ} (h : n < ws.sum) :
    ∃ us v vs, ws = us ++ v :: vs ∧ us.sum ≤ n ∧ n < us.sum + v := by
  induction ws generalizing n with
  | nil =>
      cases h
  | cons w ws ih =>
      rw [List.sum_cons] at h
      by_cases hw : n < w
      · exact ⟨[], w, ws, rfl, Nat.zero_le n, by simpa using hw⟩
      · rcases ih (n := n - w) (by omega) with ⟨us, v, vs, rfl, hle, hlt⟩
        refine ⟨w :: us, v, vs, rfl, ?_, ?_⟩
        · rw [List.sum_cons]
          omega
        · rw [List.sum_cons]
          omega

/-- Inside a field no prefix of the widths ends. -/
theorem sum_take_ne {us vs : List ℕ} {v n : ℕ} (hlt : us.sum < n) (hn : n < us.sum + v) (k : ℕ) :
    ((us ++ v :: vs).take k).sum ≠ n := by
  rcases Nat.lt_or_ge us.length k with hk | hk
  · -- The prefix goes past the field.
    have hsplit : (us ++ v :: vs).take k = us ++ v :: vs.take (k - us.length - 1) := by
      rcases Nat.exists_eq_add_of_lt hk with ⟨m, rfl⟩
      rw [List.take_append, List.take_of_length_le (by omega)]
      have hm : us.length + m + 1 - us.length = m + 1 := by omega
      rw [hm, List.take_succ_cons, Nat.add_sub_cancel]
    rw [hsplit, List.sum_append, List.sum_cons]
    omega
  · have hsum := congrArg List.sum (List.take_append_drop k us)
    rw [List.sum_append] at hsum
    rw [List.take_append_of_le_length hk]
    omega

/-! ## Decoding a truncated record -/

/-- All that can happen to a truncated record. -/
theorem decodeNumbers_cases {us vs : List ℕ} {v : ℕ} {bin : List UInt8}
    (hpos : ∀ w ∈ us, 0 < w) (hle : us.sum ≤ 8 * bin.length) (hlt : 8 * bin.length < us.sum + v) :
    decodeNumbers (us ++ v :: vs) bin =
      if us.sum = 8 * bin.length then some (unpack us (leBytes bin)) else none := by
  have hlen : us.sum ≤ (reverseBits bin).length := by rwa [length_reverseBits]
  rw [decodeNumbers, decodeNumbersAux_append (v :: vs) [] hpos hlen, List.append_nil,
    leBits_reverseBits]
  by_cases heq : us.sum = 8 * bin.length
  · -- The clause for an empty list of bits ends the recursion.
    have hdrop : (reverseBits bin).drop us.sum = [] := by
      rw [heq, ← length_reverseBits, List.drop_length]
    rw [if_pos heq, hdrop]
    simp [decodeNumbersAux]
  · rw [if_neg heq]
    have hrest : ((reverseBits bin).drop us.sum).length = 8 * bin.length - us.sum := by
      rw [List.length_drop, length_reverseBits]
    cases hbits : (reverseBits bin).drop us.sum with
    | nil =>
        rw [hbits, List.length_nil] at hrest
        omega
    | cons b bits =>
        -- `lists:split` is asked for more bits than there are.
        have hnum : decodeNumber v (b :: bits) = none := by
          rw [← hbits, decodeNumber, if_neg (by omega)]
        simp [decodeNumbersAux, hnum]

/-- A record that is shorter than its widths is refused unless it ends between two fields;
`decode_numbers` then returns the numbers of the fields in front, and in any other case one number
for each width. -/
theorem decodeNumbers_truncated (ws : List ℕ) (bin : List UInt8) (hpos : ∀ w ∈ ws, 0 < w) :
    (8 * bin.length < ws.sum →
        (decodeNumbers ws bin = none ↔ ∀ k, (ws.take k).sum ≠ 8 * bin.length)) ∧
      (ws.sum ≤ 8 * bin.length → (decodeNumbers ws bin).isSome) ∧
      ∀ ns, decodeNumbers ws bin = some ns →
        ns = unpack (ws.take ns.length) (leBytes bin) ∧
          (ns.length = ws.length ∧ ws.sum ≤ 8 * bin.length ∨
            ns.length < ws.length ∧ (ws.take ns.length).sum = 8 * bin.length) := by
  refine ⟨?_, ?_, ?_⟩
  · intro hshort
    rcases exists_split_sum hshort with ⟨us, v, vs, rfl, hle, hlt⟩
    have hus : ∀ w ∈ us, 0 < w := fun w hw => hpos w (by simp [hw])
    rw [decodeNumbers_cases hus hle hlt]
    by_cases heq : us.sum = 8 * bin.length
    · rw [if_pos heq]
      constructor
      · intro h
        cases h
      · intro h
        exact absurd (by rw [List.take_left, heq]) (h us.length)
    · rw [if_neg heq, eq_self_iff_true, true_iff]
      exact sum_take_ne (by omega) hlt
  · intro hlong
    rw [decodeNumbers_eq hpos hlong]
    rfl
  · intro ns hns
    rcases Nat.lt_or_ge (8 * bin.length) ws.sum with hshort | hlong
    · rcases exists_split_sum hshort with ⟨us, v, vs, rfl, hle, hlt⟩
      have hus : ∀ w ∈ us, 0 < w := fun w hw => hpos w (by simp [hw])
      rw [decodeNumbers_cases hus hle hlt] at hns
      by_cases heq : us.sum = 8 * bin.length
      · rw [if_pos heq] at hns
        cases hns
        rw [length_unpack, List.take_left]
        exact ⟨rfl, Or.inr ⟨by simp, heq⟩⟩
      · rw [if_neg heq] at hns
        cases hns
    · rw [decodeNumbers_eq hpos hlong] at hns
      cases hns
      rw [length_unpack, List.take_length]
      exact ⟨rfl, Or.inl ⟨rfl, hlong⟩⟩

/-- The first two bytes of the record in the source end behind its third field. -/
theorem decodeNumbers_truncated_record :
    (decodeNumbers numberDefinitions [0x8B, 0x56] = none ↔
        ∀ k, (numberDefinitions.take k).sum ≠ 16) ∧
      ([11, 13, 5] : List ℕ) = unpack [7, 5, 4] (leBytes [0x8B, 0x56]) := by
  rcases decodeNumbers_truncated numberDefinitions [0x8B, 0x56] (by decide) with ⟨hfails, -, hsome⟩
  exact ⟨hfails (by decide), (hsome [11, 13, 5] (by decide)).1⟩

theorem not_decodeNumbers_truncated :
    ¬ ∀ (ws : List ℕ) (bin : List UInt8), (∀ w ∈ ws, 0 < w) →
      (8 * bin.length < ws.sum → decodeNumbers ws bin = none) ∧
        ∀ ns, decodeNumbers ws bin = some ns → ns.length = ws.length := by
  intro h
  have hnone := (h numberDefinitions [0x8B, 0x56] (by decide)).1 (by decide)
  exact absurd hnone (by decide)

end Alarm
end Etude
