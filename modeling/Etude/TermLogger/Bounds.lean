import Etude.TermLogger.Packets

/-!
# Bounds — where the logger stores the bytes it reads

The index of a store is the number of bytes stored since the last length, plus two.  It starts
again at two only when a term ends, so a length that the count never reaches, or reaches too late,
takes it out of `term_buf` if enough bytes follow.
-/

namespace Etude
namespace TermLogger

open Base

/-- The index at which `step` stores the next byte. -/
def storeIndex (s : Logger) : Option ℕ :=
  match s.state with
  | 0 => some 0
  | 1 => some 1
  | 2 => some (s.termIdx + 2)
  | _ => none

/-- Every byte of the stream that is stored at all is stored inside `term_buf`. -/
def StoresInside (s : Logger) (bytes : List UInt8) : Prop :=
  ∀ before c, before ++ [c] <+: bytes → ∀ t outs i, runOut step s before = some (t, outs) →
    storeIndex t = some i → i < 0xFFFF

/-! ## Stores and faults -/

theorem length_storeAt {mem mem' : List UInt8} {i : ℕ} {c : UInt8}
    (h : storeAt mem i c = some mem') : mem'.length = mem.length := by
  by_cases hi : i < mem.length
  · rw [storeAt_of_lt hi] at h
    cases h
    exact List.length_set
  · rw [storeAt, if_neg hi] at h
    cases h

theorem step_length {s t : Logger} {c : UInt8} {out : Out} (hs : s.termBuf.length = 0xFFFF)
    (h : step s c = some (t, out)) : t.termBuf.length = 0xFFFF := by
  unfold step at h
  split at h
  · rcases Option.bind_eq_some_iff.mp h with ⟨buf, hbuf, heq⟩
    cases heq
    exact (length_storeAt hbuf).trans hs
  · rcases Option.bind_eq_some_iff.mp h with ⟨buf, hbuf, heq⟩
    rcases Option.bind_eq_some_iff.mp heq with ⟨hi, -, heq⟩
    rcases Option.bind_eq_some_iff.mp heq with ⟨lo, -, heq⟩
    cases heq
    exact (length_storeAt hbuf).trans hs
  · rcases Option.bind_eq_some_iff.mp h with ⟨buf, hbuf, heq⟩
    dsimp only at heq
    split_ifs at heq <;> cases heq <;> exact (length_storeAt hbuf).trans hs
  · cases h
    exact hs

/-- A step faults exactly if it stores outside the buffer. -/
theorem step_isSome_iff {s : Logger} (hs : s.termBuf.length = 0xFFFF) (c : UInt8) :
    (step s c).isSome ↔ ∀ i, storeIndex s = some i → i < 0xFFFF := by
  match hstate : s.state with
  | 0 => simp [step, storeIndex, hstate, storeAt, hs]
  | 1 => simp [step, storeIndex, hstate, storeAt, hs]
  | 2 =>
      by_cases hroom : s.termIdx + 2 < 0xFFFF
      · have hstore := storeAt_of_lt (x := c) (hs.symm ▸ hroom)
        simp only [step, storeIndex, hstate, hstore, Option.bind_eq_bind, Option.bind_some]
        split_ifs <;> simpa using hroom
      · have hstore : storeAt s.termBuf (s.termIdx + 2) c = none := by
          rw [storeAt, hs, if_neg hroom]
        simpa [step, storeIndex, hstate, hstore] using hroom
  | n + 3 => simp [step, storeIndex, hstate]

theorem storesInside_iff_isSome {s : Logger} (hs : s.termBuf.length = 0xFFFF)
    (bytes : List UInt8) : StoresInside s bytes ↔ (runOut step s bytes).isSome := by
  rw [runOut_isSome_iff]
  constructor
  · intro h before c hpre t outs hrun
    have ht := runOut_keeps (fun _ _ _ _ => step_length) hs hrun
    exact (step_isSome_iff ht c).mpr fun i => h before c hpre t outs i hrun
  · intro h before c hpre t outs i hrun
    have ht := runOut_keeps (fun _ _ _ _ => step_length) hs hrun
    exact (step_isSome_iff ht c).mp (h before c hpre t outs hrun) i

/-! ## Streams -/

/-- A term whose length fits is followed by the next one; behind any other length there are no more
bytes than fit. -/
def TermsFit : List UInt8 → Prop
  | hi :: lo :: rest =>
      if 0 < lengthOf hi lo ∧ lengthOf hi lo + 2 ≤ 0xFFFF then
        TermsFit (rest.drop (lengthOf hi lo))
      else
        rest.length + 2 ≤ 0xFFFF
  | _ => True
termination_by bytes => bytes.length
decreasing_by
  simp only [List.length_drop, List.length_cons]
  omega

section Collecting

variable {len : ℕ} {s : Logger} {rest : List UInt8}

/-- Behind the length of a term that fits: the bytes that belong to it, and then the others. -/
theorem Collecting.isSome_of_fits (h : Collecting len [] s) (hpos : 0 < len)
    (hroom : len + 2 ≤ 0xFFFF) (rest : List UInt8) :
    (rest.length < len ∧ (runOut step s rest).isSome) ∨
      ∃ t, Idle t ∧ ((runOut step s rest).isSome ↔ (runOut step t (rest.drop len)).isSome) := by
  by_cases hlt : rest.length < len
  · rcases h.run_inside rest (by simp; omega) (Or.inr (by simpa using hlt)) with
      ⟨t, outs, ht, -, -⟩
    exact Or.inl ⟨hlt, by rw [ht]; rfl⟩
  · -- All bytes of the term but the last, the last one, and what is behind the term.
    have hlast : len - 1 < rest.length := by omega
    have hsplit : rest = rest.take (len - 1) ++ rest[len - 1] :: rest.drop len := by
      have hdrop := List.drop_eq_getElem_cons hlast
      rw [Nat.sub_add_cancel hpos] at hdrop
      rw [← hdrop, List.take_append_drop]
    have htake : (rest.take (len - 1)).length = len - 1 := by
      rw [List.length_take]
      omega
    rcases h.run_inside (rest.take (len - 1)) (by simp [htake]; omega)
      (Or.inr (by simp [htake]; omega)) with ⟨t, outs, ht, -, hcollect⟩
    rw [List.nil_append] at hcollect
    rcases hcollect.step_last rest[len - 1] (by omega) (by omega) with ⟨u, out, hu, -, hidle⟩
    refine Or.inr ⟨u, hidle, ?_⟩
    conv_lhs => rw [hsplit, runOut_append, ht]
    cases hrest : runOut step u (rest.drop len) with
    | none => simp [runOut, hu, hrest]
    | some q => simp [runOut, hu, hrest]

/-- Behind any other length the logger counts until the buffer is full. -/
theorem Collecting.isSome_iff_of_not_fits (h : Collecting len [] s)
    (hbad : ¬ (0 < len ∧ len + 2 ≤ 0xFFFF)) :
    (runOut step s rest).isSome ↔ rest.length + 2 ≤ 0xFFFF := by
  have hnever : ∀ n, n + 2 ≤ 0xFFFF → len ≤ 0 ∨ 0 + n < len := by
    intro n hn
    omega
  constructor
  · intro hsome
    by_contra hfull
    have hhead : (rest.take 0xFFFD).length = 0xFFFD := by
      rw [List.length_take]
      omega
    rcases h.run_inside (rest.take 0xFFFD) (by simp [hhead])
      (by rw [hhead]; exact hnever _ (by decide)) with ⟨t, outs, ht, -, hcollect⟩
    rw [List.nil_append] at hcollect
    -- The byte behind these is stored past the end.
    have hlt : 0xFFFD < rest.length := by omega
    have hfault := hcollect.step_fault rest[0xFFFD] (by omega)
    rw [← List.take_append_drop 0xFFFD rest, List.drop_eq_getElem_cons hlt, runOut_append,
      ht] at hsome
    simp [runOut, hfault] at hsome
  · intro hroom
    rcases h.run_inside rest (by simpa using hroom) (hnever _ hroom) with ⟨t, outs, ht, -, -⟩
    rw [ht]
    rfl

end Collecting

/-- Two bytes between terms begin the next one. -/
theorem isSome_lengthOf {s : Logger} (h : Idle s) (hi lo : UInt8) (rest : List UInt8) :
    ∃ t, Collecting (lengthOf hi lo) [] t ∧
      ((runOut step s (hi :: lo :: rest)).isSome ↔ (runOut step t rest).isSome) := by
  rcases runOut_announced h hi lo with ⟨t, outs, ht, -, hcollect⟩
  rw [announced_eq] at hcollect
  have happ : hi :: lo :: rest = [hi, lo] ++ rest := rfl
  refine ⟨t, hcollect, ?_⟩
  rw [happ, runOut_append, ht]
  simp

theorem isSome_iff_termsFit {s : Logger} (h : Idle s) (bytes : List UInt8) :
    (runOut step s bytes).isSome ↔ TermsFit bytes := by
  -- Along the recursion of `TermsFit`, one announced length at a time.
  induction bytes using TermsFit.induct generalizing s with
  | case1 hi lo rest hfit ih =>
      rcases isSome_lengthOf h hi lo rest with ⟨t, hcollect, hrun⟩
      rw [hrun, TermsFit, if_pos hfit]
      rcases hcollect.isSome_of_fits hfit.1 hfit.2 rest with
        ⟨hlt, hsome⟩ | ⟨u, hidle, hiff⟩
      · have hnil : rest.drop (lengthOf hi lo) = [] := List.drop_eq_nil_of_le (by omega)
        rw [hnil]
        simp [hsome, TermsFit]
      · rw [hiff]
        exact ih hidle
  | case2 hi lo rest hbad =>
      rcases isSome_lengthOf h hi lo rest with ⟨t, hcollect, hrun⟩
      rw [hrun, TermsFit, if_neg hbad]
      exact hcollect.isSome_iff_of_not_fits hbad
  | case3 bytes hshort =>
      -- Less than a length: the first byte goes to the front of the buffer.
      match bytes with
      | [] => simp [runOut, TermsFit]
      | [c] =>
          have hstep : (step s c).isSome := by
            rw [step_isSome_iff h.buf_length]
            simp [storeIndex, h.state_eq]
          rcases Option.isSome_iff_exists.mp hstep with ⟨p, hp⟩
          simp [runOut, hp, TermsFit]
      | hi :: lo :: rest => exact absurd rfl (hshort hi lo rest)

/-- All stores are inside the buffer exactly if the terms of the stream fit. -/
theorem storesInside_iff_termsFit (termBuf : Vector UInt8 0xFFFF) (bytes : List UInt8) :
    StoresInside (start termBuf) bytes ↔ TermsFit bytes := by
  have hidle := start_idle termBuf
  rw [storesInside_iff_isSome hidle.buf_length]
  exact isSome_iff_termsFit hidle bytes

/-- A term that was announced as empty, and more bytes than fit behind it. -/
theorem not_storesInside_zeros :
    ¬ StoresInside (start (Vector.replicate 0xFFFF 0)) ([0, 0] ++ List.replicate 0xFFFE 0) := by
  have hidle := start_idle (Vector.replicate 0xFFFF 0)
  have hzero : lengthOf 0 0 = 0 := by decide
  rw [storesInside_iff_isSome hidle.buf_length, isSome_iff_termsFit hidle, List.cons_append,
    List.cons_append, List.nil_append, TermsFit, if_neg (by rw [hzero]; decide),
    List.length_replicate]
  decide

end TermLogger
end Etude
