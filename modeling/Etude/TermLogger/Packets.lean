import Etude.Base.Packet
import Etude.Base.Run
import Etude.TermLogger.Model

/-!
# Packets — the terms that the logger finds in a stream of packets

The logger rebuilds the length of a packet from two signed bytes, and looks for the end of a term
after it has counted a byte.  It finds the packets of a stream exactly if each of them has a
length that it rebuilds right, that is not zero, and that leaves room for two more bytes.
-/

namespace Etude
namespace TermLogger

open Base

/-! ## The announced length -/

theorem forall_byte {P : UInt8 → Prop} (h : ∀ n < 256, P (UInt8.ofNat n)) (c : UInt8) : P c := by
  have hc := h c.toNat c.toNat_lt
  rwa [UInt8.ofNat_toNat] at hc

theorem promote_high (c : UInt8) : (0xFFFF#32 &&& promote c <<< 8).toNat = c.toNat <<< 8 := by
  revert c
  apply forall_byte
  decide +kernel

/-- A low byte from 128 on is negative and sets the high byte. -/
theorem promote_low (c : UInt8) :
    (0xFFFF#32 &&& promote c).toNat =
      if c.toNat < 128 then c.toNat else 0xFF <<< 8 ||| c.toNat := by
  revert c
  apply forall_byte
  decide +kernel

/-- The length that two bytes announce: a low byte from 128 on makes the high byte 255. -/
def lengthOf (hi lo : UInt8) : ℕ :=
  if lo.toNat < 128 then hi.toNat * 256 + lo.toNat else 0xFF00 + lo.toNat

theorem announced_eq (hi lo : UInt8) : announced hi lo = lengthOf hi lo := by
  have hlo := lo.toNat_lt
  -- The low byte fits below the shifted one.
  have hor : ∀ m, m <<< 8 ||| lo.toNat = m * 256 + lo.toNat := by
    intro m
    rw [← Nat.shiftLeft_add_eq_or_of_lt (by omega), Nat.shiftLeft_eq]
  have hmax : hi.toNat ||| 0xFF = 0xFF := by
    have hall : ∀ n < 256, n ||| 0xFF = 0xFF := by decide +kernel
    exact hall _ hi.toNat_lt
  rw [announced, BitVec.and_or_distrib_left, BitVec.toNat_or, promote_high, promote_low, lengthOf]
  split_ifs with hsmall
  · exact hor _
  · rw [← Nat.or_assoc, ← Nat.shiftLeft_or_distrib, hmax, hor]

/-- The length that the logger rebuilds from the two bytes of `len`. -/
def rebuilt (len : ℕ) : ℕ :=
  announced (UInt8.ofNat (len / 256)) (UInt8.ofNat len)

theorem rebuilt_eq {len : ℕ} (h : len < 2 ^ 16) :
    rebuilt len = if len % 256 < 128 then len else 0xFF00 + len % 256 := by
  have hlo : (UInt8.ofNat len).toNat = len % 256 := UInt8.toNat_ofNat'
  have hhi : (UInt8.ofNat (len / 256)).toNat = len / 256 := by
    rw [UInt8.toNat_ofNat', Nat.mod_eq_of_lt (by omega)]
  rw [rebuilt, announced_eq, lengthOf, hlo, hhi, Nat.div_add_mod']

/-! ## States between and inside packets -/

/-- Between two packets. -/
structure Idle (s : Logger) : Prop where
  state_eq : s.state = 0
  buf_length : s.termBuf.length = 0xFFFF

/-- Behind the length bytes, which announced `len`; `got` has been stored since. -/
structure Collecting (len : ℕ) (got : List UInt8) (s : Logger) : Prop where
  state_eq : s.state = 2
  buf_length : s.termBuf.length = 0xFFFF
  len_eq : s.termLen = len
  idx_eq : s.termIdx = got.length
  buf_eq : (s.termBuf.drop 2).take got.length = got

theorem start_idle (termBuf : Vector UInt8 0xFFFF) : Idle (start termBuf) :=
  { state_eq := rfl
    buf_length := termBuf.size_toArray }

/-- The two bytes of the length. -/
theorem runOut_announced {s : Logger} (h : Idle s) (hi lo : UInt8) :
    ∃ t outs, runOut step s [hi, lo] = some (t, outs) ∧
      outs.map Out.term = [none, none] ∧ Collecting (announced hi lo) [] t := by
  have hbuf := h.buf_length
  -- The two bytes go to the front of the buffer, whatever it held.
  match hs : s.termBuf, hbuf with
  | b0 :: b1 :: rest, hbuf =>
      refine ⟨{ state := 2
                termLen := announced hi lo
                termIdx := 0
                termBuf := hi :: lo :: rest },
        [⟨printfHex hi, none⟩, ⟨printfHex lo, none⟩], ?_, rfl, ?_⟩
      · simp [runOut, step, h.state_eq, hs, storeAt]
      · exact
          { state_eq := rfl
            buf_length := by simpa using hbuf
            len_eq := rfl
            idx_eq := rfl
            buf_eq := rfl }

theorem runOut_length {s : Logger} (h : Idle s) (len : ℕ) :
    ∃ t outs, runOut step s (toBeBytes 2 len) = some (t, outs) ∧
      outs.map Out.term = [none, none] ∧ Collecting (rebuilt len) [] t :=
  runOut_announced h _ _

theorem take_set_drop {buf got : List UInt8} {c : UInt8} (hroom : got.length + 2 < buf.length)
    (hgot : (buf.drop 2).take got.length = got) :
    ((buf.set (got.length + 2) c).drop 2).take (got.length + 1) = got ++ [c] := by
  have hindex : got.length + 2 - 2 = got.length := Nat.add_sub_cancel _ _
  have hlt : got.length < (buf.drop 2).length := by
    rw [List.length_drop]
    omega
  rw [List.drop_set, if_neg (by omega), hindex, List.take_add_one,
    List.take_set_of_le (Nat.le_refl _), hgot, List.getElem?_set_self hlt]
  rfl

section Collecting

variable {len : ℕ} {got : List UInt8} {s : Logger}

/-- A byte inside the term. -/
theorem Collecting.step_inside (h : Collecting len got s) (c : UInt8)
    (hroom : got.length + 2 < 0xFFFF) (hmore : got.length + 1 ≠ len) :
    ∃ t out, step s c = some (t, out) ∧ out.term = none ∧ Collecting len (got ++ [c]) t := by
  have hfit : got.length + 2 < s.termBuf.length := by
    rw [h.buf_length]
    exact hroom
  refine ⟨{ s with
            termBuf := s.termBuf.set (got.length + 2) c
            termIdx := got.length + 1 }, ⟨printfHex c, none⟩, ?_, rfl, ?_⟩
  · simp [step, h.state_eq, h.idx_eq, h.len_eq, storeAt_of_lt hfit, hmore]
  · exact
      { state_eq := h.state_eq
        buf_length := by simpa using h.buf_length
        len_eq := h.len_eq
        idx_eq := by simp
        buf_eq := by simpa using take_set_drop (c := c) hfit h.buf_eq }

/-- The byte that makes the count equal to the announced length. -/
theorem Collecting.step_last (h : Collecting len got s) (c : UInt8)
    (hroom : got.length + 2 < 0xFFFF) (hlast : got.length + 1 = len) :
    ∃ t out, step s c = some (t, out) ∧ out.term = some (len, got ++ [c]) ∧ Idle t := by
  have hfit : got.length + 2 < s.termBuf.length := by
    rw [h.buf_length]
    exact hroom
  refine ⟨{ s with
            termBuf := s.termBuf.set (got.length + 2) c
            termIdx := got.length + 1
            state := 0 }, ⟨printfHex c ++ ['\r', '\n'], some (len, got ++ [c])⟩, ?_, rfl, ?_⟩
  · have hterm := take_set_drop (c := c) hfit h.buf_eq
    rw [hlast] at hterm
    simp [step, h.state_eq, h.idx_eq, h.len_eq, storeAt_of_lt hfit, hlast, hterm]
  · exact
      { state_eq := rfl
        buf_length := by simpa using h.buf_length }

/-- Past the end of `term_buf`. -/
theorem Collecting.step_fault (h : Collecting len got s) (c : UInt8)
    (hfull : 0xFFFF ≤ got.length + 2) : step s c = none := by
  have hout : storeAt s.termBuf (got.length + 2) c = none := by
    rw [storeAt, if_neg]
    rw [h.buf_length]
    omega
  simp [step, h.state_eq, h.idx_eq, hout]

/-- Bytes that do not make the count equal to the announced length. -/
theorem Collecting.run_inside (h : Collecting len got s) (xs : List UInt8)
    (hroom : got.length + xs.length + 2 ≤ 0xFFFF)
    (hmore : len ≤ got.length ∨ got.length + xs.length < len) :
    ∃ t outs, runOut step s xs = some (t, outs) ∧
      outs.map Out.term = List.replicate xs.length none ∧ Collecting len (got ++ xs) t := by
  induction xs generalizing s got with
  | nil =>
      exact ⟨s, [], rfl, rfl, by simpa using h⟩
  | cons x xs ih =>
      rw [List.length_cons] at hroom hmore
      rcases h.step_inside x (by omega) (by omega) with ⟨t, out, ht, hout, hcollect⟩
      have hlen : (got ++ [x]).length = got.length + 1 := by simp
      -- The announced length has not been reached, so no term ends here.
      rcases ih hcollect (by omega) (by omega) with ⟨u, outs, hu, houts, hcollect'⟩
      refine ⟨u, out :: outs, by simp [runOut, ht, hu], ?_, by simpa using hcollect'⟩
      rw [List.map_cons, hout, houts, List.length_cons, List.replicate_succ]

end Collecting

/-! ## Packets -/

/-- The payload of a packet fits into `{packet, 2}`. -/
structure Packet where
  payload : List UInt8
  length_lt : payload.length < 2 ^ 16

def stream (ps : List Packet) : List UInt8 :=
  ps.flatMap fun p => packet2 p.payload

/-- What the bytes of a packet should give: a term with the last one. -/
def marks (p : Packet) : List (Option (ℕ × List UInt8)) :=
  List.replicate (p.payload.length + 1) none ++ [some (p.payload.length, p.payload)]

/-- Lengths that are rebuilt right, are not zero, and leave room for the two bytes before. -/
def Announceable (len : ℕ) : Prop :=
  0 < len ∧ len + 2 ≤ 0xFFFF ∧ (len % 256 < 128 ∨ len / 256 = 255)

instance (len : ℕ) : Decidable (Announceable len) :=
  inferInstanceAs (Decidable (_ ∧ _ ∧ _))

theorem runOut_packet {s : Logger} (h : Idle s) {p : Packet}
    (hgood : Announceable p.payload.length) :
    ∃ t outs, runOut step s (packet2 p.payload) = some (t, outs) ∧
      outs.map Out.term = marks p ∧ Idle t := by
  rcases hgood with ⟨hpos, hroom, hbytes⟩
  have hlen : rebuilt p.payload.length = p.payload.length := by
    rw [rebuilt_eq p.length_lt]
    split_ifs <;> omega
  rcases List.eq_nil_or_concat p.payload with hnil | ⟨xs, x, hsplit⟩
  · rw [hnil] at hpos
    exact absurd hpos (Nat.lt_irrefl 0)
  have hcount : p.payload.length = xs.length + 1 := by simp [hsplit]
  -- The length bytes, all bytes of the payload but the last, and the last one.
  rcases runOut_length h p.payload.length with ⟨t1, outs1, ht1, houts1, hcollect⟩
  rw [hlen] at hcollect
  rcases hcollect.run_inside xs (by simp; omega) (by simp; omega) with
    ⟨t2, outs2, ht2, houts2, hcollect2⟩
  rw [List.nil_append] at hcollect2
  rcases hcollect2.step_last x (by omega) hcount.symm with ⟨t3, out, ht3, hout, hidle⟩
  refine ⟨t3, outs1 ++ (outs2 ++ [out]), ?_, ?_, hidle⟩
  · have hlast : runOut step t2 [x] = some (t3, [out]) := by simp [runOut, ht3]
    have hpayload : runOut step t1 p.payload = some (t3, outs2 ++ [out]) := by
      rw [hsplit, List.concat_eq_append, runOut_append, ht2]
      simp [hlast]
    rw [packet2, runOut_append, ht1]
    simp [hpayload]
  · have hterm : xs ++ [x] = p.payload := by rw [hsplit, List.concat_eq_append]
    rw [marks, List.map_append, List.map_append, houts1, houts2, List.map_singleton, hout, hterm,
      hcount, ← List.append_assoc]
    rfl

/-- A packet of any other length does not take the logger back to state 0. -/
theorem not_idle_of_not_announceable {s : Logger} (h : Idle s) {p : Packet}
    (hbad : ¬ Announceable p.payload.length) {t : Logger} {outs : List Out}
    (hrun : runOut step s (packet2 p.payload) = some (t, outs)) : t.state ≠ 0 := by
  have hlt := p.length_lt
  rcases runOut_length h p.payload.length with ⟨t1, outs1, ht1, -, hcollect⟩
  rw [packet2, runOut_append, ht1, Option.bind_some] at hrun
  rcases Option.map_eq_some_iff.mp hrun with ⟨⟨t2, outs2⟩, hpayload, heq⟩
  rw [Prod.mk.injEq] at heq
  rcases heq with ⟨rfl, -⟩
  by_cases hzero : p.payload.length = 0
  · -- The end of the term was before its first byte.
    rw [List.length_eq_zero_iff.mp hzero] at hpayload
    cases hpayload
    rw [hcollect.state_eq]
    decide
  by_cases hroom : p.payload.length + 2 ≤ 0xFFFF
  · -- The rebuilt length is too large.
    have hmore : p.payload.length < rebuilt p.payload.length := by
      rw [rebuilt_eq hlt]
      simp only [Announceable, not_and_or, not_or, not_lt] at hbad
      split_ifs <;> omega
    rcases hcollect.run_inside p.payload (by simpa using hroom)
        (Or.inr (by simpa using hmore)) with
      ⟨u, outs', hu, -, hcollect'⟩
    rw [hpayload] at hu
    cases hu
    rw [hcollect'.state_eq]
    decide
  · -- The last bytes do not fit into the buffer.
    have hbytes : rebuilt p.payload.length = p.payload.length := by
      rw [rebuilt_eq hlt]
      split_ifs <;> omega
    rw [hbytes] at hcollect
    have hhead : (p.payload.take 0xFFFD).length = 0xFFFD := by
      rw [List.length_take]
      omega
    rcases hcollect.run_inside (p.payload.take 0xFFFD) (by simp [hhead]) (by simp [hhead]; omega)
      with ⟨u, outs', hu, -, hcollect'⟩
    rw [List.nil_append] at hcollect'
    cases htail : p.payload.drop 0xFFFD with
    | nil =>
        have hshort := congrArg List.length htail
        rw [List.length_drop, List.length_nil] at hshort
        omega
    | cons c rest =>
        have hsplit : p.payload = p.payload.take 0xFFFD ++ c :: rest := by
          rw [← htail, List.take_append_drop]
        have hfault := hcollect'.step_fault c (by omega)
        rw [hsplit, runOut_append, hu] at hpayload
        simp [runOut, hfault] at hpayload

/-! ## Streams of packets -/

/-- From the state `s`, a term ends with the last byte of each packet and nowhere else, it has the
length and the bytes of the packet, and the logger is in state 0 after each packet. -/
def FramedFrom (s : Logger) (ps : List Packet) : Prop :=
  ∀ qs, qs <+: ps → ∃ t outs, runOut step s (stream qs) = some (t, outs) ∧
    t.state = 0 ∧ outs.map Out.term = qs.flatMap marks

theorem stream_cons (p : Packet) (ps : List Packet) :
    stream (p :: ps) = packet2 p.payload ++ stream ps := by
  simp [stream]

theorem framedFrom_of_announceable {ps : List Packet} {s : Logger} (h : Idle s)
    (hgood : ∀ p ∈ ps, Announceable p.payload.length) : FramedFrom s ps := by
  intro qs hqs
  have hgood' : ∀ q ∈ qs, Announceable q.payload.length :=
    fun q hq => hgood q (hqs.subset hq)
  clear hqs
  induction qs generalizing s with
  | nil =>
      exact ⟨s, [], rfl, h.state_eq, rfl⟩
  | cons q qs ih =>
      rcases runOut_packet h (hgood' q (by simp)) with ⟨t, outs, ht, houts, hidle⟩
      rcases ih hidle (fun q' hq' => hgood' q' (by simp [hq'])) with ⟨u, outs', hu, hstate, houts'⟩
      refine ⟨u, outs ++ outs', ?_, hstate, ?_⟩
      · rw [stream_cons, runOut_append, ht]
        simp [hu]
      · rw [List.map_append, houts, houts', List.flatMap_cons]

theorem announceable_of_framedFrom {ps : List Packet} {s : Logger} (h : Idle s)
    (hframed : FramedFrom s ps) : ∀ p ∈ ps, Announceable p.payload.length := by
  induction ps generalizing s with
  | nil =>
      intro p hp
      cases hp
  | cons p ps ih =>
      -- The prefix of one packet settles the first; the logger is idle behind it.
      have hfirst : Announceable p.payload.length := by
        by_contra hbad
        rcases hframed [p] (by simp) with ⟨t, outs, hrun, hstate, -⟩
        have hpacket : runOut step s (packet2 p.payload) = some (t, outs) := by
          simpa [stream] using hrun
        exact not_idle_of_not_announceable h hbad hpacket hstate
      rcases runOut_packet h hfirst with ⟨t, outs, ht, houts, hidle⟩
      -- Longer prefixes of the stream settle the packets behind it.
      have hrest : FramedFrom t ps := by
        intro qs hqs
        rcases hframed (p :: qs) (List.cons_prefix_cons.mpr ⟨rfl, hqs⟩) with
          ⟨u, all, hrun, hstate, hall⟩
        rw [stream_cons, runOut_append, ht, Option.bind_some] at hrun
        rcases Option.map_eq_some_iff.mp hrun with ⟨⟨u', outs'⟩, hu, heq⟩
        rw [Prod.mk.injEq] at heq
        rcases heq with ⟨rfl, rfl⟩
        rw [List.map_append, houts, List.flatMap_cons, List.append_cancel_left_eq] at hall
        exact ⟨u', outs', hu, hstate, hall⟩
      intro q hq
      rcases List.mem_cons.mp hq with rfl | hmem
      · exact hfirst
      · exact ih hidle hrest q hmem

/-- The logger finds the packets of a stream exactly if it can rebuild the length of each. -/
theorem framed_iff_announceable (termBuf : Vector UInt8 0xFFFF) (ps : List Packet) :
    FramedFrom (start termBuf) ps ↔ ∀ p ∈ ps, Announceable p.payload.length :=
  ⟨announceable_of_framedFrom (start_idle termBuf), framedFrom_of_announceable (start_idle termBuf)⟩

/-- A packet of 128 zero bytes. -/
def zeros : Packet :=
  { payload := List.replicate 128 0
    length_lt := by simp }

/-- It is taken for the beginning of a longer one. -/
theorem not_framed_zeros : ¬ FramedFrom (start (Vector.replicate 0xFFFF 0)) [zeros] := by
  intro hframed
  have hgood := announceable_of_framedFrom (start_idle _) hframed zeros (by simp)
  rw [zeros, List.length_replicate] at hgood
  exact absurd hgood (by decide)

end TermLogger
end Etude
