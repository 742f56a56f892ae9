import Etude.Clock.Client
import Etude.Clock.Port

/-!
# Response — what `HandleRequest` writes

`HandleRequest` stays inside `lpWriteBuffer` and writes one `{packet, 2}` packet whose payload
depends on the request and the clocks alone (`handleRequest_spec`), whatever earlier requests left
in the buffer.
-/

namespace Etude
namespace Clock

open Base

/-! ## The payload -/

/-- `ullTimeVal` of a request other than 2 and 3. -/
def reading (wRequestID : UInt16) (env : Env) : UInt64 :=
  if wRequestID = 1 then env.steadyClockNano else env.wallClockNano

/-- The payload of the answer to a request. -/
def payload (wRequestID wParam : UInt16) (env : Env) : List UInt8 :=
  if wRequestID = 2 then systemTimeText env
  else if wRequestID = 3 then localTimeText env
  else toBeBytes 8 (scale wParam (reading wRequestID env)).toNat

/-! ## The texts fit into the buffer -/

theorem length_padDec_le {w n k : ℕ} (hw : w ≤ k) (hn : n < 10 ^ k) :
    (padDec w n).length ≤ k := by
  rw [padDec, List.length_map]
  exact length_padDigits_le hw hn

theorem length_padDec_word {w : ℕ} (hw : w ≤ 5) (n : UInt16) :
    (padDec w n.toNat).length ≤ 5 := by
  have hn := n.toNat_lt
  exact length_padDec_le hw (by omega)

theorem length_formatTime (st : SystemTime) : (formatTime st).length ≤ 41 := by
  have h4 : ∀ n : UInt16, (padDec 4 n.toNat).length ≤ 5 := length_padDec_word (by decide)
  have h3 : ∀ n : UInt16, (padDec 3 n.toNat).length ≤ 5 := length_padDec_word (by decide)
  have h2 : ∀ n : UInt16, (padDec 2 n.toNat).length ≤ 5 := length_padDec_word (by decide)
  have hY := h4 st.wYear
  have hM := h2 st.wMonth
  have hD := h2 st.wDay
  have hh := h2 st.wHour
  have hm := h2 st.wMinute
  have hs := h2 st.wSecond
  have hms := h3 st.wMilliseconds
  simp only [formatTime, List.length_append, List.length_singleton]
  omega

theorem length_systemTimeText (env : Env) :
    0 < (systemTimeText env).length ∧ (systemTimeText env).length ≤ 61 := by
  have h := length_formatTime env.systemTime
  simp only [systemTimeText, List.length_append, List.length_singleton]
  omega

theorem length_localTimeText (env : Env) :
    0 < (localTimeText env).length ∧ (localTimeText env).length ≤ 61 := by
  have htime := length_formatTime env.localTime
  have hlo := Int32.le_toInt env.bias
  have hhi := Int32.toInt_lt env.bias
  -- `Bias` may be any 32-bit number, so the hours can take eight digits.
  have hhour : ∀ n : ℕ, n ≤ 2 ^ 31 → (padDec 2 (n / 60)).length ≤ 8 :=
    fun n hn => length_padDec_le (by decide) (by omega)
  have hminute : ∀ n : ℕ, (padDec 2 (n % 60)).length ≤ 2 :=
    fun n => length_padDec_le (by decide) (by omega)
  have hzero : (padDec 2 0).length ≤ 2 := length_padDec_le (by decide) (by decide)
  have hh := hhour env.bias.toInt.natAbs (by omega)
  have hm := hminute env.bias.toInt.natAbs
  simp only [localTimeText, List.length_append, List.length_singleton]
  split_ifs <;> omega

/-! ## Bytes of the timestamp -/

theorem byteOf_eq (t k : UInt64) (hk : k.toNat < 64) :
    byteOf t k = UInt8.ofNat (t.toNat / 2 ^ k.toNat) := by
  apply UInt8.toNat_inj.mp
  have hmask : (0xff : UInt64).toNat = 2 ^ 8 - 1 := rfl
  rw [byteOf, UInt64.toNat_toUInt8, UInt64.toNat_and, UInt64.toNat_shiftRight, hmask,
    Nat.and_two_pow_sub_one_eq_mod, Nat.mod_mod, Nat.mod_eq_of_lt hk, Nat.shiftRight_eq_div_pow,
    UInt8.toNat_ofNat']

theorem toBeBytes_timestamp (t : UInt64) :
    toBeBytes 8 t.toNat =
      [byteOf t 56, byteOf t 48, byteOf t 40, byteOf t 32, byteOf t 24, byteOf t 16, byteOf t 8,
        byteOf t 0] := by
  have hbyte : ∀ k : UInt64, k.toNat < 64 → byteOf t k = UInt8.ofNat (t.toNat / 2 ^ k.toNat) :=
    byteOf_eq t
  rw [hbyte 56 (by decide), hbyte 48 (by decide), hbyte 40 (by decide), hbyte 32 (by decide),
    hbyte 24 (by decide), hbyte 16 (by decide), hbyte 8 (by decide), hbyte 0 (by decide)]
  simp [toBeBytes, toLeBytes, Nat.div_div_eq_div_mul]

/-! ## `HandleRequest` -/

theorem sizeBytes_eq (n : ℕ) :
    toBeBytes 2 n = [UInt8.ofNat (n / 256 % 256), UInt8.ofNat (n % 256)] := by
  have hmod : ∀ m : ℕ, UInt8.ofNat (m % 256) = UInt8.ofNat m := by
    intro m
    apply UInt8.toNat_inj.mp
    simp
  rw [hmod, hmod]
  rfl

/-- The head of a buffer of 64 bytes. -/
theorem buffer_cases {buffer : List UInt8} (h : buffer.length = 64) :
    ∃ b0 b1 b2 b3 b4 b5 b6 b7 b8 b9 rest,
      buffer = b0 :: b1 :: b2 :: b3 :: b4 :: b5 :: b6 :: b7 :: b8 :: b9 :: rest ∧
        rest.length = 54 := by
  match buffer, h with
  | b0 :: b1 :: b2 :: b3 :: b4 :: b5 :: b6 :: b7 :: b8 :: b9 :: rest, h =>
      exact ⟨b0, b1, b2, b3, b4, b5, b6, b7, b8, b9, rest, rfl, by simpa using h⟩

theorem handleRequest_timestamp {buffer : List UInt8} (h : buffer.length = 64)
    {id param : UInt16} (env : Env) (h2 : id ≠ 2) (h3 : id ≠ 3) :
    ∃ buffer', handleRequest buffer id param env =
        some (buffer', packet2 (payload id param env), env.writeFile) ∧
      buffer'.length = 64 := by
  have hclock : readClock buffer id env = some (buffer, reading id env, 8) := by
    by_cases h0 : id = 0
    · simp [readClock, reading, h0]
    by_cases h1 : id = 1
    · simp [readClock, reading, h1]
    · simp [readClock, reading, h0, h1, h2, h3]
  -- Every other request stores the timestamp.
  have hbranch : 2 > id ∨ 3 < id := by
    simp only [gt_iff_lt, UInt16.lt_iff_toNat_lt]
    have hn2 : id.toNat ≠ 2 := fun hn => h2 (UInt16.toNat_inj.mp hn)
    have hn3 : id.toNat ≠ 3 := fun hn => h3 (UInt16.toNat_inj.mp hn)
    have e2 : (2 : UInt16).toNat = 2 := rfl
    have e3 : (3 : UInt16).toNat = 3 := rfl
    omega
  rcases buffer_cases h with ⟨b0, b1, b2, b3, b4, b5, b6, b7, b8, b9, rest, rfl, hrest⟩
  have hpacket : packet2 (payload id param env) =
      [0, 8] ++ toBeBytes 8 (scale param (reading id env)).toNat := by
    simp [packet2, payload, h2, h3, sizeBytes_eq]
  rw [hpacket, toBeBytes_timestamp]
  -- The first ten bytes are overwritten; what the buffer held before is gone.
  generalize ht : scale param (reading id env) = t at *
  refine ⟨0 :: 8 :: byteOf t 56 :: byteOf t 48 :: byteOf t 40 :: byteOf t 32 :: byteOf t 24 ::
    byteOf t 16 :: byteOf t 8 :: byteOf t 0 :: rest, ?_, ?_⟩
  · simp [handleRequest, hclock, hbranch, storeTimestamp, ht]
  · simpa using hrest

theorem sprintfAt_spec {b0 b1 : UInt8} {rest text : List UInt8} (hrest : rest.length = 62)
    (hpos : 0 < text.length) (hle : text.length ≤ 61) :
    sprintfAt (b0 :: b1 :: rest) text =
      some (b0 :: b1 :: (text ++ 0 :: rest.drop (text.length + 1)), text.length) := by
  have hfit : 2 + (text ++ [0]).length ≤ (b0 :: b1 :: rest).length := by
    simp only [List.length_append, List.length_cons, List.length_nil, hrest]
    omega
  have hsize : text.length % 2 ^ 16 = text.length := Nat.mod_eq_of_lt (by omega)
  have hdrop : (b0 :: b1 :: rest).drop (2 + (text.length + 1)) = rest.drop (text.length + 1) := by
    rw [Nat.add_comm 2]
    rfl
  rw [sprintfAt, writeAt_of_le hfit]
  simp only [Option.bind_eq_bind, Option.bind_some, if_pos hpos, hsize]
  simp [hdrop]

theorem handleRequest_text {buffer : List UInt8} (h : buffer.length = 64) (text : List UInt8)
    {id : UInt16} (param : UInt16) (env : Env) (hid : id = 2 ∨ id = 3)
    (hclock : readClock buffer id env =
      (sprintfAt buffer text).map fun p => (p.1, 0, p.2))
    (htext : payload id param env = text) (hpos : 0 < text.length) (hle : text.length ≤ 61) :
    ∃ buffer', handleRequest buffer id param env =
        some (buffer', packet2 (payload id param env), env.writeFile) ∧
      buffer'.length = 64 := by
  rcases buffer_cases h with ⟨b0, b1, b2, b3, b4, b5, b6, b7, b8, b9, rest, rfl, hrest⟩
  have hlen : (b2 :: b3 :: b4 :: b5 :: b6 :: b7 :: b8 :: b9 :: rest).length = 62 := by
    simpa using hrest
  generalize b2 :: b3 :: b4 :: b5 :: b6 :: b7 :: b8 :: b9 :: rest = rest' at *
  rw [sprintfAt_spec hlen hpos hle] at hclock
  have hbranch : ¬ (2 > id ∨ 3 < id) := by
    rcases hid with rfl | rfl <;> decide
  -- The two bytes of the size go in front of the text.
  have hbuffer : (text ++ 0 :: rest'.drop (text.length + 1)).length = 62 := by
    simp only [List.length_append, List.length_cons, List.length_drop]
    omega
  rw [htext, packet2, sizeBytes_eq]
  refine ⟨UInt8.ofNat (text.length / 256 % 256) :: UInt8.ofNat (text.length % 256) ::
    (text ++ 0 :: rest'.drop (text.length + 1)), ?_, ?_⟩
  · have hfit : text.length + 2 ≤ (text ++ 0 :: rest'.drop (text.length + 1)).length + 1 + 1 := by
      omega
    simp only [handleRequest, hclock, hbranch, Option.map_some, Option.bind_eq_bind,
      Option.bind_some, if_false, List.set_cons_succ, List.set_cons_zero, List.length_cons,
      hfit, if_true]
    simp
  · simp only [List.length_cons, hbuffer]

/-- `HandleRequest` does not fault, and the bytes it writes are the packet of the payload, from
any contents of the write buffer. -/
theorem handleRequest_spec {buffer : List UInt8} (h : buffer.length = 64) (id param : UInt16)
    (env : Env) :
    ∃ buffer', handleRequest buffer id param env =
        some (buffer', packet2 (payload id param env), env.writeFile) ∧
      buffer'.length = 64 := by
  by_cases h2 : id = 2
  · subst h2
    have hlen := length_systemTimeText env
    refine handleRequest_text h (systemTimeText env) param env (Or.inl rfl) ?_ rfl hlen.1 hlen.2
    cases hs : sprintfAt buffer (systemTimeText env) <;> simp [readClock, hs]
  by_cases h3 : id = 3
  · subst h3
    have hlen := length_localTimeText env
    refine handleRequest_text h (localTimeText env) param env (Or.inr rfl) ?_ rfl hlen.1 hlen.2
    cases hs : sprintfAt buffer (localTimeText env) <;> simp [readClock, hs]
  · exact handleRequest_timestamp h env h2 h3

end Clock
end Etude
