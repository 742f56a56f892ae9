import Etude.Base.Digits

/-!
# Packet — packets preceded by their length

What the `{packet, 2}` driver of a port writes and delivers: the payload behind its length in two
bytes, the high one first.
-/

namespace Etude
namespace Base

/-- What the driver writes for a binary: its length in two bytes, and the binary. -/
def packet2 (payload : List UInt8) : List UInt8 :=
  toBeBytes 2 payload.length ++ payload

/-- What the driver delivers for a packet; `none` if the length does not fit. -/
def unpacket2 : List UInt8 → Option (List UInt8)
  | hi :: lo :: payload => if beBytes [hi, lo] = payload.length then some payload else none
  | _ => none

theorem unpacket2_packet2 {payload : List UInt8} (h : payload.length < 2 ^ 16) :
    unpacket2 (packet2 payload) = some payload := by
  have hlen : beBytes (toBeBytes 2 payload.length) = payload.length := by
    rw [beBytes_toBeBytes, Nat.mod_eq_of_lt]
    exact h
  have hbytes : toBeBytes 2 payload.length =
      [UInt8.ofNat (payload.length / 256), UInt8.ofNat payload.length] := rfl
  rw [hbytes] at hlen
  rw [packet2, hbytes]
  simp [unpacket2, hlen]

end Base
end Etude
