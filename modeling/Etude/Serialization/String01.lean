import Etude.Base.Binary

/-!
# String01 — strings of a fixed read size

The `Binary` instances of `String01Main.hs`.  Their `put` writes the bytes of a string as they
are, their `get` reads 256 of them, so just the values with strings of 256 bytes come back.
-/

namespace Etude
namespace Serialization

open Base

structure MyString where
  s : List UInt8
  deriving DecidableEq, Repr

structure MyData where
  i : UInt32
  s : List UInt8
  deriving DecidableEq, Repr

instance : Binary MyString where
  put d := d.s
  get := do
    let s ← getByteString 256
    return { s := s }

instance : Binary MyData where
  put d := putWord32le d.i ++ d.s
  get := do
    let i ← getWord32le
    let s ← getByteString 256
    return { i := i, s := s }

theorem myString_framed : Binary.Framed fun d : MyString => d.s.length = 256 := by
  constructor
  · intro bytes d rest hget
    rcases Option.bind_eq_some_iff.mp hget with ⟨⟨s, bytes'⟩, hs, hret⟩
    cases hret
    exact length_of_getByteString hs
  · intro d hd rest
    have hs := getByteString_append hd rest
    simp only [Binary.get, Binary.put, Get.bind_apply, Get.pure_apply, hs, Option.bind_some]

theorem myData_framed : Binary.Framed fun d : MyData => d.s.length = 256 := by
  constructor
  · intro bytes d rest hget
    rcases Option.bind_eq_some_iff.mp hget with ⟨⟨i, bytes'⟩, -, hrest⟩
    rcases Option.bind_eq_some_iff.mp hrest with ⟨⟨s, bytes''⟩, hs, hret⟩
    cases hret
    exact length_of_getByteString hs
  · intro d hd rest
    have hi := getWord32le_append d.i (d.s ++ rest)
    have hs := getByteString_append hd rest
    simp only [Binary.get, Binary.put, List.append_assoc, Get.bind_apply, Get.pure_apply, hi, hs,
      Option.bind_some]

/-- A value comes back from its bytes, with none left over, exactly if its string has the read
size, and values written one after another do exactly if all their strings have it. -/
theorem binary_instances_iff (m : MyString) (d : MyData) (ms : List MyString)
    (ds : List MyData) :
    (Binary.decodeEncode m = some (m, []) ↔ m.s.length = 256) ∧
    (Binary.decodeEncode d = some (d, []) ↔ d.s.length = 256) ∧
    (Binary.getMany MyString ms.length (ms.flatMap Binary.put) = some (ms, []) ↔
      ∀ m ∈ ms, m.s.length = 256) ∧
    (Binary.getMany MyData ds.length (ds.flatMap Binary.put) = some (ds, []) ↔
      ∀ d ∈ ds, d.s.length = 256) := by
  refine ⟨?_, ?_, ?_, ?_⟩
  · exact myString_framed.decodeEncode_iff m
  · exact myData_framed.decodeEncode_iff d
  · exact myString_framed.getMany_iff ms
  · exact myData_framed.getMany_iff ds

/-- The value that `main` encodes, the digits `0123456`, is too short to be read back. -/
theorem mainData_not_read_back :
    ¬ ∀ d : MyData, Binary.decodeEncode d = some (d, []) := by
  intro h
  have hlen := (myData_framed.decodeEncode_iff _).mp
    (h { i := 123456, s := [48, 49, 50, 51, 52, 53, 54] })
  exact absurd hlen (by decide)

end Serialization
end Etude
