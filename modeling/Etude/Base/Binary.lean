import Etude.Base.Digits

/-!
# Binary — writers of bytes and the readers that take them back

A reader takes a value off the front of a list of bytes and leaves the rest, or fails.  A type
whose writer and reader fit together on some of its values, and whose reader returns only those,
is `Framed`: exactly these values are read back, alone or one after another.
-/

namespace Etude
namespace Base

abbrev Get := StateT (List UInt8) Option

namespace Get

variable {α β : Type}

theorem pure_apply (a : α) (bytes : List UInt8) : (pure a : Get α) bytes = some (a, bytes) :=
  rfl

theorem bind_apply (x : Get α) (f : α → Get β) (bytes : List UInt8) :
    (x >>= f) bytes = (x bytes).bind fun p => f p.1 p.2 :=
  rfl

end Get

/-! ## Primitive readers and writers -/

/-- The next `n` bytes; it fails if there are fewer. -/
def getByteString (n : ℕ) : Get (List UInt8) := fun bytes =>
  if n ≤ bytes.length then some (bytes.take n, bytes.drop n) else none

def putWord32le (w : UInt32) : List UInt8 :=
  toLeBytes 4 w.toNat

def getWord32le : Get UInt32 := do
  let bytes ← getByteString 4
  return UInt32.ofNat (leBytes bytes)

theorem getByteString_append {n : ℕ} {s : List UInt8} (h : s.length = n) (rest : List UInt8) :
    getByteString n (s ++ rest) = some (s, rest) := by
  subst h
  simp [getByteString]

theorem length_of_getByteString {n : ℕ} {bytes s rest : List UInt8}
    (h : getByteString n bytes = some (s, rest)) : s.length = n := by
  unfold getByteString at h
  split at h
  · rename_i hle
    cases h
    exact List.length_take_of_le hle
  · cases h

theorem getWord32le_append (w : UInt32) (rest : List UInt8) :
    getWord32le (putWord32le w ++ rest) = some (w, rest) := by
  have hbytes : getByteString 4 (putWord32le w ++ rest) = some (putWord32le w, rest) :=
    getByteString_append (length_toLeBytes 4 w.toNat) rest
  have hword : UInt32.ofNat (leBytes (putWord32le w)) = w := by
    rw [putWord32le, leBytes_toLeBytes, Nat.mod_eq_of_lt (by simpa using w.toNat_lt)]
    exact UInt32.ofNat_toNat
  simp [getWord32le, Get.bind_apply, Get.pure_apply, hbytes, hword]

/-! ## Types with a reader and a writer -/

class Binary (α : Type) where
  put : α → List UInt8
  get : Get α

namespace Binary

variable {α : Type} [Binary α]

/-- What `decodeOrFail` returns on the bytes of `encode a`: the value and the bytes left over. -/
def decodeEncode (a : α) : Option (α × List UInt8) :=
  (get : Get α) (put a)

def getMany (α : Type) [Binary α] : ℕ → Get (List α)
  | 0 => return []
  | n + 1 => do
      let a ← get
      let rest ← getMany α n
      return a :: rest

/-- The reader returns values with `ok` only, and those it reads back in front of any bytes. -/
structure Framed (ok : α → Prop) : Prop where
  get_ok : ∀ {bytes a rest}, (get : Get α) bytes = some (a, rest) → ok a
  get_put : ∀ {a}, ok a → ∀ rest, (get : Get α) (put a ++ rest) = some (a, rest)

namespace Framed

variable {ok : α → Prop}

theorem decodeEncode_iff (h : Framed ok) (a : α) : decodeEncode a = some (a, []) ↔ ok a := by
  constructor
  · intro hget
    exact h.get_ok hget
  · intro ha
    have hget := h.get_put ha []
    rwa [List.append_nil] at hget

theorem getMany_put (h : Framed ok) {as : List α} (has : ∀ a ∈ as, ok a)
    (rest : List UInt8) : getMany α as.length (as.flatMap put ++ rest) = some (as, rest) := by
  induction as with
  | nil =>
      rfl
  | cons a as ih =>
      -- The first value is read in front of the bytes of the others.
      have hhead := h.get_put (has a (by simp)) (as.flatMap put ++ rest)
      have htail := ih (fun b hb => has b (by simp [hb]))
      simp only [List.length_cons, List.flatMap_cons, List.append_assoc, getMany,
        Get.bind_apply, Get.pure_apply, hhead, htail, Option.bind_some]

theorem ok_of_getMany (h : Framed ok) {n : ℕ} {bytes rest : List UInt8} {as : List α}
    (hget : getMany α n bytes = some (as, rest)) : ∀ a ∈ as, ok a := by
  induction n generalizing bytes as with
  | zero =>
      cases hget
      simp
  | succ n ih =>
      rcases Option.bind_eq_some_iff.mp hget with ⟨⟨b, bytes'⟩, hb, hrest⟩
      rcases Option.bind_eq_some_iff.mp hrest with ⟨⟨bs, bytes''⟩, hbs, hret⟩
      cases hret
      intro a ha
      rcases List.mem_cons.mp ha with rfl | hmem
      · exact h.get_ok hb
      · exact ih hbs a hmem

theorem getMany_iff (h : Framed ok) (as : List α) :
    getMany α as.length (as.flatMap put) = some (as, []) ↔ ∀ a ∈ as, ok a := by
  constructor
  · intro hget
    exact h.ok_of_getMany hget
  · intro has
    have hget := h.getMany_put has []
    rwa [List.append_nil] at hget

end Framed
end Binary

end Base
end Etude
