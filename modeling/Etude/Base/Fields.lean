import Mathlib.Data.List.Nodup

/-!
# Fields — objects read and updated by the names of their fields

`Fields` is a family of fields of an object, each updated on its own.  When some keys name fields,
no two of them the same, reading and writing by key obey the laws of a store
(`Fields.read_write`, `Fields.read_write_ne`), and writing all entries of a map gives the same
object in any order of its entries (`Fields.writeAll_perm`).
-/

namespace Etude
namespace Base

universe u v w x

/-- Fields `ι` with values `β` of an object `σ`. -/
structure Fields (ι : Type u) (σ : Type v) (β : Type w) where
  get : σ → ι → β
  put : σ → ι → β → σ
  get_put : ∀ s i b, get (put s i b) i = b
  get_put_ne : ∀ s i j b, j ≠ i → get (put s i b) j = get s j
  put_comm : ∀ s i j b c, i ≠ j → put (put s i b) j c = put (put s j c) i b

/-- Keys that name a field each, no field having two. -/
structure Naming (κ : Type x) (ι : Type u) where
  field : κ → Option ι
  injective : ∀ k l i, field k = some i → field l = some i → k = l

/-- Writing every entry of a map into an object, where a write may fail. -/
def writeEach {κ : Type x} {σ : Type v} {β : Type w} (write : σ → κ → β → Option σ) (s : σ)
    (entries : List (κ × β)) : Option σ :=
  entries.foldl (fun t e => t.bind fun t => write t e.1 e.2) (some s)

theorem writeEach_isSome {κ : Type x} {σ : Type v} {β : Type w} {write : σ → κ → β → Option σ}
    {entries : List (κ × β)} (h : ∀ e ∈ entries, ∀ s, (write s e.1 e.2).isSome) (s : σ) :
    (writeEach write s entries).isSome := by
  induction entries generalizing s with
  | nil =>
      rfl
  | cons e entries ih =>
      rw [List.forall_mem_cons] at h
      rcases Option.isSome_iff_exists.mp (h.1 s) with ⟨t, ht⟩
      have hstep : writeEach write s (e :: entries) = writeEach write t entries := by
        rw [writeEach, List.foldl_cons, Option.bind_some, ht]
        rfl
      rw [hstep]
      exact ih h.2 t

/-- Writes that commute on different keys may come in any order. -/
theorem writeEach_perm {κ : Type x} {σ : Type v} {β : Type w} {write : σ → κ → β → Option σ}
    (hcomm : ∀ s k l b c, k ≠ l →
      (write s k b).bind (fun t => write t l c) = (write s l c).bind fun t => write t k b)
    {entries entries' : List (κ × β)} (hperm : entries.Perm entries')
    (hkeys : (entries.map Prod.fst).Nodup) (s : σ) :
    writeEach write s entries = writeEach write s entries' := by
  refine hperm.foldl_eq' ?_ (some s)
  intro d hd e he t
  by_cases hde : d.1 = e.1
  · -- A map has one entry for a key.
    rw [List.inj_on_of_nodup_map hkeys hd he hde]
  · cases t with
    | none =>
        rfl
    | some t =>
        exact hcomm t d.1 e.1 d.2 e.2 hde

namespace Fields

variable {κ : Type x} {ι : Type u} {σ : Type v} {β : Type w} (F : Fields ι σ β) (N : Naming κ ι)

def read (s : σ) (k : κ) : Option β :=
  (N.field k).map (F.get s)

def write (s : σ) (k : κ) (b : β) : Option σ :=
  (N.field k).map fun i => F.put s i b

theorem write_isSome {k : κ} (hk : (N.field k).isSome) (s : σ) (b : β) :
    (F.write N s k b).isSome := by
  rwa [write, Option.isSome_map]

theorem read_write {k : κ} (hk : (N.field k).isSome) (s : σ) (b : β) :
    (F.write N s k b).bind (fun t => F.read N t k) = some b := by
  rcases Option.isSome_iff_exists.mp hk with ⟨i, hi⟩
  simp [write, read, hi, F.get_put]

theorem read_write_ne {k l : κ} (hk : (N.field k).isSome) (hkl : l ≠ k) (s : σ) (b : β) :
    (F.write N s k b).bind (fun t => F.read N t l) = F.read N s l := by
  rcases Option.isSome_iff_exists.mp hk with ⟨i, hi⟩
  cases hl : N.field l with
  | none =>
      simp [write, read, hi, hl]
  | some j =>
      have hij : j ≠ i := by
        rintro rfl
        exact hkl (N.injective l k j hl hi)
      simp [write, read, hi, hl, F.get_put_ne s i j b hij]

theorem write_comm (s : σ) (k l : κ) (b c : β) (hkl : k ≠ l) :
    (F.write N s k b).bind (fun t => F.write N t l c) =
      (F.write N s l c).bind fun t => F.write N t k b := by
  cases hk : N.field k with
  | none =>
      cases hl : N.field l with
      | none => simp [write, hk, hl]
      | some j => simp [write, hk, hl]
  | some i =>
      cases hl : N.field l with
      | none =>
          simp [write, hk, hl]
      | some j =>
          have hij : i ≠ j := by
            rintro rfl
            exact hkl (N.injective k l i hk hl)
          simp [write, hk, hl, F.put_comm s i j b c hij]

/-- Writing the entries of a map does not depend on their order. -/
theorem writeAll_perm {entries entries' : List (κ × β)} (hperm : entries.Perm entries')
    (hkeys : (entries.map Prod.fst).Nodup) (s : σ) :
    writeEach (F.write N) s entries = writeEach (F.write N) s entries' :=
  writeEach_perm (F.write_comm N) hperm hkeys s

end Fields

end Base
end Etude
