import Mathlib.Data.List.Infix
import Mathlib.Data.List.ModifyLast

/-!
# Guarded — sections that write to one output under one lock

Jobs enter a section one at a time, each with a block that it writes piece by piece, and leave it
when the block is written.  A block need not be known when the section is entered: its job may get
more of it later, and waits for it in the section.  `entered` records the blocks in the order in
which the sections were entered; no operation reads it.  However the pieces are written, the output
is made of the blocks of the sections left and the beginning of the block of the one that is not
(`Consistent`).
-/

namespace Etude
namespace Base

universe u v

structure Guarded (ι : Type u) (α : Type v) where
  /-- The job in the section, with what it has still to write. -/
  holder : Option (ι × List α)
  output : List α
  entered : List (ι × List α)

namespace Guarded

variable {ι : Type u} {α : Type v}

def init : Guarded ι α :=
  { holder := none
    output := []
    entered := [] }

/-- The lock is taken. -/
def enter (g : Guarded ι α) (i : ι) (block : List α) : Option (Guarded ι α) :=
  match g.holder with
  | none =>
      some
        { g with
          holder := some (i, block)
          entered := g.entered ++ [(i, block)] }
  | some _ => none

/-- The next piece of the block is written. -/
def write (g : Guarded ι α) : Option (Guarded ι α) :=
  match g.holder with
  | some (i, a :: rest) =>
      some
        { g with
          holder := some (i, rest)
          output := g.output ++ [a] }
  | _ => none

/-- There is more of the block, all of which has been written so far. -/
def extend (g : Guarded ι α) (more : List α) : Option (Guarded ι α) :=
  match g.holder with
  | some (i, []) =>
      some
        { g with
          holder := some (i, more)
          entered := g.entered.modifyLast fun p => (p.1, p.2 ++ more) }
  | _ => none

/-- The lock is given back. -/
def leave (g : Guarded ι α) : Option (ι × Guarded ι α) :=
  match g.holder with
  | some (i, []) => some (i, { g with holder := none })
  | _ => none

/-! ## What each operation does -/

section Operations

variable {g g' : Guarded ι α} {i : ι} {block : List α}

theorem enter_eq_some (h : g.enter i block = some g') :
    g.holder = none ∧
      g' = { g with holder := some (i, block), entered := g.entered ++ [(i, block)] } := by
  unfold enter at h
  split at h
  · rename_i hholder
    exact ⟨hholder, (Option.some.inj h).symm⟩
  · cases h

theorem write_eq_some (h : g.write = some g') :
    ∃ i a rest, g.holder = some (i, a :: rest) ∧
      g' = { g with holder := some (i, rest), output := g.output ++ [a] } := by
  unfold write at h
  split at h
  · rename_i i a rest hholder
    exact ⟨i, a, rest, hholder, (Option.some.inj h).symm⟩
  · cases h

theorem extend_eq_some {more : List α} (h : g.extend more = some g') :
    ∃ i, g.holder = some (i, []) ∧
      g' =
        { g with
          holder := some (i, more)
          entered := g.entered.modifyLast fun p => (p.1, p.2 ++ more) } := by
  unfold extend at h
  split at h
  · rename_i i hholder
    exact ⟨i, hholder, (Option.some.inj h).symm⟩
  · cases h

theorem leave_eq_some (h : g.leave = some (i, g')) :
    g.holder = some (i, []) ∧ g' = { g with holder := none } := by
  unfold leave at h
  split at h
  · rename_i j hholder
    cases h
    exact ⟨hholder, rfl⟩
  · cases h

theorem enter_of_holder_eq_none (h : g.holder = none) (i : ι) (block : List α) :
    g.enter i block =
      some { g with holder := some (i, block), entered := g.entered ++ [(i, block)] } := by
  unfold enter
  rw [h]

end Operations

/-! ## The output -/

def blocks (g : Guarded ι α) : List (List α) :=
  g.entered.map Prod.snd

/-- The output is what the sections have written, each without anything of another in between. -/
def Consistent (g : Guarded ι α) : Prop :=
  match g.holder with
  | none => g.output = g.blocks.flatten
  | some (i, rest) =>
      ∃ before written, g.entered = before ++ [(i, written ++ rest)] ∧
        g.output = (before.map Prod.snd).flatten ++ written

theorem consistent_init : Consistent (init : Guarded ι α) :=
  rfl

section Consistent

variable {g g' : Guarded ι α} {i : ι} {block : List α}

theorem Consistent.enter (hg : g.Consistent) (h : g.enter i block = some g') : g'.Consistent := by
  rcases enter_eq_some h with ⟨hholder, rfl⟩
  unfold Consistent at hg ⊢
  rw [hholder] at hg
  exact ⟨g.entered, [], rfl, by simpa [blocks] using hg⟩

theorem Consistent.write (hg : g.Consistent) (h : g.write = some g') : g'.Consistent := by
  rcases write_eq_some h with ⟨i, a, rest, hholder, rfl⟩
  unfold Consistent at hg ⊢
  rw [hholder] at hg
  rcases hg with ⟨before, written, hentered, houtput⟩
  exact ⟨before, written ++ [a], by simpa using hentered, by simp [houtput]⟩

theorem Consistent.extend {more : List α} (hg : g.Consistent) (h : g.extend more = some g') :
    g'.Consistent := by
  rcases extend_eq_some h with ⟨i, hholder, rfl⟩
  unfold Consistent at hg ⊢
  rw [hholder] at hg
  rcases hg with ⟨before, written, hentered, houtput⟩
  refine ⟨before, written, ?_, houtput⟩
  simp only [hentered, List.modifyLast_concat, List.append_nil]

theorem Consistent.leave (hg : g.Consistent) (h : g.leave = some (i, g')) : g'.Consistent := by
  rcases leave_eq_some h with ⟨hholder, rfl⟩
  unfold Consistent at hg ⊢
  rw [hholder] at hg
  rcases hg with ⟨before, written, hentered, houtput⟩
  simp [blocks, hentered, houtput]

theorem Consistent.output_of_free (hg : g.Consistent) (h : g.holder = none) :
    g.output = g.blocks.flatten := by
  unfold Consistent at hg
  rwa [h] at hg

/-- The section that goes on is the last one entered. -/
theorem Consistent.of_holder {rest : List α} (hg : g.Consistent) (h : g.holder = some (i, rest)) :
    ∃ before written, g.entered = before ++ [(i, written ++ rest)] ∧
      g.output = (before.map Prod.snd).flatten ++ written := by
  unfold Consistent at hg
  rwa [h] at hg

/-- The output is the blocks entered, up to a part of the last one. -/
theorem Consistent.output_prefix (hg : g.Consistent) :
    g.output <+: g.blocks.flatten ∧ g.blocks.dropLast.flatten <+: g.output := by
  rcases hholder : g.holder with _ | ⟨i, rest⟩
  · rw [hg.output_of_free hholder]
    refine ⟨List.prefix_rfl, ?_⟩
    exact List.IsPrefix.flatten (List.dropLast_prefix g.blocks)
  · rcases hg.of_holder hholder with ⟨before, written, hentered, houtput⟩
    rw [blocks, hentered, houtput]
    refine ⟨⟨rest, by simp⟩, ?_⟩
    exact ⟨written, by simp⟩

theorem Consistent.mem_of_holder {rest : List α} (hg : g.Consistent)
    (h : g.holder = some (i, rest)) : ∃ block, (i, block) ∈ g.entered := by
  rcases hg.of_holder h with ⟨before, written, hentered, -⟩
  exact ⟨written ++ rest, by simp [hentered]⟩

end Consistent

end Guarded

end Base
end Etude
