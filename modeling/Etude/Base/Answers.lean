import Mathlib.Data.List.Basic

/-!
# Answers — requests that are answered in order

A server receives numbered requests and answers each of them once, in order; the answers travel
to their receiver in order as well.  `InOrder sent answered pending` says where they are: `sent`
requests have been sent, the first `answered` of them have been answered, and `pending` are the
numbers of the answers on their way.
-/

namespace Etude
namespace Base

/-- The answers on their way are the last ones given, in order. -/
structure InOrder (sent answered : ℕ) (pending : List ℕ) : Prop where
  answered_le : answered ≤ sent
  length_le : pending.length ≤ answered
  pending_eq : pending = List.range' (answered - pending.length) pending.length

/-- The number of requests whose answer has not been received. -/
def outstanding (sent answered : ℕ) (pending : List ℕ) : ℕ :=
  sent - answered + pending.length

namespace InOrder

variable {sent answered n : ℕ} {pending : List ℕ}

theorem start : InOrder 0 0 [] :=
  { answered_le := Nat.le_refl 0
    length_le := Nat.le_refl 0
    pending_eq := rfl }

theorem send (h : InOrder sent answered pending) : InOrder (sent + 1) answered pending :=
  { answered_le := Nat.le_succ_of_le h.answered_le
    length_le := h.length_le
    pending_eq := h.pending_eq }

theorem answer (h : InOrder sent answered pending) (hlt : answered < sent) :
    InOrder sent (answered + 1) (pending ++ [answered]) := by
  have hlen := h.length_le
  refine
    { answered_le := hlt
      length_le := by simpa using hlen
      pending_eq := ?_ }
  have hfirst : answered + 1 - (pending ++ [answered]).length = answered - pending.length := by
    rw [List.length_append, List.length_singleton]
    omega
  -- The new number continues the range.
  have hlast : answered - pending.length + pending.length = answered := by omega
  rw [hfirst, List.length_append, List.length_singleton, List.range'_concat, Nat.one_mul, hlast,
    ← h.pending_eq]

theorem receive (h : InOrder sent answered (n :: pending)) : InOrder sent answered pending := by
  have hlen := h.length_le
  have heq := h.pending_eq
  rw [List.length_cons] at hlen heq
  rw [List.range'_succ, List.cons.injEq] at heq
  -- The range without its first number starts one later.
  have hnext : answered - (pending.length + 1) + 1 = answered - pending.length := by omega
  exact
    { answered_le := h.answered_le
      length_le := by omega
      pending_eq := by rw [← hnext]; exact heq.2 }

/-- The next answer to be received is the oldest outstanding one. -/
theorem next_eq (h : InOrder sent answered (n :: pending)) :
    n + outstanding sent answered (n :: pending) = sent := by
  have hle := h.answered_le
  have hlen := h.length_le
  have heq := h.pending_eq
  rw [List.length_cons] at hlen heq
  rw [List.range'_succ, List.cons.injEq] at heq
  rw [outstanding, List.length_cons, heq.1]
  omega

end InOrder

section Outstanding

variable {sent answered n : ℕ} {pending : List ℕ}

theorem outstanding_send (h : answered ≤ sent) :
    outstanding (sent + 1) answered pending = outstanding sent answered pending + 1 := by
  unfold outstanding
  omega

theorem outstanding_answer (h : answered < sent) :
    outstanding sent (answered + 1) (pending ++ [answered]) =
      outstanding sent answered pending := by
  simp only [outstanding, List.length_append, List.length_singleton]
  omega

theorem outstanding_receive :
    outstanding sent answered (n :: pending) = outstanding sent answered pending + 1 :=
  rfl

end Outstanding

/-- The answers that the receiver has kept: it may have thrown others away, but it has had all of
them before those on their way. -/
structure InTurn (answered : ℕ) (pending kept : List ℕ) : Prop where
  ascending : kept.Pairwise (· < ·)
  before : ∀ n ∈ kept, n < answered - pending.length

namespace InTurn

variable {sent answered n : ℕ} {pending kept : List ℕ}

theorem start : InTurn 0 [] [] :=
  { ascending := List.Pairwise.nil
    before := fun _ h => by cases h }

theorem answer (h : InTurn answered pending kept) (hlen : pending.length ≤ answered) :
    InTurn (answered + 1) (pending ++ [answered]) kept :=
  { ascending := h.ascending
    before := by
      intro n hn
      have hbefore := h.before n hn
      rw [List.length_append, List.length_singleton]
      omega }

/-- The next answer is thrown away. -/
theorem pass (h : InTurn answered (n :: pending) kept) : InTurn answered pending kept :=
  { ascending := h.ascending
    before := by
      intro m hm
      have hbefore := h.before m hm
      rw [List.length_cons] at hbefore
      omega }

/-- The next answer is kept. -/
theorem keep (h : InTurn answered (n :: pending) kept)
    (horder : InOrder sent answered (n :: pending)) :
    InTurn answered pending (kept ++ [n]) := by
  have hnext := horder.next_eq
  have hle := horder.answered_le
  have hlen := horder.length_le
  rw [outstanding] at hnext
  rw [List.length_cons] at hnext hlen
  refine
    { ascending := ?_
      before := ?_ }
  · -- What was kept has left the queue before, so its number is below those in it.
    rw [List.pairwise_append]
    refine ⟨h.ascending, List.pairwise_singleton _ _, ?_⟩
    intro m hm k hk
    have hbefore := h.before m hm
    rw [List.length_cons] at hbefore
    rw [List.mem_singleton.mp hk]
    omega
  · intro m hm
    rcases List.mem_append.mp hm with hold | hnew
    · exact h.pass.before m hold
    · rw [List.mem_singleton.mp hnew]
      omega

end InTurn

end Base
end Etude
