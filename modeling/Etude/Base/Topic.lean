import Mathlib.Data.List.TakeDrop
import Mathlib.Logic.Function.Basic

/-!
# Topic — a partitioned log and a consumer that may be rewound

Events are appended to the partitions of a log.  A consumer handles the events of each partition
in order and can be set back to an earlier position, so that it sees events again.  If handling
an event upserts the value of its key, and the key decides the partition, then a consumer that
has reached the end of a partition holds the latest value of each of its keys, however often it
was set back.
-/

namespace Etude
namespace Base

universe u v w x y

variable {ε : Type u} {π : Type v} {τ : Type w} {κ : Type x} {ν : Type y}

/-- The partitions of the log, the consumer's position in each, and what it has built. -/
structure Topic (ε : Type u) (π : Type v) (τ : Type w) where
  log : π → List ε
  pos : π → ℕ
  sink : τ

namespace Topic

section Operations

variable [DecidableEq π]

def empty (sink : τ) : Topic ε π τ :=
  { log := fun _ => []
    pos := fun _ => 0
    sink := sink }

def publish (t : Topic ε π τ) (p : π) (e : ε) : Topic ε π τ :=
  { t with log := Function.update t.log p (t.log p ++ [e]) }

/-- Handle the next event of partition `p`. -/
def deliver (handle : τ → ε → τ) (t : Topic ε π τ) (p : π) : Option (Topic ε π τ) :=
  -- At the end of the partition there is nothing to deliver.
  (t.log p)[t.pos p]?.map fun e =>
    { t with
      pos := Function.update t.pos p (t.pos p + 1)
      sink := handle t.sink e }

/-- Go back to an earlier position of partition `p`. -/
def rewind (t : Topic ε π τ) (p : π) (n : ℕ) : Option (Topic ε π τ) :=
  if n ≤ t.pos p then some { t with pos := Function.update t.pos p n } else none

@[simp] theorem publish_log_self (t : Topic ε π τ) (p : π) (e : ε) :
    (t.publish p e).log p = t.log p ++ [e] := by
  simp [publish]

theorem publish_log_of_ne (t : Topic ε π τ) {p p' : π} (h : p' ≠ p) (e : ε) :
    (t.publish p e).log p' = t.log p' := by
  simp [publish, h]

theorem deliver_eq_some {handle : τ → ε → τ} {t t' : Topic ε π τ} {p : π}
    (h : t.deliver handle p = some t') :
    ∃ e, (t.log p)[t.pos p]? = some e ∧ t'.log = t.log ∧
      t'.pos = Function.update t.pos p (t.pos p + 1) ∧ t'.sink = handle t.sink e := by
  rcases Option.map_eq_some_iff.mp h with ⟨e, he, rfl⟩
  exact ⟨e, he, rfl, rfl, rfl⟩

theorem rewind_eq_some {t t' : Topic ε π τ} {p : π} {n : ℕ} (h : t.rewind p n = some t') :
    n ≤ t.pos p ∧ t'.log = t.log ∧ t'.pos = Function.update t.pos p n ∧ t'.sink = t.sink := by
  unfold rewind at h
  split at h
  · rename_i hle
    cases h
    exact ⟨hle, rfl, rfl, rfl⟩
  · cases h

end Operations

/-! ## Latest values -/

section Latest

variable [DecidableEq κ] (key : ε → κ) (value : ε → ν)

/-- The value of the last event with key `k`. -/
def latest (k : κ) (es : List ε) : Option ν :=
  es.foldl (fun found e => if key e = k then some (value e) else found) none

theorem latest_append_singleton (k : κ) (es : List ε) (e : ε) :
    latest key value k (es ++ [e]) =
      if key e = k then some (value e) else latest key value k es := by
  simp [latest]

end Latest

/-! ## The invariant of the consumer -/

section Invariant

variable [DecidableEq κ]

/-- Handling an event sets the value of its key and of no other. -/
def Upserts (handle : τ → ε → τ) (key : ε → κ) (value : ε → ν) (look : τ → κ → Option ν) : Prop :=
  ∀ t e k, look (handle t e) k = if key e = k then some (value e) else look t k

/-- Every key has its latest value among the first `q` events of its partition, for some `q`
that the consumer has reached at some time. -/
structure Inv (place : κ → π) (key : ε → κ) (value : ε → ν) (look : τ → κ → Option ν)
    (t : Topic ε π τ) : Prop where
  placed : ∀ p, ∀ e ∈ t.log p, place (key e) = p
  seen : ∀ k, ∃ q, t.pos (place k) ≤ q ∧ q ≤ (t.log (place k)).length ∧
    look t.sink k = latest key value k ((t.log (place k)).take q)

variable {place : κ → π} {key : ε → κ} {value : ε → ν} {look : τ → κ → Option ν}
  {handle : τ → ε → τ}

theorem Inv.empty {sink : τ} (h : ∀ k, look sink k = none) :
    Inv place key value look (Topic.empty sink : Topic ε π τ) := by
  constructor
  · intro p e he
    cases he
  · intro k
    exact ⟨0, Nat.le_refl 0, Nat.le_refl 0, h k⟩

/-- At the end of its partition a key has its latest value. -/
theorem Inv.look_of_caughtUp {t : Topic ε π τ} (h : Inv place key value look t) {k : κ}
    (hend : t.pos (place k) = (t.log (place k)).length) :
    look t.sink k = latest key value k (t.log (place k)) := by
  rcases h.seen k with ⟨q, hpos, hlen, hlook⟩
  have hq : q = (t.log (place k)).length := by
    omega
  rw [hlook, hq, List.take_length]

variable [DecidableEq π]

theorem Inv.publish {t : Topic ε π τ} (h : Inv place key value look t) (e : ε) :
    Inv place key value look (t.publish (place (key e)) e) := by
  constructor
  · intro p f hf
    by_cases hp : p = place (key e)
    · subst hp
      rw [publish_log_self, List.mem_append, List.mem_singleton] at hf
      rcases hf with hf | hf
      · exact h.placed _ f hf
      · rw [hf]
    · rw [publish_log_of_ne t hp] at hf
      exact h.placed p f hf
  · intro k
    rcases h.seen k with ⟨q, hpos, hlen, hlook⟩
    by_cases hk : place k = place (key e)
    · rw [hk] at hpos hlen hlook
      -- The new event lies behind the first `q`, so these are the same as before.
      refine ⟨q, by rwa [hk], ?_, ?_⟩
      · rw [hk, publish_log_self, List.length_append]
        exact Nat.le_add_right_of_le hlen
      · rw [hk, publish_log_self, List.take_append_of_le_length hlen]
        exact hlook
    · refine ⟨q, hpos, ?_, ?_⟩
      · rwa [publish_log_of_ne t hk]
      · rwa [publish_log_of_ne t hk]

theorem Inv.rewind {t t' : Topic ε π τ} (h : Inv place key value look t) {p : π} {n : ℕ}
    (hstep : t.rewind p n = some t') : Inv place key value look t' := by
  rcases rewind_eq_some hstep with ⟨hle, hlog, hpos', hsink⟩
  constructor
  · rw [hlog]
    exact h.placed
  · intro k
    rcases h.seen k with ⟨q, hpos, hlen, hlook⟩
    rw [hlog, hpos', hsink]
    -- The values stay; only the position moves back, and it was at most `q`.
    refine ⟨q, ?_, hlen, hlook⟩
    by_cases hk : place k = p
    · subst hk
      rw [Function.update_self]
      exact Nat.le_trans hle hpos
    · rwa [Function.update_of_ne hk]

theorem Inv.deliver (hup : Upserts handle key value look) {t t' : Topic ε π τ}
    (h : Inv place key value look t) {p : π} (hstep : t.deliver handle p = some t') :
    Inv place key value look t' := by
  rcases deliver_eq_some hstep with ⟨e, he, hlog, hpos', hsink⟩
  have hlt : t.pos p < (t.log p).length := (List.getElem?_eq_some_iff.mp he).1
  have hplace : place (key e) = p := h.placed p e (List.mem_of_getElem? he)
  have hnext : (t.log p).take (t.pos p + 1) = (t.log p).take (t.pos p) ++ [e] := by
    rw [List.take_add_one, he]
    rfl
  constructor
  · rw [hlog]
    exact h.placed
  · intro k
    rw [hlog, hpos', hsink, hup]
    by_cases hkey : key e = k
    · -- The key of the event now has its value at this position.
      subst hkey
      rw [hplace, Function.update_self, if_pos rfl]
      refine ⟨t.pos p + 1, Nat.le_refl _, hlt, ?_⟩
      rw [hnext, latest_append_singleton, if_pos rfl]
    · rcases h.seen k with ⟨q, hpos, hlen, hlook⟩
      rw [if_neg hkey]
      by_cases hk : place k = p
      · -- Another key of the partition: one position further, its latest value is the same.
        rw [hk] at hpos hlen hlook
        rw [hk, Function.update_self]
        -- Either the consumer is as far as it ever was, or it sees the event again.
        rcases Nat.eq_or_lt_of_le hpos with hq | hq
        · refine ⟨t.pos p + 1, Nat.le_refl _, hlt, ?_⟩
          rw [hnext, latest_append_singleton, if_neg hkey, hlook, hq]
        · exact ⟨q, hq, hlen, hlook⟩
      · rw [Function.update_of_ne hk]
        exact ⟨q, hpos, hlen, hlook⟩

end Invariant

end Topic

end Base
end Etude
