import Mathlib.Data.List.Chain
import Etude.Base.Munch

/-!
# Squeeze — runs of elements reduced to their first

`squeeze p xs` leaves out an element that satisfies `p` and comes directly behind another one that
does.  It takes the heads of the groups that Haskell's `groupBy` makes (`head_munch`), commutes
with maps up to the predicate, and two predicates of which one implies the other leave out the same
elements exactly if they leave out equally many (`squeeze_eq_of_chain`, `length_squeeze_iff_chain`).
-/

namespace Etude
namespace Base

variable {α : Type*}

/-- `prev` tells whether the element in front of the list satisfies `p`. -/
def squeezeFrom (p : α → Bool) : Bool → List α → List α
  | _, [] => []
  | prev, x :: xs =>
      if prev && p x then squeezeFrom p (p x) xs else x :: squeezeFrom p (p x) xs

def squeeze (p : α → Bool) (xs : List α) : List α :=
  squeezeFrom p false xs

theorem squeeze_cons (p : α → Bool) (x : α) (xs : List α) :
    squeeze p (x :: xs) = x :: squeezeFrom p (p x) xs :=
  rfl

theorem squeezeFrom_map {β : Type*} (p : β → Bool) (f : α → β) (prev : Bool) (xs : List α) :
    squeezeFrom p prev (xs.map f) = (squeezeFrom (fun x => p (f x)) prev xs).map f := by
  induction xs generalizing prev with
  | nil =>
      rfl
  | cons x xs ih =>
      simp only [List.map_cons, squeezeFrom, ih]
      split_ifs <;> rfl

theorem squeeze_map {β : Type*} (p : β → Bool) (f : α → β) (xs : List α) :
    squeeze p (xs.map f) = (squeeze (fun x => p (f x)) xs).map f :=
  squeezeFrom_map p f false xs

theorem squeezeFrom_sublist (p : α → Bool) (prev : Bool) (xs : List α) :
    (squeezeFrom p prev xs).Sublist xs := by
  induction xs generalizing prev with
  | nil =>
      exact List.Sublist.slnil
  | cons x xs ih =>
      rw [squeezeFrom]
      split_ifs
      · exact (ih _).cons x
      · exact (ih _).cons_cons x

theorem squeeze_sublist (p : α → Bool) (xs : List α) : (squeeze p xs).Sublist xs :=
  squeezeFrom_sublist p false xs

/-! ## What is left -/

theorem squeezeFrom_isChain (p : α → Bool) (a : α) (xs : List α) :
    (a :: squeezeFrom p (p a) xs).IsChain fun x y => (p x && p y) = false := by
  induction xs generalizing a with
  | nil =>
      exact List.isChain_singleton a
  | cons x xs ih =>
      rw [squeezeFrom]
      cases hax : p a && p x with
      | true =>
          rw [if_pos rfl]
          -- the predicate is the same on the element left out and on the one in front of it
          rw [Bool.and_eq_true] at hax
          rw [hax.2, ← hax.1]
          exact ih a
      | false =>
          rw [if_neg (by decide)]
          exact List.isChain_cons_cons.mpr ⟨hax, ih x⟩

/-- No two neighbours that satisfy the predicate are left. -/
theorem squeeze_isChain (p : α → Bool) (xs : List α) :
    (squeeze p xs).IsChain fun x y => (p x && p y) = false := by
  cases xs with
  | nil =>
      exact List.isChain_nil
  | cons x xs =>
      exact squeezeFrom_isChain p x xs

theorem squeezeFrom_eq_self {p : α → Bool} {a : α} {xs : List α}
    (h : (a :: xs).IsChain fun x y => (p x && p y) = false) : squeezeFrom p (p a) xs = xs := by
  induction xs generalizing a with
  | nil =>
      rfl
  | cons x xs ih =>
      rcases List.isChain_cons_cons.mp h with ⟨hax, hrest⟩
      rw [squeezeFrom, hax, if_neg (by decide), ih hrest]

theorem squeeze_eq_self {p : α → Bool} {xs : List α}
    (h : xs.IsChain fun x y => (p x && p y) = false) : squeeze p xs = xs := by
  cases xs with
  | nil =>
      rfl
  | cons x xs =>
      rw [squeeze_cons, squeezeFrom_eq_self h]

theorem squeeze_squeeze (p : α → Bool) (xs : List α) : squeeze p (squeeze p xs) = squeeze p xs :=
  squeeze_eq_self (squeeze_isChain p xs)

theorem filter_squeezeFrom (p : α → Bool) (prev : Bool) (xs : List α) :
    (squeezeFrom p prev xs).filter (fun x => !p x) = xs.filter fun x => !p x := by
  induction xs generalizing prev with
  | nil =>
      rfl
  | cons x xs ih =>
      rw [squeezeFrom]
      cases hx : p x with
      | true =>
          rw [List.filter_cons_of_neg (by simp [hx])]
          split_ifs
          · exact ih true
          · rw [List.filter_cons_of_neg (by simp [hx]), ih true]
      | false =>
          rw [Bool.and_false, if_neg (by decide), List.filter_cons_of_pos (by simp [hx]),
            List.filter_cons_of_pos (by simp [hx]), ih false]

/-- The elements that do not satisfy the predicate all stay. -/
theorem filter_squeeze (p : α → Bool) (xs : List α) :
    (squeeze p xs).filter (fun x => !p x) = xs.filter fun x => !p x :=
  filter_squeezeFrom p false xs

/-- Behind an element that does not satisfy the predicate squeezing starts again. -/
theorem squeezeFrom_append {p : α → Bool} {prev : Bool} {xs : List α}
    (h : (xs.getLast?.map p).getD prev = false) (ys : List α) :
    squeezeFrom p prev (xs ++ ys) = squeezeFrom p prev xs ++ squeeze p ys := by
  induction xs generalizing prev with
  | nil =>
      have hprev : prev = false := h
      rw [hprev]
      rfl
  | cons x xs ih =>
      have hlast : (xs.getLast?.map p).getD (p x) = false := by
        rw [← h, List.getLast?_cons]
        cases xs.getLast? with
        | none =>
            rfl
        | some y =>
            rfl
      rw [List.cons_append, squeezeFrom, squeezeFrom, ih hlast]
      split_ifs <;> rfl

/-! ## The heads of groups -/

theorem squeezeFrom_true (p : α → Bool) (xs : List α) :
    squeezeFrom p true xs = squeeze p (xs.dropWhile p) := by
  induction xs with
  | nil =>
      rfl
  | cons x xs ih =>
      by_cases hx : p x = true
      · simp [squeezeFrom, hx, ih]
      · rw [List.dropWhile_cons_of_neg hx]
        simp [squeezeFrom, squeeze, hx]

theorem squeezeFrom_false (p : α → Bool) (xs : List α) : squeezeFrom p false xs = squeeze p xs :=
  rfl

/-- Grouping neighbours that both satisfy `p` and keeping the heads. -/
theorem head_munch (p : α → Bool) (xs : List α) :
    (munch (fun x y => p x && p y) xs).filterMap List.head? = squeeze p xs := by
  induction xs using munch.induct (fun x y => p x && p y) with
  | case1 =>
      simp [munch, squeeze, squeezeFrom]
  | case2 x xs ih =>
      rw [munch_cons, List.filterMap_cons, List.head?_cons, squeeze_cons, ih]
      cases hx : p x with
      | true =>
          have hfun : (fun y => true && p y) = p := by simp
          rw [hfun, squeezeFrom_true]
      | false =>
          have hdrop : xs.dropWhile (fun y => false && p y) = xs := by
            cases xs <;> simp
          rw [hdrop, squeezeFrom_false]

/-- A maximal run of elements that satisfy the predicate becomes its first element. -/
theorem squeeze_run {p : α → Bool} {pre run post : List α} {x : α}
    (hpre : ∀ y ∈ pre.getLast?, p y = false) (hx : p x = true) (hrun : ∀ y ∈ run, p y = true)
    (hpost : ∀ y ∈ post.head?, p y = false) :
    squeeze p (pre ++ x :: (run ++ post)) = squeeze p pre ++ x :: squeeze p post := by
  have hlast : (pre.getLast?.map p).getD false = false := by
    cases hy : pre.getLast? with
    | none =>
        rfl
    | some y =>
        exact hpre y hy
  have hdrop : (run ++ post).dropWhile p = post := by
    rw [List.dropWhile_append_of_pos hrun]
    cases post with
    | nil =>
        rfl
    | cons y post =>
        rw [List.dropWhile_cons_of_neg]
        simp [hpost y rfl]
  rw [squeeze, squeezeFrom_append hlast, squeeze_cons, hx, squeezeFrom_true, hdrop]
  rfl

/-! ## Two predicates -/

section Compare

variable {p q : α → Bool}

/-- Two neighbours are treated alike. -/
def Alike (p q : α → Bool) (x y : α) : Prop :=
  (p x && p y) = (q x && q y)

theorem squeezeFrom_eq_of_chain {a : α} {xs : List α} (h : (a :: xs).IsChain (Alike p q)) :
    squeezeFrom p (p a) xs = squeezeFrom q (q a) xs := by
  induction xs generalizing a with
  | nil =>
      rfl
  | cons x xs ih =>
      rcases List.isChain_cons_cons.mp h with ⟨hax, hrest⟩
      have halike : (p a && p x) = (q a && q x) := hax
      rw [squeezeFrom, squeezeFrom, ih hrest, halike]

theorem squeeze_eq_of_chain {xs : List α} (h : xs.IsChain (Alike p q)) :
    squeeze p xs = squeeze q xs := by
  cases xs with
  | nil =>
      rfl
  | cons x xs =>
      rw [squeeze_cons, squeeze_cons, squeezeFrom_eq_of_chain h]

/-- The weaker predicate leaves out no fewer elements. -/
theorem length_squeezeFrom_le (hqp : ∀ x, q x = true → p x = true) (a : α) (xs : List α) :
    (squeezeFrom p (p a) xs).length ≤ (squeezeFrom q (q a) xs).length := by
  induction xs generalizing a with
  | nil =>
      exact Nat.le_refl _
  | cons x xs ih =>
      have hx := ih x
      by_cases hp : (p a && p x) = true
      · rw [squeezeFrom, if_pos hp, squeezeFrom]
        split_ifs
        · exact hx
        · exact Nat.le_succ_of_le hx
      · have hq : ¬ (q a && q x) = true := by
          simp only [Bool.and_eq_true, not_and] at hp ⊢
          exact fun ha hx => hp (hqp a ha) (hqp x hx)
        rw [squeezeFrom, if_neg hp, squeezeFrom, if_neg hq]
        exact Nat.succ_le_succ hx

theorem chain_of_length_squeezeFrom (hqp : ∀ x, q x = true → p x = true) {a : α} {xs : List α}
    (h : (squeezeFrom p (p a) xs).length = (squeezeFrom q (q a) xs).length) :
    (a :: xs).IsChain (Alike p q) := by
  induction xs generalizing a with
  | nil =>
      exact List.isChain_singleton a
  | cons x xs ih =>
      have hle := length_squeezeFrom_le hqp x xs
      by_cases hp : (p a && p x) = true
      · by_cases hq : (q a && q x) = true
        · rw [squeezeFrom, if_pos hp, squeezeFrom, if_pos hq] at h
          exact List.isChain_cons_cons.mpr ⟨hp.trans hq.symm, ih h⟩
        · -- One element more on the right, which nothing on the left makes up for.
          rw [squeezeFrom, if_pos hp, squeezeFrom, if_neg hq, List.length_cons] at h
          omega
      · have hq : ¬ (q a && q x) = true := by
          simp only [Bool.and_eq_true, not_and] at hp ⊢
          exact fun ha hx => hp (hqp a ha) (hqp x hx)
        rw [squeezeFrom, if_neg hp, squeezeFrom, if_neg hq, List.length_cons, List.length_cons] at h
        have halike : Alike p q a x := by
          rw [Alike, Bool.eq_false_iff.mpr hp, Bool.eq_false_iff.mpr hq]
        exact List.isChain_cons_cons.mpr ⟨halike, ih (Nat.succ.inj h)⟩

theorem chain_of_length_squeeze (hqp : ∀ x, q x = true → p x = true) {xs : List α}
    (h : (squeeze p xs).length = (squeeze q xs).length) : xs.IsChain (Alike p q) := by
  cases xs with
  | nil =>
      exact List.isChain_nil
  | cons x xs =>
      rw [squeeze_cons, squeeze_cons, List.length_cons, List.length_cons] at h
      exact chain_of_length_squeezeFrom hqp (Nat.succ.inj h)

theorem alike_comm {x y : α} : Alike p q x y ↔ Alike q p x y :=
  eq_comm

/-- Of two predicates one of which implies the other. -/
theorem length_squeeze_iff_chain
    (h : (∀ x, p x = true → q x = true) ∨ ∀ x, q x = true → p x = true) (xs : List α) :
    (squeeze p xs).length = (squeeze q xs).length ↔ xs.IsChain (Alike p q) := by
  refine ⟨fun hlen => ?_, fun hchain => by rw [squeeze_eq_of_chain hchain]⟩
  rcases h with hpq | hqp
  · exact (chain_of_length_squeeze hpq hlen.symm).imp fun x y hxy => alike_comm.mp hxy
  · exact chain_of_length_squeeze hqp hlen

end Compare

end Base
end Etude
