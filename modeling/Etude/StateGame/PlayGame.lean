import Etude.Base.Positions
import Mathlib.Algebra.Group.Nat.Defs
import Mathlib.Data.List.Induction

/-!
# PlayGame — the score game of `state-game`

`playGame` runs over a string in a state monad; a `c` switches the game on and off, and while it is
on every `a` and `b` moves the score.  An `Int` is 64 bits wide.
-/

namespace Etude
namespace StateGame

open Base

/-! ## The code -/

abbrev GameValue :=
  Int64

abbrev GameState :=
  Bool × Int64

/-- `runState` -/
def runState {σ α : Type} (m : StateM σ α) (s : σ) : α × σ :=
  (m.run s).run

def evalState {σ α : Type} (m : StateM σ α) (s : σ) : α :=
  (runState m s).1

def playGame : List Char → StateM GameState GameValue
  | [] => do
      let (_, score) ← get
      return score
  | x :: xs => do
      let (on, score) ← get
      match x, on with
      | 'a', true => set (on, score + 1)
      | 'b', true => set (on, score - 1)
      | 'c', _ => set (!on, score)
      -- Also an `a` or a `b` whose guard fails.
      | _, _ => set (on, score)
      playGame xs

def startState : GameState :=
  (false, 0)

/-! ## One turn -/

section State

variable {σ α β : Type}

theorem runState_get_bind (f : σ → StateM σ β) (s : σ) :
    runState (get >>= f) s = runState (f s) s :=
  rfl

theorem runState_set_bind (t : σ) (f : PUnit → StateM σ β) (s : σ) :
    runState (set t >>= f) s = runState (f ()) t :=
  rfl

end State

/-- The state after one character. -/
def turn (st : GameState) (x : Char) : GameState :=
  if x = 'a' ∧ st.1 then (st.1, st.2 + 1)
  else if x = 'b' ∧ st.1 then (st.1, st.2 - 1)
  else if x = 'c' then (!st.1, st.2)
  else st

theorem runState_cons (x : Char) (s : List Char) (st : GameState) :
    runState (playGame (x :: s)) st = runState (playGame s) (turn st x) := by
  rcases st with ⟨on, score⟩
  rw [playGame, runState_get_bind]
  dsimp only
  -- The alternatives of the source, the default one last.
  split
  · rfl
  · rfl
  · rw [runState_set_bind]
    cases on with
    | false => rfl
    | true => rfl
  · rename_i hc ha hb
    have hplus : ¬ (x = 'a' ∧ on = true) := fun h => ha h.1 h.2
    have hminus : ¬ (x = 'b' ∧ on = true) := fun h => hb h.1 h.2
    rw [runState_set_bind, turn, if_neg hplus, if_neg hminus, if_neg hc]

theorem runState_playGame (s : List Char) (st : GameState) :
    runState (playGame s) st = ((s.foldl turn st).2, s.foldl turn st) := by
  induction s generalizing st with
  | nil =>
      rfl
  | cons x s ih =>
      rw [runState_cons, ih]
      rfl

theorem turn_on (st : GameState) (x : Char) :
    (turn st x).1 = (st.1 ^^ decide (x = 'c')) := by
  unfold turn
  split_ifs with ha hb hc
  · simp [ha.1]
  · simp [hb.1]
  · simp [hc]
  · simp [hc]

theorem turn_score (st : GameState) (x : Char) :
    (turn st x).2 = st.2 + Int64.ofNat (if x = 'a' ∧ st.1 then 1 else 0) -
      Int64.ofNat (if x = 'b' ∧ st.1 then 1 else 0) := by
  unfold turn
  split_ifs with ha hb hc
  · exact absurd (ha.1.symm.trans hb.1) (by decide)
  · simp
  · simp
  · simp
  · simp

/-! ## The whole game -/

/-- Whether the game is on behind some characters. -/
def isOn (on : Bool) (before : List Char) : Bool :=
  on ^^ decide (before.count 'c' % 2 = 1)

/-- The number of a character's positions at which the game is on. -/
def countOn (letter : Char) (on : Bool) (s : List Char) : ℕ :=
  countAt (fun before x => decide (x = letter) && isOn on before) s

theorem isOn_concat (on : Bool) (s : List Char) (x : Char) :
    isOn on (s ++ [x]) = (isOn on s ^^ decide (x = 'c')) := by
  by_cases hc : x = 'c'
  · have hcount : (s ++ [x]).count 'c' = s.count 'c' + 1 := by simp [hc]
    rw [isOn, isOn, hcount]
    rcases Nat.mod_two_eq_zero_or_one (s.count 'c') with h | h
    · simp [Nat.add_mod, h, hc]
    · simp [Nat.add_mod, h, hc]
  · have hcount : (s ++ [x]).count 'c' = s.count 'c' := by simp [hc]
    rw [isOn, isOn, hcount]
    simp [hc]

theorem countOn_concat (letter : Char) (on : Bool) (s : List Char) (x : Char) :
    countOn letter on (s ++ [x]) =
      countOn letter on s + if x = letter ∧ isOn on s then 1 else 0 := by
  rw [countOn, countAt_concat]
  simp [countOn]

/-- The game after a string: one more character is one more turn. -/
theorem foldl_turn (s : List Char) (on : Bool) (score : Int64) :
    s.foldl turn (on, score) =
      (isOn on s,
        score + Int64.ofNat (countOn 'a' on s) - Int64.ofNat (countOn 'b' on s)) := by
  induction s using List.reverseRecOn with
  | nil =>
      simp [isOn, countOn]
  | append_singleton s x ih =>
      rw [List.foldl_append, List.foldl_cons, List.foldl_nil, ih]
      refine Prod.ext ?_ ?_
      · rw [turn_on, isOn_concat]
      · rw [turn_score, countOn_concat, countOn_concat, Int64.ofNat_add, Int64.ofNat_add]
        grind

theorem toInt_score (score : Int64) (gained lost : ℕ) :
    (score + Int64.ofNat gained - Int64.ofNat lost).toInt =
      (score.toInt + gained - lost).bmod (2 ^ 64) := by
  have hscore : score + Int64.ofNat gained - Int64.ofNat lost =
      Int64.ofInt (score.toInt + gained - lost) := by
    rw [Int64.ofInt_sub, Int64.ofInt_add, Int64.ofInt_toInt, Int64.ofInt_eq_ofNat,
      Int64.ofInt_eq_ofNat]
  have hsize : Int64.size = 2 ^ 64 := rfl
  rw [hscore, Int64.toInt_ofInt, hsize]

/-- From every state: the game is on afterwards exactly if `on` differs from the parity of the
`c`s, the score has moved by the `a`s and the `b`s at which it was on, in the arithmetic of `Int`,
and a string in two parts is played part after part. -/
theorem playGame_spec :
    (∀ (s : List Char) (on : Bool) (score : Int64),
      let (value, final) := runState (playGame s) (on, score)
      (final.1 = true ↔ on ≠ decide (s.count 'c' % 2 = 1)) ∧
        final.2 = score + Int64.ofNat (countOn 'a' on s) - Int64.ofNat (countOn 'b' on s) ∧
        final.2.toInt =
          (score.toInt + countOn 'a' on s - countOn 'b' on s).bmod (2 ^ 64) ∧
        value = final.2) ∧
      ∀ (s₁ s₂ : List Char) (st : GameState),
        runState (playGame (s₁ ++ s₂)) st =
          runState (playGame s₂) (runState (playGame s₁) st).2 := by
  constructor
  · intro s on score
    rw [runState_playGame, foldl_turn]
    refine ⟨?_, rfl, toInt_score score _ _, rfl⟩
    rw [isOn, bne_iff_ne]
  · intro s₁ s₂ st
    rw [runState_playGame, runState_playGame, runState_playGame, List.foldl_append]

/-- The examples of the comment in the source and the first run of `main`. -/
example :
    ["ab", "ca", "cabca", "caacabcaaacbbcabbab"].map
      (fun s => evalState (playGame s.toList) startState) = [0, 1, 0, 4] := by
  decide

end StateGame
end Etude
