import Mathlib.Data.Int.Basic
import Mathlib.Data.List.Basic
import Mathlib.Logic.Function.Iterate

/-!
# StateTest — a coroutine made of a `switch`

`state_test` stores the label of each step before it tries it, and jumps to the stored label when
it is called again.  The outcomes of `operation` are any sequence; the one of the source alternates.
-/

namespace Etude
namespace Coroutine

/-! ## The code -/

/-- What the macros and the lines between them expand to.  An attempt knows the line it is on. -/
inductive Stmt
  | label (n : ℤ)
  | store (n : ℤ)
  | attempt (line : ℤ)
  | report
  | ret
  deriving DecidableEq

/-- `BEGIN_STATE` -/
def beginState : List Stmt :=
  [.label 0]

/-- `HANDLE_STATE` -/
def handleState (line : ℤ) : List Stmt :=
  [.label line, .store line, .attempt line]

/-- `END_STATE` -/
def endState (line : ℤ) : List Stmt :=
  [.label line, .store line, .ret]

/-- The body of `state_test`, with the line of each macro. -/
def body : List Stmt :=
  beginState ++
    (handleState 20 ++ [.report]) ++
    (handleState 23 ++ [.report]) ++
    (handleState 26 ++ [.report]) ++
    (handleState 29 ++ [.report]) ++
    (handleState 32 ++ [.report]) ++
    (handleState 35 ++ [.report]) ++
    (handleState 38 ++ [.report]) ++
    endState 41

/-- The variables `*state` and `c`, what is printed, and the operations executed so far, each with
its line and outcome. -/
structure Machine where
  state : ℤ
  c : ℕ
  executed : List (ℤ × Bool)
  output : List String

def start : Machine where
  state := 0
  c := 0
  executed := []
  output := []

/-- `operation`, whose `n`-th outcome is `ops n` -/
def operation (ops : ℕ → Bool) (line : ℤ) (m : Machine) : Machine :=
  { m with
    c := m.c + 1
    executed := m.executed ++ [(line, ops m.c)]
    output := m.output ++ [if ops m.c then "bingo!\n" else "bango.\n"] }

/-- `v` of `operation`, the outcome in the source -/
def v (c : ℕ) : Bool :=
  c % 2 = 1

/-- The statements from where the `switch` jumps to; it falls through the labels after it. -/
def exec (ops : ℕ → Bool) : List Stmt → Machine → Machine
  | [], m => m
  | .label _ :: rest, m => exec ops rest m
  | .store n :: rest, m => exec ops rest { m with state := n }
  | .attempt line :: rest, m =>
    if ops m.c then exec ops rest (operation ops line m) else operation ops line m
  | .report :: rest, m =>
    exec ops rest { m with output := m.output ++ ["state = " ++ toString m.state ++ "\n"] }
  | .ret :: _, m => m

/-- The jump of the `switch`; without a label for the value it leaves the whole body out. -/
def enter (code : List Stmt) (state : ℤ) : List Stmt :=
  code.dropWhile fun s => s ≠ .label state

/-- `state_test` -/
def stateTest (ops : ℕ → Bool) (m : Machine) : Machine :=
  exec ops (enter body m.state) m

/-- The machine after a number of calls. -/
def calls (ops : ℕ → Bool) (k : ℕ) : Machine :=
  (stateTest ops)^[k] start

/-! ## Steps in a row -/

/-- The steps on the given lines and the end, behind the opening label. -/
def steps (lines : List ℤ) (last : ℤ) : List Stmt :=
  lines.flatMap (fun l => handleState l ++ [.report]) ++ endState last

/-- The lines of the steps of `state_test`. -/
def stepLines : List ℤ :=
  [20, 23, 26, 29, 32, 35, 38]

theorem body_eq : body = .label 0 :: steps stepLines 41 :=
  rfl

theorem steps_cons (l : ℤ) (lines : List ℤ) (last : ℤ) :
    steps (l :: lines) last =
      .label l :: .store l :: .attempt l :: .report :: steps lines last :=
  rfl

/-- The next label: that of the first step left, or the last one. -/
def next (rest : List ℤ) (last : ℤ) : ℤ :=
  rest.headD last

theorem next_mem (rest : List ℤ) (last : ℤ) : next rest last ∈ rest ++ [last] := by
  cases rest with
  | nil =>
      exact List.mem_cons_self
  | cons l rest =>
      exact List.mem_cons_self

theorem enter_cons_label {n state : ℤ} (h : n ≠ state) (code : List Stmt) :
    enter (.label n :: code) state = enter code state := by
  rw [enter, List.dropWhile_cons_of_pos]
  · rfl
  · simpa using h

theorem enter_label (n : ℤ) (code : List Stmt) :
    enter (.label n :: code) n = .label n :: code := by
  rw [enter, List.dropWhile_cons_of_neg]
  simp

/-- A jump to a label leaves out the steps before it. -/
theorem enter_steps {done rest : List ℤ} {last : ℤ} (h : next rest last ∉ done) :
    enter (steps (done ++ rest) last) (next rest last) = steps rest last := by
  induction done with
  | nil =>
      cases rest with
      | nil =>
          exact enter_label last _
      | cons l rest =>
          exact enter_label l _
  | cons d done ih =>
      rw [List.mem_cons, not_or] at h
      rw [List.cons_append, steps_cons, enter_cons_label (Ne.symm h.1)]
      exact ih h.2

/-! ## What a call executes -/

/-- How many of the first `j` outcomes are successes. -/
def successes (ops : ℕ → Bool) (j : ℕ) : ℕ :=
  (List.range j).countP ops

theorem successes_succ (ops : ℕ → Bool) (j : ℕ) :
    successes ops (j + 1) = successes ops j + if ops j then 1 else 0 := by
  rw [successes, List.range_succ, List.countP_append, List.countP_singleton]
  rfl

/-- The `j`-th operation is that of the step after as many steps as there were successes before. -/
structure InOrder (ops : ℕ → Bool) (lines : List ℤ) (m : Machine) : Prop where
  length : m.executed.length = m.c
  step : ∀ j, j < m.c →
    ∃ line, lines[successes ops j]? = some line ∧ m.executed[j]? = some (line, ops j)

/-- A call goes on up to its first failure or the last step, and does nothing behind it. -/
structure Call (ops : ℕ → Bool) (n : ℕ) (m m' : Machine) : Prop where
  le : m.c ≤ m'.c
  before : ∀ j, m.c ≤ j → j + 1 < m'.c → ops j = true
  stop : successes ops m.c < n →
    m.c < m'.c ∧ (ops (m'.c - 1) = false ∨ successes ops m'.c = n)
  idle : successes ops m.c = n → m'.c = m.c ∧ m'.executed = m.executed

/-- The stored label is that of the step after the successes. -/
def Placed (ops : ℕ → Bool) (lines : List ℤ) (last : ℤ) (m : Machine) : Prop :=
  ∃ done rest, lines = done ++ rest ∧ successes ops m.c = done.length ∧ m.state = next rest last

theorem InOrder.operation {ops : ℕ → Bool} {lines : List ℤ} {m : Machine}
    (h : InOrder ops lines m) {line : ℤ} (hline : lines[successes ops m.c]? = some line) :
    InOrder ops lines (operation ops line m) where
  length := by
    rw [Coroutine.operation, List.length_append, h.length]
    rfl
  step := by
    intro j hj
    rcases Nat.lt_succ_iff_lt_or_eq.mp hj with hlt | rfl
    · rcases h.step j hlt with ⟨l, hl, hj⟩
      refine ⟨l, hl, ?_⟩
      rw [Coroutine.operation, List.getElem?_append_left (by rw [h.length]; exact hlt), hj]
    · refine ⟨line, hline, ?_⟩
      rw [Coroutine.operation, List.getElem?_append_right (by rw [h.length]), h.length,
        Nat.sub_self]
      rfl

/-- Behind the last step nothing is executed. -/
theorem call_of_done {ops : ℕ → Bool} {n : ℕ} {m m' : Machine} (hn : successes ops m.c = n)
    (hc : m'.c = m.c) (hexecuted : m'.executed = m.executed) : Call ops n m m' where
  le := Nat.le_of_eq hc.symm
  before j hj hlt := by
    rw [hc] at hlt
    exact absurd (Nat.lt_of_succ_lt hlt) (Nat.not_lt.mpr hj)
  stop h := absurd hn (Nat.ne_of_lt h)
  idle _ := ⟨hc, hexecuted⟩

/-- A failed attempt ends the call on its step. -/
theorem call_of_failure {ops : ℕ → Bool} {n : ℕ} {m : Machine} (line : ℤ)
    (hops : ops m.c = false) (hn : successes ops m.c < n) :
    Call ops n m (operation ops line m) where
  le := Nat.le_succ m.c
  before _ hj hlt := absurd (Nat.lt_of_succ_lt_succ hlt) (Nat.not_lt.mpr hj)
  stop _ := ⟨Nat.lt_succ_self m.c, Or.inl hops⟩
  idle h := absurd h (Nat.ne_of_lt hn)

/-- A successful attempt goes on with the call from the next step. -/
theorem Call.cons {ops : ℕ → Bool} {n : ℕ} {m m₁ m' : Machine} (hops : ops m.c = true)
    (hc : m₁.c = m.c + 1) (hn : successes ops m.c < n) (h : Call ops n m₁ m') :
    Call ops n m m' where
  le := by
    have hle := h.le
    omega
  before j hj hlt := by
    rcases Nat.eq_or_lt_of_le hj with rfl | hj
    · exact hops
    · exact h.before j (by omega) hlt
  stop _ := by
    have hle := h.le
    have hcount : successes ops m₁.c = successes ops m.c + 1 := by
      rw [hc, successes_succ, if_pos hops]
    refine ⟨by omega, ?_⟩
    rcases Nat.lt_or_ge (successes ops m₁.c) n with hlt | hge
    · exact (h.stop hlt).2
    · right
      rw [(h.idle (by omega)).1]
      omega
  idle hidle := absurd hidle (Nat.ne_of_lt hn)

/-- From the step after the successes on, a call executes operations up to its first failure.  The
induction is on the steps that are left. -/
theorem exec_steps {ops : ℕ → Bool} {lines : List ℤ} {last : ℤ} (rest : List ℤ) :
    ∀ {done : List ℤ} {m : Machine}, lines = done ++ rest → successes ops m.c = done.length →
      InOrder ops lines m →
      InOrder ops lines (exec ops (steps rest last) m) ∧
        Placed ops lines last (exec ops (steps rest last) m) ∧
        Call ops lines.length m (exec ops (steps rest last) m) := by
  induction rest with
  | nil =>
      intro done m hlines hdone horder
      have hall : successes ops m.c = lines.length := by
        rw [hlines, List.append_nil, hdone]
      exact ⟨⟨horder.length, horder.step⟩, ⟨done, [], hlines, hdone, rfl⟩,
        call_of_done hall rfl rfl⟩
  | cons l rest ih =>
      intro done m hlines hdone horder
      have hline : lines[successes ops m.c]? = some l := by
        rw [hlines, hdone, List.getElem?_append_right (Nat.le_refl _), Nat.sub_self]
        rfl
      have hn : successes ops m.c < lines.length := (List.getElem?_eq_some_iff.mp hline).1
      -- the label is stored before the attempt
      have hstored : InOrder ops lines { m with state := l } := ⟨horder.length, horder.step⟩
      have htried := hstored.operation hline
      rw [steps_cons]
      cases hops : ops m.c with
      | false =>
          have hfail :
              exec ops (.label l :: .store l :: .attempt l :: .report :: steps rest last) m =
              operation ops l { m with state := l } := if_neg (by rw [hops]; decide)
          rw [hfail]
          refine ⟨htried, ⟨done, l :: rest, hlines, ?_, rfl⟩, ?_⟩
          · have hcount := successes_succ ops m.c
            rw [hops, if_neg (by decide), hdone] at hcount
            exact hcount
          · have hcall := call_of_failure (m := { m with state := l }) l hops hn
            exact ⟨hcall.le, hcall.before, hcall.stop, hcall.idle⟩
      | true =>
          let m₁ : Machine := operation ops l { m with state := l }
          let m₂ : Machine := { m₁ with output := m₁.output ++ ["state = " ++ toString l ++ "\n"] }
          have hnext :
              exec ops (.label l :: .store l :: .attempt l :: .report :: steps rest last) m =
              exec ops (steps rest last) m₂ := if_pos hops
          have hcount : successes ops m₂.c = (done ++ [l]).length := by
            have hsucc := successes_succ ops m.c
            rw [hops, if_pos rfl, hdone] at hsucc
            rw [List.length_append]
            exact hsucc
          have hrest := @ih (done ++ [l]) m₂ (by rw [hlines, List.append_assoc]; rfl)
            hcount ⟨htried.length, htried.step⟩
          rw [hnext]
          exact ⟨hrest.1, hrest.2.1, hrest.2.2.cons hops rfl hn⟩

/-! ## Calls -/

theorem stateTest_of_placed {ops : ℕ → Bool} {m : Machine} (horder : InOrder ops stepLines m)
    (hplaced : Placed ops stepLines 41 m) :
    InOrder ops stepLines (stateTest ops m) ∧ Placed ops stepLines 41 (stateTest ops m) ∧
      Call ops stepLines.length m (stateTest ops m) := by
  rcases hplaced with ⟨done, rest, hlines, hdone, hstate⟩
  -- no label occurs twice
  have hdistinct : (done ++ (rest ++ [41])).Nodup := by
    rw [← List.append_assoc, ← hlines]
    decide
  have hlabel : m.state ∈ stepLines ++ [41] := by
    rw [hstate, hlines, List.append_assoc]
    exact List.mem_append_right done (next_mem rest 41)
  have hzero : 0 ≠ m.state := by
    intro h
    rw [← h] at hlabel
    exact absurd hlabel (by decide)
  have hfresh : next rest 41 ∉ done := fun h =>
    (List.nodup_append.mp hdistinct).2.2 _ h _ (next_mem rest 41) rfl
  rw [stateTest, body_eq, enter_cons_label hzero, hstate, hlines, enter_steps hfresh, ← hlines]
  exact exec_steps rest hlines hdone horder

/-- The first call falls from the opening label into the first step. -/
theorem stateTest_start (ops : ℕ → Bool) :
    InOrder ops stepLines (stateTest ops start) ∧ Placed ops stepLines 41 (stateTest ops start) ∧
      Call ops stepLines.length start (stateTest ops start) := by
  have horder : InOrder ops stepLines start := ⟨rfl, fun j hj => absurd hj (Nat.not_lt_zero j)⟩
  exact @exec_steps ops stepLines 41 stepLines [] start rfl rfl horder

theorem calls_succ (ops : ℕ → Bool) (k : ℕ) : calls ops (k + 1) = stateTest ops (calls ops k) :=
  Function.iterate_succ_apply' (stateTest ops) k start

theorem calls_step (ops : ℕ → Bool) (k : ℕ) :
    InOrder ops stepLines (calls ops (k + 1)) ∧ Placed ops stepLines 41 (calls ops (k + 1)) ∧
      Call ops stepLines.length (calls ops k) (calls ops (k + 1)) := by
  induction k with
  | zero =>
      exact stateTest_start ops
  | succ k ih =>
      rw [calls_succ ops (k + 1)]
      exact stateTest_of_placed ih.1 ih.2.1

theorem inOrder_calls (ops : ℕ → Bool) (k : ℕ) : InOrder ops stepLines (calls ops k) := by
  cases k with
  | zero =>
      exact ⟨rfl, fun j hj => absurd hj (Nat.not_lt_zero j)⟩
  | succ k =>
      exact (calls_step ops k).1

theorem executed_of_done {ops : ℕ → Bool} {k : ℕ}
    (h : successes ops (calls ops k).c = stepLines.length) (i : ℕ) :
    (calls ops (k + i)).c = (calls ops k).c ∧
      (calls ops (k + i)).executed = (calls ops k).executed := by
  induction i with
  | zero =>
      exact ⟨rfl, rfl⟩
  | succ i ih =>
      have hidle := (calls_step ops (k + i)).2.2.idle (by rw [ih.1, h])
      exact ⟨hidle.1.trans ih.1, hidle.2.trans ih.2⟩

/-- In any number of calls the steps are executed in order, each until its first success, a call
goes up to its first failure, and after the last success nothing more is executed. -/
theorem calls_in_order (ops : ℕ → Bool) (k : ℕ) :
    InOrder ops [20, 23, 26, 29, 32, 35, 38] (calls ops k) ∧
      Call ops 7 (calls ops k) (calls ops (k + 1)) ∧
      (successes ops (calls ops k).c = 7 →
        ∀ i, (calls ops (k + i)).executed = (calls ops k).executed) :=
  ⟨inOrder_calls ops k, (calls_step ops k).2.2, fun h i => (executed_of_done h i).2⟩

/-- The ten calls of `main`. -/
example : (calls v 10).state = 41 ∧ (calls v 10).c = 14 := by decide

end Coroutine
end Etude
