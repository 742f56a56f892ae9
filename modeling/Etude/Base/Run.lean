import Mathlib.Data.List.Basic

/-!
# Run — finite runs of guarded transition systems

A system is a partial step function `σ → ε → Option σ`: `none` means that the event cannot
happen in that state.  This file defines

* `Throughout step P s es` — `P` holds in every state that the run `es` from `s` reaches;
* `Along step C s es` — every step of the run meets the condition `C` on the state before it;
* `runOut` — runs of a step function that also returns an output;

together with the rules that lift a fact about one step to a whole run.
-/

namespace Etude
namespace Base

universe u v w x y

variable {σ : Type u} {ε : Type v} {ω : Type w} {τ : Type x}

/-! ## Runs and reached states -/

/-- The state after the events `es`, if all of them can happen. -/
def run (step : σ → ε → Option σ) : σ → List ε → Option σ
  | s, [] => some s
  | s, e :: es => (step s e).bind fun t => run step t es

/-- `P` holds in `s` and in every later state of the run. -/
def Throughout (step : σ → ε → Option σ) (P : σ → Prop) : σ → List ε → Prop
  | s, [] => P s
  | s, e :: es => P s ∧ ∀ t, step s e = some t → Throughout step P t es

/-- Every step taken in the run meets `C`, a condition on the state before the step. -/
def Along (step : σ → ε → Option σ) (C : σ → ε → Prop) : σ → List ε → Prop
  | _, [] => True
  | s, e :: es => ∀ t, step s e = some t → C s e ∧ Along step C t es

section Rules

variable {step : σ → ε → Option σ} {P I : σ → Prop} {C : σ → ε → Prop}

theorem Throughout.head {s : σ} {es : List ε} (h : Throughout step P s es) : P s := by
  cases es with
  | nil =>
      exact h
  | cons e es =>
      exact h.1

theorem Along.cons {s t : σ} {e : ε} {es : List ε} (ht : step s e = some t) (hC : C s e)
    (h : Along step C t es) : Along step C s (e :: es) := by
  intro u hu
  rw [ht] at hu
  cases hu
  exact ⟨hC, h⟩

/-- `P` holds throughout a run exactly if it holds after every part of it. -/
theorem throughout_iff_prefix {s : σ} {es : List ε} :
    Throughout step P s es ↔ ∀ fs t, fs <+: es → run step s fs = some t → P t := by
  induction es generalizing s with
  | nil =>
      constructor
      · intro h fs t hfs hrun
        have hnil : fs = [] := List.prefix_nil.mp hfs
        subst hnil
        cases hrun
        exact h
      · intro h
        exact h [] s List.prefix_rfl rfl
  | cons e es ih =>
      constructor
      · rintro ⟨hs, hrest⟩ fs t hfs hrun
        cases fs with
        | nil =>
            cases hrun
            exact hs
        | cons f fs =>
            rcases List.cons_prefix_cons.mp hfs with ⟨rfl, hpre⟩
            rcases Option.bind_eq_some_iff.mp hrun with ⟨u, hu, hut⟩
            exact ih.mp (hrest u hu) fs t hpre hut
      · intro h
        refine ⟨h [] s (List.nil_prefix) rfl, ?_⟩
        intro u hu
        refine ih.mpr ?_
        intro fs t hfs hrun
        refine h (e :: fs) t (List.cons_prefix_cons.mpr ⟨rfl, hfs⟩) ?_
        simp [run, hu, hrun]

/-- The invariant rule: what holds at the start and is kept by every step that meets `C`
holds throughout a run whose steps meet `C`. -/
theorem throughout_of_along
    (hkeep : ∀ s e t, I s → C s e → step s e = some t → I t) {s : σ} {es : List ε}
    (hs : I s) (hC : Along step C s es) : Throughout step I s es := by
  induction es generalizing s with
  | nil =>
      exact hs
  | cons e es ih =>
      refine ⟨hs, ?_⟩
      intro t ht
      rcases hC t ht with ⟨hCe, hrest⟩
      exact ih (hkeep s e t hs hCe ht) hrest

/-- What every step keeps holds throughout. -/
theorem throughout_of_keeps (hkeep : ∀ s e t, I s → step s e = some t → I t) {s : σ} {es : List ε}
    (hs : I s) : Throughout step I s es := by
  induction es generalizing s with
  | nil =>
      exact hs
  | cons e es ih =>
      exact ⟨hs, fun t ht => ih (hkeep s e t hs ht)⟩

/-- What every step keeps holds at the end of a run that succeeds. -/
theorem run_keeps (hkeep : ∀ s e t, I s → step s e = some t → I t) {s t : σ} {es : List ε}
    (hs : I s) (hrun : run step s es = some t) : I t := by
  induction es generalizing s with
  | nil =>
      cases hrun
      exact hs
  | cons e es ih =>
      rcases Option.bind_eq_some_iff.mp hrun with ⟨u, hu, hut⟩
      exact ih (hkeep s e u hs hu) hut

theorem Throughout.imp {Q : σ → Prop} (hPQ : ∀ s, P s → Q s) {s : σ} {es : List ε}
    (h : Throughout step P s es) : Throughout step Q s es := by
  induction es generalizing s with
  | nil =>
      exact hPQ s h
  | cons e es ih =>
      exact ⟨hPQ s h.1, fun t ht => ih (h.2 t ht)⟩

/-- When `I` is kept by the steps that meet `C`, implies `P`, and every step from `I` that does
not meet `C` breaks `P`, then `P` holds throughout a run exactly if all its steps meet `C`. -/
theorem throughout_iff_along
    (hkeep : ∀ s e t, I s → C s e → step s e = some t → I t)
    (hP : ∀ s, I s → P s)
    (hbreak : ∀ s e t, I s → step s e = some t → ¬ C s e → ¬ P t)
    {s : σ} {es : List ε} (hs : I s) :
    Throughout step P s es ↔ Along step C s es := by
  constructor
  · intro h
    induction es generalizing s with
    | nil =>
        trivial
    | cons e es ih =>
        intro t ht
        -- A step that does not meet `C` would break `P` in the next state.
        have hC : C s e := by
          by_contra hC
          exact hbreak s e t hs ht hC (h.2 t ht).head
        exact ⟨hC, ih (hkeep s e t hs hC ht) (h.2 t ht)⟩
  · intro h
    exact (throughout_of_along hkeep hs h).imp hP

/-! ### Runs that may be continued -/

variable {D : ε → Prop}

theorem Along.append (hD : ∀ s e, D e → C s e) {s : σ} {es fs : List ε} (h : Along step C s es)
    (hfs : ∀ f ∈ fs, D f) : Along step C s (es ++ fs) := by
  induction es generalizing s with
  | nil =>
      clear h
      induction fs generalizing s with
      | nil =>
          trivial
      | cons f fs ih =>
          exact fun t _ => ⟨hD s f (hfs f (by simp)), ih fun f hf => hfs f (by simp [hf])⟩
  | cons e es ih =>
      exact fun t ht => ⟨(h t ht).1, ih (h t ht).2⟩

theorem Along.of_prefix {s : σ} {es fs : List ε} (h : Along step C s es) (hfs : fs <+: es) :
    Along step C s fs := by
  induction es generalizing s fs with
  | nil =>
      rw [List.prefix_nil.mp hfs]
      trivial
  | cons e es ih =>
      cases fs with
      | nil =>
          trivial
      | cons f fs =>
          rcases List.cons_prefix_cons.mp hfs with ⟨rfl, hrest⟩
          exact fun t ht => ⟨(h t ht).1, ih (h t ht).2 hrest⟩

/-- When a step that does not meet `C` need not break `P` itself, but can be followed by steps of
`D` that do, the runs whose steps meet `C` are those that keep `P` however they are continued. -/
theorem along_iff_continued
    (hkeep : ∀ s e t, I s → C s e → step s e = some t → I t)
    (hP : ∀ s, I s → P s)
    (hD : ∀ s e, D e → C s e)
    (hbreak : ∀ s e t, I s → step s e = some t → ¬ C s e →
      ∃ fs, (∀ f ∈ fs, D f) ∧ ¬ Throughout step P t fs)
    {s : σ} {es : List ε} (hs : I s) :
    Along step C s es ↔ ∀ before fs, before <+: es → (∀ f ∈ fs, D f) →
      Throughout step P s (before ++ fs) := by
  constructor
  · intro h before fs hbefore hfs
    exact (throughout_of_along hkeep hs ((h.of_prefix hbefore).append hD hfs)).imp hP
  · intro h
    induction es generalizing s with
    | nil =>
        trivial
    | cons e es ih =>
        intro t ht
        have hC : C s e := by
          by_contra hC
          rcases hbreak s e t hs ht hC with ⟨fs, hfs, hnot⟩
          exact hnot ((h [e] fs (by simp) hfs).2 t ht)
        refine ⟨hC, ih (hkeep s e t hs hC ht) ?_⟩
        intro before fs hbefore hfs
        exact (h (e :: before) fs (List.cons_prefix_cons.mpr ⟨rfl, hbefore⟩) hfs).2 t ht

end Rules

/-! ## Runs with outputs, and refinement -/

/-- Runs of a step function that returns an output, collecting the outputs in order. -/
def runOut (step : σ → ε → Option (σ × ω)) : σ → List ε → Option (σ × List ω)
  | s, [] => some (s, [])
  | s, e :: es => do
      let (t, o) ← step s e
      let (t', os) ← runOut step t es
      some (t', o :: os)

theorem runOut_append (step : σ → ε → Option (σ × ω)) (s : σ) (es fs : List ε) :
    runOut step s (es ++ fs) =
      (runOut step s es).bind fun p => (runOut step p.1 fs).map fun q => (q.1, p.2 ++ q.2) := by
  induction es generalizing s with
  | nil =>
      cases h : runOut step s fs with
      | none => simp [runOut, h]
      | some q => simp [runOut, h]
  | cons e es ih =>
      cases h : step s e with
      | none => simp [runOut, h]
      | some p =>
          cases hes : runOut step p.1 es with
          | none => simp [runOut, h, ih, hes]
          | some q =>
              cases hfs : runOut step q.1 fs with
              | none => simp [runOut, h, ih, hes, hfs]
              | some r => simp [runOut, h, ih, hes, hfs]

theorem runOut_cons_eq_some {step : σ → ε → Option (σ × ω)} {s t : σ} {e : ε} {es : List ε}
    {outs : List ω} :
    runOut step s (e :: es) = some (t, outs) ↔
      ∃ u o os, step s e = some (u, o) ∧ runOut step u es = some (t, os) ∧ outs = o :: os := by
  cases he : step s e with
  | none =>
      simp [runOut, he]
  | some p =>
      rcases p with ⟨u, o⟩
      cases hes : runOut step u es with
      | none =>
          simp [runOut, he, hes]
      | some q =>
          simp only [runOut, he, hes, Option.bind_eq_bind, Option.bind_some, Option.some.injEq,
            Prod.mk.injEq]
          constructor
          · rintro ⟨ht, houts⟩
            exact ⟨u, o, q.2, ⟨rfl, rfl⟩, by rw [hes, ← ht], houts.symm⟩
          · rintro ⟨u', o', os, ⟨rfl, rfl⟩, hrun, rfl⟩
            rw [hes] at hrun
            cases hrun
            exact ⟨rfl, rfl⟩

/-- A run succeeds exactly if every step does in the state that the steps before it reach. -/
theorem runOut_isSome_iff {step : σ → ε → Option (σ × ω)} {s : σ} {es : List ε} :
    (runOut step s es).isSome ↔ ∀ before e, before ++ [e] <+: es →
      ∀ t outs, runOut step s before = some (t, outs) → (step t e).isSome := by
  induction es generalizing s with
  | nil =>
      simp [runOut]
  | cons e es ih =>
      constructor
      · intro h before f hpre t outs hrun
        rcases Option.isSome_iff_exists.mp h with ⟨⟨v, all⟩, hall⟩
        rcases runOut_cons_eq_some.mp hall with ⟨u, o, os, hu, hv, -⟩
        cases before with
        | nil =>
            have hf : f = e := (List.cons_prefix_cons.mp hpre).1
            cases hrun
            rw [hf, hu]
            rfl
        | cons g before =>
            -- The first step is the same, and the others are those of the rest of the run.
            rcases List.cons_prefix_cons.mp hpre with ⟨rfl, htail⟩
            rcases runOut_cons_eq_some.mp hrun with ⟨u', o', os', hu', hrun', -⟩
            rw [hu] at hu'
            cases hu'
            exact ih.mp (by rw [hv]; rfl) before f htail t os' hrun'
      · intro h
        rcases Option.isSome_iff_exists.mp (h [] e (by simp) s [] rfl) with ⟨⟨u, o⟩, hu⟩
        have hrest : (runOut step u es).isSome := by
          refine ih.mpr ?_
          intro before f hpre t outs hrun
          exact h (e :: before) f (List.cons_prefix_cons.mpr ⟨rfl, hpre⟩) t (o :: outs)
            (runOut_cons_eq_some.mpr ⟨u, o, outs, hu, hrun, rfl⟩)
        rcases Option.isSome_iff_exists.mp hrest with ⟨⟨v, os⟩, hv⟩
        rw [runOut_cons_eq_some.mpr ⟨u, o, os, hu, hv, rfl⟩]
        rfl

/-- What every step keeps holds at the end of a run with outputs that succeeds. -/
theorem runOut_keeps {step : σ → ε → Option (σ × ω)} {I : σ → Prop}
    (hkeep : ∀ s e t out, I s → step s e = some (t, out) → I t) {s t : σ} {es : List ε}
    {outs : List ω} (hs : I s) (hrun : runOut step s es = some (t, outs)) : I t := by
  induction es generalizing s outs with
  | nil =>
      cases hrun
      exact hs
  | cons e es ih =>
      rcases runOut_cons_eq_some.mp hrun with ⟨u, o, os, hu, hrest, -⟩
      exact ih (hkeep s e u o hs hu) hrest

/-- Runs of a total specification with outputs. -/
def specOut (spec : τ → ε → τ × ω) : τ → List ε → τ × List ω
  | a, [] => (a, [])
  | a, e :: es =>
      let (b, o) := spec a e
      let (c, os) := specOut spec b es
      (c, o :: os)

/-- Two specifications that answer alike in related states, and stay related, have the same
outputs over a whole run. -/
theorem specOut_eq_of_related {υ : Type y} {spec : τ → ε → τ × ω} {spec' : υ → ε → υ × ω}
    {R : τ → υ → Prop}
    (hstep : ∀ a b e, R a b → (spec a e).2 = (spec' b e).2 ∧ R (spec a e).1 (spec' b e).1)
    {a : τ} {b : υ} (hR : R a b) (es : List ε) :
    (specOut spec a es).2 = (specOut spec' b es).2 := by
  induction es generalizing a b with
  | nil =>
      rfl
  | cons e es ih =>
      rcases hstep a b e hR with ⟨hout, hnext⟩
      simp only [specOut, hout, ih hnext]

/-- Forward simulation: if related states make related steps with equal outputs, a run of the
implementation succeeds, has the outputs of the specification and ends in a related state. -/
theorem runOut_refines {step : σ → ε → Option (σ × ω)} {spec : τ → ε → τ × ω}
    {R : σ → τ → Prop} {ok : ε → Prop}
    (hstep : ∀ s a e, R s a → ok e →
      ∃ t, step s e = some (t, (spec a e).2) ∧ R t (spec a e).1)
    {s : σ} {a : τ} {es : List ε} (hR : R s a) (hok : ∀ e ∈ es, ok e) :
    ∃ t, runOut step s es = some (t, (specOut spec a es).2) ∧ R t (specOut spec a es).1 := by
  induction es generalizing s a with
  | nil =>
      exact ⟨s, rfl, hR⟩
  | cons e es ih =>
      -- One step of the simulation, and the rest of the run from the related states.
      rcases hstep s a e hR (hok e (by simp)) with ⟨t, ht, hRt⟩
      rcases ih hRt (fun e' he' => hok e' (by simp [he'])) with ⟨t', ht', hRt'⟩
      refine ⟨t', ?_, hRt'⟩
      simp [runOut, specOut, ht, ht']

end Base
end Etude
