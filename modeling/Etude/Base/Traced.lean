import Mathlib.Data.List.Basic

/-!
# Traced — computations that leave a trace and may throw

A `Traced ω ε α` is the list of the events of a computation and the way it completes: with a
value, or with a thrown `ε`.  What throws is not followed by anything, unless it is caught.
-/

namespace Etude
namespace Base

structure Traced (ω ε α : Type) where
  trace : List ω
  result : Except ε α

namespace Traced

variable {ω ε α β σ : Type}

instance : Monad (Traced ω ε) where
  pure a :=
    { trace := []
      result := .ok a }
  bind x f :=
    match x.result with
    | .ok a =>
        { trace := x.trace ++ (f a).trace
          result := (f a).result }
    | .error e =>
        { trace := x.trace
          result := .error e }

/-- A call to the outside, which completes as `result` says. -/
def call (event : ω) (result : Except ε α) : Traced ω ε α :=
  { trace := [event]
    result := result }

def emit (event : ω) : Traced ω ε Unit :=
  call event (.ok ())

def throwing (e : ε) : Traced ω ε α :=
  { trace := []
    result := .error e }

/-- `try`: the way in which `x` completes becomes a value. -/
def attempt (x : Traced ω ε α) : Traced ω ε (Except ε α) :=
  { trace := x.trace
    result := .ok x.result }

/-! ## Rules -/

@[simp] theorem ok_bind (t : List ω) (a : α) (f : α → Traced ω ε β) :
    ((⟨t, .ok a⟩ : Traced ω ε α) >>= f) = ⟨t ++ (f a).trace, (f a).result⟩ :=
  rfl

@[simp] theorem error_bind (t : List ω) (e : ε) (f : α → Traced ω ε β) :
    ((⟨t, .error e⟩ : Traced ω ε α) >>= f) = ⟨t, .error e⟩ :=
  rfl

@[simp] theorem bind_pure_unit (x : Traced ω ε Unit) : (x >>= fun _ => pure ()) = x := by
  rcases x with ⟨t, _ | _⟩
  · rfl
  · rw [ok_bind]
    exact congrArg (fun t => Traced.mk t _) (List.append_nil t)

/-- A loop whose body never throws, and leaves events that depend on the element alone. -/
theorem foldlM_eq {body : σ → α → Traced ω ε σ} {out : α → List ω} {next : σ → α → σ}
    (hbody : ∀ s a, body s a = ⟨out a, .ok (next s a)⟩) (as : List α) (s : σ) :
    as.foldlM body s = ⟨as.flatMap out, .ok (as.foldl next s)⟩ := by
  induction as generalizing s with
  | nil =>
      rfl
  | cons a as ih =>
      rw [List.foldlM_cons, hbody, ok_bind, ih]
      rfl

end Traced

end Base
end Etude
