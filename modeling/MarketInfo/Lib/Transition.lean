import Mathlib

/-! # Runs of a transition system

A labelled step relation, its finite runs, and the rules every safety result
goes through: an invariant is an induction over the run, and a simulation is an
induction over two runs with the same labels.
-/

namespace Transition

variable {σ τ α : Type*}

/-- `Run step s as s'`: the labels `as`, in order, lead from `s` to `s'`. -/
inductive Run (step : σ → α → σ → Prop) : σ → List α → σ → Prop where
  | nil (s : σ) : Run step s [] s
  | cons {s s' s'' : σ} {a : α} {as : List α} :
      step s a s' → Run step s' as s'' → Run step s (a :: as) s''

variable {step : σ → α → σ → Prop}

theorem Run.append {s s' s'' : σ} {as bs : List α} (h : Run step s as s')
    (h' : Run step s' bs s'') : Run step s (as ++ bs) s'' := by
  induction h with
  | nil s => exact h'
  | cons hs _ ih => exact .cons hs (ih h')

/-- Invariant induction: what holds at the start and is kept by each step holds
at the end of every run. -/
theorem Run.invariant {s s' : σ} {as : List α} (h : Run step s as s') (inv : σ → Prop)
    (hinit : inv s) (hstep : ∀ s a s', step s a s' → inv s → inv s') : inv s' := by
  induction h with
  | nil s => exact hinit
  | cons hs _ ih => exact ih (hstep _ _ _ hs hinit)

/-- A run of a relation that implies another is a run of the other. -/
theorem Run.mono {step' : σ → α → σ → Prop} {s s' : σ} {as : List α} (h : Run step s as s')
    (himp : ∀ s a s', step s a s' → step' s a s') : Run step' s as s' := by
  induction h with
  | nil s => exact .nil s
  | cons hs _ ih => exact .cons (himp _ _ _ hs) ih

/-- The run of a transition function. -/
def runFn (f : σ → α → σ) (s : σ) (as : List α) : σ := as.foldl f s

@[simp] theorem runFn_nil (f : σ → α → σ) (s : σ) : runFn f s [] = s := rfl

@[simp] theorem runFn_cons (f : σ → α → σ) (s : σ) (a : α) (as : List α) :
    runFn f s (a :: as) = runFn f (f s a) as := rfl

theorem runFn_append (f : σ → α → σ) (s : σ) (as bs : List α) :
    runFn f s (as ++ bs) = runFn f (runFn f s as) bs := List.foldl_append

/-- Lock-step simulation of two transition functions: a relation kept by every
label holds after every common run. -/
theorem runFn_simulation {f : σ → α → σ} {g : τ → α → τ} {R : σ → τ → Prop} {s : σ} {t : τ}
    (hinit : R s t) (hstep : ∀ s t a, R s t → R (f s a) (g t a)) (as : List α) :
    R (runFn f s as) (runFn g t as) := by
  induction as generalizing s t with
  | nil => exact hinit
  | cons a as ih => exact ih (hstep s t a hinit)

end Transition
