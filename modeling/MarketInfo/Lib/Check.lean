import Mathlib

/-! # Guarded error returns

The early returns of an imperative function, `if cond { return error }`, as a
`do` block over `Except`: `failIf` is one such return, and the rules below take
a successful block apart.
-/

namespace Check

variable {ε α β : Type}

/-- `if p { return error }`. -/
def failIf (p : Prop) [Decidable p] (err : ε) : Except ε Unit :=
  if p then .error err else .ok ()

@[simp] theorem failIf_eq_ok {p : Prop} {_ : Decidable p} {err : ε} {t : Unit} :
    failIf p err = .ok t ↔ ¬ p := by
  unfold failIf
  split <;> simp_all

/-- A check that passed is followed by the rest. -/
@[simp] theorem seq_eq_ok {x : Except ε Unit} {f : Unit → Except ε β} {b : β} :
    (x >>= f) = .ok b ↔ x = .ok () ∧ f () = .ok b := by
  rcases x with e | t
  · simp [bind, Except.bind]
  · simp [bind, Except.bind]

/-- A successful sequence is a success of both halves. -/
theorem andThen_eq_ok {x : Except ε α} {f : α → Except ε β} {b : β} :
    (x >>= f) = .ok b ↔ ∃ a, x = .ok a ∧ f a = .ok b := by
  rcases x with e | a
  · simp [bind, Except.bind]
  · simp [bind, Except.bind]

/-- Checking every element of a list, stopping at the first failure. -/
def checkAll (f : α → Except ε Unit) : List α → Except ε Unit
  | [] => .ok ()
  | x :: xs => do
      f x
      checkAll f xs

@[simp] theorem checkAll_eq_ok {f : α → Except ε Unit} {xs : List α} {t : Unit} :
    checkAll f xs = .ok t ↔ ∀ x ∈ xs, f x = .ok () := by
  induction xs with
  | nil => simp [checkAll]
  | cons x xs ih =>
      rw [checkAll, seq_eq_ok, ih]
      simp

/-- `fmt.Errorf("pre: %w", err)`. -/
def wrap (pre : String) : Except String α → Except String α
  | .error e => .error (pre ++ ": " ++ e)
  | .ok a => .ok a

@[simp] theorem wrap_eq_ok {pre : String} {x : Except String α} {a : α} :
    wrap pre x = .ok a ↔ x = .ok a := by
  cases x <;> simp [wrap]

end Check
