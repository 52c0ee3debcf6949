import Mathlib

/-! # Shared budgets

`exchange.BufferBudget`: a counter with a limit that goroutines reserve from and
release to. Every call is one atomic step.
-/

namespace MarketInfo

/-- `exchange.BufferBudget`. -/
structure BufferBudget where
  limit : Int
  used : Int
deriving DecidableEq, Repr

namespace BufferBudget

/-- `Reserve`: nothing is taken unless all of it fits. -/
def reserve (b : BufferBudget) (n : Int) : Option BufferBudget :=
  if n < 0 ∨ b.limit < b.used + n then none else some { b with used := b.used + n }

/-- `Release`. -/
def release (b : BufferBudget) (n : Int) : BufferBudget := { b with used := b.used - n }

@[simp] theorem release_used (b : BufferBudget) (n : Int) : (b.release n).used = b.used - n := rfl

@[simp] theorem release_limit (b : BufferBudget) (n : Int) : (b.release n).limit = b.limit := rfl

theorem reserve_eq_some {b b' : BufferBudget} {n : Int} :
    b.reserve n = some b' ↔ 0 ≤ n ∧ b.used + n ≤ b.limit ∧ b' = { b with used := b.used + n } := by
  unfold reserve
  split
  · rename_i hfull
    simp only [false_iff, reduceCtorEq]
    omega
  · rename_i hfits
    rw [not_or, not_lt, not_lt] at hfits
    simp only [Option.some.injEq]
    constructor
    · rintro rfl
      exact ⟨hfits.1, hfits.2, rfl⟩
    · rintro ⟨-, -, rfl⟩
      rfl

end BufferBudget

end MarketInfo
