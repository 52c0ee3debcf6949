import Mathlib

/-! # Ledgers

What the holders of a shared quantity hold together: the total of a map from
holders to amounts and the total along a list, and how one change of a holder
changes it.
-/

namespace Ledger

variable {κ α M : Type*} [DecidableEq κ] [AddCommGroup M]

/-! ## Maps -/

/-- What the entries of a map hold together. -/
def total (weight : α → M) (m : AList fun _ : κ => α) : M :=
  (m.entries.map fun e => weight e.2).sum

/-- What one key holds. -/
def held (weight : α → M) (m : AList fun _ : κ => α) (k : κ) : M := (m.lookup k).elim 0 weight

omit [DecidableEq κ] in
@[simp] theorem total_empty (weight : α → M) : total weight (∅ : AList fun _ : κ => α) = 0 := rfl

theorem sum_kerase (weight : α → M) (k : κ) (entries : List (Sigma fun _ : κ => α)) :
    ((entries.kerase k).map fun e => weight e.2).sum =
      (entries.map fun e => weight e.2).sum - ((entries.dlookup k).elim 0 weight) := by
  induction entries with
  | nil => simp
  | cons e entries ih =>
      obtain ⟨k', a⟩ := e
      by_cases hk : k = k'
      · subst hk
        have hrest : List.kerase k (⟨k, a⟩ :: entries) = entries := List.kerase_cons_eq rfl
        rw [hrest, List.dlookup_cons_eq, List.map_cons, List.sum_cons]
        exact (add_sub_cancel_left _ _).symm
      · rw [List.kerase_cons_ne (by simpa using hk), List.dlookup_cons_ne _ _ (by simpa using hk),
          List.map_cons, List.map_cons, List.sum_cons, List.sum_cons, ih]
        exact (add_sub_assoc _ _ _).symm

/-- A key that goes takes along what it held. -/
theorem total_erase (weight : α → M) (m : AList fun _ : κ => α) (k : κ) :
    total weight (m.erase k) = total weight m - held weight m k :=
  sum_kerase weight k m.entries

/-- A key that is set gives back what it held. -/
theorem total_insert (weight : α → M) (m : AList fun _ : κ => α) (k : κ) (a : α) :
    total weight (m.insert k a) = total weight m - held weight m k + weight a := by
  have hentries : total weight (m.insert k a) = weight a + total weight (m.erase k) := by
    unfold total
    rw [AList.entries_insert, List.map_cons, List.sum_cons]
    rfl
  rw [hentries, total_erase, add_comm]

/-! ## Lists -/

/-- One holder of a list changes. -/
theorem sum_set (weight : α → M) (xs : List α) (i : Nat) {x : α} (hx : xs[i]? = some x) (y : α) :
    ((xs.set i y).map weight).sum = (xs.map weight).sum - weight x + weight y := by
  induction xs generalizing i with
  | nil => simp at hx
  | cons z xs ih =>
      cases i with
      | zero =>
          obtain rfl : z = x := by simpa using hx
          rw [List.set_cons_zero, List.map_cons, List.map_cons, List.sum_cons, List.sum_cons]
          abel
      | succ i =>
          rw [List.getElem?_cons_succ] at hx
          rw [List.set_cons_succ, List.map_cons, List.map_cons, List.sum_cons, List.sum_cons, ih i hx]
          abel

end Ledger
