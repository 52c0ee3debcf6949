import Mathlib.Data.List.Basic
import Mathlib.Tactic.Tauto

/-! # Partly known facts

A source knows the value of some facts. Sources conflict where two of them know
different values of one fact; those that do not sum up to what any of them knows.
-/

namespace Facts

variable {ι : Type*} {β : Type*}

/-- Two sources know different values of one fact. -/
def Conflict (f g : ι → Option β) : Prop := ∃ i x y, f i = some x ∧ g i = some y ∧ x ≠ y

theorem Conflict.symm {f g : ι → Option β} : Conflict f g → Conflict g f := by
  rintro ⟨i, x, y, hx, hy, hne⟩
  exact ⟨i, y, x, hy, hx, hne.symm⟩

theorem not_conflict_self (f : ι → Option β) : ¬ Conflict f f := by
  rintro ⟨i, x, y, hx, hy, hne⟩
  exact hne (Option.some.inj (hx.symm.trans hy))

theorem eq_of_not_conflict {f g : ι → Option β} (h : ¬ Conflict f g) {i : ι} {x y : β}
    (hx : f i = some x) (hy : g i = some y) : x = y := by
  by_contra hne
  exact h ⟨i, x, y, hx, hy, hne⟩

/-- One source knows what any of some knows, and nothing else. -/
def Sums (r : ι → Option β) (sources : List (ι → Option β)) : Prop :=
  ∀ i x, r i = some x ↔ ∃ f ∈ sources, f i = some x

theorem sums_singleton (f : ι → Option β) : Sums f [f] := by
  intro i x
  simp

/-- The sum of the same sources is the same. -/
theorem Sums.unique {r r' : ι → Option β} {sources sources' : List (ι → Option β)} (h : Sums r sources)
    (h' : Sums r' sources') (hsame : ∀ f, f ∈ sources ↔ f ∈ sources') : r = r' := by
  funext i
  ext x
  rw [h i x, h' i x]
  simp only [hsame]

/-- A source conflicts with the sum iff it conflicts with one of the sources. -/
theorem Sums.conflict_iff {r g : ι → Option β} {sources : List (ι → Option β)} (h : Sums r sources) :
    Conflict r g ↔ ∃ f ∈ sources, Conflict f g := by
  constructor
  · rintro ⟨i, x, y, hx, hy, hne⟩
    obtain ⟨f, hf, hfx⟩ := (h i x).mp hx
    exact ⟨f, hf, i, x, y, hfx, hy, hne⟩
  · rintro ⟨f, hf, i, x, y, hx, hy, hne⟩
    exact ⟨i, x, y, (h i x).mpr ⟨f, hf, hx⟩, hy, hne⟩

/-- A source is added: its own values are kept, and the sum completes the others. -/
theorem Sums.add {r g s : ι → Option β} {sources : List (ι → Option β)} (h : Sums r sources)
    (hnone : ¬ Conflict r g) (hs : ∀ i, s i = (g i).or (r i)) : Sums s (sources ++ [g]) := by
  intro i x
  rw [hs i]
  simp only [List.mem_append, List.mem_singleton, or_and_right, exists_or, exists_eq_left]
  rw [← h i x]
  cases hg : g i with
  | none => simp
  | some y =>
      simp only [Option.some_or, Option.some_inj]
      constructor
      · exact fun hyx => .inr hyx
      · rintro (hr | hyx)
        · exact (eq_of_not_conflict hnone hr hg).symm
        · exact hyx

end Facts
