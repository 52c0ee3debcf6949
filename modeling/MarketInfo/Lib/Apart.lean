import MarketInfo.Lib.Spans
import Mathlib.Order.Bounds.Basic

/-! # Ranges that are merged as far as they go

Sorted ranges, none empty, with at least one number left out between any two.
Such a list is the only one that covers the numbers it covers: a run of covered
numbers lies in a single range, and the first number that is left out follows
the first range.
-/

namespace MarketInfo.Span

def Apart (rs : List Span) : Prop :=
  (∀ r ∈ rs, r.lo ≤ r.hi) ∧ rs.Pairwise fun a b => a.hi + 1 < b.lo

@[simp] theorem apart_nil : Apart [] := ⟨by simp, List.Pairwise.nil⟩

theorem apart_cons {r : Span} {rs : List Span} :
    Apart (r :: rs) ↔ r.lo ≤ r.hi ∧ (∀ q ∈ rs, r.hi + 1 < q.lo) ∧ Apart rs := by
  unfold Apart
  rw [List.pairwise_cons, List.forall_mem_cons]
  tauto

theorem apart_append {rs qs : List Span} :
    Apart (rs ++ qs) ↔ Apart rs ∧ Apart qs ∧ ∀ a ∈ rs, ∀ b ∈ qs, a.hi + 1 < b.lo := by
  unfold Apart
  rw [List.pairwise_append, List.forall_mem_append]
  tauto

/-- Two ranges of the list are one, or one lies before the other. -/
theorem Apart.eq_or_apart {rs : List Span} (h : Apart rs) {r q : Span} (hr : r ∈ rs) (hq : q ∈ rs) :
    r = q ∨ r.hi + 1 < q.lo ∨ q.hi + 1 < r.lo := by
  induction rs with
  | nil => cases hr
  | cons x rs ih =>
      rcases apart_cons.mp h with ⟨-, hx, hrest⟩
      rcases List.mem_cons.mp hr with rfl | hr'
      · rcases List.mem_cons.mp hq with rfl | hq'
        · exact .inl rfl
        · exact .inr (.inl (hx q hq'))
      · rcases List.mem_cons.mp hq with rfl | hq'
        · exact .inr (.inr (hx r hr'))
        · exact ih hrest hr' hq'

/-- Numbers in a row that are all covered lie in one range. -/
theorem Apart.covered_run {rs : List Span} (h : Apart rs) {lo hi : Nat} (hle : lo ≤ hi)
    (hcov : ∀ k, lo ≤ k → k ≤ hi → Covered rs k) : ∃ r ∈ rs, r.lo ≤ lo ∧ hi ≤ r.hi := by
  rcases hcov lo (le_refl _) hle with ⟨r, hr, hlo, hhi⟩
  refine ⟨r, hr, hlo, ?_⟩
  by_contra hlt
  -- the number after the range would be covered by a range that touches it
  rcases hcov (r.hi + 1) (by omega) (by omega) with ⟨q, hq, hqlo, hqhi⟩
  rcases h.eq_or_apart hr hq with rfl | hgap | hgap <;> omega

/-- `g` is the first number left out after the first covered one, and a later one is covered. -/
def FirstGap (C : Nat → Prop) (g : Nat) : Prop :=
  ∃ lo hi, IsLeast {n | C n} lo ∧ IsLeast {n | lo < n ∧ ¬ C n} g ∧ g < hi ∧ C hi

theorem Apart.le_of_covered {r : Span} {rs : List Span} (h : Apart (r :: rs)) {n : Nat}
    (hcov : Covered (r :: rs) n) : r.lo ≤ n := by
  rcases apart_cons.mp h with ⟨hr, hrest, -⟩
  rcases covered_cons.mp hcov with hn | ⟨q, hq, hn⟩
  · exact hn.1
  · have := hrest q hq
    unfold Holds at hn
    omega

/-- The number after the first range is left out. -/
theorem Apart.not_covered {r : Span} {rs : List Span} (h : Apart (r :: rs)) :
    ¬ Covered (r :: rs) (r.hi + 1) := by
  rcases apart_cons.mp h with ⟨-, hrest, -⟩
  intro hcov
  rcases covered_cons.mp hcov with hn | ⟨x, hx, hn⟩
  · unfold Holds at hn
    omega
  · have := hrest x hx
    unfold Holds at hn
    omega

/-- The rest covers what comes after the first range. -/
theorem Apart.covered_rest {r : Span} {rs : List Span} (h : Apart (r :: rs)) {n : Nat} :
    Covered rs n ↔ r.hi < n ∧ Covered (r :: rs) n := by
  rcases apart_cons.mp h with ⟨-, hrest, -⟩
  constructor
  · rintro ⟨q, hq, hn⟩
    have := hrest q hq
    refine ⟨?_, covered_cons.mpr (.inr ⟨q, hq, hn⟩)⟩
    unfold Holds at hn
    omega
  · rintro ⟨hlt, hcov⟩
    rcases covered_cons.mp hcov with hn | hn
    · unfold Holds at hn
      omega
    · exact hn

/-- Two such lists that cover the same numbers are one. -/
theorem Apart.ext {rs qs : List Span} (h : Apart rs) (h' : Apart qs)
    (hcov : ∀ n, Covered rs n ↔ Covered qs n) : rs = qs := by
  induction rs generalizing qs with
  | nil =>
      cases qs with
      | nil => rfl
      | cons q qs =>
          have hq : Covered (q :: qs) q.lo :=
            covered_cons.mpr (.inl ⟨le_refl _, (apart_cons.mp h').1⟩)
          rcases (hcov _).mpr hq with ⟨x, hx, -⟩
          cases hx
  | cons r rs ih =>
      have hr : Covered (r :: rs) r.lo := covered_cons.mpr (.inl ⟨le_refl _, (apart_cons.mp h).1⟩)
      cases qs with
      | nil =>
          rcases (hcov _).mp hr with ⟨x, hx, -⟩
          cases hx
      | cons q qs =>
          have hq : Covered (q :: qs) q.lo :=
            covered_cons.mpr (.inl ⟨le_refl _, (apart_cons.mp h').1⟩)
          have hlo : r.lo = q.lo :=
            le_antisymm (h.le_of_covered ((hcov _).mpr hq)) (h'.le_of_covered ((hcov _).mp hr))
          -- a range that went on would cover the number that the other one leaves out
          have hle := (apart_cons.mp h).1
          have hle' := (apart_cons.mp h').1
          have hhi : r.hi = q.hi := by
            by_contra hne
            rcases Nat.lt_or_gt_of_ne hne with hlt | hlt
            · exact h.not_covered ((hcov _).mpr (covered_cons.mpr (.inl ⟨by omega, by omega⟩)))
            · exact h'.not_covered ((hcov _).mp (covered_cons.mpr (.inl ⟨by omega, by omega⟩)))
          have hrest : rs = qs := by
            refine ih (apart_cons.mp h).2.2 (apart_cons.mp h').2.2 fun n => ?_
            rw [h.covered_rest, h'.covered_rest, hcov, hhi]
          have hhead : r = q := by
            cases r
            cases q
            rw [Span.mk.injEq]
            exact ⟨hlo, hhi⟩
          rw [hhead, hrest]

theorem Apart.firstGap {r q : Span} {rs : List Span} (h : Apart (r :: q :: rs)) :
    FirstGap (Covered (r :: q :: rs)) (r.hi + 1) := by
  rcases apart_cons.mp h with ⟨hr, hrest, hqs⟩
  rcases apart_cons.mp hqs with ⟨hq, -, -⟩
  have hlt := hrest q (List.mem_cons_self ..)
  have hlow : Covered (r :: q :: rs) r.lo := covered_cons.mpr (.inl ⟨le_refl _, hr⟩)
  have hhigh : Covered (r :: q :: rs) q.lo :=
    covered_cons.mpr (.inr (covered_cons.mpr (.inl ⟨le_refl _, hq⟩)))
  refine ⟨r.lo, q.lo, ⟨hlow, fun n hn => h.le_of_covered hn⟩, ⟨⟨by omega, h.not_covered⟩, ?_⟩,
    hlt, hhigh⟩
  · rintro n ⟨hn, hout⟩
    by_contra hlt'
    exact hout (covered_cons.mpr (.inl ⟨by omega, by omega⟩))

/-- A single range leaves nothing out between two numbers that it covers. -/
theorem covered_between {r : Span} {lo mid hi : Nat} (hlo : Covered [r] lo) (hhi : Covered [r] hi)
    (h : lo ≤ mid) (h' : mid ≤ hi) : Covered [r] mid := by
  rcases hlo with ⟨q, hq, hlo⟩
  rcases hhi with ⟨q', hq', hhi⟩
  rw [List.mem_singleton.mp hq] at hlo
  rw [List.mem_singleton.mp hq'] at hhi
  exact ⟨r, List.mem_singleton_self r, hlo.1.trans h, h'.trans hhi.2⟩

end MarketInfo.Span
