import Mathlib.Data.List.Sort

/-! # Covering numbers by ranges

A list of ranges covers the numbers that lie in one of them. Merging sorts the
ranges and joins those that touch; scanning a sorted list finds the first number
it leaves out.
-/

namespace MarketInfo

/-- The numbers from `lo` to `hi`. -/
structure Span where
  lo : Nat
  hi : Nat
deriving DecidableEq, Repr

namespace Span

def Holds (r : Span) (n : Nat) : Prop := r.lo ≤ n ∧ n ≤ r.hi

instance (r : Span) (n : Nat) : Decidable (r.Holds n) :=
  inferInstanceAs (Decidable (r.lo ≤ n ∧ n ≤ r.hi))

def Covered (rs : List Span) (n : Nat) : Prop := ∃ r ∈ rs, r.Holds n

instance (rs : List Span) (n : Nat) : Decidable (Covered rs n) :=
  inferInstanceAs (Decidable (∃ r ∈ rs, r.Holds n))

@[simp] theorem covered_nil (n : Nat) : ¬ Covered [] n := by
  rintro ⟨r, hr, -⟩
  cases hr

theorem covered_cons {r : Span} {rs : List Span} {n : Nat} :
    Covered (r :: rs) n ↔ r.Holds n ∨ Covered rs n := by
  unfold Covered
  simp

theorem covered_append {rs qs : List Span} {n : Nat} :
    Covered (rs ++ qs) n ↔ Covered rs n ∨ Covered qs n := by
  unfold Covered
  simp [or_and_right, exists_or]

/-- By the lower end, then by the upper one. -/
def le (a b : Span) : Prop := a.lo < b.lo ∨ a.lo = b.lo ∧ a.hi ≤ b.hi

instance (a b : Span) : Decidable (le a b) :=
  inferInstanceAs (Decidable (a.lo < b.lo ∨ a.lo = b.lo ∧ a.hi ≤ b.hi))

instance : Std.Total le := ⟨fun a b => by unfold le; omega⟩

instance : IsTrans Span le := ⟨fun a b c hab hbc => by unfold le at *; omega⟩

/-- `cur` and the sorted ranges after it, joined where they touch. -/
def absorb (cur : Span) : List Span → List Span
  | [] => [cur]
  | r :: rest =>
      if cur.hi + 1 < r.lo then cur :: absorb r rest
      else absorb { cur with hi := max cur.hi r.hi } rest

def merge (rs : List Span) : List Span :=
  match rs.insertionSort le with
  | [] => []
  | r :: rest => absorb r rest

theorem covered_absorb {cur : Span} {rest : List Span} {n : Nat}
    (hle : ∀ r ∈ rest, cur.lo ≤ r.lo) (hsorted : rest.Pairwise fun a b => a.lo ≤ b.lo) :
    Covered (absorb cur rest) n ↔ Covered (cur :: rest) n := by
  induction rest generalizing cur with
  | nil => rfl
  | cons r rest ih =>
      rcases List.pairwise_cons.mp hsorted with ⟨hr, hrest⟩
      have hcur := hle r (List.mem_cons_self ..)
      unfold absorb
      split_ifs with htouch
      · rw [covered_cons, ih hr hrest, ← covered_cons]
      · -- the joined range leaves no number between the two
        have hjoin : (Span.mk cur.lo (max cur.hi r.hi)).Holds n ↔ cur.Holds n ∨ r.Holds n := by
          unfold Holds
          simp only
          omega
        have hjoined : Covered (absorb ⟨cur.lo, max cur.hi r.hi⟩ rest) n ↔
            Covered (⟨cur.lo, max cur.hi r.hi⟩ :: rest) n :=
          ih (fun q hq => hle q (List.mem_cons_of_mem _ hq)) hrest
        rw [hjoined, covered_cons, covered_cons, covered_cons, hjoin, or_assoc]

theorem sorted_absorb {cur : Span} {rest : List Span}
    (hle : ∀ r ∈ rest, cur.lo ≤ r.lo) (hsorted : rest.Pairwise fun a b => a.lo ≤ b.lo) :
    (absorb cur rest).Pairwise (fun a b => a.lo ≤ b.lo) ∧ ∀ r ∈ absorb cur rest, cur.lo ≤ r.lo := by
  induction rest generalizing cur with
  | nil =>
      refine ⟨List.pairwise_singleton _ _, fun r hr => ?_⟩
      rw [List.mem_singleton.mp hr]
  | cons r rest ih =>
      rcases List.pairwise_cons.mp hsorted with ⟨hr, hrest⟩
      have hcur := hle r (List.mem_cons_self ..)
      unfold absorb
      split_ifs with htouch
      · rcases ih hr hrest with ⟨hpair, hlow⟩
        refine ⟨List.pairwise_cons.mpr ⟨fun q hq => hcur.trans (hlow q hq), hpair⟩, ?_⟩
        intro q hq
        rcases List.mem_cons.mp hq with rfl | hq
        · exact le_refl _
        · exact hcur.trans (hlow q hq)
      · exact ih (fun q hq => hle q (List.mem_cons_of_mem _ hq)) hrest

theorem insertionSort_lo (rs : List Span) :
    (rs.insertionSort le).Pairwise fun a b => a.lo ≤ b.lo :=
  (List.pairwise_insertionSort le rs).imp fun h => by unfold le at h; omega

/-- Merging covers the same numbers. -/
theorem covered_merge {rs : List Span} {n : Nat} : Covered (merge rs) n ↔ Covered rs n := by
  have hperm : Covered (rs.insertionSort le) n ↔ Covered rs n := by
    unfold Covered
    simp [List.mem_insertionSort]
  rw [← hperm]
  have hsorted := insertionSort_lo rs
  unfold merge
  split
  · rename_i hnil
    rw [hnil]
  · rename_i r rest hcons
    rw [hcons] at hsorted ⊢
    rcases List.pairwise_cons.mp hsorted with ⟨hr, hrest⟩
    exact covered_absorb hr hrest

theorem sorted_merge (rs : List Span) : (merge rs).Pairwise fun a b => a.lo ≤ b.lo := by
  have hsorted := insertionSort_lo rs
  unfold merge
  split
  · exact List.Pairwise.nil
  · rename_i r rest hcons
    rw [hcons] at hsorted
    rcases List.pairwise_cons.mp hsorted with ⟨hr, hrest⟩
    exact (sorted_absorb hr hrest).1

/-- The first number from `n` on that sorted ranges leave out, as far as `last`. -/
def firstUncovered (n last : Nat) : List Span → Nat
  | [] => n
  | r :: rest =>
      if r.hi < n then firstUncovered n last rest
      else if n < r.lo then n
      else if last < r.hi + 1 then r.hi + 1
      else firstUncovered (r.hi + 1) last rest

/-- The scan passes `last` exactly when every number as far as it is covered. -/
theorem lt_firstUncovered {rs : List Span} (hsorted : rs.Pairwise fun a b => a.lo ≤ b.lo)
    {n last : Nat} (hn : n ≤ last) :
    last < firstUncovered n last rs ↔ ∀ k, n ≤ k → k ≤ last → Covered rs k := by
  induction rs generalizing n with
  | nil =>
      unfold firstUncovered
      constructor
      · intro h
        omega
      · intro h
        exact absurd (h n (le_refl n) hn) (covered_nil n)
  | cons r rest ih =>
      rcases List.pairwise_cons.mp hsorted with ⟨hr, hrest⟩
      unfold firstUncovered
      split_ifs with hskip hgap hlast
      · rw [ih hrest hn]
        refine forall_congr' fun k => ⟨fun h hk hto => covered_cons.mpr (.inr (h hk hto)), ?_⟩
        intro h hk hto
        rcases covered_cons.mp (h hk hto) with hcov | hcov
        · unfold Holds at hcov
          omega
        · exact hcov
      · refine ⟨fun h => by omega, fun h => ?_⟩
        rcases h n (le_refl n) hn with ⟨q, hq, hcov⟩
        have hlo : r.lo ≤ q.lo := by
          rcases List.mem_cons.mp hq with rfl | hq
          · exact le_refl _
          · exact hr q hq
        unfold Holds at hcov
        omega
      · refine ⟨fun _ k hk hto => covered_cons.mpr (.inl ?_), fun _ => hlast⟩
        unfold Holds
        omega
      · rw [ih hrest (by omega)]
        constructor
        · intro h k hk hto
          rw [covered_cons]
          by_cases hhi : k ≤ r.hi
          · left
            unfold Holds
            omega
          · exact .inr (h k (by omega) hto)
        · intro h k hk hto
          rcases covered_cons.mp (h k (by omega) hto) with hcov | hcov
          · unfold Holds at hcov
            omega
          · exact hcov

theorem le_firstUncovered (n last : Nat) (rs : List Span) : n ≤ firstUncovered n last rs := by
  induction rs generalizing n with
  | nil => exact le_refl n
  | cons r rest ih =>
      unfold firstUncovered
      split_ifs with hskip hgap hlast
      · exact ih n
      · exact le_refl n
      · omega
      · have := ih (r.hi + 1)
        omega

/-- The scan passes covered numbers only. -/
theorem covered_of_lt_firstUncovered {n last k : Nat} {rs : List Span} (hn : n ≤ k)
    (hk : k < firstUncovered n last rs) : Covered rs k := by
  induction rs generalizing n with
  | nil =>
      unfold firstUncovered at hk
      omega
  | cons r rest ih =>
      unfold firstUncovered at hk
      rw [covered_cons]
      split_ifs at hk with hskip hgap hlast
      · exact .inr (ih hn hk)
      · omega
      · left
        unfold Holds
        omega
      · by_cases hhi : k ≤ r.hi
        · left
          unfold Holds
          omega
        · exact .inr (ih (by omega) hk)

/-- Where the scan stops within the range, no range holds the number. -/
theorem not_covered_firstUncovered {n last : Nat} {rs : List Span}
    (hsorted : rs.Pairwise fun a b => a.lo ≤ b.lo) (hstop : firstUncovered n last rs ≤ last) :
    ¬ Covered rs (firstUncovered n last rs) := by
  induction rs generalizing n with
  | nil => exact covered_nil _
  | cons r rest ih =>
      rcases List.pairwise_cons.mp hsorted with ⟨hr, hrest⟩
      unfold firstUncovered at hstop ⊢
      split_ifs at hstop ⊢ with hskip hgap hlast
      · have hle := le_firstUncovered n last rest
        rw [covered_cons]
        rintro (h | h)
        · unfold Holds at h
          omega
        · exact ih hrest hstop h
      · -- the ranges are sorted: none of those after `r` starts before it
        rintro ⟨q, hq, hcov⟩
        have hlo : r.lo ≤ q.lo := by
          rcases List.mem_cons.mp hq with rfl | hq
          · exact le_refl _
          · exact hr q hq
        unfold Holds at hcov
        omega
      · omega
      · have hle := le_firstUncovered (r.hi + 1) last rest
        rw [covered_cons]
        rintro (h | h)
        · unfold Holds at h
          omega
        · exact ih hrest hstop h

/-! ## Windows over what is left out -/

/-- The first window of at most `round` numbers that the ranges leave out: from
the first such number to the next range. -/
def nextWindow (round n last : Nat) (rs : List Span) : Option Span :=
  let next := firstUncovered n last rs
  if last < next then none
  else
    let stop := min last (next + min round (last - next + 1) - 1)
    let cut := (rs.find? fun r => decide (next < r.lo)).map fun r => min stop (r.lo - 1)
    some ⟨next, cut.getD stop⟩

/-- What one window is. -/
structure IsWindow (round n last : Nat) (rs : List Span) (w : Span) : Prop where
  start : n ≤ w.lo
  proper : w.lo ≤ w.hi
  stop : w.hi ≤ last
  short : w.hi + 1 - w.lo ≤ round
  free : ∀ k, w.Holds k → ¬ Covered rs k
  passed : ∀ k, n ≤ k → k < w.lo → Covered rs k

theorem nextWindow_none {round n last k : Nat} {rs : List Span}
    (h : nextWindow round n last rs = none) (hn : n ≤ k) (hk : k ≤ last) : Covered rs k := by
  unfold nextWindow at h
  simp only at h
  split_ifs at h with hdone
  exact covered_of_lt_firstUncovered hn (hk.trans_lt hdone)

/-- The end of a window in front of the first range that starts after `next`. -/
theorem lt_lo_of_find {rs : List Span} {next stop k : Nat}
    (hsorted : rs.Pairwise fun a b => a.lo ≤ b.lo)
    (hk : k ≤ ((rs.find? fun r => decide (next < r.lo)).map fun r => min stop (r.lo - 1)).getD stop)
    {q : Span} (hq : q ∈ rs) (hnext : next < q.lo) : k < q.lo := by
  induction rs with
  | nil => cases hq
  | cons r rest ih =>
      rcases List.pairwise_cons.mp hsorted with ⟨hr, hrest⟩
      by_cases hfirst : next < r.lo
      · have hlo : r.lo ≤ q.lo := by
          rcases List.mem_cons.mp hq with rfl | hq
          · exact le_refl _
          · exact hr q hq
        rw [List.find?_cons_of_pos (by simpa using hfirst)] at hk
        simp only [Option.map_some, Option.getD_some] at hk
        omega
      · rw [List.find?_cons_of_neg (by simpa using hfirst)] at hk
        rcases List.mem_cons.mp hq with rfl | hq
        · exact absurd hnext hfirst
        · exact ih hrest hk hq

theorem nextWindow_some {round n last : Nat} {rs : List Span} {w : Span} (hround : 0 < round)
    (hsorted : rs.Pairwise fun a b => a.lo ≤ b.lo) (h : nextWindow round n last rs = some w) :
    IsWindow round n last rs w := by
  unfold nextWindow at h
  simp only at h
  split_ifs at h with hdone
  have hfree := not_covered_firstUncovered hsorted (not_lt.mp hdone)
  have hstart := le_firstUncovered n last rs
  have hpassed := fun k => @covered_of_lt_firstUncovered n last k rs
  generalize firstUncovered n last rs = next at *
  have hcut := fun k => @lt_lo_of_find rs next (min last (next + min round (last - next + 1) - 1)) k
    hsorted
  -- the cut never moves the end below the start, nor beyond the round
  have hend : next ≤ w.hi ∧ w.hi ≤ min last (next + min round (last - next + 1) - 1) := by
    rw [← Option.some.inj h]
    cases hfind : rs.find? fun r => decide (next < r.lo) with
    | none =>
        simp only [Option.map_none, Option.getD_none]
        omega
    | some r =>
        have hr := List.find?_some hfind
        simp only [decide_eq_true_eq] at hr
        simp only [Option.map_some, Option.getD_some]
        omega
  have hhi := (congrArg Span.hi (Option.some.inj h)).symm
  have hlo : next = w.lo := congrArg Span.lo (Option.some.inj h)
  subst hlo
  refine ⟨hstart, hend.1, by omega, by omega, ?_, fun k hn hk => hpassed k hn hk⟩
  rintro k ⟨hk, hkhi⟩ ⟨q, hq, hqlo, hqhi⟩
  by_cases hafter : w.lo < q.lo
  · -- `q` starts after the window's start: the window ends before it
    have := hcut k (hkhi.trans_eq hhi) hq hafter
    omega
  · exact hfree ⟨q, hq, by omega, by omega⟩

/-- Windows that part what the ranges leave out of the numbers from `n` to `last`. -/
structure Windows (round n last : Nat) (rs : List Span) (ws : List Span) : Prop where
  increasing : ws.Pairwise fun a b => a.hi < b.lo
  proper : ∀ w ∈ ws, w.lo ≤ w.hi
  short : ∀ w ∈ ws, w.hi + 1 - w.lo ≤ round
  inside : ∀ w ∈ ws, n ≤ w.lo ∧ w.hi ≤ last
  free : ∀ w ∈ ws, ∀ k, w.Holds k → ¬ Covered rs k
  complete : ∀ k, n ≤ k → k ≤ last → ¬ Covered rs k → ∃ w ∈ ws, w.Holds k

/-- No window: every number is covered. -/
theorem Windows.nil {round n last : Nat} {rs : List Span}
    (h : ∀ k, n ≤ k → k ≤ last → Covered rs k) : Windows round n last rs [] where
  increasing := List.Pairwise.nil
  proper := by simp
  short := by simp
  inside := by simp
  free := by simp
  complete := fun k hn hk hfree => absurd (h k hn hk) hfree

/-- One window, and the windows of the numbers after it. -/
theorem Windows.cons {round n last : Nat} {rs : List Span} {w : Span} {ws : List Span}
    (hw : IsWindow round n last rs w) (h : Windows round (w.hi + 1) last rs ws) :
    Windows round n last rs (w :: ws) where
  increasing := List.pairwise_cons.mpr ⟨fun v hv => (h.inside v hv).1, h.increasing⟩
  proper := List.forall_mem_cons.mpr ⟨hw.proper, h.proper⟩
  short := List.forall_mem_cons.mpr ⟨hw.short, h.short⟩
  inside := by
    refine List.forall_mem_cons.mpr ⟨⟨hw.start, hw.stop⟩, fun v hv => ?_⟩
    have hv' := h.inside v hv
    have := hw.start
    have := hw.proper
    omega
  free := List.forall_mem_cons.mpr ⟨hw.free, h.free⟩
  complete := by
    intro k hn hk hfree
    by_cases hbefore : k < w.lo
    · exact absurd (hw.passed k hn hbefore) hfree
    · by_cases hin : k ≤ w.hi
      · exact ⟨w, List.mem_cons_self .., by omega, hin⟩
      · rcases h.complete k (by omega) hk hfree with ⟨v, hv, hkv⟩
        exact ⟨v, List.mem_cons_of_mem _ hv, hkv⟩

end Span

end MarketInfo
