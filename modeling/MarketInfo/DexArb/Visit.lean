import MarketInfo.DexArb.Report

/-! # What a block does to a route

The quotes of a block make it positive for a route, or not. A visit then goes on with the window that
the route is in, opens one, or leaves the windows as they are.
-/

namespace MarketInfo.DexArb

variable (env : Inputs) (r : String)

/-! ## What the quotes say -/

/-- A quote within the budget gains. -/
def positiveAt (b : Block) : Bool := (scan env b r).funded.any fun c => 0 < c.gross

/-- There are quotes within the budget, and none of them gains. -/
def nonpositiveAt (b : Block) : Bool :=
  !(scan env b r).funded.isEmpty && (scan env b r).funded.all fun c => c.gross ≤ 0

/-- Every size is quoted once, and rightly. -/
def fullAt (b : Block) : Bool := (scan env b r).full

/-- What a route keeps of a block. -/
def kindAt (b : Block) : Kind :=
  if fullAt env r b && positiveAt env r b then .positive
  else if fullAt env r b && nonpositiveAt env r b then .negative
  else .unknown

def stateAfter (b : Block) (window : Nat) : RouteState := ⟨b.number, b.hash, b.manifest, kindAt env r b, window⟩

/-- The first of the greatest. -/
def IsBest (l : List Candidate) : Option Candidate → Prop
  | none => l = []
  | some best => best ∈ l ∧ ∀ c ∈ l, c.gross ≤ best.gross

theorem IsBest.better {l : List Candidate} {best : Option Candidate} (h : IsBest l best) (c : Candidate) :
    IsBest (l ++ [c]) (better best c) := by
  cases best with
  | none =>
      have hl : l = [] := h
      simp [DexArb.better, IsBest, hl]
  | some best =>
      rcases h with ⟨hmem, hmax⟩
      unfold DexArb.better
      simp only
      split
      · rename_i hlt
        refine ⟨by simp, ?_⟩
        intro d hd
        rcases List.mem_append.1 hd with hd | hd
        · exact (hmax d hd).trans hlt.le
        · rw [List.mem_singleton.1 hd]
      · rename_i hge
        refine ⟨List.mem_append_left _ hmem, ?_⟩
        intro d hd
        rcases List.mem_append.1 hd with hd | hd
        · exact hmax d hd
        · rw [List.mem_singleton.1 hd]
          exact not_lt.1 hge

variable {env r}

theorem scan_isBest (b : Block) : IsBest (scan env b r).funded (scan env b r).best := by
  have hnext : ∀ (qs : List Quote) (s : Scan), IsBest s.funded s.best →
      IsBest (qs.foldl (Scan.next env b r) s).funded (qs.foldl (Scan.next env b r) s).best := by
    intro qs
    induction qs with
    | nil =>
        intro s h
        exact h
    | cons q qs ih =>
        intro s h
        refine ih _ ?_
        unfold Scan.next
        split
        · exact h
        · split
          · exact h
          · simp only
            split
            · exact h
            · split
              · exact h.better _
              · exact h
  exact hnext _ _ rfl

theorem positiveAt_none {b : Block} (h : (scan env b r).best = none) :
    positiveAt env r b = false ∧ nonpositiveAt env r b = false := by
  have hbest : IsBest (scan env b r).funded (scan env b r).best := scan_isBest b
  rw [h] at hbest
  have hnone : (scan env b r).funded = [] := hbest
  simp [positiveAt, nonpositiveAt, hnone]

theorem positiveAt_some {b : Block} {best : Candidate} (h : (scan env b r).best = some best) :
    (positiveAt env r b = true ↔ 0 < best.gross) ∧ (nonpositiveAt env r b = true ↔ best.gross ≤ 0) := by
  have hbest : IsBest (scan env b r).funded (scan env b r).best := scan_isBest b
  rw [h] at hbest
  rcases hbest with ⟨hmem, hmax⟩
  constructor
  · rw [positiveAt, List.any_eq_true]
    constructor
    · rintro ⟨c, hc, hgross⟩
      exact lt_of_lt_of_le (of_decide_eq_true hgross) (hmax c hc)
    · intro hgross
      exact ⟨best, hmem, decide_eq_true hgross⟩
  · rw [nonpositiveAt, Bool.and_eq_true, List.all_eq_true]
    constructor
    · intro hall
      exact of_decide_eq_true (hall.2 best hmem)
    · intro hgross
      refine ⟨by simpa using List.ne_nil_of_mem hmem, ?_⟩
      intro c hc
      exact decide_eq_true ((hmax c hc).trans hgross)

theorem not_both (b : Block) : ¬ (positiveAt env r b = true ∧ nonpositiveAt env r b = true) := by
  rintro ⟨hpositive, hnonpositive⟩
  cases hbest : (scan env b r).best with
  | none => simp [(positiveAt_none hbest).1] at hpositive
  | some best =>
      have hgain := (positiveAt_some hbest).1.1 hpositive
      have hnone := (positiveAt_some hbest).2.1 hnonpositive
      omega

theorem kindAt_positive_iff {b : Block} :
    kindAt env r b = .positive ↔ fullAt env r b = true ∧ positiveAt env r b = true := by
  unfold kindAt
  split
  · rename_i h
    simpa using h
  · rename_i h
    rw [Bool.and_eq_true] at h
    split <;> simp [h]

theorem kindAt_negative_iff {b : Block} :
    kindAt env r b = .negative ↔ fullAt env r b = true ∧ nonpositiveAt env r b = true := by
  have hboth : ¬ (positiveAt env r b = true ∧ nonpositiveAt env r b = true) := not_both b
  unfold kindAt
  split
  · rename_i h
    rw [Bool.and_eq_true] at h
    have hnot : nonpositiveAt env r b = false := Bool.eq_false_iff.2 fun h' => hboth ⟨h.2, h'⟩
    simp [hnot]
  · split
    · rename_i h
      simpa using h
    · rename_i h
      rw [Bool.and_eq_true] at h
      simp [h]

/-! ## A visit -/

/-- What the summary of a route counts more. -/
def Counts (r : String) (run run' : Run) (confirmed unknown : Nat) : Prop :=
  ∃ s : RouteSummary, run'.summaries = Function.update run.summaries r (some s) ∧
    s.route = ((run.summaries r).getD { route := r }).route ∧
    s.confirmedWindows = ((run.summaries r).getD { route := r }).confirmedWindows + confirmed ∧
    s.unknownFragments = ((run.summaries r).getD { route := r }).unknownFragments + unknown

variable (env r)

/-- What a visit does. -/
inductive Visited (b : Block) (run run' : Run) : Prop
  | extended (best : Candidate) (alternatives : List Candidate) (hpositive : positiveAt env r b = true)
      (hjoined : fullAt env r b = true ∧ (run.states r).continues b = true ∧ (run.states r).kind = .positive)
      (hwindows : run'.windows =
        run.windows.modify (run.states r).window fun w => w.extend b best alternatives)
      (hstates : run'.states = Function.update run.states r (stateAfter env r b (run.states r).window))
      (hcounts : Counts r run run' 0 0)
  | opened (best : Candidate) (alternatives : List Candidate) (confirmed : Bool)
      (hpositive : positiveAt env r b = true)
      (hfresh : ¬ (fullAt env r b = true ∧ (run.states r).continues b = true ∧ (run.states r).kind = .positive))
      (hconfirmed : confirmed = true ↔
        fullAt env r b = true ∧ (run.states r).continues b = true ∧ (run.states r).kind = .negative)
      (hwindows : run'.windows = run.windows ++ [openWindow env r b confirmed best alternatives])
      (hstates : run'.states = Function.update run.states r (stateAfter env r b run.windows.length))
      (hcounts : Counts r run run' confirmed.toNat (!confirmed).toNat)
  | passed (hpositive : positiveAt env r b = false) (hwindows : run'.windows = run.windows)
      (hstates : run'.states = Function.update run.states r (stateAfter env r b (run.states r).window))
      (hcounts : Counts r run run' 0 0)

/-- The route is asked for. -/
def Chosen : Prop := env.route = "" ∨ r = env.route

variable {env r}

theorem foldl_raise_counts (l : List Candidate) (s : RouteSummary) :
    (l.foldl RouteSummary.raise s).route = s.route ∧
      (l.foldl RouteSummary.raise s).confirmedWindows = s.confirmedWindows ∧
      (l.foldl RouteSummary.raise s).unknownFragments = s.unknownFragments := by
  induction l generalizing s with
  | nil => exact ⟨rfl, rfl, rfl⟩
  | cons c l ih =>
      rcases ih (s.raise c) with ⟨hroute, hconfirmed, hunknown⟩
      have hraise : (s.raise c).route = s.route ∧ (s.raise c).confirmedWindows = s.confirmedWindows ∧
          (s.raise c).unknownFragments = s.unknownFragments := by
        unfold RouteSummary.raise
        split <;> exact ⟨rfl, rfl, rfl⟩
      exact ⟨hroute.trans hraise.1, hconfirmed.trans hraise.2.1, hunknown.trans hraise.2.2⟩

theorem visit_of_not_chosen (h : ¬ Chosen env r) (b : Block) (run : Run) : visit env b run r = run := by
  unfold visit
  rw [if_pos (not_or.1 h)]

theorem counts_opened {run run' : Run} {confirmed : Bool} {summary : RouteSummary}
    (h : run'.summaries = Function.update run.summaries r
      (some (if confirmed = true then { summary with confirmedWindows := summary.confirmedWindows + 1 }
        else { summary with unknownFragments := summary.unknownFragments + 1 })))
    (hroute : summary.route = ((run.summaries r).getD { route := r }).route)
    (hconfirmed : summary.confirmedWindows = ((run.summaries r).getD { route := r }).confirmedWindows)
    (hunknown : summary.unknownFragments = ((run.summaries r).getD { route := r }).unknownFragments) :
    Counts r run run' confirmed.toNat (!confirmed).toNat := by
  refine ⟨_, h, ?_⟩
  cases confirmed with
  | false => exact ⟨hroute, hconfirmed, congrArg (· + 1) hunknown⟩
  | true => exact ⟨hroute, congrArg (· + 1) hconfirmed, hunknown⟩

theorem visit_spec (hchosen : Chosen env r) (b : Block) (run : Run) :
    Visited env r b run (visit env b run r) := by
  have hskip : ¬ (env.route ≠ "" ∧ r ≠ env.route) := fun h => (not_or.2 h) hchosen
  have hfold := foldl_raise_counts (scan env b r).funded ((run.summaries r).getD { route := r })
  have hkind : ∀ k, k ≠ .unknown →
      ((if (run.states r).continues b = true then (run.states r).kind else .unknown) = k ↔
        (run.states r).continues b = true ∧ (run.states r).kind = k) := by
    intro k hk
    split
    · rename_i h
      simp [h]
    · rename_i h
      simp [h, hk.symm]
  obtain ⟨summary, hsummary, hroute, hconfirmed, hunknown⟩ : ∃ summary : RouteSummary,
      (if (scan env b r).full = true then
        { (scan env b r).funded.foldl RouteSummary.raise ((run.summaries r).getD { route := r }) with
          completeBlocks := ((scan env b r).funded.foldl RouteSummary.raise
            ((run.summaries r).getD { route := r })).completeBlocks + 1 }
        else (scan env b r).funded.foldl RouteSummary.raise ((run.summaries r).getD { route := r })) = summary ∧
      summary.route = ((run.summaries r).getD { route := r }).route ∧
      summary.confirmedWindows = ((run.summaries r).getD { route := r }).confirmedWindows ∧
      summary.unknownFragments = ((run.summaries r).getD { route := r }).unknownFragments := by
    refine ⟨_, rfl, ?_⟩
    split <;> exact hfold
  unfold visit
  rw [if_neg hskip]
  simp only [hsummary]
  cases hbest : (scan env b r).best with
  | none =>
      rcases positiveAt_none hbest with ⟨hpositive, hnonpositive⟩
      refine .passed hpositive rfl ?_ ⟨summary, rfl, hroute, hconfirmed, hunknown⟩
      simp [stateAfter, kindAt, hpositive, hnonpositive]
  | some best =>
      simp only
      rcases positiveAt_some hbest with ⟨hpositive, hnonpositive⟩
      by_cases hgain : 0 < best.gross
      · have hafter : (if (scan env b r).full = true then Kind.positive else .unknown) = kindAt env r b := by
          simp [kindAt, fullAt, hpositive.2 hgain, hnonpositive.not.2 (not_le.2 hgain)]
        rw [if_pos hgain, hafter]
        by_cases hjoined : (scan env b r).full = true ∧ (run.states r).continues b = true ∧
            (run.states r).kind = .positive
        · rw [if_pos ⟨hjoined.1, hjoined.2.1, (hkind .positive (by decide)).2 hjoined.2⟩]
          exact .extended _ _ (hpositive.2 hgain) hjoined rfl rfl ⟨_, rfl, hroute, hconfirmed, hunknown⟩
        · rw [if_neg fun h => hjoined ⟨h.1, (hkind .positive (by decide)).1 h.2.2⟩]
          refine .opened _ _ _ (hpositive.2 hgain) hjoined ?_ rfl rfl ?_
          · rw [Bool.and_eq_true, Bool.and_eq_true, beq_iff_eq, and_assoc]
            constructor
            · intro h
              exact ⟨h.1, (hkind .negative (by decide)).1 h.2.2⟩
            · intro h
              exact ⟨h.1, h.2.1, (hkind .negative (by decide)).2 h.2⟩
          · exact counts_opened rfl hroute hconfirmed hunknown
      · rw [if_neg hgain]
        refine .passed (Bool.eq_false_iff.2 (hpositive.not.2 hgain)) rfl ?_
          ⟨summary, rfl, hroute, hconfirmed, hunknown⟩
        simp [stateAfter, kindAt, fullAt, hpositive.not.2 hgain, hnonpositive.2 (not_lt.1 hgain)]

end MarketInfo.DexArb
