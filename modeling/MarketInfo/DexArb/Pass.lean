import MarketInfo.DexArb.Windows

/-! # One pass over the blocks

What the pass knows of a route after some of the blocks: the state is that of the last block, and the
windows are the maximal runs of the positive blocks so far.
-/

namespace MarketInfo.DexArb

open Listing (Sorted Next)

variable (env : Inputs) (total : List Block) (r : String)

/-- The window of a run of blocks. -/
structure Describes (g : List Block) (w : Window) : Prop where
  first : ∃ b, g.head? = some b ∧ w.manifest = b.manifest ∧ w.startBlock = b.number ∧
    (w.confirmedNew = true ↔ Confirmed env total r b)
  last : ∃ b, g.getLast? = some b ∧ w.manifest = b.manifest ∧ w.endBlock = b.number

/-- The summary of a route. -/
def Run.summary (run : Run) : RouteSummary := (run.summaries r).getD { route := r }

structure Knows (cs : List Block) (gs : List (List Block)) (run : Run) : Prop where
  unseen : cs = [] → run.states r = {}
  seen : ∀ p, cs.getLast? = some p → ∃ window, run.states r = stateAfter env r p window
  windows : List.Forall₂ (Describes env total r) gs (windowsOf r run.windows)
  blocks : gs.flatten = cs.filter (positiveAt env r)
  maximal : Runs.Maximal (Joined env total r) gs
  points : (run.states r).kind = .positive → Points r run.windows (run.states r).window
  route : (run.summary r).route = r
  confirmed : (run.summary r).confirmedWindows = (windowsOf r run.windows).countP (·.confirmedNew)
  unknown : (run.summary r).unknownFragments = (windowsOf r run.windows).countP (!·.confirmedNew)
  listed : cs ≠ [] → (run.summaries r).isSome

variable {env total r}

theorem describes_concat {gs : List (List Block)} {g : List Block} {ws : List Window} {w : Window} :
    List.Forall₂ (Describes env total r) (gs ++ [g]) (ws ++ [w]) ↔
      List.Forall₂ (Describes env total r) gs ws ∧ Describes env total r g w := by
  rw [← List.forall₂_reverse_iff, List.reverse_concat, List.reverse_concat, List.forall₂_cons,
    List.forall₂_reverse_iff, and_comm]

theorem Describes.ne_nil {g : List Block} {w : Window} (h : Describes env total r g w) : g ≠ [] := by
  rcases h.first with ⟨b, hb, _⟩
  rintro rfl
  cases hb

theorem knows_nil : Knows env total r [] [] {} where
  unseen := fun _ => rfl
  seen := nofun
  windows := .nil
  blocks := rfl
  maximal := .nil
  points := nofun
  route := rfl
  confirmed := rfl
  unknown := rfl
  listed := fun h => absurd rfl h

variable {cs rest : List Block} {gs : List (List Block)} {b : Block} {run run' : Run}

/-- What the state says of the block that the next one follows. -/
theorem Knows.before (h : Knows env total r cs gs run) (hsorted : Sorted Block.place total)
    (htotal : total = cs ++ b :: rest) {k : Kind} (hk : k ≠ .none) :
    ((run.states r).continues b = true ∧ (run.states r).kind = k) ↔
      ∃ a, Directly total a b ∧ kindAt env r a = k := by
  have hnext := fun a => (htotal ▸ hsorted).next_iff a
  rw [← htotal] at hnext
  unfold Directly
  simp only [hnext]
  cases hlast : cs.getLast? with
  | none =>
      -- no block is seen: the state is of no kind
      rw [h.unseen (List.getLast?_eq_none_iff.1 hlast)]
      constructor
      · intro hkind
        exact absurd hkind.2.symm hk
      · rintro ⟨a, ⟨ha, _⟩, _⟩
        cases ha
  | some p =>
      rcases h.seen p hlast with ⟨window, hstate⟩
      have hplace : p.place < b.place := ((hnext p).2 hlast).2.2.1
      rw [hstate, continues_iff hplace]
      constructor
      · intro hkind
        exact ⟨p, ⟨rfl, hkind.1⟩, hkind.2⟩
      · rintro ⟨a, ⟨ha, hfollows⟩, hkind⟩
        cases ha
        exact ⟨hfollows, hkind⟩

/-- If the last block is fully quoted and positive, it is the last of the last run. -/
theorem Knows.last_run (h : Knows env total r cs gs run) {p : Block} (hlast : cs.getLast? = some p)
    (hpositive : positiveAt env r p = true) : ∃ gs' g, gs = gs' ++ [g] ∧ g.getLast? = some p := by
  rcases List.getLast?_eq_some_iff.1 hlast with ⟨cs', rfl⟩
  have hflat : gs.flatten = cs'.filter (positiveAt env r) ++ [p] := by
    rw [h.blocks, List.filter_append, List.filter_cons_of_pos hpositive, List.filter_nil]
  rcases List.eq_nil_or_concat gs with rfl | ⟨gs', g, rfl⟩
  · simp at hflat
  · refine ⟨gs', g, by simp, ?_⟩
    rw [List.concat_eq_append] at hflat
    have hg : g ≠ [] := by
      have hwindows := h.windows
      rw [List.concat_eq_append] at hwindows
      rcases List.eq_nil_or_concat (windowsOf r run.windows) with hnil | ⟨ws, w, hws⟩
      · rw [hnil] at hwindows
        cases gs' <;> cases hwindows
      · rw [hws, List.concat_eq_append, describes_concat] at hwindows
        exact hwindows.2.ne_nil
    have hend := congrArg List.getLast? hflat
    rw [List.flatten_append, List.flatten_singleton, List.getLast?_append_of_ne_nil _ hg,
      List.getLast?_concat] at hend
    exact hend

/-! ## A visit -/

theorem Counts.summary {confirmed unknown : Nat} (h : Counts r run run' confirmed unknown) :
    (run'.summaries r).isSome ∧ (run'.summary r).route = (run.summary r).route ∧
      (run'.summary r).confirmedWindows = (run.summary r).confirmedWindows + confirmed ∧
      (run'.summary r).unknownFragments = (run.summary r).unknownFragments + unknown := by
  rcases h with ⟨s, hs, hrest⟩
  have hsummary : run'.summaries r = some s := by rw [hs, Function.update_self]
  unfold Run.summary
  rw [hsummary]
  exact ⟨rfl, hrest⟩

/-- The route of a visit knows the block, then. -/
theorem Knows.visit_self (h : Knows env total r cs gs run) (hsorted : Sorted Block.place total)
    (htotal : total = cs ++ b :: rest) (hv : Visited env r b run run') :
    ∃ gs', Knows env total r (cs ++ [b]) gs' run' := by
  have hseen : ∀ window, run'.states = Function.update run.states r (stateAfter env r b window) →
      ∀ p, (cs ++ [b]).getLast? = some p → ∃ window, run'.states r = stateAfter env r p window := by
    intro window hstates p hp
    rw [List.getLast?_concat] at hp
    cases hp
    exact ⟨window, by rw [hstates, Function.update_self]⟩
  have hunseen : cs ++ [b] = [] → run'.states r = {} := fun hnil => absurd hnil (by simp)
  have hblocks : positiveAt env r b = true → (cs ++ [b]).filter (positiveAt env r) = gs.flatten ++ [b] := by
    intro hpositive
    rw [List.filter_append, List.filter_cons_of_pos hpositive, List.filter_nil, h.blocks]
  have hpositiveBefore := h.before hsorted htotal (k := .positive) (by decide)
  have hnegativeBefore := h.before hsorted htotal (k := .negative) (by decide)
  cases hv with
  | extended best alternatives hpositive hjoined hwindows hstates hcounts =>
      -- the last run ends in the block before, and goes on with this one
      rcases hcounts.summary with ⟨hlisted, hroute, hconfirmed, hunknown⟩
      rcases hpositiveBefore.1 hjoined.2 with ⟨a, hdirect, hkind⟩
      have hlast : cs.getLast? = some a := ((htotal ▸ hsorted).next_iff a).1 (htotal ▸ hdirect.1)
      rcases kindAt_positive_iff.1 hkind with ⟨hfull, hgain⟩
      rcases h.last_run hlast hgain with ⟨gs', g, rfl, hg⟩
      have hpoints := h.points hjoined.2.2
      rcases hpoints.windowsOf_modify (fun w => extend_route w b best alternatives) with ⟨l, w, hl, hmodified⟩
      rw [← hwindows] at hmodified
      have hdescribes := h.windows
      rw [hl, describes_concat] at hdescribes
      refine ⟨gs' ++ [g ++ [b]], ?_⟩
      constructor
      · exact hunseen
      · exact hseen _ hstates
      · rw [hmodified, describes_concat]
        refine ⟨hdescribes.1, ?_, ?_⟩
        · rcases hdescribes.2.first with ⟨c, hc, hmanifest, hstart, hiff⟩
          refine ⟨c, ?_, by simpa using hmanifest, by simpa using hstart, by simpa using hiff⟩
          rw [List.head?_append, hc]
          rfl
        · rcases hdescribes.2.last with ⟨c, hc, hmanifest, -⟩
          rw [hg] at hc
          cases hc
          exact ⟨b, by simp, by rw [extend_manifest, hmanifest, hdirect.2.2.2], by simp⟩
      · rw [hblocks hpositive]
        simp
      · exact h.maximal.extend hg ⟨hdirect, hfull, hgain, hjoined.1, hpositive⟩
      · intro _
        rw [hstates, Function.update_self, hwindows]
        exact hpoints.modify (fun w => extend_route w b best alternatives) _
      · rw [hroute, h.route]
      · rw [hconfirmed, h.confirmed, hmodified, hl]
        simp
      · rw [hunknown, h.unknown, hmodified, hl]
        simp
      · exact fun _ => hlisted
  | opened best alternatives confirmed hpositive hfresh hconfirmedIff hwindows hstates hcounts =>
      -- a run of one block, which nothing is joined to
      rcases hcounts.summary with ⟨hlisted, hroute, hconfirmed, hunknown⟩
      have hopened : windowsOf r run'.windows =
          windowsOf r run.windows ++ [openWindow env r b confirmed best alternatives] := by
        rw [hwindows, windowsOf_append]
        exact if_pos rfl
      refine ⟨gs ++ [[b]], ?_⟩
      constructor
      · exact hunseen
      · exact hseen _ hstates
      · rw [hopened, describes_concat]
        refine ⟨h.windows, ⟨b, rfl, rfl, rfl, ?_⟩, ⟨b, rfl, rfl, rfl⟩⟩
        refine hconfirmedIff.trans (and_congr_right fun _ => hnegativeBefore.trans ?_)
        exact exists_congr fun a => and_congr_right fun _ => kindAt_negative_iff
      · rw [hblocks hpositive]
        simp
      · refine h.maximal.concat fun a hjoined => hfresh ⟨hjoined.2.2.2.1, hpositiveBefore.2 ?_⟩
        exact ⟨a, hjoined.1, kindAt_positive_iff.2 ⟨hjoined.2.1, hjoined.2.2.1⟩⟩
      · intro _
        rw [hstates, Function.update_self, hwindows]
        exact points_append _ rfl
      · rw [hroute, h.route]
      · rw [hconfirmed, h.confirmed, hopened, List.countP_append]
        cases confirmed <;> rfl
      · rw [hunknown, h.unknown, hopened, List.countP_append]
        cases confirmed <;> rfl
      · exact fun _ => hlisted
  | passed hpositive hwindows hstates hcounts =>
      -- no run changes, and the state no longer points at a window
      rcases hcounts.summary with ⟨hlisted, hroute, hconfirmed, hunknown⟩
      refine ⟨gs, ?_⟩
      constructor
      · exact hunseen
      · exact hseen _ hstates
      · rw [hwindows]
        exact h.windows
      · rw [List.filter_append, List.filter_cons_of_neg (by simp [hpositive]), List.filter_nil, List.append_nil,
          h.blocks]
      · exact h.maximal
      · intro hkind
        rw [hstates, Function.update_self] at hkind
        exact absurd (kindAt_positive_iff.1 hkind).2 (by simp [hpositive])
      · rw [hroute, h.route]
      · rw [hconfirmed, h.confirmed, hwindows]
        rfl
      · rw [hunknown, h.unknown, hwindows]
        rfl
      · exact fun _ => hlisted

/-- Another route knows what it knew. -/
theorem Knows.visit_other {r' : String} (h : Knows env total r' cs gs run) (hne : r' ≠ r)
    (hpoints : (run.states r).kind = .positive → Points r run.windows (run.states r).window)
    (hv : Visited env r b run run') : Knows env total r' cs gs run' := by
  have hsummaries : ∀ {n m : Nat}, Counts r run run' n m → run'.summaries r' = run.summaries r' := by
    rintro n m ⟨s, hs, _⟩
    rw [hs, Function.update_of_ne hne]
  have hkeeps : ∀ window, run'.states = Function.update run.states r (stateAfter env r b window) →
      run'.summaries r' = run.summaries r' → windowsOf r' run'.windows = windowsOf r' run.windows →
      (∀ i, Points r' run.windows i → Points r' run'.windows i) → Knows env total r' cs gs run' := by
    intro window hstates hsummary hwindows hmoved
    have hstate : run'.states r' = run.states r' := by rw [hstates, Function.update_of_ne hne]
    have hsame : run'.summary r' = run.summary r' := by rw [Run.summary, hsummary, Run.summary]
    constructor
    · rw [hstate]
      exact h.unseen
    · rw [hstate]
      exact h.seen
    · rw [hwindows]
      exact h.windows
    · exact h.blocks
    · exact h.maximal
    · rw [hstate]
      exact fun hkind => hmoved _ (h.points hkind)
    · rw [hsame, h.route]
    · rw [hsame, h.confirmed, hwindows]
    · rw [hsame, h.unknown, hwindows]
    · rw [hsummary]
      exact h.listed
  cases hv with
  | extended best alternatives _ hjoined hwindows hstates hcounts =>
      have hroute := fun w => extend_route w b best alternatives
      -- the window that goes on is one of the route of the visit
      refine hkeeps _ hstates (hsummaries hcounts) ?_ ?_
      · rw [hwindows]
        refine windowsOf_modify_other hroute fun w hw hr => hne ?_
        rcases (hpoints hjoined.2.2).1 with ⟨v, hv, hvr⟩
        rw [hw] at hv
        cases hv
        exact hr.symm.trans hvr
      · intro i hi
        rw [hwindows]
        exact hi.modify hroute _
  | opened best alternatives confirmed _ _ _ hwindows hstates hcounts =>
      have hother : (openWindow env r b confirmed best alternatives).route ≠ r' := hne.symm
      refine hkeeps _ hstates (hsummaries hcounts) ?_ ?_
      · rw [hwindows, windowsOf_append, if_neg hother]
      · intro i hi
        rw [hwindows]
        exact hi.append hother
  | passed _ hwindows hstates hcounts =>
      refine hkeeps _ hstates (hsummaries hcounts) (by rw [hwindows]) ?_
      intro i hi
      rw [hwindows]
      exact hi

/-! ## The run -/

variable (env total) in
/-- Each route knows the blocks it has seen. -/
def AllKnow (seen : String → List Block) (run : Run) : Prop :=
  ∀ r, Chosen env r → ∃ gs, Knows env total r (seen r) gs run

theorem AllKnow.visit {seen : String → List Block} (h : AllKnow env total seen run)
    (hsorted : Sorted Block.place total) (htotal : total = seen r ++ b :: rest) :
    AllKnow env total (Function.update seen r (seen r ++ [b])) (visit env b run r) := by
  intro r' hchosen
  by_cases hr : Chosen env r
  · have hv := visit_spec hr b run
    rcases h r hr with ⟨gs, hknows⟩
    by_cases hsame : r' = r
    · rw [hsame, Function.update_self]
      exact hknows.visit_self hsorted htotal hv
    · rw [Function.update_of_ne hsame]
      rcases h r' hchosen with ⟨gs', hknows'⟩
      exact ⟨gs', hknows'.visit_other hsame hknows.points hv⟩
  · rw [visit_of_not_chosen hr, Function.update_of_ne fun heq : r' = r => hr (heq ▸ hchosen)]
    exact h r' hchosen

theorem AllKnow.visits {cs : List Block} (hsorted : Sorted Block.place total) (htotal : total = cs ++ b :: rest)
    (routes : List String) (hnodup : routes.Nodup) {seen : String → List Block} {run : Run}
    (h : AllKnow env total seen run) (hseen : ∀ r ∈ routes, seen r = cs) :
    AllKnow env total (fun r => if r ∈ routes then cs ++ [b] else seen r)
      (routes.foldl (DexArb.visit env b) run) := by
  induction routes generalizing seen run with
  | nil => simpa using h
  | cons r routes ih =>
      rcases List.nodup_cons.1 hnodup with ⟨hfresh, hrest⟩
      have hcs := hseen r List.mem_cons_self
      have hvisit := h.visit hsorted (hcs.symm ▸ htotal)
      -- a route is listed once, so those that follow have not seen the block
      have hothers : ∀ r' ∈ routes, Function.update seen r (seen r ++ [b]) r' = cs := by
        intro r' hr'
        rw [Function.update_of_ne fun heq : r' = r => hfresh (heq ▸ hr')]
        exact hseen r' (List.mem_cons_of_mem _ hr')
      intro r' hchosen
      rcases ih hrest hvisit hothers r' hchosen with ⟨gs, hknows⟩
      refine ⟨gs, ?_⟩
      by_cases hsame : r' = r
      · simpa [hsame, hfresh, hcs] using hknows
      · simpa [hsame] using hknows

theorem Knows.of_eq (h : Knows env total r cs gs run) (hwindows : run'.windows = run.windows)
    (hstates : run'.states = run.states) (hsummaries : run'.summaries = run.summaries) :
    Knows env total r cs gs run' := by
  have hsummary : run'.summary r = run.summary r := by rw [Run.summary, hsummaries, Run.summary]
  constructor
  · rw [hstates]
    exact h.unseen
  · rw [hstates]
    exact h.seen
  · rw [hwindows]
    exact h.windows
  · exact h.blocks
  · exact h.maximal
  · rw [hstates, hwindows]
    exact h.points
  · rw [hsummary, h.route]
  · rw [hsummary, h.confirmed, hwindows]
  · rw [hsummary, h.unknown, hwindows]
  · rw [hsummaries]
    exact h.listed

variable (env) in
/-- The routes that are listed have seen the blocks. -/
def seenBy (cs : List Block) (r : String) : List Block := if r ∈ env.routes then cs else []

theorem AllKnow.step {cs : List Block} (hnodup : env.routes.Nodup) (hsorted : Sorted Block.place total)
    (htotal : total = cs ++ b :: rest) (h : AllKnow env total (seenBy env cs) run) :
    AllKnow env total (seenBy env (cs ++ [b])) (DexArb.step env run b) := by
  intro r hchosen
  have hseen : seenBy env (cs ++ [b]) r = if r ∈ env.routes then cs ++ [b] else seenBy env cs r := by
    unfold seenBy
    split <;> rfl
  rw [hseen]
  refine AllKnow.visits hsorted htotal env.routes hnodup ?_ (fun r hr => if_pos hr) r hchosen
  -- the counts of blocks and heights leave the routes alone
  intro r' hr'
  rcases h r' hr' with ⟨gs, hknows⟩
  refine ⟨gs, hknows.of_eq ?_ ?_ ?_⟩
  all_goals
    simp only
    split <;> rfl

theorem allKnow_run (hnodup : env.routes.Nodup) (hsorted : Sorted Block.place total) :
    AllKnow env total (seenBy env total) (total.foldl (DexArb.step env) {}) := by
  have hrun : ∀ rest cs run, total = cs ++ rest → AllKnow env total (seenBy env cs) run →
      AllKnow env total (seenBy env total) (rest.foldl (DexArb.step env) run) := by
    intro rest
    induction rest with
    | nil =>
        intro cs run htotal h
        rw [List.append_nil] at htotal
        rw [htotal] at h ⊢
        exact h
    | cons b rest ih =>
        intro cs run htotal h
        exact ih (cs ++ [b]) _ (by rw [htotal, List.append_assoc]; rfl) (h.step hnodup hsorted htotal)
  refine hrun total [] {} rfl fun r _ => ⟨[], ?_⟩
  unfold seenBy
  rw [ite_self]
  exact knows_nil

end MarketInfo.DexArb
