import MarketInfo.Rental.Deliveries

/-! # What a delivery leaves -/

namespace MarketInfo.Rental

open Json (Text)

section outcome

variable {E : List RentalEvent} {B : Nat} {S : List (Text × Nat)} (now : Time)
variable (hE : ∀ a ∈ E, ∀ b ∈ E, a.raw.source = b.raw.source → a = b)
include hE

theorem before_batch {st : Option Order} {b : Batch}
    (hrows : ∀ r ∈ b.indexedEvents, Known E r.raw ∧ r.raw.blockNumber ≤ B)
    (hevents : ∀ e ∈ b.events, e ∈ E ∧ verifiedResearchEvent e = true ∧ e.raw.blockNumber < B)
    (h : Before E B S st) :
    Before E B (S ++ marks B b.indexedEvents) (dynamicApplyBatch now st b) := by
  have hfilter : b.events.filter verifiedResearchEvent = b.events :=
    List.filter_eq_self.mpr fun e he => (hevents e he).2.1
  have hindexed := before_indexed now hE hrows h
  have hknown : ∀ e ∈ b.events, e ∈ E ∧ verifiedResearchEvent e = true := fun e he =>
    ⟨(hevents e he).1, (hevents e he).2.1⟩
  have hresolved := before_resolve now hE hknown
    (.inl fun e he => (hevents e he).2.2.ne) hindexed
  unfold dynamicApplyBatch applyEvents
  rw [hfilter]
  exact before_events now hE (fun e he => ⟨(hevents e he).1, (hevents e he).2.2⟩) hresolved

theorem before_batches {batches : List Batch}
    (hrows : ∀ b ∈ batches, ∀ r ∈ b.indexedEvents, Known E r.raw ∧ r.raw.blockNumber ≤ B)
    (hevents : ∀ b ∈ batches, ∀ e ∈ b.events,
      e ∈ E ∧ verifiedResearchEvent e = true ∧ e.raw.blockNumber < B) :
    ∀ {S st}, Before E B S st →
      Before E B (S ++ marksOf B batches) (batches.foldl (dynamicApplyBatch now) st) := by
  induction batches with
  | nil =>
      intro S st h
      simpa [marksOf] using h
  | cons b batches ih =>
      intro S st h
      have hsplit : marksOf B (b :: batches) = marks B b.indexedEvents ++ marksOf B batches := by
        simp [marksOf]
      rw [hsplit, ← List.append_assoc]
      exact ih (fun b' hb' => hrows b' (List.mem_cons_of_mem _ hb'))
        (fun b' hb' => hevents b' (List.mem_cons_of_mem _ hb'))
        (before_batch now hE (hrows b (List.mem_cons_self ..))
          (hevents b (List.mem_cons_self ..)) h)

/-- The batch of the block settles the order on `g`, or leaves it contested. -/
theorem block_batch {st : Option Order} {b : Batch} {g : RentalEvent}
    (hown : ∀ a ∈ E, ∀ c ∈ E, a.position = c.position → a = c)
    (hg : g ∈ b.events) (hB : g.raw.blockNumber = B)
    (hrows : ∀ r ∈ b.indexedEvents, Known E r.raw ∧ r.raw.blockNumber ≤ B)
    (hevents : ∀ e ∈ b.events, e ∈ E ∧ verifiedResearchEvent e = true ∧ e.position ≤ g.position)
    (hall : ∀ e ∈ E, e.raw.blockNumber = B → e ∈ b.events) (h : Before E B S st) :
    ∃ o, dynamicApplyBatch now st b = some o ∧ RowsOf E o ∧
      (Newest (S ++ marks B b.indexedEvents) b.events g → Settled g o) ∧
      (¬ Newest (S ++ marks B b.indexedEvents) b.events g → Stuck B o) := by
  have hfilter : b.events.filter verifiedResearchEvent = b.events :=
    List.filter_eq_self.mpr fun e he => (hevents e he).2.1
  have hblock : ∀ e ∈ b.events, e.raw.blockNumber ≤ B := by
    intro e he
    by_contra hlt
    have := position_lt_of_block (f := g) (n := e) (by omega)
    exact absurd (hevents e he).2.2 (not_le.mpr this)
  have hknown : ∀ e ∈ b.events, e ∈ E ∧ verifiedResearchEvent e = true := fun e he =>
    ⟨(hevents e he).1, (hevents e he).2.1⟩
  have hindexed := before_indexed now hE hrows h
  generalize S ++ marks B b.indexedEvents = S' at hindexed ⊢
  unfold dynamicApplyBatch applyEvents
  rw [hfilter]
  by_cases hseveral : ∃ s ∈ S', ∃ s' ∈ S', s ≠ s'
  · -- the conflicts are resolved, to the newest of the indexed events
    rcases before_resolved now hE hknown hall hseveral hindexed with
      ⟨n, hn, o, hres, hrowsOf, hset, hnB, hnS, hmax⟩
    rw [hres]
    have hfs : ∀ f ∈ b.events, f ∈ E ∧ verifiedResearchEvent f = true ∧
        f.raw.blockNumber ≤ n.raw.blockNumber := fun f hf =>
      ⟨(hevents f hf).1, (hevents f hf).2.1, (hblock f hf).trans hnB.ge⟩
    rcases events_settled now hE (hevents n hn).1 hfs hrowsOf hset with
      ⟨o', hfold, hrowsOf', hsettled, hstuck⟩
    refine ⟨o', hfold, hrowsOf', fun hnewest => ?_, fun hnot => ?_⟩
    · have hgS : g.raw.source ∈ S' := by
        rcases hnewest with hcase | hcase
        · exact hcase.2
        · rcases hseveral with ⟨s, hs, s', hs', hne⟩
          exact absurd ((hcase.1 s hs).trans (hcase.1 s' hs').symm) hne
      have hng : n = g := hown n (hevents n hn).1 g (hevents g hg).1
        (le_antisymm (hevents n hn).2.2 (hmax g hg hgS))
      subst hng
      exact hsettled fun f hf => (hevents f hf).2.2
    · rw [← hnB]
      refine hstuck ⟨g, hg, lt_of_le_of_ne (hevents n hn).2.2 fun heq => hnot (.inl ⟨hseveral, ?_⟩)⟩
      rw [← hown n (hevents n hn).1 g (hevents g hg).1 heq]
      exact hnS
  · have hresolved := before_resolve now hE hknown (.inr hseveral) hindexed
    generalize dynamicResolveConflicts now (applyIndexed now st b.indexedEvents) b.events = st'
      at hresolved ⊢
    -- the first event of the block decides
    have hfind : ∃ f, b.events.find? (fun e => e.raw.blockNumber = g.raw.blockNumber) = some f := by
      rw [← Option.isSome_iff_exists, List.find?_isSome]
      exact ⟨g, hg, by simp⟩
    rcases hfind with ⟨f, hfind⟩
    rcases List.find?_eq_some_iff_append.mp hfind with ⟨hfB, l, l', hsplit, hl⟩
    have hfB : f.raw.blockNumber = B := by
      rw [← hB]
      exact of_decide_eq_true hfB
    have hmem : ∀ e, e ∈ l ∨ e = f ∨ e ∈ l' → e ∈ b.events := by
      intro e he
      rw [hsplit]
      simpa using he
    have hlB : ∀ e ∈ l, e.raw.blockNumber < B := by
      intro e he
      have hle := hblock e (hmem e (.inl he))
      have hne : e.raw.blockNumber ≠ g.raw.blockNumber := by simpa using hl e he
      omega
    have hbefore := before_events now hE
      (fun e he => ⟨(hevents e (hmem e (.inl he))).1, hlB e he⟩) hresolved
    have hfE := hevents f (hmem f (.inr (.inl rfl)))
    rcases before_first now hE hfE.1 hfE.2.1 hfB hseveral hbefore with
      ⟨o, happly, hrowsOf, hsettled, hstuck⟩
    have hrest : ∀ e ∈ l', e ∈ E ∧ verifiedResearchEvent e = true ∧ e.raw.blockNumber ≤ B := by
      intro e he
      have := hmem e (.inr (.inr he))
      exact ⟨(hevents e this).1, (hevents e this).2.1, hblock e this⟩
    have hfold : ∀ st, b.events.foldl (applyEvent now) st =
        l'.foldl (applyEvent now) (applyEvent now (l.foldl (applyEvent now) st) f) := by
      intro st
      rw [hsplit, List.foldl_append, List.foldl_cons]
    rw [hfold, happly]
    by_cases hones : ∀ s ∈ S', s = f.raw.source
    · have hfs : ∀ e ∈ l', e ∈ E ∧ verifiedResearchEvent e = true ∧
          e.raw.blockNumber ≤ f.raw.blockNumber := fun e he =>
        ⟨(hrest e he).1, (hrest e he).2.1, (hrest e he).2.2.trans hfB.ge⟩
      rcases events_settled now hE hfE.1 hfs hrowsOf (hsettled hones) with
        ⟨o', hfold', hrowsOf', hkeep, hbreak⟩
      refine ⟨o', hfold', hrowsOf', fun hnewest => ?_, fun hnot => ?_⟩
      · have hfg : f = g := by
          rcases hnewest with hcase | hcase
          · exact absurd hcase.1 hseveral
          · exact Option.some.inj (hfind.symm.trans hcase.2)
        subst hfg
        exact hkeep fun e he => (hevents e (hmem e (.inr (.inr he)))).2.2
      · have hfg : f ≠ g := by
          rintro rfl
          exact hnot (.inr ⟨hones, hfind⟩)
        have hgl : g ∈ l' := by
          rw [hsplit, List.mem_append, List.mem_cons] at hg
          rcases hg with hg | hg | hg
          · exact absurd hB (hlB g hg).ne
          · exact absurd hg.symm hfg
          · exact hg
        rw [← hfB]
        refine hbreak ⟨g, hgl, lt_of_le_of_ne hfE.2.2 fun heq => hfg ?_⟩
        exact hown f hfE.1 g (hrest g hgl).1 heq
    · push Not at hones
      rcases events_stuck now hE (fun e he => ⟨(hrest e he).1, (hrest e he).2.2⟩) hrowsOf
        (hstuck hones) with ⟨o', hfold', hrowsOf', hstuck'⟩
      refine ⟨o', hfold', hrowsOf', fun hnewest => ?_, fun _ => hstuck'⟩
      rcases hnewest with hcase | hcase
      · exact absurd hcase.1 hseveral
      · rcases hones with ⟨s, hs, hne⟩
        have hfg := Option.some.inj (hfind.symm.trans hcase.2)
        rw [hfg] at hne
        exact absurd (hcase.1 s hs) hne

/-! ## After the block -/

/-- Rows of earlier blocks leave the candidate and its conflicts. -/
def Kept (o : Order) (st : Option Order) : Prop :=
  ∃ o', st = some o' ∧ o'.candidate = o.candidate ∧ o'.conflicts = o.conflicts

theorem kept_apply {o : Order} {st : Option Order} {raw : RawEvent} (capture : Text)
    (ordinal : Nat) (verified : Option RentalEvent) (hrows : RowsOf E o)
    (horigin : o.candidate.origin.blockNumber = B) (hraw : Known E raw)
    (hblock : raw.blockNumber < B) (h : Kept o st) :
    Kept o (dynamicApplyRaw now st raw capture ordinal verified) := by
  rcases h with ⟨o', rfl, hcan, hconf⟩
  rw [← hcan] at horigin
  have hlt : raw.blockNumber < o'.candidate.origin.blockNumber := by omega
  have hne : o'.candidate.origin.source ≠ raw.source := by
    rw [hcan] at horigin ⊢
    exact known_source_ne hE hrows.1 hraw (by omega)
  rw [apply_below now capture ordinal verified hlt hne]
  exact ⟨_, rfl, by rw [see_candidate, hcan], by rw [see_conflicts, hconf]⟩

theorem kept_batches {batches : List Batch} {o : Order} (hrows : RowsOf E o)
    (horigin : o.candidate.origin.blockNumber = B) (hconf : ∀ c ∈ o.conflicts, c.blockNumber = B)
    (hindexed : ∀ b ∈ batches, ∀ r ∈ b.indexedEvents, Known E r.raw ∧ r.raw.blockNumber < B)
    (hevents : ∀ b ∈ batches, ∀ e ∈ b.events, e ∈ E ∧ e.raw.blockNumber < B) :
    Kept o (batches.foldl (dynamicApplyBatch now) (some o)) := by
  refine List.foldlRecOn batches (dynamicApplyBatch now) ⟨o, rfl, rfl, rfl⟩ fun st hst b hb => ?_
  have hkept : Kept o (applyIndexed now st b.indexedEvents) :=
    List.foldlRecOn _ _ hst fun st hst r hr =>
      kept_apply now hE _ _ _ hrows horigin (hindexed b hb r hr).1 (hindexed b hb r hr).2 hst
  rcases hkept with ⟨o', happly, hcan', hconf'⟩
  -- the competing events are of the block, and none of them comes again
  have hresolve : dynamicResolveConflicts now (some o') b.events = some o' := by
    refine resolve_missing now ?_
    rw [hconf']
    by_cases hopen : o.conflicts = []
    · exact .inl hopen
    · rcases List.exists_mem_of_ne_nil _ hopen with ⟨c, hc⟩
      refine .inr ⟨c, hc, fun e he => ?_⟩
      rcases hevents b hb e he with ⟨heE, hlt⟩
      refine known_source_ne hE ⟨e, heE, rfl, rfl⟩ (hrows.2 c hc) ?_
      rw [hconf c hc]
      exact hlt.ne
  unfold dynamicApplyBatch applyEvents
  rw [happly, hresolve]
  refine List.foldlRecOn _ _ ⟨o', rfl, hcan', hconf'⟩ fun st hst e he => ?_
  rcases hevents b hb e (List.mem_of_mem_filter he) with ⟨heE, hlt⟩
  exact kept_apply now hE _ _ _ hrows horigin ⟨e, heE, rfl, rfl⟩ hlt hst

end outcome

/-! ## Whole deliveries -/

theorem mem_eventsOf {batches : List Batch} {b : Batch} (hb : b ∈ batches) {e : RentalEvent}
    (he : e ∈ b.events) : e ∈ eventsOf batches :=
  List.mem_flatMap.mpr ⟨b, hb, he⟩

theorem Known.mono {E E' : List RentalEvent} (h : ∀ e ∈ E, e ∈ E') {raw : RawEvent}
    (hraw : Known E raw) : Known E' raw := by
  rcases hraw with ⟨e, he, hs⟩
  exact ⟨e, h e he, hs⟩

section wellformed

variable {batches : List Batch}

theorem WellFormed.source_inj (h : WellFormed batches) :
    ∀ a ∈ eventsOf batches, ∀ b ∈ eventsOf batches, a.raw.source = b.raw.source → a = b := by
  intro a ha b hb heq
  have hnodup : ((eventsOf batches).map fun e => e.raw.source).Nodup :=
    List.pairwise_map.mpr (h.own.imp And.left)
  exact List.inj_on_of_nodup_map hnodup ha hb heq

theorem WellFormed.position_inj (h : WellFormed batches) :
    ∀ a ∈ eventsOf batches, ∀ b ∈ eventsOf batches, a.position = b.position → a = b := by
  intro a ha b hb heq
  have hnodup : ((eventsOf batches).map fun e => e.position).Nodup :=
    List.pairwise_map.mpr (h.own.imp And.right)
  exact List.inj_on_of_nodup_map hnodup ha hb heq

theorem WellFormed.known (h : WellFormed batches) {b : Batch} (hb : b ∈ batches) {r : IndexedRow}
    (hr : r ∈ b.indexedEvents) : Known (eventsOf batches) r.raw := by
  rcases List.append_of_mem hb with ⟨pre, post, rfl⟩
  refine (h.indexed pre b post rfl r hr).mono fun e he => ?_
  rw [eventsOf, List.flatMap_append]
  exact List.mem_append_right _ he

end wellformed

/-- The order of a delivery before, in and after the batch of its greatest event. -/
theorem discover_outcome (now : Time) {batches : List Batch} {g : RentalEvent}
    (h : WellFormed batches) (hg : Greatest batches g) :
    ∃ o, discover now batches = some o ∧ (LeavesNewest batches g → Settled g o) ∧
      (¬ LeavesNewest batches g → o.conflicts ≠ []) := by
  rcases List.mem_flatMap.mp hg.1 with ⟨β, hβ, hgβ⟩
  rcases List.append_of_mem hβ with ⟨pre, post, rfl⟩
  have hE := h.source_inj
  have hpart := List.pairwise_append.mp h.carried
  have hpost := List.pairwise_cons.mp hpart.2.1
  have hle : ∀ e ∈ eventsOf (pre ++ β :: post), e.raw.blockNumber ≤ g.raw.blockNumber := by
    intro e he
    by_contra hlt
    have := position_lt_of_block (f := g) (n := e) (by omega)
    exact absurd (hg.2 e he) (not_le.mpr this)
  have hpreE : ∀ b ∈ pre, ∀ e ∈ b.events, e ∈ eventsOf (pre ++ β :: post) :=
    fun b hb e he => mem_eventsOf (List.mem_append_left _ hb) he
  have hpostE : ∀ b ∈ post, ∀ e ∈ b.events, e ∈ eventsOf (pre ++ β :: post) :=
    fun b hb e he => mem_eventsOf (List.mem_append_right _ (List.mem_cons_of_mem _ hb)) he
  have hβE : ∀ e ∈ β.events, e ∈ eventsOf (pre ++ β :: post) := fun e he => mem_eventsOf hβ he
  have hpreB : ∀ b ∈ pre, ∀ e ∈ b.events, e.raw.blockNumber < g.raw.blockNumber := by
    intro b hb e he
    exact lt_of_le_of_ne (hle e (hpreE b hb e he))
      (hpart.2.2 b hb β (List.mem_cons_self ..) e he g hgβ)
  have hpostB : ∀ b ∈ post, ∀ e ∈ b.events, e.raw.blockNumber < g.raw.blockNumber := by
    intro b hb e he
    exact lt_of_le_of_ne (hle e (hpostE b hb e he)) (hpost.1 b hb g hgβ e he).symm
  have hall : ∀ e ∈ eventsOf (pre ++ β :: post), e.raw.blockNumber = g.raw.blockNumber →
      e ∈ β.events := by
    intro e he heB
    rcases List.mem_flatMap.mp he with ⟨b, hb, heb⟩
    rcases List.mem_append.mp hb with hb | hb
    · exact absurd heB (hpreB b hb e heb).ne
    · rcases List.mem_cons.mp hb with rfl | hb
      · exact heb
      · exact absurd heB (hpostB b hb e heb).ne
  have hindexed : ∀ b ∈ pre ++ β :: post, ∀ r ∈ b.indexedEvents,
      Known (eventsOf (pre ++ β :: post)) r.raw ∧ r.raw.blockNumber ≤ g.raw.blockNumber := by
    intro b hb r hr
    have hknown := h.known hb hr
    refine ⟨hknown, ?_⟩
    rcases hknown with ⟨e, he, -, heb⟩
    rw [← heb]
    exact hle e he
  have hafter : ∀ b ∈ post, ∀ r ∈ b.indexedEvents,
      Known (eventsOf (pre ++ β :: post)) r.raw ∧ r.raw.blockNumber < g.raw.blockNumber := by
    intro b hb r hr
    refine ⟨h.known (List.mem_append_right _ (List.mem_cons_of_mem _ hb)) hr, ?_⟩
    rcases List.append_of_mem hb with ⟨l, l', rfl⟩
    rcases h.indexed (pre ++ β :: l) b l' (by simp) r hr with ⟨e, he, -, heb⟩
    rw [← heb]
    rcases List.mem_flatMap.mp he with ⟨b', hb', heb'⟩
    exact hpostB b' (List.mem_append_right _ hb') e heb'
  have hverified : ∀ e ∈ eventsOf (pre ++ β :: post), verifiedResearchEvent e = true := h.verified
  -- before the batch
  have hstart : Before (eventsOf (pre ++ β :: post)) g.raw.blockNumber [] none :=
    ⟨fun o ho => (by cases ho), .inl ⟨rfl, fun o ho => by cases ho⟩⟩
  have hpre := before_batches now hE
    (fun b hb r hr => hindexed b (List.mem_append_left _ hb) r hr)
    (fun b hb e he => ⟨hpreE b hb e he, hverified e (hpreE b hb e he), hpreB b hb e he⟩) hstart
  -- the batch of the greatest event
  rcases block_batch now hE h.position_inj hgβ rfl (fun r hr => hindexed β hβ r hr)
    (fun e he => ⟨hβE e he, hverified e (hβE e he), hg.2 e (hβE e he)⟩) hall hpre with
    ⟨o, hbatch, hrows, hsettled, hstuck⟩
  have hmarks : marksOf g.raw.blockNumber (pre ++ β :: post) =
      [] ++ marksOf g.raw.blockNumber pre ++ marks g.raw.blockNumber β.indexedEvents := by
    have hnil : marksOf g.raw.blockNumber post = [] := by
      unfold marksOf marks
      rw [List.flatMap_eq_nil_iff]
      intro b hb
      rw [List.map_eq_nil_iff, List.filter_eq_nil_iff]
      intro r hr
      simpa using (hafter b hb r hr).2.ne
    unfold marksOf at hnil ⊢
    rw [List.flatMap_append, List.flatMap_cons, hnil, List.append_nil, List.nil_append]
  have hfind : (eventsOf (pre ++ β :: post)).find?
      (fun e => e.raw.blockNumber = g.raw.blockNumber) =
        β.events.find? (fun e => e.raw.blockNumber = g.raw.blockNumber) := by
    have hnone : (pre.flatMap Batch.events).find?
        (fun e => e.raw.blockNumber = g.raw.blockNumber) = none := by
      rw [List.find?_eq_none]
      intro e he
      rcases List.mem_flatMap.mp he with ⟨b, hb, heb⟩
      simpa using (hpreB b hb e heb).ne
    have hsome : (β.events.find? fun e => e.raw.blockNumber = g.raw.blockNumber).isSome = true := by
      rw [List.find?_isSome]
      exact ⟨g, hgβ, by simp⟩
    unfold eventsOf
    rw [List.flatMap_append, List.flatMap_cons, List.find?_append, hnone, Option.none_or,
      List.find?_append, Option.or_of_isSome hsome]
  have hnewest : LeavesNewest (pre ++ β :: post) g ↔
      Newest ([] ++ marksOf g.raw.blockNumber pre ++ marks g.raw.blockNumber β.indexedEvents)
        β.events g := by
    unfold LeavesNewest Newest
    rw [hmarks, hfind]
  -- after the batch
  have htop : o.candidate.origin.blockNumber = g.raw.blockNumber ∧
      ∀ c ∈ o.conflicts, c.blockNumber = g.raw.blockNumber := by
    by_cases hcase : LeavesNewest (pre ++ β :: post) g
    · have hset := hsettled (hnewest.mp hcase)
      refine ⟨by rw [hset.origin], fun c hc => ?_⟩
      rw [hset.conflicts] at hc
      cases hc
    · have hstuck := hstuck fun hn => hcase (hnewest.mpr hn)
      exact ⟨hstuck.block, hstuck.conflicts⟩
  rcases kept_batches now hE hrows htop.1 htop.2 hafter
    (fun b hb e he => ⟨hpostE b hb e he, hpostB b hb e he⟩) with ⟨o', hfold, hcan, hconf⟩
  refine ⟨o', ?_, fun hcase => ?_, fun hcase => ?_⟩
  · unfold discover
    rw [List.foldl_append, List.foldl_cons, hbatch, hfold]
  · have hset := hsettled (hnewest.mp hcase)
    exact ⟨by rw [hcan, hset.origin], by rw [hcan, hset.verified], by rw [hcan, hset.clear],
      by rw [hconf, hset.conflicts], by rw [hcan, hset.lastTx], by rw [hcan, hset.lastLog],
      by rw [hcan, hset.closed]⟩
  · rw [hconf]
    exact (hstuck fun hn => hcase (hnewest.mpr hn)).contested

/-- A delivery leaves the order on its greatest event, verified and unambiguous,
exactly when the rows of that event's block came as `LeavesNewest` says. -/
theorem discovered_iff (now : Time) {batches : List Batch} {g : RentalEvent}
    (h : WellFormed batches) (hg : Greatest batches g) :
    (∃ o, discover now batches = some o ∧ Discovered batches g o) ↔ LeavesNewest batches g := by
  rcases discover_outcome now h hg with ⟨o, ho, hsettled, hstuck⟩
  constructor
  · rintro ⟨o', ho', hdisc⟩
    by_contra hcase
    rw [ho] at ho'
    cases ho'
    exact hstuck hcase hdisc.conflicts
  · intro hcase
    have hset := hsettled hcase
    have hnone : Sighted (availabilities batches) [] none :=
      ⟨fun _ => rfl, fun o ho => by cases ho⟩
    have hsighted := sighted_batches now h.available h.verified (fun t ht => ht) hnone
    rcases hsighted.seen o ho with ⟨hmem, hmin⟩
    refine ⟨o, ho, hset.origin, hset.verified, hset.clear, hset.conflicts, ?_, hmem, ?_⟩
    · rw [hset.closed]
    · exact fun t ht => hmin t (List.mem_append_right _ ht)

/-- A rent of block 7, at the log `log`. -/
def rentEvent (log : Nat) : RentalEvent :=
  ⟨⟨7, ⟨1000, 0⟩, log, ['a'], .rent, some 5, none, ⟨2000 + log, 0⟩⟩, [], some 0, some log,
    true, true, true⟩

def indexedRow (r : RentalEvent) : IndexedRow := ⟨{ r.raw with available := ⟨1500, 0⟩ }, [], 0⟩

/-- Two events of one block in chain order, both indexed in an earlier batch. -/
def indexedBefore : List Batch :=
  [⟨[indexedRow (rentEvent 1), indexedRow (rentEvent 2)], []⟩,
    ⟨[], [rentEvent 1, rentEvent 2]⟩]

theorem indexedBefore_discovered :
    ∃ o, discover Time.zero indexedBefore = some o ∧
      Discovered indexedBefore (rentEvent 2) o := by
  have hwell : WellFormed indexedBefore := by
    refine ⟨by decide, by decide, by decide, ?_, by decide⟩
    intro pre b post hsplit r hr
    cases pre with
    | nil =>
        simp only [indexedBefore, List.nil_append, List.cons.injEq] at hsplit
        rcases hsplit with ⟨rfl, rfl⟩
        simp only [List.mem_cons, List.not_mem_nil, or_false] at hr
        rcases hr with rfl | rfl
        · exact ⟨rentEvent 1, by simp [eventsOf], rfl, rfl⟩
        · exact ⟨rentEvent 2, by simp [eventsOf], rfl, rfl⟩
    | cons b' pre =>
        cases pre with
        | nil =>
            simp only [indexedBefore, List.singleton_append, List.cons.injEq] at hsplit
            rcases hsplit with ⟨-, rfl, rfl⟩
            cases hr
        | cons b'' pre => simp [indexedBefore] at hsplit
  exact (discovered_iff Time.zero hwell ⟨by decide, by decide⟩).mpr (.inl (by decide))

/-- The two events, not indexed before. -/
def ascending : List Batch := [⟨[], [rentEvent 1, rentEvent 2]⟩]

/-- The second event is placed over the verified first one, and leaves the order
unverified with both among its conflicts. -/
theorem ascending_contested :
    WellFormed ascending ∧ Greatest ascending (rentEvent 2) ∧
      ¬ ∃ o, discover Time.zero ascending = some o ∧ Discovered ascending (rentEvent 2) o := by
  refine ⟨⟨by decide, by decide, by decide, ?_, by decide⟩, ⟨by decide, by decide⟩, ?_⟩
  · intro pre b post hsplit r hr
    cases pre with
    | nil =>
        simp only [ascending, List.nil_append, List.cons.injEq] at hsplit
        rcases hsplit with ⟨rfl, rfl⟩
        cases hr
    | cons b' pre => simp [ascending] at hsplit
  · rintro ⟨o, ho, hdisc⟩
    have hopen : (discover Time.zero ascending).map (fun o => o.candidate.verified) =
        some false := by decide
    rw [ho, Option.map_some, hdisc.verified] at hopen
    cases hopen

end MarketInfo.Rental
