import MarketInfo.Rental.Conflicts

/-! # Runs around the greatest block

Before the batch of the block's events only indexed rows of it come; the batch
settles the order or leaves it contested.
-/

namespace MarketInfo.Rental

open Json (Text)

/-! ## Before the events of the block -/

/-- The sources of block `B` among indexed rows. -/
def marks (B : Nat) (rows : List IndexedRow) : List (Text × Nat) :=
  (rows.filter fun r => r.raw.blockNumber = B).map fun r => r.raw.source

/-- The order before the events of block `B`, when the sources `S` of the block
came as indexed rows. -/
structure Before (E : List RentalEvent) (B : Nat) (S : List (Text × Nat)) (st : Option Order) :
    Prop where
  rows : ∀ o, st = some o → RowsOf E o
  state : (S = [] ∧ ∀ o, st = some o → Low B o) ∨ S ≠ [] ∧ ∃ o, st = some o ∧ Pending B S o

section runs

variable {E : List RentalEvent} {B : Nat} {S : List (Text × Nat)} (now : Time)
variable (hE : ∀ a ∈ E, ∀ b ∈ E, a.raw.source = b.raw.source → a = b)
include hE

theorem known_source_ne {r c : RawEvent} (hr : Known E r) (hc : Known E c)
    (hne : r.blockNumber ≠ c.blockNumber) : r.source ≠ c.source :=
  fun h => hne (known_block hE hr hc h)

/-- Rows of earlier blocks. -/
theorem before_below {st : Option Order} {raw : RawEvent} (capture : Text) (ordinal : Nat)
    (verified : Option RentalEvent) (hraw : Known E raw) (hblock : raw.blockNumber < B)
    (h : Before E B S st) :
    Before E B S (dynamicApplyRaw now st raw capture ordinal verified) := by
  refine ⟨fun o ho => apply_rows now capture ordinal verified hraw st h.rows ho, ?_⟩
  rcases h.state with ⟨hS, hlow⟩ | ⟨hS, o, rfl, ho⟩
  · exact .inl ⟨hS, apply_low now capture ordinal verified hblock st hlow⟩
  · have horigin := (h.rows o rfl).1
    have hlt : raw.blockNumber < o.candidate.origin.blockNumber := by
      rw [ho.block]
      exact hblock
    rw [apply_below now capture ordinal verified hlt
      (known_source_ne hE horigin hraw (by omega))]
    exact .inr ⟨hS, _, rfl, see_pending _ ho⟩

/-- Indexed rows of the block. -/
theorem before_mark {st : Option Order} {raw : RawEvent} (capture : Text) (ordinal : Nat)
    (hraw : Known E raw) (hblock : raw.blockNumber = B) (h : Before E B S st) :
    Before E B (S ++ [raw.source]) (dynamicApplyRaw now st raw capture ordinal none) := by
  refine ⟨fun o ho => apply_rows now capture ordinal none hraw st h.rows ho,
    .inr ⟨by simp, ?_⟩⟩
  rcases h.state with ⟨hS, hlow⟩ | ⟨hS, o, rfl, ho⟩
  · have hst : ∀ o, st = some o → o.candidate.origin.blockNumber < raw.blockNumber ∧
        o.candidate.origin.source ≠ raw.source := by
      intro o ho
      have hlt := (hlow o ho).1
      exact ⟨by omega, known_source_ne hE (h.rows o ho).1 hraw (by omega)⟩
    refine ⟨_, apply_above now capture ordinal none hst, ?_⟩
    have hclear : ∀ o', st.map (fun o => o.see raw.available) = some o' →
        ¬ (raw.blockNumber = o'.candidate.origin.blockNumber ∧
          (false = false ∨ o'.conflicts ≠ [])) := by
      intro o' ho' hcase
      rcases Option.map_eq_some_iff.mp ho' with ⟨o, ho, rfl⟩
      rw [see_candidate] at hcase
      have := (hst o ho).1
      omega
    rcases placed_clear now capture ordinal none false hclear with ⟨hconflicts, hcan⟩
    refine ⟨by rw [placed_origin]; exact hblock, ?_, by rw [placed_origin]; simp,
      .inl ⟨hconflicts, ?_⟩⟩
    · rw [hcan]
      rfl
    · intro s hs
      rw [placed_origin]
      rw [hS] at hs
      simpa using hs
  · exact apply_pending now capture ordinal hblock ho

theorem before_indexed {rows : List IndexedRow}
    (hrows : ∀ r ∈ rows, Known E r.raw ∧ r.raw.blockNumber ≤ B) :
    ∀ {S st}, Before E B S st → Before E B (S ++ marks B rows) (applyIndexed now st rows) := by
  induction rows with
  | nil =>
      intro S st h
      simpa [marks, applyIndexed] using h
  | cons r rows ih =>
      intro S st h
      rcases hrows r (List.mem_cons_self ..) with ⟨hknown, hle⟩
      have ih := @ih fun r hr => hrows r (List.mem_cons_of_mem _ hr)
      by_cases hblock : r.raw.blockNumber = B
      · have hmarks : marks B (r :: rows) = r.raw.source :: marks B rows := by
          simp [marks, hblock]
        rw [hmarks, ← List.singleton_append, ← List.append_assoc]
        exact ih (before_mark now hE r.captureId r.ordinal hknown hblock h)
      · have hmarks : marks B (r :: rows) = marks B rows := by
          simp [marks, hblock]
        rw [hmarks]
        exact ih (before_below now hE r.captureId r.ordinal none hknown (by omega) h)

theorem before_events {events : List RentalEvent}
    (hevents : ∀ f ∈ events, f ∈ E ∧ f.raw.blockNumber < B) :
    ∀ {st}, Before E B S st → Before E B S (events.foldl
      (applyEvent now) st) := by
  induction events with
  | nil =>
      intro st h
      exact h
  | cons f events ih =>
      intro st h
      rcases hevents f (List.mem_cons_self ..) with ⟨hf, hblock⟩
      exact ih (fun r hr => hevents r (List.mem_cons_of_mem _ hr))
        (before_below now hE f.captureId f.raw.index (some f) ⟨f, hf, rfl, rfl⟩ hblock h)

theorem before_resolve {st : Option Order} {events : List RentalEvent}
    (hevents : ∀ e ∈ events, e ∈ E ∧ verifiedResearchEvent e = true)
    (hpart : (∀ e ∈ events, e.raw.blockNumber ≠ B) ∨ ¬ ∃ s ∈ S, ∃ s' ∈ S, s ≠ s')
    (h : Before E B S st) : Before E B S (dynamicResolveConflicts now st events) := by
  rcases h.state with ⟨hS, hlow⟩ | ⟨hS, o, rfl, ho⟩
  · cases st with
    | none => exact h
    | some o =>
        have hrows := h.rows o rfl
        by_cases hopen : o.conflicts = []
        · rw [resolve_missing now (.inl hopen)]
          exact h
        · by_cases hall : ∀ c ∈ o.conflicts, ∃ e ∈ events, e.raw.source = c.source
          · rcases resolve_newest now hopen
              (fun c hc => by
                rcases hall c hc with ⟨e, he, hs⟩
                exact ⟨e, he, (hevents e he).2, hs⟩)
              (fun a ha b hb => hE a (hevents a ha).1 b (hevents b hb).1) with
              ⟨n, hn, o', hres, hset, ⟨c, hc, hs⟩, -⟩
            have hknown : Known E n.raw := ⟨n, (hevents n hn).1, rfl, rfl⟩
            have hblock := known_block hE hknown (hrows.2 c hc) hs
            have hcB := (hlow o rfl).2 c hc
            -- settled on an event that is still below the block
            rw [hres]
            refine ⟨?_, .inl ⟨hS, ?_⟩⟩
            · intro o'' ho''
              cases ho''
              refine ⟨by rw [hset.origin]; exact hknown, ?_⟩
              rw [hset.conflicts]
              intro c hc
              cases hc
            · intro o'' ho''
              cases ho''
              refine ⟨by rw [hset.origin]; omega, ?_⟩
              rw [hset.conflicts]
              intro c hc
              cases hc
          · push Not at hall
            rw [resolve_missing now (.inr hall)]
            exact h
  · -- conflicts of the block wait for the batch of its events
    rw [resolve_missing now]
    · exact h
    · rcases hpart with hpart | hpart
      · by_cases hopen : o.conflicts = []
        · exact .inl hopen
        · rcases List.exists_mem_of_ne_nil _ hopen with ⟨c, hc⟩
          refine .inr ⟨c, hc, fun e he => ?_⟩
          have hcB : c.blockNumber = B := by
            rcases ho.conflicts with h | h
            · exact absurd h.1 hopen
            · exact (h.1 c hc).2
          exact known_source_ne hE ⟨e, (hevents e he).1, rfl, rfl⟩ ((h.rows o rfl).2 c hc)
            (by rw [hcB]; exact hpart e he)
      · exact .inl (not_not.mp fun hopen => hpart ((pending_open ho).mp hopen))

/-- Several sources of the block: the batch of its events settles the order on
the newest of them. -/
theorem before_resolved {st : Option Order} {events : List RentalEvent}
    (hevents : ∀ e ∈ events, e ∈ E ∧ verifiedResearchEvent e = true)
    (hall : ∀ e ∈ E, e.raw.blockNumber = B → e ∈ events)
    (hseveral : ∃ s ∈ S, ∃ s' ∈ S, s ≠ s') (h : Before E B S st) :
    ∃ n ∈ events, ∃ o, dynamicResolveConflicts now st events = some o ∧ RowsOf E o ∧
      Settled n o ∧ n.raw.blockNumber = B ∧ n.raw.source ∈ S ∧
      ∀ e ∈ events, e.raw.source ∈ S → e.position ≤ n.position := by
  rcases h.state with ⟨hS, -⟩ | ⟨-, o, rfl, ho⟩
  · rcases hseveral with ⟨s, hs, -⟩
    rw [hS] at hs
    cases hs
  · have hopen := (pending_open ho).mpr hseveral
    have hrows := h.rows o rfl
    rcases ho.conflicts with hc | ⟨hconf, hsources, -⟩
    · exact absurd hc.1 hopen
    · rcases resolve_newest now hopen
        (fun c hc => by
          rcases hrows.2 c hc with ⟨e, he, hs, hb⟩
          have hmem := hall e he (hb.trans (hconf c hc).2)
          exact ⟨e, hmem, (hevents e hmem).2, hs⟩)
        (fun a ha b hb => hE a (hevents a ha).1 b (hevents b hb).1) with
        ⟨n, hn, o', hres, hset, ⟨c, hc, hs⟩, hmax⟩
      have hknown : Known E n.raw := ⟨n, (hevents n hn).1, rfl, rfl⟩
      refine ⟨n, hn, o', hres, ?_, hset, ?_, ?_, ?_⟩
      · refine ⟨by rw [hset.origin]; exact hknown, ?_⟩
        rw [hset.conflicts]
        intro c hc
        cases hc
      · rw [known_block hE hknown (hrows.2 c hc) hs, (hconf c hc).2]
      · rw [hs]
        exact (hconf c hc).1
      · intro e he hes
        rcases hsources _ hes with ⟨c', hc', hs'⟩
        exact hmax e he ⟨c', hc', hs'.symm⟩

/-! ## The events of the block -/

theorem step_stuck {o : Order} {f : RentalEvent} (hf : f ∈ E) (hblock : f.raw.blockNumber ≤ B)
    (hrows : RowsOf E o) (ho : Stuck B o) :
    ∃ o', applyEvent now (some o) f = some o' ∧
      RowsOf E o' ∧ Stuck B o' := by
  have hknown : Known E f.raw := ⟨f, hf, rfl, rfl⟩
  have hstep : ∃ o', applyEvent now (some o) f =
      some o' ∧ Stuck B o' := by
    by_cases heq : f.raw.blockNumber = B
    · exact apply_stuck now _ _ _ heq ho
    · have hlt : f.raw.blockNumber < o.candidate.origin.blockNumber := by
        rw [ho.block]
        omega
      exact ⟨_, apply_below now _ _ _ hlt (known_source_ne hE hrows.1 hknown (by omega)),
        see_stuck _ ho⟩
  rcases hstep with ⟨o', happly, ho'⟩
  exact ⟨o', happly, apply_rows now _ _ _ hknown (some o)
    (fun o hst => by cases hst; exact hrows) happly, ho'⟩

theorem step_settled {o : Order} {n f : RentalEvent} (hn : n ∈ E) (hf : f ∈ E)
    (hver : verifiedResearchEvent f = true) (hblock : f.raw.blockNumber ≤ n.raw.blockNumber)
    (hrows : RowsOf E o) (ho : Settled n o) :
    ∃ o', applyEvent now (some o) f = some o' ∧
      RowsOf E o' ∧ (f.position ≤ n.position → Settled n o') ∧
      (n.position < f.position → Stuck n.raw.blockNumber o') := by
  have hknown : Known E f.raw := ⟨f, hf, rfl, rfl⟩
  have hstep : ∃ o', applyEvent now (some o) f =
      some o' ∧ (f.position ≤ n.position → Settled n o') ∧
      (n.position < f.position → Stuck n.raw.blockNumber o') := by
    by_cases heq : f.raw.blockNumber = n.raw.blockNumber
    · exact apply_settled now _ _ hver heq (fun h => hE f hf n hn h) ho
    · have hlt : f.raw.blockNumber < o.candidate.origin.blockNumber := by
        rw [ho.origin]
        omega
      refine ⟨_, apply_below now _ _ _ hlt (known_source_ne hE hrows.1 hknown (by omega)),
        fun _ => see_settled _ ho, fun h => ?_⟩
      exact absurd (position_lt_of_block (f := f) (n := n) (by omega)) (not_lt_of_gt h)
  rcases hstep with ⟨o', happly, ho'⟩
  exact ⟨o', happly, apply_rows now _ _ _ hknown (some o)
    (fun o hst => by cases hst; exact hrows) happly, ho'⟩

theorem events_stuck {fs : List RentalEvent} (hfs : ∀ f ∈ fs, f ∈ E ∧ f.raw.blockNumber ≤ B) :
    ∀ {o}, RowsOf E o → Stuck B o → ∃ o', fs.foldl
      (applyEvent now) (some o) =
        some o' ∧ RowsOf E o' ∧ Stuck B o' := by
  induction fs with
  | nil =>
      intro o hrows ho
      exact ⟨o, rfl, hrows, ho⟩
  | cons f fs ih =>
      intro o hrows ho
      rcases hfs f (List.mem_cons_self ..) with ⟨hf, hblock⟩
      rcases step_stuck now hE hf hblock hrows ho with ⟨o', happly, hrows', ho'⟩
      rw [List.foldl_cons, happly]
      exact ih (fun r hr => hfs r (List.mem_cons_of_mem _ hr)) hrows' ho'

/-- From a settled order, the events decide: one above the settled event leaves
the order contested. -/
theorem events_settled {fs : List RentalEvent} {n : RentalEvent} (hn : n ∈ E)
    (hfs : ∀ f ∈ fs, f ∈ E ∧ verifiedResearchEvent f = true ∧
      f.raw.blockNumber ≤ n.raw.blockNumber) :
    ∀ {o}, RowsOf E o → Settled n o → ∃ o', fs.foldl
      (applyEvent now) (some o) =
        some o' ∧ RowsOf E o' ∧ ((∀ f ∈ fs, f.position ≤ n.position) → Settled n o') ∧
      ((∃ f ∈ fs, n.position < f.position) → Stuck n.raw.blockNumber o') := by
  induction fs with
  | nil =>
      intro o hrows ho
      exact ⟨o, rfl, hrows, fun _ => ho, by simp⟩
  | cons f fs ih =>
      intro o hrows ho
      rcases hfs f (List.mem_cons_self ..) with ⟨hf, hver, hblock⟩
      have hrest := fun r hr => hfs r (List.mem_cons_of_mem f hr)
      rcases step_settled now hE hn hf hver hblock hrows ho with
        ⟨o', happly, hrows', hkeep, hbreak⟩
      rw [List.foldl_cons, happly]
      -- once contested, the order stays so for the rest of the batch
      by_cases hpos : f.position ≤ n.position
      · rcases ih hrest hrows' (hkeep hpos) with ⟨o'', hfold, hrows'', hall, hsome⟩
        refine ⟨o'', hfold, hrows'', fun h => hall fun r hr => h r (List.mem_cons_of_mem _ hr), ?_⟩
        rintro ⟨r, hr, hlt⟩
        rcases List.mem_cons.mp hr with rfl | hr
        · exact absurd hpos (not_le.mpr hlt)
        · exact hsome ⟨r, hr, hlt⟩
      · rcases events_stuck now hE (fun r hr => ⟨(hrest r hr).1, (hrest r hr).2.2⟩) hrows'
          (hbreak (not_le.mp hpos)) with ⟨o'', hfold, hrows'', hstuck⟩
        exact ⟨o'', hfold, hrows'', fun h => absurd (h f (List.mem_cons_self ..)) hpos,
          fun _ => hstuck⟩

/-- The first event of the block, over at most one indexed source. -/
theorem before_first {st : Option Order} {f : RentalEvent} (hf : f ∈ E)
    (hver : verifiedResearchEvent f = true) (hblock : f.raw.blockNumber = B)
    (hsingle : ¬ ∃ s ∈ S, ∃ s' ∈ S, s ≠ s') (h : Before E B S st) :
    ∃ o, applyEvent now st f = some o ∧ RowsOf E o ∧
      ((∀ s ∈ S, s = f.raw.source) → Settled f o) ∧
      ((∃ s ∈ S, s ≠ f.raw.source) → Stuck B o) := by
  have hknown : Known E f.raw := ⟨f, hf, rfl, rfl⟩
  have hstep : ∃ o, applyEvent now st f = some o ∧
      ((∀ s ∈ S, s = f.raw.source) → Settled f o) ∧
      ((∃ s ∈ S, s ≠ f.raw.source) → Stuck B o) := by
    rcases h.state with ⟨hS, hlow⟩ | ⟨hS, o, rfl, ho⟩
    · have hst : ∀ o, st = some o → o.candidate.origin.blockNumber < f.raw.blockNumber ∧
          o.candidate.origin.source ≠ f.raw.source := by
        intro o ho
        have hlt := (hlow o ho).1
        exact ⟨by omega, known_source_ne hE (h.rows o ho).1 hknown (by omega)⟩
      refine ⟨_, apply_above now _ _ _ hst, fun _ => ?_, ?_⟩
      · refine placed_settled now _ _ false hver ?_
        intro o' ho' hcase
        rcases Option.map_eq_some_iff.mp ho' with ⟨o, ho, rfl⟩
        rw [see_candidate] at hcase
        have := (hst o ho).1
        omega
      · rintro ⟨s, hs, -⟩
        rw [hS] at hs
        cases hs
    · refine apply_first now _ _ hver hblock ho fun s hs s' hs' => ?_
      exact not_not.mp fun hne => hsingle ⟨s, hs, s', hs', hne⟩
  rcases hstep with ⟨o, happly, ho⟩
  exact ⟨o, happly, apply_rows now _ _ _ hknown st h.rows happly, ho⟩

end runs

end MarketInfo.Rental
