import MarketInfo.Rental.Runs

/-! # Deliveries -/

namespace MarketInfo.Rental

open Json (Text)

def eventsOf (batches : List Batch) : List RentalEvent := batches.flatMap Batch.events

/-- The sources of block `B` that a delivery has as indexed rows. -/
def marksOf (B : Nat) (batches : List Batch) : List (Text × Nat) :=
  batches.flatMap fun b => marks B b.indexedEvents

/-- The availability times of the rows of one batch, and of a delivery. -/
def Batch.availabilities (b : Batch) : List Time :=
  b.indexedEvents.map (fun r => r.raw.available) ++ b.events.map fun e => e.raw.available

def availabilities (batches : List Batch) : List Time := batches.flatMap Batch.availabilities

/-- A delivery of receipt-verified events, each with its own source and position,
the events of one block in one batch, and any of them indexed in that batch or
before it. -/
structure WellFormed (batches : List Batch) : Prop where
  verified : ∀ e ∈ eventsOf batches, verifiedResearchEvent e = true
  own : (eventsOf batches).Pairwise fun a b => a.raw.source ≠ b.raw.source ∧ a.position ≠ b.position
  carried : batches.Pairwise fun a b =>
    ∀ e ∈ a.events, ∀ f ∈ b.events, e.raw.blockNumber ≠ f.raw.blockNumber
  indexed : ∀ pre b post, batches = pre ++ b :: post → ∀ r ∈ b.indexedEvents,
    Known (eventsOf (b :: post)) r.raw
  available : ∀ t ∈ availabilities batches, ¬ t.IsZero

/-- The event with the greatest chain position. -/
def Greatest (batches : List Batch) (g : RentalEvent) : Prop :=
  g ∈ eventsOf batches ∧ ∀ e ∈ eventsOf batches, e.position ≤ g.position

/-- The order settled on `g`, first seen at the earliest availability. -/
structure Discovered (batches : List Batch) (g : RentalEvent) (o : Order) : Prop where
  origin : o.candidate.origin = g.raw
  verified : o.candidate.verified = true
  clear : o.candidate.ambiguous = false
  conflicts : o.conflicts = []
  closed : o.candidate.closed = true ↔ g.raw.closing = true
  firstSeen : o.firstSeen ∈ availabilities batches ∧
    ∀ t ∈ availabilities batches, ¬ t.Before o.firstSeen

/-- Of the block of `g`, with the indexed sources `S`: either several events were
indexed and `g` is one of them, or none but `g` was and `g` comes first. -/
def Newest (S : List (Text × Nat)) (events : List RentalEvent) (g : RentalEvent) : Prop :=
  (∃ s ∈ S, ∃ s' ∈ S, s ≠ s') ∧ g.raw.source ∈ S ∨
    (∀ s ∈ S, s = g.raw.source) ∧
      events.find? (fun e => e.raw.blockNumber = g.raw.blockNumber) = some g

/-- When a delivery leaves the order on its greatest event. -/
def LeavesNewest (batches : List Batch) (g : RentalEvent) : Prop :=
  Newest (marksOf g.raw.blockNumber batches) (eventsOf batches) g

/-! ## First sightings -/

/-- The first sighting after a row available at `t`. -/
def sighting (st : Option Order) (t : Time) : Time :=
  match st with
  | none => t
  | some o => (o.see t).firstSeen

theorem apply_firstSeen (now : Time) {st : Option Order} {raw : RawEvent} (capture : Text)
    (ordinal : Nat) (verified : Option RentalEvent)
    (hst : ∀ o, st = some o → ¬ o.firstSeen.IsZero) (hraw : ¬ raw.available.IsZero) :
    ∃ o, dynamicApplyRaw now st raw capture ordinal verified = some o ∧
      o.firstSeen = sighting st raw.available := by
  have hplaced : ∀ (old : Option Order) (same amb : Bool),
      (placed now old same raw capture ordinal verified amb).firstSeen =
        firstSeenOf now old raw := by
    intro old same amb
    unfold placed
    simp only
    cases old with
    | none => rfl
    | some old =>
        simp only
        split_ifs
        · rfl
        · rfl
  unfold dynamicApplyRaw
  cases st with
  | none =>
      refine ⟨_, rfl, ?_⟩
      rw [hplaced]
      unfold firstSeenOf
      simp [sighting, hraw]
  | some o =>
      have hsee : ¬ (o.see raw.available).firstSeen.IsZero := by
        unfold Order.see
        split_ifs
        · exact hraw
        · exact hst o rfl
      have hfirst : firstSeenOf now (some (o.see raw.available)) raw =
          (o.see raw.available).firstSeen := by
        unfold firstSeenOf
        simp only [Option.map_some, Option.getD_some]
        rw [if_neg hsee]
      simp only
      split_ifs
      · exact ⟨_, rfl, rfl⟩
      · exact ⟨_, rfl, (hplaced ..).trans hfirst⟩
      · split
        · exact ⟨_, rfl, rfl⟩
        · exact ⟨_, rfl, rfl⟩
        · exact ⟨_, rfl, (hplaced ..).trans hfirst⟩

/-- After rows available at `D`, all of them among `T`. -/
structure Sighted (T D : List Time) (st : Option Order) : Prop where
  fresh : st = none → D = []
  seen : ∀ o, st = some o → o.firstSeen ∈ T ∧ ∀ t ∈ D, ¬ t.Before o.firstSeen

theorem newestOf_mem {events : List RentalEvent} {raws : List RawEvent} {n : RentalEvent} :
    ∀ {newest}, newestOf events raws newest = some (some n) → newest = some n ∨ n ∈ events := by
  induction raws with
  | nil =>
      intro newest h
      exact .inl (Option.some.inj h)
  | cons raw rest ih =>
      intro newest h
      unfold newestOf at h
      split at h
      · cases h
      · rename_i r hfind
        have hr := List.mem_of_find?_eq_some hfind
        rcases ih h with h | h
        · rcases (newer_spec newest r).1 with hkept | hnew
          · exact .inl (hkept.trans h)
          · rw [hnew] at h
            cases h
            exact .inr hr
        · exact .inr h

section sightings

variable {T : List Time} (now : Time) (hT : ∀ t ∈ T, ¬ t.IsZero)
include hT

theorem sighted_apply {D : List Time} {st : Option Order} {raw : RawEvent} (capture : Text)
    (ordinal : Nat) (verified : Option RentalEvent) (hraw : raw.available ∈ T)
    (h : Sighted T D st) :
    Sighted T (D ++ [raw.available]) (dynamicApplyRaw now st raw capture ordinal verified) := by
  rcases apply_firstSeen now capture ordinal verified (fun o ho => hT _ (h.seen o ho).1)
    (hT _ hraw) with ⟨o', happly, hseen⟩
  rw [happly]
  refine ⟨fun hnone => (by cases hnone), fun o'' ho'' => ?_⟩
  cases ho''
  rw [hseen]
  cases st with
  | none =>
      rw [h.fresh rfl]
      refine ⟨hraw, fun t ht => ?_⟩
      rw [List.mem_singleton.mp ht]
      exact lt_irrefl _
  | some o =>
      rcases h.seen o rfl with ⟨hmem, hmin⟩
      have hzero := hT _ hmem
      have hzero' := hT _ hraw
      unfold sighting Order.see
      simp only
      by_cases hbefore : raw.available.Before o.firstSeen
      · rw [if_pos ⟨hzero', .inr hbefore⟩]
        refine ⟨hraw, fun t ht => ?_⟩
        rcases List.mem_append.mp ht with ht | ht
        · exact fun hlt => hmin t ht (lt_trans hlt hbefore)
        · rw [List.mem_singleton.mp ht]
          exact lt_irrefl _
      · rw [if_neg (by tauto)]
        refine ⟨hmem, fun t ht => ?_⟩
        rcases List.mem_append.mp ht with ht | ht
        · exact hmin t ht
        · rw [List.mem_singleton.mp ht]
          exact hbefore

theorem sighted_indexed {rows : List IndexedRow} (hrows : ∀ r ∈ rows, r.raw.available ∈ T) :
    ∀ {D st}, Sighted T D st →
      Sighted T (D ++ rows.map fun r => r.raw.available) (applyIndexed now st rows) := by
  induction rows with
  | nil =>
      intro D st h
      simpa [applyIndexed] using h
  | cons r rows ih =>
      intro D st h
      rw [List.map_cons, ← List.singleton_append, ← List.append_assoc]
      exact ih (fun s hs => hrows s (List.mem_cons_of_mem _ hs))
        (sighted_apply now hT r.captureId r.ordinal none (hrows r (List.mem_cons_self ..)) h)

theorem sighted_events {events : List RentalEvent} (hevents : ∀ e ∈ events, e.raw.available ∈ T) :
    ∀ {D st}, Sighted T D st → Sighted T (D ++ events.map fun e => e.raw.available)
      (events.foldl (applyEvent now)
        st) := by
  induction events with
  | nil =>
      intro D st h
      simpa using h
  | cons e events ih =>
      intro D st h
      rw [List.map_cons, ← List.singleton_append, ← List.append_assoc]
      exact ih (fun s hs => hevents s (List.mem_cons_of_mem _ hs))
        (sighted_apply now hT e.captureId e.raw.index (some e)
          (hevents e (List.mem_cons_self ..)) h)

theorem sighted_resolve {D : List Time} {st : Option Order} {events : List RentalEvent}
    (hevents : ∀ e ∈ events, e.raw.available ∈ T) (h : Sighted T D st) :
    Sighted T D (dynamicResolveConflicts now st events) := by
  unfold dynamicResolveConflicts
  cases st with
  | none => exact h
  | some o =>
      simp only
      split_ifs
      · exact h
      · split
        · rename_i n hn
          have hmem : n ∈ events := by
            rcases newestOf_mem hn with h | h
            · cases h
            · exact h
          have hcleared : Sighted T D (some { o with
              conflicts := []
              candidate := { o.candidate with
                ambiguous := false
                verified := false
                origin := n.raw } }) := by
            refine ⟨fun hnone => (by cases hnone), fun o' ho' => ?_⟩
            cases ho'
            exact h.seen o rfl
          -- its availability comes again with the batch's events
          have happly := sighted_apply now hT n.captureId n.raw.index (some n) (hevents n hmem)
            hcleared
          refine ⟨fun hnone => ?_, fun o' ho' => ?_⟩
          · exact (List.append_eq_nil_iff.mp (happly.fresh hnone)).1
          · rcases happly.seen o' ho' with ⟨hin, hmin⟩
            exact ⟨hin, fun t ht => hmin t (List.mem_append_left _ ht)⟩
        · exact h

theorem sighted_batches {batches : List Batch}
    (hver : ∀ e ∈ eventsOf batches, verifiedResearchEvent e = true)
    (hbatches : ∀ t ∈ availabilities batches, t ∈ T) :
    ∀ {D st}, Sighted T D st →
      Sighted T (D ++ availabilities batches) (batches.foldl (dynamicApplyBatch now) st) := by
  induction batches with
  | nil =>
      intro D st h
      simpa [availabilities] using h
  | cons b batches ih =>
      intro D st h
      have hb : ∀ t ∈ b.availabilities, t ∈ T := fun t ht =>
        hbatches t (by simp [availabilities, ht])
      have hindexed : ∀ r ∈ b.indexedEvents, r.raw.available ∈ T := fun r hr =>
        hb _ (List.mem_append_left _ (List.mem_map_of_mem hr))
      have hevents : ∀ e ∈ b.events, e.raw.available ∈ T := fun e he =>
        hb _ (List.mem_append_right _ (List.mem_map_of_mem he))
      have hfilter : b.events.filter verifiedResearchEvent = b.events :=
        List.filter_eq_self.mpr fun e he => hver e (by simp [eventsOf, he])
      have hstep : Sighted T (D ++ b.availabilities) (dynamicApplyBatch now st b) := by
        unfold dynamicApplyBatch applyEvents
        rw [hfilter]
        unfold Batch.availabilities
        rw [← List.append_assoc]
        exact sighted_events now hT hevents
          (sighted_resolve now hT hevents (sighted_indexed now hT hindexed h))
      have hsplit : availabilities (b :: batches) = b.availabilities ++ availabilities batches := by
        simp [availabilities]
      rw [hsplit, ← List.append_assoc]
      refine ih (fun e he => hver e ?_) (fun t ht => hbatches t ?_) hstep
      · rcases List.mem_flatMap.mp he with ⟨b', hb', he⟩
        exact List.mem_flatMap.mpr ⟨b', List.mem_cons_of_mem _ hb', he⟩
      · rw [hsplit]
        exact List.mem_append_right _ ht

end sightings

end MarketInfo.Rental
