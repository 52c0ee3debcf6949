import MarketInfo.Rental.Discovery

/-! # What a row does to the order

Seen from the greatest block, an order is below it, holds only indexed rows of
it, is settled on one of its events, or is stuck with conflicts.
-/

namespace MarketInfo.Rental

open Json (Text)

/-! ## Small lemmas -/

theorem mem_appendDynamicConflict {rows : List RawEvent} {r c : RawEvent}
    (h : c ∈ appendDynamicConflict rows r) : c ∈ rows ∨ c = r := by
  unfold appendDynamicConflict at h
  split_ifs at h
  · exact .inl h
  · simpa using h

theorem subset_appendDynamicConflict {rows : List RawEvent} {r c : RawEvent} (h : c ∈ rows) :
    c ∈ appendDynamicConflict rows r := by
  unfold appendDynamicConflict
  split_ifs
  · exact h
  · exact List.mem_append_left _ h

theorem source_appendDynamicConflict (rows : List RawEvent) (r : RawEvent) :
    ∃ c ∈ appendDynamicConflict rows r, c.source = r.source := by
  unfold appendDynamicConflict
  split_ifs with h
  · rcases List.any_eq_true.mp h with ⟨c, hc, heq⟩
    exact ⟨c, hc, of_decide_eq_true heq⟩
  · exact ⟨r, List.mem_append_right _ (List.mem_singleton.mpr rfl), rfl⟩

@[simp] theorem see_candidate (o : Order) (t : Time) : (o.see t).candidate = o.candidate := by
  unfold Order.see
  split_ifs
  · rfl
  · rfl

@[simp] theorem see_conflicts (o : Order) (t : Time) : (o.see t).conflicts = o.conflicts := by
  unfold Order.see
  split_ifs
  · rfl
  · rfl

/-- The conflicts of a row of the origin's block. -/
def noted (o : Order) (raw : RawEvent) : List RawEvent :=
  appendDynamicConflict (appendDynamicConflict o.conflicts o.candidate.origin) raw

theorem mem_noted {o : Order} {raw c : RawEvent} (h : c ∈ noted o raw) :
    c ∈ o.conflicts ∨ c = o.candidate.origin ∨ c = raw := by
  rcases mem_appendDynamicConflict h with h | h
  · rcases mem_appendDynamicConflict h with h | h
    · exact .inl h
    · exact .inr (.inl h)
  · exact .inr (.inr h)

theorem noted_source {o : Order} {raw : RawEvent} {s : Text × Nat}
    (h : (∃ c ∈ o.conflicts, c.source = s) ∨ s = o.candidate.origin.source ∨ s = raw.source) :
    ∃ c ∈ noted o raw, c.source = s := by
  rcases h with ⟨c, hc, hs⟩ | hs | hs
  · exact ⟨c, subset_appendDynamicConflict (subset_appendDynamicConflict hc), hs⟩
  · rcases source_appendDynamicConflict o.conflicts o.candidate.origin with ⟨c, hc, hcs⟩
    exact ⟨c, subset_appendDynamicConflict hc, hcs.trans hs.symm⟩
  · rcases source_appendDynamicConflict (appendDynamicConflict o.conflicts o.candidate.origin) raw
      with ⟨c, hc, hcs⟩
    exact ⟨c, hc, hcs.trans hs.symm⟩

theorem noted_ne (o : Order) (raw : RawEvent) : noted o raw ≠ [] := by
  rcases source_appendDynamicConflict (appendDynamicConflict o.conflicts o.candidate.origin) raw
    with ⟨c, hc, -⟩
  exact List.ne_nil_of_mem hc

/-! ## Classes -/

/-- A row of an event of `E`. -/
def Known (E : List RentalEvent) (raw : RawEvent) : Prop :=
  ∃ e ∈ E, e.raw.source = raw.source ∧ e.raw.blockNumber = raw.blockNumber

/-- The rows an order refers to. -/
def RowsOf (E : List RentalEvent) (o : Order) : Prop :=
  Known E o.candidate.origin ∧ ∀ c ∈ o.conflicts, Known E c

/-- Below block `B`. -/
def Low (B : Nat) (o : Order) : Prop :=
  o.candidate.origin.blockNumber < B ∧ ∀ c ∈ o.conflicts, c.blockNumber < B

/-- Indexed rows of block `B` only, from the sources `S`. -/
structure Pending (B : Nat) (S : List (Text × Nat)) (o : Order) : Prop where
  block : o.candidate.origin.blockNumber = B
  unverified : o.candidate.verified = false
  origin : o.candidate.origin.source ∈ S
  conflicts : (o.conflicts = [] ∧ ∀ s ∈ S, s = o.candidate.origin.source) ∨
    ((∀ c ∈ o.conflicts, c.source ∈ S ∧ c.blockNumber = B) ∧
      (∀ s ∈ S, ∃ c ∈ o.conflicts, c.source = s) ∧ ∃ s ∈ S, s ≠ o.candidate.origin.source)

/-- Settled on one verified event. -/
structure Settled (n : RentalEvent) (o : Order) : Prop where
  origin : o.candidate.origin = n.raw
  verified : o.candidate.verified = true
  clear : o.candidate.ambiguous = false
  conflicts : o.conflicts = []
  lastTx : o.candidate.lastTx = n.transactionIndex.getD 0
  lastLog : o.candidate.lastLog = n.receiptLogIndex.getD 0
  closed : o.candidate.closed = n.raw.closing

/-- Ambiguous, with conflicts of block `B`. -/
structure Stuck (B : Nat) (o : Order) : Prop where
  block : o.candidate.origin.blockNumber = B
  unverified : o.candidate.verified = false
  contested : o.conflicts ≠ []
  conflicts : ∀ c ∈ o.conflicts, c.blockNumber = B

theorem see_low {B : Nat} {o : Order} (t : Time) (h : Low B o) : Low B (o.see t) := by
  unfold Low
  rw [see_candidate, see_conflicts]
  exact h

theorem see_pending {B : Nat} {S : List (Text × Nat)} {o : Order} (t : Time)
    (h : Pending B S o) : Pending B S (o.see t) :=
  ⟨by simpa using h.block, by simpa using h.unverified, by simpa using h.origin,
    by simpa using h.conflicts⟩

theorem see_settled {n : RentalEvent} {o : Order} (t : Time) (h : Settled n o) :
    Settled n (o.see t) :=
  ⟨by simpa using h.origin, by simpa using h.verified, by simpa using h.clear,
    by simpa using h.conflicts, by simpa using h.lastTx, by simpa using h.lastLog,
    by simpa using h.closed⟩

theorem see_stuck {B : Nat} {o : Order} (t : Time) (h : Stuck B o) : Stuck B (o.see t) :=
  ⟨by simpa using h.block, by simpa using h.unverified, by simpa using h.contested,
    by simpa using h.conflicts⟩

/-! ## Placing a row -/

theorem placed_origin (now : Time) (old : Option Order) (same : Bool) (raw : RawEvent)
    (capture : Text) (ordinal : Nat) (verified : Option RentalEvent) (ambiguous : Bool) :
    (placed now old same raw capture ordinal verified ambiguous).candidate.origin = raw := by
  have hcan : ∀ c, (candidateOf c same raw verified ambiguous).origin = raw := by
    intro c
    unfold candidateOf
    simp only
    split
    · rfl
    · split_ifs
      · rfl
      · rfl
  unfold placed
  simp only
  cases old with
  | none => exact hcan _
  | some old =>
      simp only
      split_ifs
      · exact hcan _
      · exact hcan _

/-- A row of the origin's block from another source, or over open conflicts. -/
theorem placed_conflict (now : Time) {old : Order} {same : Bool} {raw : RawEvent}
    (capture : Text) (ordinal : Nat) (verified : Option RentalEvent) (ambiguous : Bool)
    (hblock : raw.blockNumber = old.candidate.origin.blockNumber)
    (hopen : same = false ∨ old.conflicts ≠ []) :
    (placed now (some old) same raw capture ordinal verified ambiguous).conflicts =
        noted old raw ∧
      (placed now (some old) same raw capture ordinal verified ambiguous).candidate.verified =
        false := by
  unfold placed
  simp only
  rw [if_pos ⟨hblock, hopen⟩]
  exact ⟨rfl, rfl⟩

/-- A row that meets no conflict is placed as its candidate says. -/
theorem placed_clear (now : Time) {old : Option Order} {same : Bool} {raw : RawEvent}
    (capture : Text) (ordinal : Nat) (verified : Option RentalEvent) (ambiguous : Bool)
    (hclear : ∀ o, old = some o → ¬ (raw.blockNumber = o.candidate.origin.blockNumber ∧
      (same = false ∨ o.conflicts ≠ []))) :
    (placed now old same raw capture ordinal verified ambiguous).conflicts = [] ∧
      (placed now old same raw capture ordinal verified ambiguous).candidate =
        candidateOf (old.map Order.candidate) same raw verified ambiguous := by
  unfold placed
  cases old with
  | none => exact ⟨rfl, rfl⟩
  | some o =>
      simp only
      rw [if_neg (hclear o rfl)]
      exact ⟨rfl, rfl⟩

/-- A verified row that meets no conflict settles the order. -/
theorem placed_settled (now : Time) {old : Option Order} {same : Bool} {f : RentalEvent}
    (capture : Text) (ordinal : Nat) (ambiguous : Bool) (hf : verifiedResearchEvent f = true)
    (hclear : ∀ o, old = some o → ¬ (f.raw.blockNumber = o.candidate.origin.blockNumber ∧
      (same = false ∨ o.conflicts ≠ []))) :
    Settled f (placed now old same f.raw capture ordinal (some f) ambiguous) := by
  rcases placed_clear now capture ordinal (some f) ambiguous hclear with ⟨hconflicts, hcan⟩
  have hfilter : (some f).filter verifiedResearchEvent = some f := by simp [Option.filter, hf]
  have hcand : candidateOf (old.map Order.candidate) same f.raw (some f) ambiguous = { candidateOf
      (old.map Order.candidate) same f.raw (some f) ambiguous with
      origin := f.raw
      verified := true
      ambiguous := false
      lastTx := f.transactionIndex.getD 0
      lastLog := f.receiptLogIndex.getD 0
      closed := f.raw.closing } := by
    unfold candidateOf
    simp only [hfilter]
  rw [hcand] at hcan
  exact ⟨by rw [hcan], by rw [hcan], by rw [hcan], hconflicts, by rw [hcan], by rw [hcan],
    by rw [hcan]⟩

/-! ## Rows below the block -/

section steps

variable {E : List RentalEvent} (now : Time)

theorem known_block (hE : ∀ a ∈ E, ∀ b ∈ E, a.raw.source = b.raw.source → a = b) {r c : RawEvent}
    (hr : Known E r) (hc : Known E c) (hs : r.source = c.source) :
    r.blockNumber = c.blockNumber := by
  rcases hr with ⟨a, ha, hra, hrb⟩
  rcases hc with ⟨b, hb, hcb, hcblock⟩
  have hab := hE a ha b hb (hra.trans (hs.trans hcb.symm))
  rw [← hrb, ← hcblock, hab]

/-- The rows of an order stay rows of known events. -/
theorem apply_rows {o : Order} {raw : RawEvent} (capture : Text) (ordinal : Nat)
    (verified : Option RentalEvent) (hraw : Known E raw) :
    ∀ st, (∀ o, st = some o → RowsOf E o) →
      dynamicApplyRaw now st raw capture ordinal verified = some o → RowsOf E o := by
  have hplaced : ∀ (old : Option Order) (same amb : Bool), (∀ o, old = some o → RowsOf E o) →
      RowsOf E (placed now old same raw capture ordinal verified amb) := by
    intro old same amb hold
    refine ⟨by rw [placed_origin]; exact hraw, fun c hc => ?_⟩
    by_cases hclear : ∃ o, old = some o ∧ raw.blockNumber = o.candidate.origin.blockNumber ∧
        (same = false ∨ o.conflicts ≠ [])
    · rcases hclear with ⟨o, rfl, hblock, hopen⟩
      rw [(placed_conflict now capture ordinal verified amb hblock hopen).1] at hc
      rcases mem_noted hc with hc | rfl | rfl
      · exact (hold o rfl).2 c hc
      · exact (hold o rfl).1
      · exact hraw
    · rw [(placed_clear now capture ordinal verified amb fun o ho hcase =>
        hclear ⟨o, ho, hcase⟩).1] at hc
      cases hc
  intro st hst happly
  unfold dynamicApplyRaw at happly
  cases st with
  | none =>
      cases happly
      exact hplaced none false false fun o ho => by cases ho
  | some before =>
      have hsee : RowsOf E (before.see raw.available) := by
        unfold RowsOf
        rw [see_candidate, see_conflicts]
        exact hst before rfl
      have hsee' : ∀ o, some (before.see raw.available) = some o → RowsOf E o := by
        intro o ho
        cases ho
        exact hsee
      simp only at happly
      split_ifs at happly
      · cases happly
        exact hsee
      · cases happly
        exact hplaced _ _ _ hsee'
      · split at happly
        · cases happly
          exact hsee
        · cases happly
          refine ⟨hsee.1, fun c hc => ?_⟩
          rcases mem_noted (o := before.see raw.available) hc with hc | rfl | rfl
          · exact hsee.2 c hc
          · exact hsee.1
          · exact hraw
        · cases happly
          exact hplaced _ _ _ hsee'

/-- A row of an earlier block only moves the first sighting. -/
theorem apply_below {o : Order} {raw : RawEvent} (capture : Text) (ordinal : Nat)
    (verified : Option RentalEvent)
    (hlt : raw.blockNumber < o.candidate.origin.blockNumber)
    (hsource : o.candidate.origin.source ≠ raw.source) :
    dynamicApplyRaw now (some o) raw capture ordinal verified = some (o.see raw.available) := by
  have hjudge : (o.see raw.available).judge raw verified = .drop := by
    unfold Order.judge
    rw [see_candidate, if_pos hlt]
  unfold dynamicApplyRaw
  simp only
  rw [see_candidate, if_neg hsource, hjudge]

/-- Rows below a block keep the order below it. -/
theorem apply_low {B : Nat} {raw : RawEvent} (capture : Text) (ordinal : Nat)
    (verified : Option RentalEvent) (hraw : raw.blockNumber < B) :
    ∀ st, (∀ o, st = some o → Low B o) → ∀ o,
      dynamicApplyRaw now st raw capture ordinal verified = some o → Low B o := by
  have hplaced : ∀ (old : Option Order) (same amb : Bool), (∀ o, old = some o → Low B o) →
      Low B (placed now old same raw capture ordinal verified amb) := by
    intro old same amb hold
    refine ⟨by rw [placed_origin]; exact hraw, fun c hc => ?_⟩
    by_cases hclear : ∃ o, old = some o ∧ raw.blockNumber = o.candidate.origin.blockNumber ∧
        (same = false ∨ o.conflicts ≠ [])
    · rcases hclear with ⟨o, rfl, hblock, hopen⟩
      rw [(placed_conflict now capture ordinal verified amb hblock hopen).1] at hc
      rcases mem_noted hc with hc | rfl | rfl
      · exact (hold o rfl).2 c hc
      · exact (hold o rfl).1
      · exact hraw
    · rw [(placed_clear now capture ordinal verified amb fun o ho hcase =>
        hclear ⟨o, ho, hcase⟩).1] at hc
      cases hc
  intro st hst o happly
  unfold dynamicApplyRaw at happly
  cases st with
  | none =>
      cases happly
      exact hplaced none false false fun o ho => by cases ho
  | some before =>
      have hsee := see_low raw.available (hst before rfl)
      have hsee' : ∀ o, some (before.see raw.available) = some o → Low B o := by
        intro o ho
        cases ho
        exact hsee
      simp only at happly
      split_ifs at happly
      · cases happly
        exact hsee
      · cases happly
        exact hplaced _ _ _ hsee'
      · split at happly
        · cases happly
          exact hsee
        · cases happly
          refine ⟨hsee.1, fun c hc => ?_⟩
          rcases mem_noted (o := before.see raw.available) hc with hc | rfl | rfl
          · exact hsee.2 c hc
          · exact hsee.1
          · exact hraw
        · cases happly
          exact hplaced _ _ _ hsee'

end steps

end MarketInfo.Rental
