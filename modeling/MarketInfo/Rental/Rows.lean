import MarketInfo.Rental.Classes

/-! # Rows over the order's block, and on it -/

namespace MarketInfo.Rental

open Json (Text)

section rows

variable {B : Nat} (now : Time)

/-- A row above the order's block replaces it. -/
theorem apply_above {st : Option Order} {raw : RawEvent} (capture : Text) (ordinal : Nat)
    (verified : Option RentalEvent)
    (hst : ∀ o, st = some o → o.candidate.origin.blockNumber < raw.blockNumber ∧
      o.candidate.origin.source ≠ raw.source) :
    dynamicApplyRaw now st raw capture ordinal verified =
      some (placed now (st.map fun o => o.see raw.available) false raw capture ordinal verified
        false) := by
  unfold dynamicApplyRaw
  cases st with
  | none => rfl
  | some o =>
      rcases hst o rfl with ⟨hblock, hsource⟩
      have hjudge : (o.see raw.available).judge raw verified = .place false := by
        unfold Order.judge
        rw [see_candidate, if_neg (by omega), if_neg (by omega)]
      simp only
      rw [see_candidate, if_neg hsource, hjudge]
      rfl

/-- A row of the origin's source, no conflict being open. -/
theorem apply_repeat {o : Order} {raw : RawEvent} (capture : Text) (ordinal : Nat)
    {verified : Option RentalEvent} (hsource : o.candidate.origin.source = raw.source)
    (hverified : o.candidate.verified = false ∨ verified.isNone = false) :
    dynamicApplyRaw now (some o) raw capture ordinal verified =
      some (placed now (some (o.see raw.available)) true raw capture ordinal verified false) := by
  have hcond : ((o.see raw.available).candidate.verified && verified.isNone) = false := by
    rw [see_candidate]
    rcases hverified with h | h
    · rw [h]
      rfl
    · rw [h, Bool.and_false]
  unfold dynamicApplyRaw
  simp only
  rw [see_candidate] at hcond ⊢
  rw [if_pos hsource, hcond]
  rfl

/-- A row of the block of an unverified order is recorded among the conflicts,
unless it repeats an uncontested origin. -/
theorem apply_contested {o : Order} {raw : RawEvent} (capture : Text) (ordinal : Nat)
    (verified : Option RentalEvent) (hblock : raw.blockNumber = o.candidate.origin.blockNumber)
    (hunverified : o.candidate.verified = false)
    (hopen : o.candidate.origin.source = raw.source → o.conflicts ≠ []) :
    ∃ o', dynamicApplyRaw now (some o) raw capture ordinal verified = some o' ∧
      o'.conflicts = noted o raw ∧ o'.candidate.verified = false ∧
      (o'.candidate.origin = o.candidate.origin ∨ o'.candidate.origin = raw) := by
  have hnoted : noted (o.see raw.available) raw = noted o raw := by
    unfold noted
    rw [see_candidate, see_conflicts]
  have hplaced : ∀ same amb, (same = false ∨ o.conflicts ≠ []) →
      (placed now (some (o.see raw.available)) same raw capture ordinal verified amb).conflicts =
          noted o raw ∧
        (placed now (some (o.see raw.available)) same raw capture ordinal verified
          amb).candidate.verified = false := by
    intro same amb hcase
    rw [← hnoted]
    exact placed_conflict now capture ordinal verified amb (by rw [see_candidate]; exact hblock)
      (by rw [see_conflicts]; exact hcase)
  -- a repeated origin is placed over its conflicts, another source is noted or placed
  by_cases hsource : o.candidate.origin.source = raw.source
  · refine ⟨_, apply_repeat now capture ordinal hsource (.inl hunverified), ?_⟩
    rcases hplaced true false (.inr (hopen hsource)) with ⟨hconflicts, hver⟩
    exact ⟨hconflicts, hver, .inr (placed_origin ..)⟩
  · have hjudge : (o.see raw.available).judge raw verified =
        if raw.sourceText < o.candidate.origin.sourceText then .note else .place true := by
      unfold Order.judge
      rw [see_candidate, if_neg (by omega), if_pos hblock, hunverified]
      split
      · rename_i htrue
        cases htrue
      · rfl
    unfold dynamicApplyRaw
    simp only
    rw [see_candidate, if_neg hsource, hjudge]
    by_cases htext : raw.sourceText < o.candidate.origin.sourceText
    · rw [if_pos htext]
      refine ⟨_, rfl, ?_, hunverified, .inl rfl⟩
      change appendDynamicConflict (appendDynamicConflict (o.see raw.available).conflicts
        o.candidate.origin) raw = noted o raw
      rw [see_conflicts]
      rfl
    · rw [if_neg htext]
      rcases hplaced false true (.inl rfl) with ⟨hconflicts, hver⟩
      exact ⟨_, rfl, hconflicts, hver, .inr (placed_origin ..)⟩

theorem stuck_of_contested {o o' : Order} {raw : RawEvent} (hblock : raw.blockNumber = B)
    (ho : o.candidate.origin.blockNumber = B) (hall : ∀ c ∈ o.conflicts, c.blockNumber = B)
    (hconflicts : o'.conflicts = noted o raw) (hver : o'.candidate.verified = false)
    (horigin : o'.candidate.origin = o.candidate.origin ∨ o'.candidate.origin = raw) :
    Stuck B o' where
  block := by
    rcases horigin with h | h
    · rw [h, ho]
    · rw [h, hblock]
  unverified := hver
  contested := by
    rw [hconflicts]
    exact noted_ne o raw
  conflicts := by
    intro c hc
    rw [hconflicts] at hc
    rcases mem_noted hc with hc | rfl | rfl
    · exact hall c hc
    · exact ho
    · exact hblock

/-- Rows of the block leave a contested order contested. -/
theorem apply_stuck {o : Order} {raw : RawEvent} (capture : Text) (ordinal : Nat)
    (verified : Option RentalEvent) (hblock : raw.blockNumber = B) (ho : Stuck B o) :
    ∃ o', dynamicApplyRaw now (some o) raw capture ordinal verified = some o' ∧ Stuck B o' := by
  rcases apply_contested now capture ordinal verified (hblock.trans ho.block.symm) ho.unverified
    (fun _ => ho.contested) with ⟨o', happly, hconflicts, hver, horigin⟩
  exact ⟨o', happly, stuck_of_contested hblock ho.block ho.conflicts hconflicts hver horigin⟩

/-- Another indexed row of the block. -/
theorem apply_pending {S : List (Text × Nat)} {o : Order} {raw : RawEvent} (capture : Text)
    (ordinal : Nat) (hblock : raw.blockNumber = B) (ho : Pending B S o) :
    ∃ o', dynamicApplyRaw now (some o) raw capture ordinal none = some o' ∧
      Pending B (S ++ [raw.source]) o' := by
  -- only the repetition of an uncontested origin adds no conflict
  by_cases hrepeat : o.candidate.origin.source = raw.source ∧ o.conflicts = []
  · rcases hrepeat with ⟨hsource, hnil⟩
    refine ⟨_, apply_repeat now capture ordinal hsource (.inl ho.unverified), ?_⟩
    have hclear : ∀ o', some (o.see raw.available) = some o' →
        ¬ (raw.blockNumber = o'.candidate.origin.blockNumber ∧
          (true = false ∨ o'.conflicts ≠ [])) := by
      intro o' ho' hcase
      cases ho'
      rcases hcase.2 with h | h
      · cases h
      · exact h (by rw [see_conflicts]; exact hnil)
    rcases placed_clear now capture ordinal none false hclear with ⟨hconflicts, hcan⟩
    have hones : ∀ s ∈ S, s = o.candidate.origin.source := by
      rcases ho.conflicts with h | h
      · exact h.2
      · intro s hs
        rcases h.2.1 s hs with ⟨c, hc, -⟩
        rw [hnil] at hc
        cases hc
    refine ⟨by rw [placed_origin]; exact hblock, ?_, by rw [placed_origin]; simp,
      .inl ⟨hconflicts, ?_⟩⟩
    · rw [hcan]
      unfold candidateOf
      simpa using ho.unverified
    · intro s hs
      rw [placed_origin]
      rcases List.mem_append.mp hs with hs | hs
      · exact (hones s hs).trans hsource
      · exact List.mem_singleton.mp hs
  · rcases apply_contested now capture ordinal none (hblock.trans ho.block.symm) ho.unverified
      (fun h hnil => hrepeat ⟨h, hnil⟩) with ⟨o', happly, hconflicts, hver, horigin⟩
    -- an order with one source only, or with every source among the conflicts
    have hrows : ∀ c ∈ o.conflicts, c.source ∈ S ∧ c.blockNumber = B := by
      rcases ho.conflicts with h | h
      · rw [h.1]
        intro c hc
        cases hc
      · exact h.1
    have hsources : ∀ s ∈ S, (∃ c ∈ o.conflicts, c.source = s) ∨ s = o.candidate.origin.source := by
      intro s hs
      rcases ho.conflicts with h | h
      · exact .inr (h.2 s hs)
      · exact .inl (h.2.1 s hs)
    have hother : ∃ s ∈ S ++ [raw.source], s ≠ o'.candidate.origin.source := by
      by_cases hsource : o.candidate.origin.source = raw.source
      · have horigin' : o'.candidate.origin.source = o.candidate.origin.source := by
          rcases horigin with h | h
          · rw [h]
          · rw [h, hsource]
        rcases ho.conflicts with h | h
        · exact absurd ⟨hsource, h.1⟩ hrepeat
        · rcases h.2.2 with ⟨s, hs, hne⟩
          exact ⟨s, List.mem_append_left _ hs, horigin' ▸ hne⟩
      · rcases horigin with h | h
        · refine ⟨raw.source, by simp, ?_⟩
          rw [h]
          exact fun heq => hsource heq.symm
        · refine ⟨o.candidate.origin.source, List.mem_append_left _ ho.origin, ?_⟩
          rw [h]
          exact hsource
    refine ⟨o', happly, ?_, hver, ?_, .inr ⟨?_, ?_, hother⟩⟩
    · rcases horigin with h | h
      · rw [h, ho.block]
      · rw [h, hblock]
    · rcases horigin with h | h
      · rw [h]
        exact List.mem_append_left _ ho.origin
      · rw [h]
        simp
    · intro c hc
      rw [hconflicts] at hc
      rcases mem_noted hc with hc | rfl | rfl
      · exact ⟨List.mem_append_left _ (hrows c hc).1, (hrows c hc).2⟩
      · exact ⟨List.mem_append_left _ ho.origin, ho.block⟩
      · exact ⟨by simp, hblock⟩
    · intro s hs
      rw [hconflicts]
      rcases List.mem_append.mp hs with hs | hs
      · rcases hsources s hs with h | h
        · exact noted_source (.inl h)
        · exact noted_source (.inr (.inl h))
      · exact noted_source (.inr (.inr (List.mem_singleton.mp hs)))

/-- Two sources of the block differ exactly when conflicts are open. -/
theorem pending_open {S : List (Text × Nat)} {o : Order} (ho : Pending B S o) :
    o.conflicts ≠ [] ↔ ∃ s ∈ S, ∃ s' ∈ S, s ≠ s' := by
  constructor
  · intro hopen
    rcases ho.conflicts with h | ⟨-, -, s, hs, hne⟩
    · exact absurd h.1 hopen
    · exact ⟨s, hs, _, ho.origin, hne⟩
  · rintro ⟨s, hs, s', hs', hne⟩ hnil
    rcases ho.conflicts with h | h
    · exact hne ((h.2 s hs).trans (h.2 s' hs').symm)
    · rcases h.2.1 s hs with ⟨c, hc, -⟩
      rw [hnil] at hc
      cases hc

/-! ## Verified rows of the block -/

theorem position_le {f n : RentalEvent} (hblock : f.raw.blockNumber = n.raw.blockNumber) :
    f.position ≤ n.position ↔
      f.transactionIndex.getD 0 < n.transactionIndex.getD 0 ∨
        f.transactionIndex.getD 0 = n.transactionIndex.getD 0 ∧
          f.receiptLogIndex.getD 0 ≤ n.receiptLogIndex.getD 0 := by
  unfold RentalEvent.position
  rw [Prod.Lex.toLex_le_toLex, Prod.Lex.toLex_le_toLex]
  simp [hblock]

theorem position_lt_of_block {f n : RentalEvent} (h : f.raw.blockNumber < n.raw.blockNumber) :
    f.position < n.position := by
  unfold RentalEvent.position
  rw [Prod.Lex.toLex_lt_toLex]
  exact .inl h

/-- The first verified event of the block, over rows of at most one source. -/
theorem apply_first {S : List (Text × Nat)} {o : Order} {f : RentalEvent} (capture : Text)
    (ordinal : Nat) (hf : verifiedResearchEvent f = true) (hblock : f.raw.blockNumber = B)
    (ho : Pending B S o) (hsingle : ∀ s ∈ S, ∀ s' ∈ S, s = s') :
    ∃ o', dynamicApplyRaw now (some o) f.raw capture ordinal (some f) = some o' ∧
      ((∀ s ∈ S, s = f.raw.source) → Settled f o') ∧
      ((∃ s ∈ S, s ≠ f.raw.source) → Stuck B o') := by
  have hnil : o.conflicts = [] := by
    rcases ho.conflicts with h | ⟨-, -, s, hs, hne⟩
    · exact h.1
    · exact absurd (hsingle s hs _ ho.origin) hne
  by_cases hsource : o.candidate.origin.source = f.raw.source
  · refine ⟨_, apply_repeat now capture ordinal hsource (.inl ho.unverified), fun _ => ?_, ?_⟩
    · refine placed_settled now capture ordinal false hf ?_
      intro o' ho' hcase
      cases ho'
      rcases hcase.2 with h | h
      · cases h
      · exact h (by rw [see_conflicts]; exact hnil)
    · rintro ⟨s, hs, hne⟩
      exact absurd ((hsingle s hs _ ho.origin).trans hsource) hne
  · rcases apply_contested now capture ordinal (some f) (hblock.trans ho.block.symm) ho.unverified
      (fun h => absurd h hsource) with ⟨o', happly, hconflicts, hver, horigin⟩
    refine ⟨o', happly, fun hall => absurd (hall _ ho.origin) hsource, fun _ => ?_⟩
    refine stuck_of_contested hblock ho.block ?_ hconflicts hver horigin
    rw [hnil]
    intro c hc
    cases hc

/-- A later verified event of the block: only one that is not newer leaves the
order settled. -/
theorem apply_settled {n f : RentalEvent} {o : Order} (capture : Text) (ordinal : Nat)
    (hf : verifiedResearchEvent f = true) (hblock : f.raw.blockNumber = n.raw.blockNumber)
    (hsame : f.raw.source = n.raw.source → f = n) (ho : Settled n o) :
    ∃ o', dynamicApplyRaw now (some o) f.raw capture ordinal (some f) = some o' ∧
      (f.position ≤ n.position → Settled n o') ∧
      (n.position < f.position → Stuck n.raw.blockNumber o') := by
  have horigin : (o.see f.raw.available).candidate.origin = n.raw := by
    rw [see_candidate, ho.origin]
  by_cases hsource : n.raw.source = f.raw.source
  · have hfn := hsame hsource.symm
    subst hfn
    refine ⟨_, apply_repeat now capture ordinal (by rw [ho.origin]) (.inr rfl), fun _ => ?_,
      fun h => absurd h (lt_irrefl _)⟩
    refine placed_settled now capture ordinal false hf ?_
    intro o' ho' hcase
    cases ho'
    rcases hcase.2 with h | h
    · cases h
    · exact h (by rw [see_conflicts]; exact ho.conflicts)
  · have hindexes : ∃ tx log, f.transactionIndex = some tx ∧ f.receiptLogIndex = some log := by
      unfold verifiedResearchEvent at hf
      rw [Bool.and_eq_true, Bool.and_eq_true] at hf
      rcases Option.isSome_iff_exists.mp hf.1.2 with ⟨tx, htx⟩
      rcases Option.isSome_iff_exists.mp hf.2 with ⟨log, hlog⟩
      exact ⟨tx, log, htx, hlog⟩
    rcases hindexes with ⟨tx, log, htx, hlog⟩
    have hle : f.position ≤ n.position ↔
        tx < (o.see f.raw.available).candidate.lastTx ∨
          tx = (o.see f.raw.available).candidate.lastTx ∧
            log ≤ (o.see f.raw.available).candidate.lastLog := by
      rw [position_le hblock, see_candidate, ho.lastTx, ho.lastLog, htx, hlog]
      rfl
    have hjudge : (o.see f.raw.available).judge f.raw (some f) =
        if f.position ≤ n.position then .drop else .place false := by
      unfold Order.judge
      rw [horigin, if_neg (by omega), if_pos hblock, see_candidate, ho.verified]
      simp only [htx, hlog]
      rw [see_candidate] at hle
      exact if_congr hle.symm rfl rfl
    unfold dynamicApplyRaw
    simp only
    rw [horigin, if_neg hsource, hjudge]
    by_cases hpos : f.position ≤ n.position
    · rw [if_pos hpos]
      exact ⟨_, rfl, fun _ => see_settled _ ho, fun h => absurd hpos (not_le.mpr h)⟩
    · -- the row is newer by its receipt position, and placed as a conflict all the same
      rw [if_neg hpos]
      refine ⟨_, rfl, fun h => absurd h hpos, fun _ => ?_⟩
      have hblock' : f.raw.blockNumber =
          (o.see f.raw.available).candidate.origin.blockNumber := by rw [horigin, hblock]
      have hother : false = false ∨ (o.see f.raw.available).conflicts ≠ [] := .inl rfl
      rcases placed_conflict now capture ordinal (some f) false hblock' hother with
        ⟨hconflicts, hver⟩
      refine stuck_of_contested (o := o.see f.raw.available) hblock (by rw [horigin]) ?_ hconflicts
        hver (.inr (placed_origin ..))
      rw [see_conflicts, ho.conflicts]
      intro c hc
      cases hc

end rows

end MarketInfo.Rental
