import MarketInfo.Rental.Rows

/-! # Resolving the conflicts -/

namespace MarketInfo.Rental

open Json (Text)

/-! ## The newest event behind the conflicts -/

theorem newestOf_none {events : List RentalEvent} {c : RawEvent} {raws : List RawEvent}
    (hc : c ∈ raws) (hmissing : ∀ e ∈ events, e.raw.source ≠ c.source) :
    ∀ newest, newestOf events raws newest = none := by
  induction raws with
  | nil => cases hc
  | cons raw rest ih =>
      intro newest
      unfold newestOf
      rcases List.mem_cons.mp hc with rfl | hc
      · have hfind : events.find? (fun r => verifiedResearchEvent r && r.raw.source = c.source) =
            none := by
          rw [List.find?_eq_none]
          intro e he
          simp [hmissing e he]
        rw [hfind]
      · split
        · rfl
        · exact ih hc _

theorem newer_spec (newest : Option RentalEvent) (r : RentalEvent) :
    (newest = some (newer newest r) ∨ newer newest r = r) ∧
      r.position ≤ (newer newest r).position ∧
      ∀ n, newest = some n → n.position ≤ (newer newest r).position := by
  unfold newer
  cases newest with
  | none => exact ⟨.inr rfl, le_refl _, by simp⟩
  | some n =>
      simp only
      by_cases hlt : n.position < r.position
      · rw [if_pos hlt]
        refine ⟨.inr rfl, le_refl _, ?_⟩
        intro n' hn'
        cases hn'
        exact hlt.le
      · rw [if_neg hlt]
        refine ⟨.inl rfl, not_lt.mp hlt, ?_⟩
        intro n' hn'
        cases hn'
        exact le_refl _

theorem newestOf_some {events : List RentalEvent} {raws : List RawEvent}
    (hall : ∀ c ∈ raws, ∃ e ∈ events, verifiedResearchEvent e = true ∧ e.raw.source = c.source)
    (hinj : ∀ a ∈ events, ∀ b ∈ events, a.raw.source = b.raw.source → a = b) :
    ∀ newest, (newest ≠ none ∨ raws ≠ []) → ∃ n, newestOf events raws newest = some (some n) ∧
      (newest = some n ∨ n ∈ events ∧ verifiedResearchEvent n = true ∧
        ∃ c ∈ raws, n.raw.source = c.source) ∧
      (∀ k, newest = some k → k.position ≤ n.position) ∧
      ∀ e ∈ events, (∃ c ∈ raws, e.raw.source = c.source) → e.position ≤ n.position := by
  -- on the conflicts, for every newest event so far
  induction raws with
  | nil =>
      intro newest hnewest
      cases newest with
      | none => exact absurd hnewest (by simp)
      | some k =>
          refine ⟨k, rfl, .inl rfl, ?_, ?_⟩
          · intro k' hk'
            cases hk'
            exact le_refl _
          · rintro e - ⟨c, hc, -⟩
            cases hc
  | cons raw rest ih =>
      intro newest _
      rcases hall raw (List.mem_cons_self ..) with ⟨r, hr, hver, hsource⟩
      have hfind : events.find? (fun r => verifiedResearchEvent r && r.raw.source = raw.source) =
          some r := by
        cases hcase : events.find? (fun r =>
            verifiedResearchEvent r && r.raw.source = raw.source) with
        | none =>
            have := List.find?_eq_none.mp hcase r hr
            simp [hver, hsource] at this
        | some r' =>
            have hmem := List.mem_of_find?_eq_some hcase
            have hprop := List.find?_some hcase
            simp only [Bool.and_eq_true, decide_eq_true_eq] at hprop
            rw [hinj r' hmem r hr (hprop.2.trans hsource.symm)]
      unfold newestOf
      rw [hfind]
      simp only
      rcases newer_spec newest r with ⟨hfrom, hrk, hjk⟩
      rcases ih (fun c hc => hall c (List.mem_cons_of_mem _ hc)) (some (newer newest r))
        (.inl (by simp)) with
        ⟨n, hn, hmem, hkn, hmax⟩
      have hkn := hkn _ rfl
      refine ⟨n, hn, ?_, fun j hj => (hjk j hj).trans hkn, ?_⟩
      · rcases hmem with hmem | ⟨hmem, hvern, c, hc, hcs⟩
        · cases hmem
          rcases hfrom with h | h
          · exact .inl h
          · rw [h]
            exact .inr ⟨hr, hver, raw, List.mem_cons_self .., hsource⟩
        · exact .inr ⟨hmem, hvern, c, List.mem_cons_of_mem _ hc, hcs⟩
      · rintro e he ⟨c, hc, hcs⟩
        rcases List.mem_cons.mp hc with rfl | hc
        · rw [hinj e he r hr (hcs.trans hsource.symm)]
          exact hrk.trans hkn
        · exact hmax e he ⟨c, hc, hcs⟩

/-- Nothing is resolved while the batch lacks one of the conflicts' events. -/
theorem resolve_missing (now : Time) {o : Order} {events : List RentalEvent}
    (h : o.conflicts = [] ∨ ∃ c ∈ o.conflicts, ∀ e ∈ events, e.raw.source ≠ c.source) :
    dynamicResolveConflicts now (some o) events = some o := by
  unfold dynamicResolveConflicts
  simp only
  split_ifs with hcase
  · rfl
  · rcases h with h | ⟨c, hc, hmissing⟩
    · exact absurd (.inr h) hcase
    · rw [newestOf_none hc hmissing]

/-- A batch with every competing event resolves the conflicts to the newest. -/
theorem resolve_newest (now : Time) {o : Order} {events : List RentalEvent}
    (hopen : o.conflicts ≠ [])
    (hall : ∀ c ∈ o.conflicts, ∃ e ∈ events, verifiedResearchEvent e = true ∧
      e.raw.source = c.source)
    (hinj : ∀ a ∈ events, ∀ b ∈ events, a.raw.source = b.raw.source → a = b) :
    ∃ n ∈ events, ∃ o', dynamicResolveConflicts now (some o) events = some o' ∧ Settled n o' ∧
      (∃ c ∈ o.conflicts, n.raw.source = c.source) ∧
      ∀ e ∈ events, (∃ c ∈ o.conflicts, e.raw.source = c.source) → e.position ≤ n.position := by
  rcases newestOf_some hall hinj none (.inr hopen) with ⟨n, hn, hmem, -, hmax⟩
  rcases hmem with hmem | ⟨hmem, hver, hsource⟩
  · cases hmem
  · have hevents : ¬ (events = [] ∨ o.conflicts = []) := by
      rintro (h | h)
      · rw [h] at hmem
        cases hmem
      · exact hopen h
    unfold dynamicResolveConflicts
    simp only
    rw [if_neg hevents, hn]
    refine ⟨n, hmem, _, apply_repeat now n.captureId n.raw.index rfl (.inl rfl), ?_, hsource, hmax⟩
    refine placed_settled now n.captureId n.raw.index false hver ?_
    intro o' ho' hcase
    cases ho'
    rcases hcase.2 with h | h
    · cases h
    · exact h (by rw [see_conflicts])

end MarketInfo.Rental
