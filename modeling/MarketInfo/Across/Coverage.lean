import MarketInfo.Across.Captures

/-! # Coverage of the runtime state

Which blocks a state has read, raw or decoded, and what each step does to them.
-/

namespace MarketInfo.Across

open Json (Text)

def Capture.At (c : Capture) (chain n : Nat) : Prop := c.chainId = chain ∧ c.range.Holds n

/-- Block `n` is in the raw, or in the decoded, coverage of a chain. -/
def RuntimeState.Reads (s : RuntimeState) (chain : Nat) (decoded : Bool) (n : Nat) : Prop :=
  Span.Covered (s.coverage chain decoded) n

instance (s : RuntimeState) (chain : Nat) (decoded : Bool) (n : Nat) :
    Decidable (s.Reads chain decoded n) :=
  inferInstanceAs (Decidable (Span.Covered (s.coverage chain decoded) n))

def RuntimeChain.ranges (ch : RuntimeChain) (decoded : Bool) : List Span :=
  if decoded then ch.decoded else ch.raw

theorem reads_iff {s : RuntimeState} {chain n : Nat} {decoded : Bool} :
    s.Reads chain decoded n ↔ ∃ ch, s.chains chain = some ch ∧
      (Span.Covered (ch.ranges decoded) n ∨
        ∃ x ∈ s.active, s.counts chain decoded x = true ∧ x.range.Holds n) := by
  unfold RuntimeState.Reads RuntimeState.coverage RuntimeChain.ranges
  cases hch : s.chains chain with
  | none => simp
  | some ch =>
      simp only [Option.some.injEq, exists_eq_left']
      rw [Span.covered_merge, Span.covered_append]
      refine or_congr Iff.rfl ?_
      unfold Span.Covered
      constructor
      · rintro ⟨r, hr, hn⟩
        rcases List.mem_map.mp hr with ⟨x, hx, rfl⟩
        rcases List.mem_filter.mp hx with ⟨hx, hcounts⟩
        exact ⟨x, hx, hcounts, hn⟩
      · rintro ⟨x, hx, hcounts, hn⟩
        exact ⟨x.range, List.mem_map_of_mem (List.mem_filter.mpr ⟨hx, hcounts⟩), hn⟩

theorem decodedWhole_iff {s : RuntimeState} {c : Capture} {chain : Nat}
    (hrange : c.range.lo ≤ c.range.hi) :
    decodedWhole (s.coverage chain true) c = true ↔
      ∀ n, c.range.Holds n → s.Reads chain true n := by
  have hsorted : (s.coverage chain true).Pairwise fun a b => a.lo ≤ b.lo := by
    unfold RuntimeState.coverage
    split
    · exact List.Pairwise.nil
    · exact Span.sorted_merge _
  unfold decodedWhole
  rw [decide_eq_true_iff, Span.lt_firstUncovered hsorted hrange]
  exact ⟨fun h n hn => h n hn.1 hn.2, fun h n hlo hhi => h n ⟨hlo, hhi⟩⟩

/-- A whole decoded range, whether or not it is empty. -/
theorem reads_of_decodedWhole {s : RuntimeState} {c : Capture} {chain n : Nat}
    (h : decodedWhole (s.coverage chain true) c = true) (hn : c.range.Holds n) :
    s.Reads chain true n :=
  (decodedWhole_iff (hn.1.trans hn.2)).mp h n hn

/-! ## Applying a capture -/

/-- The state without the active capture of an id. -/
def RuntimeState.without (s : RuntimeState) (id : Text) : RuntimeState :=
  { s with active := captureDelete s.active id }

/-- Whether a capture adds its own range to the coverage. -/
def RuntimeState.takes (s : RuntimeState) (decoded : Bool) (c : Capture) : Bool :=
  runtimeRaw c && (!decoded || runtimeDecoded c) &&
    (c.finality = .finalized || !s.invalidated c)

theorem runtimeRaw_anchored {c : Capture} (h : runtimeRaw c = true) :
    c.canonical = true ∧ anchored c = true := by
  unfold runtimeRaw at h
  simp only [Bool.and_eq_true] at h
  exact ⟨h.1.1.1.1, h.2⟩

theorem ranges_extend (ch : RuntimeChain) (c : Capture) (decoded : Bool) :
    (ch.extend c).ranges decoded = ch.ranges decoded := by
  unfold RuntimeChain.extend
  split_ifs
  · rfl
  · rfl
  · rfl

theorem covered_settle {ch : RuntimeChain} {c : Capture} {decoded : Bool} {n : Nat} :
    Span.Covered ((ch.settle c).ranges decoded) n ↔ Span.Covered (ch.ranges decoded) n ∨
      ((if decoded then runtimeDecoded c else runtimeRaw c) = true ∧ c.range.Holds n) := by
  have hjoin : ∀ (taken : Bool) (rs : List Span),
      Span.Covered (if taken then Span.merge (rs ++ [c.range]) else rs) n ↔
        Span.Covered rs n ∨ taken = true ∧ c.range.Holds n := by
    intro taken rs
    cases taken with
    | false => simp
    | true =>
        rw [if_pos rfl, Span.covered_merge, Span.covered_append, Span.covered_cons]
        simp
  cases decoded with
  | false => exact hjoin (runtimeRaw c) ch.raw
  | true => exact hjoin (runtimeDecoded c) ch.decoded

theorem runtimeDecoded_raw {c : Capture} (h : runtimeDecoded c = true) : runtimeRaw c = true := by
  unfold runtimeDecoded at h
  simp only [Bool.and_eq_true] at h
  exact h.1.1

theorem covered_read {ch : RuntimeChain} {c : Capture} {decoded : Bool} {n : Nat} :
    Span.Covered ((ch.read c).ranges decoded) n ↔ Span.Covered (ch.ranges decoded) n ∨
      (runtimeRaw c = true ∧ (decoded = true → runtimeDecoded c = true) ∧
        c.finality = .finalized ∧ c.range.Holds n) := by
  have htaken : (if decoded then runtimeDecoded c else runtimeRaw c) = true ↔
      runtimeRaw c = true ∧ (decoded = true → runtimeDecoded c = true) := by
    cases decoded with
    | false => simp
    | true => simpa using runtimeDecoded_raw
  unfold RuntimeChain.read
  split_ifs with hfin
  · simp only [Bool.and_eq_true, decide_eq_true_eq] at hfin
    rw [covered_settle, ranges_extend, htaken]
    simp [hfin.1.2, and_assoc]
  · rw [ranges_extend]
    refine ⟨.inl, ?_⟩
    rintro (h | ⟨hraw, -, hfinal, -⟩)
    · exact h
    · rcases runtimeRaw_anchored hraw with ⟨hcan, hanch⟩
      exact absurd (by simp [hcan, hanch, hfinal]) hfin

theorem mem_activeAfter {active : List Capture} {c x : Capture} :
    x ∈ activeAfter active c ↔ (x ∈ active ∧ x.captureId ≠ c.captureId) ∨
      (x = c ∧ c.canonical = true ∧ anchored c = true ∧ c.finality ≠ .finalized) := by
  unfold activeAfter
  split_ifs with hfin hset
  · simp only [Bool.and_eq_true, decide_eq_true_eq] at hfin
    rw [mem_captureDelete]
    simp [hfin]
  · simp only [Bool.and_eq_true, decide_eq_true_eq, not_and] at hfin hset
    rw [mem_captureSet]
    have hne : c.finality ≠ .finalized := fun h => hfin ⟨hset.1, h⟩ hset.2
    simp [hset, hne]
  · simp only [Bool.and_eq_true] at hset
    rw [mem_captureDelete]
    refine ⟨.inl, ?_⟩
    rintro (h | ⟨-, hcan, hanch, -⟩)
    · exact h
    · exact absurd ⟨hcan, hanch⟩ hset

/-- After a capture: what the others read, and what it reads itself. -/
theorem reads_applied {s : RuntimeState} {ch : RuntimeChain} {c : Capture} {chain n : Nat}
    {decoded : Bool} (hch : s.chains c.chainId = some ch) :
    (s.applied ch c).Reads chain decoded n ↔ (s.without c.captureId).Reads chain decoded n ∨
      s.takes decoded c = true ∧ c.At chain n := by
  have hactive : (s.applied ch c).active = activeAfter s.active c := by
    unfold RuntimeState.applied
    simp only
    split_ifs <;> rfl
  have hchains : (s.applied ch c).chains =
      Function.update s.chains c.chainId (some (ch.read c)) := by
    unfold RuntimeState.applied
    simp only
    split_ifs <;> rfl
  have hcounts : (s.applied ch c).counts = s.counts := by
    unfold RuntimeState.applied
    simp only
    split_ifs <;> rfl
  have hwithout : (s.without c.captureId).counts = s.counts := rfl
  rw [reads_iff, reads_iff, hactive, hchains, hcounts, hwithout]
  have htakes : s.takes decoded c = true ↔ runtimeRaw c = true ∧
      (decoded = true → runtimeDecoded c = true) ∧
      (c.finality = .finalized ∨ s.invalidated c = false) := by
    unfold RuntimeState.takes
    cases decoded <;> simp [and_assoc]
  have hown : s.counts c.chainId decoded c = true ↔ runtimeRaw c = true ∧
      (decoded = true → runtimeDecoded c = true) ∧ s.invalidated c = false := by
    unfold RuntimeState.counts
    cases decoded <;> simp [and_assoc]
  -- the finalized ranges change on the capture's own chain only
  by_cases hchain : chain = c.chainId
  · subst hchain
    have hself : Function.update s.chains c.chainId (some (ch.read c)) c.chainId =
        some (ch.read c) := Function.update_self ..
    rw [hself]
    simp only [Option.some.injEq, exists_eq_left']
    rw [covered_read, htakes]
    constructor
    · rintro ((hcov | ⟨hraw, hdec, hfin, hn⟩) | ⟨x, hx, hxc, hn⟩)
      · exact .inl ⟨ch, hch, .inl hcov⟩
      · exact .inr ⟨⟨hraw, hdec, .inl hfin⟩, rfl, hn⟩
      · rcases mem_activeAfter.mp hx with hx | ⟨rfl, -⟩
        · exact .inl ⟨ch, hch, .inr ⟨x, mem_captureDelete.mpr hx, hxc, hn⟩⟩
        · rcases hown.mp hxc with ⟨hraw, hdec, hval⟩
          exact .inr ⟨⟨hraw, hdec, .inr hval⟩, rfl, hn⟩
    · rintro (⟨ch', hch', hcase⟩ | ⟨⟨hraw, hdec, hval⟩, -, hn⟩)
      · have heq : ch' = ch := Option.some.inj (hch'.symm.trans hch)
        subst heq
        rcases hcase with hcov | ⟨x, hx, hxc, hn⟩
        · exact .inl (.inl hcov)
        · exact .inr ⟨x, mem_activeAfter.mpr (.inl (mem_captureDelete.mp hx)), hxc, hn⟩
      · by_cases hfin : c.finality = .finalized
        · exact .inl (.inr ⟨hraw, hdec, hfin, hn⟩)
        · have hvalid : s.invalidated c = false := hval.resolve_left hfin
          rcases runtimeRaw_anchored hraw with ⟨hcan, hanch⟩
          exact .inr ⟨c, mem_activeAfter.mpr (.inr ⟨rfl, hcan, hanch, hfin⟩),
            hown.mpr ⟨hraw, hdec, hvalid⟩, hn⟩
  · have hother : Function.update s.chains c.chainId (some (ch.read c)) chain = s.chains chain :=
      Function.update_of_ne hchain ..
    rw [hother]
    constructor
    · rintro ⟨ch', hch', hcov | ⟨x, hx, hxc, hn⟩⟩
      · exact .inl ⟨ch', hch', .inl hcov⟩
      · rcases mem_activeAfter.mp hx with hx | ⟨rfl, -⟩
        · exact .inl ⟨ch', hch', .inr ⟨x, mem_captureDelete.mpr hx, hxc, hn⟩⟩
        · unfold RuntimeState.counts at hxc
          simp only [Bool.and_eq_true, decide_eq_true_eq] at hxc
          exact absurd hxc.1.1.1.symm hchain
    · rintro (⟨ch', hch', hcov | ⟨x, hx, hxc, hn⟩⟩ | ⟨-, hat, -⟩)
      · exact ⟨ch', hch', .inl hcov⟩
      · exact ⟨ch', hch', .inr ⟨x, mem_activeAfter.mpr (.inl (mem_captureDelete.mp hx)), hxc, hn⟩⟩
      · exact absurd hat.symm hchain

end MarketInfo.Across
