import MarketInfo.Across.Coverage

/-! # Decode work

A block that was read and not decoded should lie in a retained partial capture.
A step keeps this unless it withdraws the only decoded, or the only retained,
capture of a block that others have read.
-/

namespace MarketInfo.Across

open Json (Text)

/-- Some applied capture that read the block was marked abandoned. -/
def Abandoned (past : List Capture) (chain n : Nat) : Prop :=
  ∃ c ∈ past, runtimeRaw c = true ∧ c.abandoned = true ∧ c.At chain n

/-- Every read block is decoded, in a retained partial capture or abandoned. -/
def WorkKept (s : RuntimeState) (past : List Capture) : Prop :=
  ∀ chain n, s.Reads chain false n →
    s.Reads chain true n ∨ (∃ p ∈ s.partials, p.At chain n) ∨ Abandoned past chain n

/-- The captures under an id that hold decoded blocks or decode work. -/
def RuntimeState.holders (s : RuntimeState) (id : Text) : List Capture :=
  (s.active.filter fun x => x.captureId = id && s.counts x.chainId true x) ++
    s.partials.filter fun x => x.captureId = id

/-- What `c` replaces under its id is not missed: a block of it that others have
read is decoded by others, in another partial capture, read again by `c` or
abandoned. -/
def RuntimeState.Spared (s : RuntimeState) (past : List Capture) (c : Capture) : Prop :=
  ∀ x ∈ s.holders c.captureId, ∀ n, x.range.Holds n →
    (s.without c.captureId).Reads x.chainId false n →
      (s.without c.captureId).Reads x.chainId true n ∨
        (∃ p ∈ s.partials, p.captureId ≠ c.captureId ∧ p.At x.chainId n) ∨
        ((s.takes true c = true ∨ runtimeRaw c = true ∧ c.status = .part) ∧ c.At x.chainId n) ∨
        Abandoned past x.chainId n

/-- The state without the captures that an invalidation affects. -/
def RuntimeState.unaffected (s : RuntimeState) (job : Invalidation) : RuntimeState :=
  { s with active := s.active.filter fun c => c ∉ s.affectedCaptures job }

/-- The decoded captures that an invalidation masks are not missed. -/
def RuntimeState.SparedMark (s : RuntimeState) (past : List Capture) (job : Invalidation) : Prop :=
  ∀ x ∈ s.affectedCaptures job, s.counts job.chain true x = true → ∀ n, x.range.Holds n →
    (s.unaffected job).Reads job.chain false n →
      (s.unaffected job).Reads job.chain true n ∨ (∃ p ∈ s.partials, p.At job.chain n) ∨
        Abandoned past job.chain n

/-- The condition on one item: a capture with logs is decoded or partial, and
nothing that is still needed is withdrawn. -/
def Item.Spares (s : RuntimeState) (past : List Capture) (i : Item) : Prop :=
  (∀ c, i.taken s = some c →
    (runtimeRaw c = true → runtimeDecoded c = true ∨ c.status = .part) ∧ s.Spared past c) ∧
    ∀ job, i = .mark job → s.SparedMark past job

/-- The condition on every item of a run. -/
def SparesAll (s : RuntimeState) (past : List Capture) : List Item → Prop
  | [] => True
  | i :: rest => i.Spares s past ∧
      ∀ s', s.step i = .ok s' → SparesAll s' (past ++ (i.taken s).toList) rest

/-! ## One capture -/

theorem Abandoned.append {past more : List Capture} {chain n : Nat}
    (h : Abandoned past chain n) : Abandoned (past ++ more) chain n := by
  rcases h with ⟨c, hc, h⟩
  exact ⟨c, List.mem_append_left _ hc, h⟩

theorem WorkKept.append {s : RuntimeState} {past more : List Capture} (h : WorkKept s past) :
    WorkKept s (past ++ more) := by
  intro chain n hraw
  rcases h chain n hraw with h | h | h
  · exact .inl h
  · exact .inr (.inl h)
  · exact .inr (.inr h.append)

theorem applied_partials (s : RuntimeState) (ch : RuntimeChain) (c : Capture) :
    (s.applied ch c).partials =
      partialsAfter s.partials ((s.applied ch c).coverage c.chainId true) c := by
  unfold RuntimeState.applied
  simp only
  split_ifs
  · rfl
  · rfl

/-- Another partial capture stays until its blocks are decoded. -/
theorem partial_stays {s : RuntimeState} {ch : RuntimeChain} {c p : Capture} {chain n : Nat}
    (hp : p ∈ s.partials) (hid : p.captureId ≠ c.captureId) (hat : p.At chain n) :
    (s.applied ch c).Reads chain true n ∨ ∃ q ∈ (s.applied ch c).partials, q.At chain n := by
  rw [applied_partials]
  by_cases hdrop : p.chainId = c.chainId ∧
      decodedWhole ((s.applied ch c).coverage c.chainId true) p = true
  · left
    rw [← hat.1, hdrop.1]
    exact reads_of_decodedWhole hdrop.2 hat.2
  · right
    refine ⟨p, ?_, hat⟩
    have hheld : p ∈ partialsHeld s.partials ((s.applied ch c).coverage c.chainId true) c := by
      unfold partialsHeld
      split_ifs
      · exact hp
      · exact mem_captureSet.mpr (.inl ⟨hp, hid⟩)
      · exact mem_captureDelete.mpr ⟨hp, hid⟩
    unfold partialsAfter
    split_ifs
    · refine List.mem_filter.mpr ⟨hheld, ?_⟩
      rw [not_and_or] at hdrop
      simpa using hdrop
    · exact hheld

/-- The blocks a raw capture reads are decoded, kept as work or abandoned. -/
theorem own_kept {s : RuntimeState} {ch : RuntimeChain} {c : Capture} {past : List Capture}
    {chain n : Nat} (hch : s.chains c.chainId = some ch)
    (hcase : s.takes true c = true ∨ runtimeRaw c = true ∧ c.status = .part)
    (hat : c.At chain n) :
    (s.applied ch c).Reads chain true n ∨ (∃ p ∈ (s.applied ch c).partials, p.At chain n) ∨
      Abandoned (past ++ [c]) chain n := by
  rcases hcase with htakes | ⟨hraw, hpart⟩
  · exact .inl ((reads_applied hch).mpr (.inr ⟨htakes, hat⟩))
  · -- a partial capture is kept unless its whole range is decoded already
    by_cases habandoned : c.abandoned = true
    · exact .inr (.inr ⟨c, by simp, hraw, habandoned, hat⟩)
    · by_cases hwhole : decodedWhole ((s.applied ch c).coverage c.chainId true) c = true
      · left
        rw [← hat.1]
        exact reads_of_decodedWhole hwhole hat.2
      · refine .inr (.inl ⟨c, ?_, hat⟩)
        have hnot : runtimeDecoded c = false := by
          unfold runtimeDecoded
          simp [hpart]
        rw [applied_partials]
        unfold partialsAfter partialsHeld
        simp [hnot, hraw, hpart, habandoned, hwhole]

/-- One applied capture keeps the decode work, if it withdraws nothing needed. -/
theorem applied_kept {s : RuntimeState} {ch : RuntimeChain} {c : Capture} {past : List Capture}
    (hch : s.chains c.chainId = some ch)
    (hstatus : runtimeRaw c = true → runtimeDecoded c = true ∨ c.status = .part)
    (hspared : s.Spared past c) (h : WorkKept s past) :
    WorkKept (s.applied ch c) (past ++ [c]) := by
  intro chain n hraw
  -- what becomes of a block that others have read and an old holder had
  have hreplaced : ∀ x ∈ s.holders c.captureId, x.At chain n →
      (s.without c.captureId).Reads chain false n →
      (s.applied ch c).Reads chain true n ∨ (∃ p ∈ (s.applied ch c).partials, p.At chain n) ∨
        Abandoned (past ++ [c]) chain n := by
    intro x hx hat hothers
    rcases hat with ⟨rfl, hn⟩
    rcases hspared x hx n hn hothers with hdec | ⟨p, hp, hid, hpat⟩ | ⟨hown, hat⟩ | hab
    · exact .inl ((reads_applied hch).mpr (.inl hdec))
    · rcases partial_stays hp hid hpat with hdec | hstay
      · exact .inl hdec
      · exact .inr (.inl hstay)
    · exact own_kept hch hown hat
    · exact .inr (.inr hab.append)
  rcases (reads_applied hch).mp hraw with hothers | ⟨htakes, hat⟩
  · have hbefore : s.Reads chain false n := by
      rcases reads_iff.mp hothers with ⟨ch', hch', hcov | ⟨x, hx, hcounts, hn⟩⟩
      · exact reads_iff.mpr ⟨ch', hch', .inl hcov⟩
      · exact reads_iff.mpr ⟨ch', hch', .inr ⟨x, (mem_captureDelete.mp hx).1, hcounts, hn⟩⟩
    rcases h chain n hbefore with hdec | ⟨p, hp, hat⟩ | hab
    · rcases reads_iff.mp hdec with ⟨ch', hch', hcov | ⟨x, hx, hcounts, hn⟩⟩
      · exact .inl ((reads_applied hch).mpr (.inl (reads_iff.mpr ⟨ch', hch', .inl hcov⟩)))
      · by_cases hid : x.captureId = c.captureId
        · have hchain : x.chainId = chain := by
            unfold RuntimeState.counts at hcounts
            simp only [Bool.and_eq_true, decide_eq_true_eq] at hcounts
            exact hcounts.1.1.1
          refine hreplaced x ?_ ⟨hchain, hn⟩ hothers
          refine List.mem_append_left _ (List.mem_filter.mpr ⟨hx, ?_⟩)
          rw [hchain]
          simp [hid, hcounts]
        · exact .inl ((reads_applied hch).mpr (.inl (reads_iff.mpr
            ⟨ch', hch', .inr ⟨x, mem_captureDelete.mpr ⟨hx, hid⟩, hcounts, hn⟩⟩)))
    · by_cases hid : p.captureId = c.captureId
      · refine hreplaced p ?_ hat hothers
        exact List.mem_append_right _ (List.mem_filter.mpr ⟨hp, by simpa using hid⟩)
      · rcases partial_stays hp hid hat with hdec | hstay
        · exact .inl hdec
        · exact .inr (.inl hstay)
    · exact .inr (.inr hab.append)
  · have hownraw : runtimeRaw c = true := by
      unfold RuntimeState.takes at htakes
      simp only [Bool.and_eq_true] at htakes
      exact htakes.1.1
    refine own_kept hch ?_ hat
    rcases hstatus hownraw with hdec | hpart
    · left
      unfold RuntimeState.takes at htakes ⊢
      simp only [Bool.and_eq_true] at htakes ⊢
      exact ⟨⟨hownraw, by simp [hdec]⟩, htakes.2⟩
    · exact .inr ⟨hownraw, hpart⟩

/-! ## One item -/

theorem capture_ok {s s' : RuntimeState} {c : Capture} (h : s.capture c = .ok s') :
    (s' = s ∧ ∃ old, captureGet s.active c.captureId = some old ∧ c.revision < old.revision) ∨
      ∃ ch, s.chains c.chainId = some ch ∧ s' = s.applied ch c ∧
        ∀ old, captureGet s.active c.captureId = some old → old.revision ≤ c.revision := by
  unfold RuntimeState.capture at h
  cases hch : s.chains c.chainId with
  | none =>
      rw [hch] at h
      cases h
  | some ch =>
      rw [hch] at h
      simp only at h
      split_ifs at h
      cases hold : captureGet s.active c.captureId with
      | none =>
          rw [hold] at h
          cases h
          exact .inr ⟨ch, rfl, rfl, fun old ho => by cases ho⟩
      | some old =>
          rw [hold] at h
          simp only at h
          split_ifs at h with hstale hsame
          · cases h
            exact .inl ⟨rfl, old, rfl, hstale⟩
          · cases h
            refine .inr ⟨ch, rfl, rfl, fun old' ho => ?_⟩
            cases ho
            omega

theorem revise_ok {s s' : RuntimeState} {expected : Nat} {c : Capture}
    (h : s.revise expected c = .ok s') :
    (s' = s ∧ ∃ old, s.held c = some old ∧ c.revision ≤ old.revision) ∨
      ∃ old, s.held c = some old ∧ old.revision < c.revision ∧
        ∃ t, s.capture c = .ok t ∧ s' = t.rewound old c := by
  unfold RuntimeState.revise at h
  cases hheld : s.held c with
  | none =>
      rw [hheld] at h
      cases h
  | some old =>
      rw [hheld] at h
      simp only at h
      split_ifs at h with hless heq
      · cases h
        exact .inl ⟨rfl, old, rfl, hless.le⟩
      · cases h
        exact .inl ⟨rfl, old, rfl, heq.le⟩
      · cases hcap : s.capture c with
        | error e =>
            rw [hcap] at h
            cases h
        | ok t =>
            rw [hcap] at h
            cases h
            exact .inr ⟨old, rfl, by omega, t, rfl, rfl⟩

theorem rewound_kept {s : RuntimeState} {past : List Capture} {old c : Capture}
    (h : WorkKept s past) : WorkKept (s.rewound old c) past := by
  unfold RuntimeState.rewound
  simp only
  split_ifs
  · exact h
  · exact h

/-- Whether an invalidation masks a capture. -/
def Invalidation.Hits (job : Invalidation) (c : Capture) : Prop :=
  c.chainId = job.chain ∧ ∃ n ∈ job.bad, c.range.Holds n

theorem mem_affectedCaptures {s : RuntimeState} {job : Invalidation} {x : Capture} :
    x ∈ s.affectedCaptures job ↔ x ∈ s.active ∧ job.Hits x := by
  unfold RuntimeState.affectedCaptures Invalidation.Hits
  simp

theorem invalidated_iff {s : RuntimeState} {x : Capture} (hanch : anchored x = true) :
    s.invalidated x = true ↔ ∃ job ∈ s.invalidations, job.Hits x := by
  unfold RuntimeState.invalidated Invalidation.Hits
  simp only [hanch, Bool.true_and, List.any_eq_true, Bool.and_eq_true, decide_eq_true_eq]
  simp only [eq_comm]

theorem counts_iff {s : RuntimeState} {chain : Nat} {decoded : Bool} {x : Capture} :
    s.counts chain decoded x = true ↔ (x.chainId = chain ∧ runtimeRaw x = true ∧
      (decoded = true → runtimeDecoded x = true)) ∧ ¬ ∃ job ∈ s.invalidations, job.Hits x := by
  constructor
  · intro h
    unfold RuntimeState.counts at h
    simp only [Bool.and_eq_true, decide_eq_true_eq, Bool.not_eq_true'] at h
    rcases h with ⟨⟨⟨hchain, hraw⟩, hdec⟩, hvalid⟩
    refine ⟨⟨hchain, hraw, ?_⟩, ?_⟩
    · rintro rfl
      simpa using hdec
    · rw [← invalidated_iff (runtimeRaw_anchored hraw).2, hvalid]
      exact Bool.false_ne_true
  · rintro ⟨⟨hchain, hraw, hdec⟩, hvalid⟩
    rw [← invalidated_iff (runtimeRaw_anchored hraw).2, Bool.not_eq_true] at hvalid
    unfold RuntimeState.counts
    cases decoded with
    | false => simp [hchain, hraw, hvalid]
    | true => simp [hchain, hraw, hvalid, hdec rfl]

/-- An invalidation masks the captures it affects. -/
theorem reads_marked {s : RuntimeState} {job : Invalidation} {chain n : Nat} {decoded : Bool} :
    RuntimeState.Reads { s with invalidations := s.invalidations ++ [job] } chain decoded n ↔
      (s.unaffected job).Reads chain decoded n := by
  have hmember : ∀ x, (x ∈ s.active ∧ RuntimeState.counts
      { s with invalidations := s.invalidations ++ [job] } chain decoded x = true) ↔
      (x ∈ (s.unaffected job).active ∧ (s.unaffected job).counts chain decoded x = true) := by
    intro x
    rw [counts_iff, counts_iff]
    unfold RuntimeState.unaffected
    simp only [List.mem_filter, decide_eq_true_eq, mem_affectedCaptures, List.mem_append,
      List.mem_singleton]
    constructor
    · rintro ⟨hx, hread, hnone⟩
      refine ⟨⟨hx, fun hhit => hnone ⟨job, .inr rfl, hhit.2⟩⟩, hread, ?_⟩
      rintro ⟨j, hj, hhit⟩
      exact hnone ⟨j, .inl hj, hhit⟩
    · rintro ⟨⟨hx, hnot⟩, hread, hnone⟩
      refine ⟨hx, hread, ?_⟩
      rintro ⟨j, hj | rfl, hhit⟩
      · exact hnone ⟨j, hj, hhit⟩
      · exact hnot ⟨hx, hhit⟩
  rw [reads_iff, reads_iff]
  refine exists_congr fun ch => and_congr_right fun _ => or_congr Iff.rfl ?_
  refine exists_congr fun x => ?_
  rw [← and_assoc, ← and_assoc, hmember]

/-- A finished invalidation affected no capture any more. -/
theorem reads_finished {s : RuntimeState} {job : Invalidation} {chain n : Nat} {decoded : Bool}
    (hnone : s.affectedCaptures job = []) :
    RuntimeState.Reads { s with invalidations := s.invalidations.filter (· ≠ job) }
      chain decoded n ↔ s.Reads chain decoded n := by
  rw [reads_iff, reads_iff]
  refine exists_congr fun ch => and_congr_right fun _ => or_congr Iff.rfl ?_
  refine exists_congr fun x => and_congr_right fun hx => and_congr_left fun _ => ?_
  have hnot : ¬ job.Hits x := by
    intro hhit
    have hmem : x ∈ s.affectedCaptures job := mem_affectedCaptures.mpr ⟨hx, hhit⟩
    rw [hnone] at hmem
    cases hmem
  rw [counts_iff, counts_iff]
  refine and_congr_right fun _ => not_congr ?_
  constructor
  · rintro ⟨j, hj, hhit⟩
    exact ⟨j, (List.mem_filter.mp hj).1, hhit⟩
  · rintro ⟨j, hj, hhit⟩
    refine ⟨j, List.mem_filter.mpr ⟨hj, ?_⟩, hhit⟩
    rw [decide_eq_true_eq]
    rintro rfl
    exact hnot hhit

theorem marked_kept {s : RuntimeState} {job : Invalidation} {past : List Capture}
    (hspared : s.SparedMark past job) (h : WorkKept s past) :
    WorkKept { s with invalidations := s.invalidations ++ [job] } past := by
  intro chain n hraw
  rw [reads_marked] at hraw ⊢
  have hbefore : s.Reads chain false n := by
    rcases reads_iff.mp hraw with ⟨ch, hch, hcov | ⟨x, hx, hcounts, hn⟩⟩
    · exact reads_iff.mpr ⟨ch, hch, .inl hcov⟩
    · exact reads_iff.mpr ⟨ch, hch, .inr ⟨x, (List.mem_filter.mp hx).1, hcounts, hn⟩⟩
  rcases h chain n hbefore with hdec | hwork
  · rcases reads_iff.mp hdec with ⟨ch, hch, hcov | ⟨x, hx, hcounts, hn⟩⟩
    · exact .inl (reads_iff.mpr ⟨ch, hch, .inl hcov⟩)
    · -- only a masked capture takes a decoded block away
      by_cases hhit : x ∈ s.affectedCaptures job
      · have hchain : job.chain = chain := by
          rw [← (mem_affectedCaptures.mp hhit).2.1]
          exact (counts_iff.mp hcounts).1.1
        subst hchain
        exact hspared x hhit hcounts n hn hraw
      · refine .inl (reads_iff.mpr ⟨ch, hch, .inr ⟨x, ?_, hcounts, hn⟩⟩)
        exact List.mem_filter.mpr ⟨hx, by simpa using hhit⟩
  · exact .inr hwork

theorem step_kept {s s' : RuntimeState} {past : List Capture} {i : Item}
    (hspares : i.Spares s past) (hstep : s.step i = .ok s') (h : WorkKept s past) :
    WorkKept s' (past ++ (i.taken s).toList) := by
  cases i with
  | batch c =>
      unfold RuntimeState.step at hstep
      simp only at hstep
      split_ifs at hstep
      -- an older revision than the active one changes nothing
      rcases capture_ok hstep with ⟨rfl, -⟩ | ⟨ch, hch, rfl, hfresh⟩
      · exact WorkKept.append h
      · have htaken : (Item.batch c).taken s = some c := by
          unfold Item.taken
          refine if_pos ?_
          cases hold : captureGet s.active c.captureId with
          | none => rfl
          | some old => simpa using hfresh old hold
        rcases hspares.1 c htaken with ⟨hstatus, hspared⟩
        rw [htaken]
        exact applied_kept (s := s.retire c) hch hstatus hspared h
  | revision expected c =>
      unfold RuntimeState.step at hstep
      simp only at hstep
      cases hrev : s.revise expected c with
      | error e =>
          rw [hrev] at hstep
          cases hstep
      | ok t =>
          rw [hrev] at hstep
          cases hstep
          rcases revise_ok hrev with ⟨rfl, -⟩ | ⟨old, hheld, hnewer, u, hcap, rfl⟩
          · exact WorkKept.append h
          · have htaken : (Item.revision expected c).taken s = some c := by
              unfold Item.taken
              refine if_pos ?_
              rw [hheld]
              simpa using hnewer
            rcases hspares.1 c htaken with ⟨hstatus, hspared⟩
            rw [htaken]
            have hu : WorkKept u (past ++ [c]) := by
              rcases capture_ok hcap with ⟨rfl, -⟩ | ⟨ch, hch, rfl, -⟩
              · exact WorkKept.append h
              · exact applied_kept hch hstatus hspared h
            exact rewound_kept hu
  | mark job =>
      refine WorkKept.append ?_
      unfold RuntimeState.step RuntimeState.mark at hstep
      simp only at hstep
      split at hstep
      · cases hstep
      · split_ifs at hstep
        · cases hstep
          exact h
        · cases hstep
          exact marked_kept (hspares.2 job rfl) h
  | finish job =>
      refine WorkKept.append ?_
      unfold RuntimeState.step at hstep
      simp only at hstep
      split_ifs at hstep with hnone
      · cases hstep
        intro chain n hraw
        rw [reads_finished hnone] at hraw ⊢
        exact h chain n hraw
      · cases hstep
        exact h

/-! ## Runs -/

theorem newRuntimeState_kept (manifest : Text) (chains : List Nat) :
    WorkKept (newRuntimeState manifest chains) [] := by
  intro chain n hraw
  rcases reads_iff.mp hraw with ⟨ch, hch, hcov | ⟨x, hx, -⟩⟩
  · unfold newRuntimeState at hch
    simp only at hch
    split_ifs at hch
    cases hch
    exact absurd hcov (Span.covered_nil n)
  · cases hx

theorem run_kept {items : List Item} : ∀ {s s' : RuntimeState} {past past' : List Capture},
    SparesAll s past items → s.run past items = .ok (s', past') → WorkKept s past →
      WorkKept s' past' := by
  induction items with
  | nil =>
      intro s s' past past' _ hrun h
      cases hrun
      exact h
  | cons i rest ih =>
      intro s s' past past' hspares hrun h
      unfold RuntimeState.run at hrun
      cases hstep : s.step i with
      | error e =>
          rw [hstep] at hrun
          cases hrun
      | ok t =>
          rw [hstep] at hrun
          exact ih (hspares.2 t hstep) hrun (step_kept hspares.1 hstep h)

/-- A read of chain 1 from block 1. -/
def readCapture (id : Text) (last : Nat) (status : CaptureStatus) : Capture :=
  ⟨[], id, 1, .logs, Time.zero, some 1, some last, some [], some [], 1,
    if status = .complete then 0 else 1, status, false, true, true, .head, 1, []⟩

/-- The same read, taken back. -/
def orphaned (c : Capture) : Capture :=
  { c with canonical := false, finality := .orphaned, revision := 2 }

/-- A partial read, decoded by a longer one that a reorganization past the
partial read's blocks takes back. -/
def withdrawn : List Item :=
  [.batch (readCapture ['p'] 10 .part), .batch (readCapture ['d'] 20 .complete),
    .revision 1 (orphaned (readCapture ['d'] 20 .complete))]

end MarketInfo.Across
