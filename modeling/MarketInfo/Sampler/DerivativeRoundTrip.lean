import MarketInfo.Sampler.DerivativeRecording

/-! # The derivative-minute round trip

A completed minute is accepted by `ValidateDerivativeBatch` exactly when the
qualities keep the rules the buffer leaves to its caller, and `ReplayDerivative`
then gives back each snapshot that was sampled valid in an anchored minute.
-/

namespace MarketInfo

open Listing PriceMap

/-! ## A minute of samples -/

/-- One call of `Sample`. -/
structure DerivativeCall where
  time : Time
  snapshot : DerivativeSnapshot
  quality : DerivativeQuality

/-- The calls of a minute, each of them accepted. -/
def DerivativeMinuteBuffer.sampleAll (b : DerivativeMinuteBuffer) (calls : List DerivativeCall) :
    Except String DerivativeMinuteBuffer :=
  calls.foldlM (fun b c => b.sample c.time c.snapshot c.quality) b

/-- Second zero was sampled valid. -/
@[reducible] def AnchoredCalls (calls : List DerivativeCall) : Prop :=
  ∃ c ∈ calls.head?, c.quality.Valid

/-- The rules of `ValidateDerivativeBatch` on the stored fields of a quality that
`Sample` does not check itself. -/
structure StoredRules (depth : Nat) (q : DerivativeQuality) : Prop where
  bidLevels_le : q.bidLevels.toNat ≤ depth
  askLevels_le : q.askLevels.toNat ≤ depth
  precise : ∀ t ∈ q.times, ¬ t.IsZero → t.Equal (t.truncate Time.microsecond)
  lastSnapshot : q.streamValid = true → ¬ q.lastSnapshotAt.IsZero
  openKnown : q.marketOpen = true → q.marketKnown = true
  known : q.marketKnown = true → ¬ q.marketStateAt.IsZero ∧ 1 ≤ q.marketStateBasis ∧
    q.marketStateBasis ≤ 2
  unknown : q.marketKnown = false → q.marketStateBasis = 0
  rule : q.tradingRuleID = "" ↔ q.rulePublishedAt.IsZero
  digest : q.tradingRuleID ≠ "" → validDigest q.tradingRuleID = true

/-- With them, the rules on the reason. -/
structure QualityRules (anchored : Prop) (depth : Nat) (q : DerivativeQuality) : Prop where
  stored : StoredRules depth q
  reason_le : ¬ (q.streamValid = true ∧ q.marketKnown = false) →
    q.reason ≤ DerivativeReason.marketClosed
  invalid : q.streamValid = false → q.reason ≠ DerivativeReason.ok
  unanchored : ¬ anchored → q.streamValid = true → q.marketKnown = true →
    q.reason = DerivativeReason.ok ∨ q.reason = DerivativeReason.anchorMissing

/-- The depth qualities are held to: an unanchored minute has no depth of its own. -/
def ruleDepth (depth : Nat) (calls : List DerivativeCall) : Nat :=
  if AnchoredCalls calls then depth else bookDepth

/-! ## What the buffer keeps of each call -/

/-- The quality slot of a call. -/
def DerivativeCall.slot (anchored : Prop) [Decidable anchored] (c : DerivativeCall) :
    DerivativeQuality :=
  if c.quality.Valid then
    if anchored then { c.quality with replayValid := true }
    else { c.quality with reason := DerivativeReason.anchorMissing }
  else c.quality.withMarket

theorem withMarket_of_valid {q : DerivativeQuality} (h : q.Valid) : q.withMarket = q := by
  unfold DerivativeQuality.withMarket
  rw [if_neg]
  rintro ⟨-, hknown⟩
  rw [h.2.1] at hknown
  cases hknown

/-- Of an accepted call, the validator looks at the stored rules and at what the
buffer made of the reason and of the replay validity. -/
theorem validQuality_iff {b : DerivativeMinuteBuffer} {batch : DerivativeMinuteBatch} {i depth : Nat}
    {c : DerivativeCall} (hacc : b.Accepts i c.snapshot c.quality)
    (htime : batch.minuteTime = b.batch.minuteTime) (valid : Bool) (reason : DerivativeReason) :
    ValidQuality batch depth i { c.quality with replayValid := valid, reason } ↔
      StoredRules depth c.quality ∧ reason ≤ DerivativeReason.marketClosed ∧
        (valid = true ↔ c.quality.sampled = true ∧ c.quality.streamValid = true ∧
          c.quality.marketKnown = true ∧ batch.minute.isSome = true ∧
          reason = DerivativeReason.ok) ∧
        (valid = false → reason ≠ DerivativeReason.ok) ∧
        (batch.minute = none → c.quality.streamValid = true → c.quality.marketKnown = true →
          reason = DerivativeReason.anchorMissing) := by
  constructor
  · intro h
    exact ⟨⟨h.bidLevels_le, h.askLevels_le, h.precise, fun hs => (h.provenance hs).2.2.2, h.openKnown,
      h.known, h.unknown, h.rule, h.digest⟩, h.reason_le, h.replayValid, h.invalid, h.anchorMissing⟩
  · rintro ⟨hstored, hreason, hvalid, hinvalid, hanchor⟩
    refine ⟨hreason, hstored.bidLevels_le, hstored.askLevels_le, hstored.precise, ?_, ?_, ?_, ?_,
      hstored.openKnown, hstored.known, hstored.unknown, hstored.rule, hstored.digest, hvalid,
      hinvalid, hanchor⟩
    · rw [htime]
      exact hacc.captured
    · intro hs
      refine ⟨hacc.unsampled hs, ?_⟩
      dsimp only at hs ⊢
      rw [← Bool.not_eq_true]
      intro hv
      rw [(hvalid.1 hv).1] at hs
      cases hs
    · rw [htime]
      exact hacc.past
    · intro hs
      exact ⟨(hacc.sourceTime hs).1, (hacc.receivedAt hs).1, (hacc.epoch hs).1,
        hstored.lastSnapshot hs⟩

/-- The validator accepts the slot of an accepted call when its quality keeps
the rules, and only then. -/
theorem validQuality_slot {anchored : Prop} [Decidable anchored] {b : DerivativeMinuteBuffer}
    {batch : DerivativeMinuteBatch} {i depth : Nat} {c : DerivativeCall}
    (hacc : b.Accepts i c.snapshot c.quality) (htime : batch.minuteTime = b.batch.minuteTime)
    (hanchored : batch.minute.isSome = true ↔ anchored) :
    ValidQuality batch depth i (c.slot anchored) ↔ QualityRules anchored depth c.quality := by
  have hnone : batch.minute = none ↔ ¬ anchored := by
    rw [← hanchored, Option.not_isSome_iff_eq_none]
  have hsampled : c.quality.streamValid = true → c.quality.sampled = true := by
    intro hs
    by_contra hno
    rw [hacc.unsampled (by simpa using hno)] at hs
    cases hs
  have hreplay := hacc.notReplayValid
  have hslot : ∀ valid reason, ValidQuality batch depth i
      { c.quality with replayValid := valid, reason := reason } ↔ _ := validQuality_iff hacc htime
  unfold DerivativeCall.slot
  by_cases hv : c.quality.Valid
  · obtain ⟨hs, hk, hok⟩ := hv
    rw [if_pos ⟨hs, hk, hok⟩]
    by_cases ha : anchored
    · -- a replay-valid slot
      rw [if_pos ha]
      refine (hslot true c.quality.reason).trans ?_
      constructor
      · rintro ⟨hstored, hle, -, -, -⟩
        exact ⟨hstored, fun _ => hle, fun h => absurd hs (by simp [h]), fun h => absurd ha h⟩
      · intro h
        refine ⟨h.stored, by rw [hok]; decide, ?_, by simp, fun h => absurd ha (hnone.1 h)⟩
        exact iff_of_true rfl ⟨hsampled hs, hs, hk, hanchored.2 ha, hok⟩
    · -- a valid second without an anchor
      rw [if_neg ha]
      have hmake : ({ c.quality with reason := DerivativeReason.anchorMissing } : DerivativeQuality) =
          { c.quality with replayValid := false, reason := DerivativeReason.anchorMissing } := by
        rw [← hreplay]
      rw [hmake]
      refine (hslot false _).trans ?_
      constructor
      · rintro ⟨hstored, -, -, -, -⟩
        exact ⟨hstored, fun _ => by rw [hok]; decide, fun h => absurd hs (by simp [h]),
          fun _ _ _ => Or.inl hok⟩
      · intro h
        refine ⟨h.stored, by decide, ?_, by decide, fun _ _ _ => rfl⟩
        exact iff_of_false (by simp) fun h => ha (hanchored.1 h.2.2.2.1)
  · rw [if_neg hv]
    unfold DerivativeQuality.withMarket
    by_cases hm : c.quality.streamValid = true ∧ c.quality.marketKnown = false
    · -- the market is unknown
      obtain ⟨hs, hk⟩ := hm
      rw [if_pos ⟨hs, hk⟩]
      have hmake : ({ c.quality with reason := DerivativeReason.metadataUncertain } :
          DerivativeQuality) =
          { c.quality with replayValid := false, reason := DerivativeReason.metadataUncertain } := by
        rw [← hreplay]
      rw [hmake]
      refine (hslot false _).trans ?_
      constructor
      · rintro ⟨hstored, -, -, -, -⟩
        exact ⟨hstored, fun h => absurd ⟨hs, hk⟩ h, fun h => absurd hs (by simp [h]),
          fun _ _ h => absurd hk (by simp [h])⟩
      · intro h
        refine ⟨h.stored, by decide, ?_, by decide, fun _ _ h => absurd hk (by simp [h])⟩
        exact iff_of_false (by simp) fun h => absurd h.2.2.2.2 (by decide)
    · -- the slot is the quality as it was sampled
      rw [if_neg hm]
      have hmake : c.quality =
          { c.quality with replayValid := false, reason := c.quality.reason } := by
        rw [← hreplay]
      rw [hmake]
      refine (hslot false _).trans ?_
      rw [← hmake]
      constructor
      · rintro ⟨hstored, hle, -, hne, hanchor⟩
        exact ⟨hstored, fun _ => hle, fun _ => hne rfl,
          fun ha hs hk => Or.inr (hanchor (hnone.2 ha) hs hk)⟩
      · intro h
        have hne : c.quality.reason ≠ DerivativeReason.ok := by
          intro hok
          cases hs : c.quality.streamValid with
          | false => exact h.invalid hs hok
          | true =>
              have hk : c.quality.marketKnown = true := by simpa [hs] using hm
              exact hv ⟨hs, hk, hok⟩
        refine ⟨h.stored, h.reason_le hm, ?_, fun _ => hne, ?_⟩
        · exact iff_of_false (by simp) fun h => hne h.2.2.2.2
        · intro hmin hs hk
          exact (h.unanchored (hnone.1 hmin) hs hk).resolve_left hne

/-! ## The invariant of a minute -/

/-- The snapshots sampled valid, by second. -/
def validSnapshots (calls : List DerivativeCall) : List (Nat × DerivativeSnapshot) :=
  calls.zipIdx.filterMap fun e => if e.1.quality.Valid then some (e.2, e.1.snapshot) else none

theorem mem_validSnapshots {calls : List DerivativeCall} {s : Nat} {x : DerivativeSnapshot} :
    (s, x) ∈ validSnapshots calls ↔
      ∃ c, calls[s]? = some c ∧ c.quality.Valid ∧ c.snapshot = x := by
  simp only [validSnapshots, List.mem_filterMap, Option.ite_none_right_eq_some, Option.some.injEq,
    Prod.mk.injEq]
  constructor
  · rintro ⟨⟨c, i⟩, hc, hv, rfl, rfl⟩
    exact ⟨c, List.mem_zipIdx_iff_getElem?.1 hc, hv, rfl⟩
  · rintro ⟨c, hc, hv, rfl⟩
    exact ⟨(c, s), List.mem_zipIdx_iff_getElem?.2 hc, hv, rfl, rfl⟩

theorem validSnapshots_concat (calls : List DerivativeCall) (c : DerivativeCall) :
    validSnapshots (calls ++ [c]) =
      validSnapshots calls ++
        if c.quality.Valid then [(calls.length, c.snapshot)] else [] := by
  unfold validSnapshots
  rw [List.zipIdx_append, List.filterMap_append, Nat.zero_add, List.zipIdx_singleton]
  congr 1
  by_cases hv : c.quality.Valid
  · simp only [List.filterMap_cons, List.filterMap_nil, if_pos hv]
  · simp only [List.filterMap_cons, List.filterMap_nil, if_neg hv]

/-- Whether a minute is anchored is settled by its first call. -/
theorem anchoredCalls_concat {calls : List DerivativeCall} (c : DerivativeCall) (h : calls ≠ []) :
    AnchoredCalls (calls ++ [c]) ↔ AnchoredCalls calls := by
  unfold AnchoredCalls
  rw [List.head?_append_of_ne_nil _ h]

namespace DerivativeMinuteBuffer

/-- A buffer as it was made. -/
structure Fresh (b : DerivativeMinuteBuffer) : Prop where
  ofDepth : b.depth = 5 ∨ b.depth = 10
  id : ∃ id, minuteID b.batch.instrumentID b.batch.minuteTime = .ok id
  exact : ¬ b.batch.minuteTime.IsZero ∧
    b.batch.minuteTime.Equal (b.batch.minuteTime.truncate Time.minute)
  next : b.next = 0
  minute : b.batch.minute = none
  deltas : b.batch.deltas = []

theorem new_fresh {id : UInt32} {minute : Time} {signed : Bool} {depth : Nat}
    {b : DerivativeMinuteBuffer} (h : new id minute signed depth = .ok b) :
    b.Fresh ∧ b.depth = depth := by
  simp only [new, Check.seq_eq_ok, Check.failIf_eq_ok, not_or, not_not] at h
  obtain ⟨hdepth, htime, h⟩ := h
  obtain ⟨i, hid, h⟩ := Check.andThen_eq_ok.1 h
  obtain rfl := Except.ok.inj h
  refine ⟨⟨by dsimp only; omega, ⟨i, ?_⟩, htime, rfl, rfl, rfl⟩, rfl⟩
  exact minuteID_eq_ok.2 (by simpa using minuteID_eq_ok.1 hid)

/-- The buffer after some calls. -/
structure Sampled (fresh : DerivativeMinuteBuffer) (calls : List DerivativeCall)
    (b : DerivativeMinuteBuffer) : Prop where
  instrumentID : b.batch.instrumentID = fresh.batch.instrumentID
  minuteTime : b.batch.minuteTime = fresh.batch.minuteTime
  signed : b.batch.signed = fresh.batch.signed
  depth : b.depth = fresh.depth
  next : b.next = calls.length
  accepted : ∀ i c, calls[i]? = some c → fresh.Accepts i c.snapshot c.quality
  slots : ∀ (i : Nat) (c : DerivativeCall), calls[i]? = some c →
    b.batch.quality.toList[i]? = some (c.slot (AnchoredCalls calls))
  state : (b.batch.minute = none ∧ b.batch.deltas = [] ∧ ¬ AnchoredCalls calls) ∨
    (AnchoredCalls calls ∧ ∃ m, b.Recording m (validSnapshots calls))

theorem accepts_congr {b fresh : DerivativeMinuteBuffer} {i : Nat} {s : DerivativeSnapshot}
    {q : DerivativeQuality} (h : b.Accepts i s q)
    (hid : b.batch.instrumentID = fresh.batch.instrumentID)
    (htime : b.batch.minuteTime = fresh.batch.minuteTime)
    (hsigned : b.batch.signed = fresh.batch.signed) (hdepth : b.depth = fresh.depth) :
    fresh.Accepts i s q := by
  refine ⟨h.notReplayValid, ?_, h.unsampled, ?_, ?_, ?_, h.sourceTime, h.receivedAt, h.epoch,
    h.changeID, h.bidLevels, h.askLevels⟩
  · rw [← htime]
    exact h.captured
  · rw [← htime]
    exact h.past
  · rw [← hid]
    exact h.instrumentID
  · rw [← hdepth, ← hsigned]
    exact h.sides

/-- A sample fills the next slot and keeps what the minute is of. -/
structure Fills (b b' : DerivativeMinuteBuffer) (slot : DerivativeQuality) : Prop where
  instrumentID : b'.batch.instrumentID = b.batch.instrumentID
  minuteTime : b'.batch.minuteTime = b.batch.minuteTime
  signed : b'.batch.signed = b.batch.signed
  depth : b'.depth = b.depth
  next : b'.next = b.next + 1
  quality : b'.batch.quality = b.batch.quality.setIfInBounds b.next slot

theorem recordValid_push_fills (b : DerivativeMinuteBuffer) (m : DerivativeMinute)
    (s : DerivativeSnapshot) (slot : DerivativeQuality) : b.Fills ((b.recordValid m s).push slot) slot := by
  unfold recordValid
  dsimp only
  split
  · exact ⟨rfl, rfl, rfl, rfl, rfl, rfl⟩
  · exact ⟨rfl, rfl, rfl, rfl, rfl, rfl⟩

theorem push_fills (b : DerivativeMinuteBuffer) (slot : DerivativeQuality) :
    b.Fills (b.push slot) slot :=
  ⟨rfl, rfl, rfl, rfl, rfl, rfl⟩

theorem Fills.getElem? {b b' : DerivativeMinuteBuffer} {slot : DerivativeQuality}
    (h : b.Fills b' slot) (hn : b.next < 60) (i : Nat) :
    b'.batch.quality.toList[i]? = if i = b.next then some slot else b.batch.quality.toList[i]? := by
  rw [h.quality, Vector.toList_setIfInBounds, List.getElem?_set]
  by_cases hi : b.next = i
  · rw [if_pos hi, if_pos hi.symm, if_pos (by rw [Vector.length_toList]; omega)]
  · rw [if_neg hi, if_neg (Ne.symm hi)]

/-- A call is recorded: its slot, and the recording of the minute. -/
theorem record_state {fresh b : DerivativeMinuteBuffer} {calls : List DerivativeCall}
    {c : DerivativeCall} (hfresh : fresh.Fresh) (h : fresh.Sampled calls b) (hn : b.next < 60)
    (hacc : b.Accepts b.next c.snapshot c.quality) :
    b.Fills (b.record c.snapshot c.quality) (c.slot (AnchoredCalls (calls ++ [c]))) ∧
      (((b.record c.snapshot c.quality).batch.minute = none ∧
          (b.record c.snapshot c.quality).batch.deltas = [] ∧ ¬ AnchoredCalls (calls ++ [c])) ∨
        (AnchoredCalls (calls ++ [c]) ∧ ∃ m,
          (b.record c.snapshot c.quality).Recording m (validSnapshots (calls ++ [c])))) := by
  have hdepth : b.depth = 5 ∨ b.depth = 10 := by
    rw [h.depth]
    exact hfresh.ofDepth
  have hle : b.depth ≤ bookDepth := by
    rcases hdepth with hd | hd <;> rw [hd] <;> decide
  unfold record DerivativeCall.slot
  rw [validSnapshots_concat]
  by_cases hv : c.quality.Valid
  · have hsides := hacc.sides hv.1
    rw [if_pos hv, if_pos hv, if_pos hv, withMarket_of_valid hv]
    by_cases hzero : b.next = 0
    · -- second zero anchors the minute
      obtain rfl : calls = [] := List.length_eq_zero_iff.1 (h.next ▸ hzero)
      have hanchored : AnchoredCalls ([] ++ [c]) := ⟨c, rfl, hv⟩
      have hdeltas : b.batch.deltas = [] := by
        rcases h.state with ⟨-, hd, -⟩ | ⟨⟨d, hd, -⟩, -⟩
        · exact hd
        · cases hd
      obtain ⟨id, hid⟩ := hfresh.id
      rw [← h.instrumentID, ← h.minuteTime] at hid
      rw [if_pos hzero, if_pos hanchored]
      exact ⟨recordValid_push_fills _ _ _ _,
        Or.inr ⟨hanchored, recording_start hid hdepth hzero hdeltas hsides _⟩⟩
    · have hne : calls ≠ [] := by
        rintro rfl
        exact hzero h.next
      rw [if_neg hzero]
      rcases h.state with ⟨hmin, hdeltas, hno⟩ | ⟨hanchored, m, hrec⟩
      · rw [← anchoredCalls_concat c hne] at hno
        rw [hmin, if_neg hno]
        exact ⟨push_fills _ _, Or.inl ⟨hmin, hdeltas, hno⟩⟩
      · rw [← anchoredCalls_concat c hne] at hanchored
        rw [hrec.minute, if_pos hanchored, ← h.next]
        exact ⟨recordValid_push_fills _ _ _ _,
          Or.inr ⟨hanchored, hrec.extend hle hzero hn hsides _⟩⟩
  · rw [if_neg hv, if_neg hv, if_neg hv, List.append_nil]
    refine ⟨push_fills _ _, ?_⟩
    by_cases hne : calls = []
    · subst hne
      have hno : ¬ AnchoredCalls ([] ++ [c]) := by
        rintro ⟨d, ⟨⟩, hd⟩
        exact hv hd
      rcases h.state with ⟨hmin, hdeltas, -⟩ | ⟨⟨d, hd, -⟩, -⟩
      · exact Or.inl ⟨hmin, hdeltas, hno⟩
      · cases hd
    · rw [anchoredCalls_concat c hne]
      rcases h.state with ⟨hmin, hdeltas, hno⟩ | ⟨hanchored, m, hrec⟩
      · exact Or.inl ⟨hmin, hdeltas, hno⟩
      · exact Or.inr ⟨hanchored, m, hrec.push _⟩

/-- One more accepted call. -/
theorem Sampled.sample {fresh b b' : DerivativeMinuteBuffer} {calls : List DerivativeCall}
    {c : DerivativeCall} (hfresh : fresh.Fresh) (h : fresh.Sampled calls b)
    (hs : b.sample c.time c.snapshot c.quality = .ok b') : fresh.Sampled (calls ++ [c]) b' := by
  simp only [DerivativeMinuteBuffer.sample, Check.seq_eq_ok] at hs
  obtain ⟨hcheck, hrecord⟩ := hs
  obtain rfl := Except.ok.inj hrecord
  obtain ⟨hn, hacc⟩ := checkSample_ok hcheck
  obtain ⟨hfills, hstate⟩ := record_state hfresh h hn hacc
  -- a call is an old one or the new one
  have hcalls : ∀ i d, (calls ++ [c])[i]? = some d →
      (i ≠ b.next ∧ calls[i]? = some d) ∨ (i = b.next ∧ d = c) := by
    intro i d hi
    rw [h.next]
    rcases Nat.lt_or_ge i calls.length with hlt | hge
    · rw [List.getElem?_append_left hlt] at hi
      exact Or.inl ⟨hlt.ne, hi⟩
    · rw [List.getElem?_append_right hge] at hi
      obtain ⟨hone, rfl⟩ := List.getElem?_eq_some_iff.1 hi
      rw [List.length_singleton] at hone
      refine Or.inr ⟨by omega, ?_⟩
      simp
  refine ⟨hfills.instrumentID.trans h.instrumentID, hfills.minuteTime.trans h.minuteTime,
    hfills.signed.trans h.signed, hfills.depth.trans h.depth, ?_, ?_, ?_, hstate⟩
  · rw [hfills.next, h.next, List.length_append, List.length_singleton]
  · intro i d hi
    rcases hcalls i d hi with ⟨-, hold⟩ | ⟨rfl, rfl⟩
    · exact h.accepted i d hold
    · exact accepts_congr hacc h.instrumentID h.minuteTime h.signed h.depth
  · intro i d hi
    rw [hfills.getElem? hn]
    rcases hcalls i d hi with ⟨hne, hold⟩ | ⟨rfl, rfl⟩
    · rw [if_neg hne, h.slots i d hold]
      have hcons : calls ≠ [] := by
        rintro rfl
        cases hold
      simp only [anchoredCalls_concat c hcons]
    · rw [if_pos rfl]

theorem sampled_sampleAll {fresh b : DerivativeMinuteBuffer} {calls : List DerivativeCall}
    (hfresh : fresh.Fresh) (h : fresh.sampleAll calls = .ok b) : fresh.Sampled calls b := by
  induction calls using List.reverseRecOn generalizing b with
  | nil =>
      obtain rfl := Except.ok.inj h
      refine ⟨rfl, rfl, rfl, rfl, hfresh.next, by simp, by simp, Or.inl ?_⟩
      exact ⟨hfresh.minute, hfresh.deltas, by rintro ⟨d, ⟨⟩, -⟩⟩
  | append_singleton front c ih =>
      unfold sampleAll at h ih
      rw [List.foldlM_append] at h
      obtain ⟨mid, hmid, hlast⟩ := Check.andThen_eq_ok.1 h
      obtain ⟨last, hsample, hpure⟩ := Check.andThen_eq_ok.1 hlast
      obtain rfl := Except.ok.inj hpure
      exact (ih hmid).sample hfresh hsample

end DerivativeMinuteBuffer

/-! ## The round trip -/

/-- The same snapshot, with times compared as instants. -/
structure SameSnapshot (x y : DerivativeSnapshot) : Prop where
  instrumentID : x.instrumentID = y.instrumentID
  sourceTime : x.sourceTime.Equal y.sourceTime
  receivedAt : x.receivedAt.Equal y.receivedAt
  epoch : x.epoch = y.epoch
  changeID : x.changeID = y.changeID
  bids : x.bids = y.bids
  asks : x.asks = y.asks

/-- What is stored of a derivative minute, against what was sampled. -/
structure DerivativeRoundTrips (depth : Nat) (calls : List DerivativeCall)
    (batch : DerivativeMinuteBatch) : Prop where
  accepted : validateDerivativeBatch batch = .ok () ↔
    ∀ c ∈ calls, QualityRules (AnchoredCalls calls) (ruleDepth depth calls) c.quality
  replayed : validateDerivativeBatch batch = .ok () → AnchoredCalls calls →
    ∀ s : UInt8, ∀ c, calls[s.toNat]? = some c → c.quality.Valid →
      ∃ r, replayDerivative batch s = .ok r ∧ r.quality.replayValid = true ∧
        SameSnapshot r.snapshot c.snapshot
  absent : validateDerivativeBatch batch = .ok () →
    ∀ s : UInt8, ∀ c, calls[s.toNat]? = some c → ¬ (AnchoredCalls calls ∧ c.quality.Valid) →
      ∃ r, replayDerivative batch s = .ok r ∧ r.quality.replayValid = false ∧ r.snapshot = .none

theorem slot_replayValid {anchored : Prop} [Decidable anchored] {c : DerivativeCall}
    (h : c.quality.replayValid = false) :
    (c.slot anchored).replayValid = true ↔ anchored ∧ c.quality.Valid := by
  unfold DerivativeCall.slot DerivativeQuality.withMarket
  split
  · rename_i hv
    split
    · rename_i ha
      exact iff_of_true rfl ⟨ha, hv⟩
    · rename_i ha
      exact iff_of_false (by simp [h]) fun hboth => ha hboth.1
  · rename_i hv
    refine iff_of_false ?_ fun hboth => hv hboth.2
    split
    · simp [h]
    · simp [h]

/-- The slot of a replayed call is its quality, marked valid. -/
theorem slot_of_valid {anchored : Prop} [Decidable anchored] {c : DerivativeCall} (ha : anchored)
    (hv : c.quality.Valid) : c.slot anchored = { c.quality with replayValid := true } := by
  unfold DerivativeCall.slot
  rw [if_pos hv, if_pos ha]

namespace DerivativeMinuteBuffer

variable {fresh b : DerivativeMinuteBuffer} {calls : List DerivativeCall}

/-- A slot of a completed minute is that of a call. -/
theorem Sampled.quality (h : fresh.Sampled calls b) (hlen : calls.length = 60) {s : Nat}
    {q : DerivativeQuality} (hq : b.batch.quality.toList[s]? = some q) :
    ∃ c, calls[s]? = some c ∧ q = c.slot (AnchoredCalls calls) := by
  have hs := (List.getElem?_eq_some_iff.1 hq).1
  rw [Vector.length_toList] at hs
  have hlt : s < calls.length := by omega
  have hc : calls[s]? = some calls[s] := List.getElem?_eq_getElem hlt
  refine ⟨_, hc, ?_⟩
  rw [h.slots s _ hc] at hq
  exact (Option.some.inj hq).symm

/-- The qualities pass when the calls keep the rules. -/
theorem Sampled.qualities_iff (h : fresh.Sampled calls b) (hlen : calls.length = 60) (depth : Nat)
    (hanchored : b.batch.minute.isSome = true ↔ AnchoredCalls calls) :
    (∀ s q, b.batch.quality.toList[s]? = some q → ValidQuality b.batch depth s q) ↔
      ∀ c ∈ calls, QualityRules (AnchoredCalls calls) depth c.quality := by
  constructor
  · intro hall c hc
    obtain ⟨s, hs⟩ := List.getElem?_of_mem hc
    exact (validQuality_slot (h.accepted s c hs) h.minuteTime hanchored).1
      (hall s _ (h.slots s c hs))
  · intro hall s q hq
    obtain ⟨c, hc, rfl⟩ := h.quality hlen hq
    exact (validQuality_slot (h.accepted s c hc) h.minuteTime hanchored).2
      (hall c (List.mem_of_getElem? hc))

/-- The recording of an anchored minute is sound. -/
theorem Sampled.soundMinute (h : fresh.Sampled calls b) (hfresh : fresh.Fresh)
    (hlen : calls.length = 60) {m : DerivativeMinute} (hanchored : AnchoredCalls calls)
    (hrec : b.Recording m (validSnapshots calls)) : SoundMinute b.batch m := by
  refine hrec.soundMinute (by rw [h.depth]; exact hfresh.ofDepth) ?_ ?_ ?_
  · obtain ⟨c, hc, hv⟩ := hanchored
    rw [List.head?_eq_getElem?] at hc
    exact ⟨c.snapshot, mem_validSnapshots.2 ⟨c, hc, hv, rfl⟩⟩
  · intro s
    constructor
    · rintro ⟨x, hx⟩
      obtain ⟨c, hc, hv, -⟩ := mem_validSnapshots.1 hx
      refine ⟨_, h.slots s c hc, ?_⟩
      rw [slot_of_valid hanchored hv]
    · rintro ⟨q, hq, hv⟩
      obtain ⟨c, hc, rfl⟩ := h.quality hlen hq
      have hvalid := ((slot_replayValid (h.accepted s c hc).notReplayValid).1 hv).2
      exact ⟨_, mem_validSnapshots.2 ⟨c, hc, hvalid, rfl⟩⟩
  · intro s x hx
    obtain ⟨c, hc, hv, rfl⟩ := mem_validSnapshots.1 hx
    have hacc := h.accepted s c hc
    rw [List.getD_eq_getElem?_getD, h.slots s c hc, Option.getD_some, slot_of_valid hanchored hv]
    refine ⟨?_, hacc.bidLevels hv.1, hacc.askLevels hv.1⟩
    rw [hrec.signed, h.signed, h.depth]
    exact hacc.sides hv.1

end DerivativeMinuteBuffer

/-- A minute of accepted samples against what is stored of it. -/
theorem derivative_minute_round_trip {id : UInt32} {minute : Time} {signed : Bool} {depth : Nat}
    {fresh b : DerivativeMinuteBuffer} {calls : List DerivativeCall} {batch : DerivativeMinuteBatch}
    (hnew : DerivativeMinuteBuffer.new id minute signed depth = .ok fresh)
    (hcalls : fresh.sampleAll calls = .ok b) (hcomplete : b.complete = .ok batch) :
    DerivativeRoundTrips depth calls batch := by
  obtain ⟨hfresh, hdepth⟩ := DerivativeMinuteBuffer.new_fresh hnew
  have h := DerivativeMinuteBuffer.sampled_sampleAll hfresh hcalls
  simp only [DerivativeMinuteBuffer.complete, Check.seq_eq_ok, Check.failIf_eq_ok, not_not] at hcomplete
  obtain ⟨hnext, hbatch⟩ := hcomplete
  obtain rfl := Except.ok.inj hbatch
  have hlen : calls.length = 60 := h.next.symm.trans hnext
  have htime : ¬ b.batch.minuteTime.IsZero ∧
      b.batch.minuteTime.Equal (b.batch.minuteTime.truncate Time.minute) := by
    rw [h.minuteTime]
    exact hfresh.exact
  obtain ⟨mid, hmid⟩ := hfresh.id
  rw [← h.instrumentID, ← h.minuteTime] at hmid
  have hslot : ∀ (s : UInt8) c, calls[s.toNat]? = some c → s.toNat ≤ 59 := by
    intro s c hc
    have := (List.getElem?_eq_some_iff.1 hc).1
    omega
  refine ⟨?_, ?_, ?_⟩
  · unfold ruleDepth
    rcases h.state with ⟨hmin, hdeltas, hno⟩ | ⟨hanchored, m, hrec⟩
    · rw [if_neg hno, validateDerivativeBatch_of_none hmin hmid htime hdeltas]
      exact h.qualities_iff hlen bookDepth (iff_of_false (by simp [hmin]) hno)
    · have hsound := h.soundMinute hfresh hlen hanchored hrec
      rw [if_pos hanchored, validateDerivativeBatch_of_sound hrec.minute hrec.id htime hsound,
        hrec.depth, h.depth, hdepth]
      exact h.qualities_iff hlen depth (iff_of_true (by simp [hrec.minute]) hanchored)
  · intro hvalid hanchored s c hc hv
    rcases h.state with ⟨-, -, hno⟩ | ⟨-, m, hrec⟩
    · exact absurd hanchored hno
    · have hsound := h.soundMinute hfresh hlen hanchored hrec
      have hacc := h.accepted s.toNat c hc
      have hq := h.slots s.toNat c hc
      rw [slot_of_valid hanchored hv] at hq
      obtain ⟨r, hr, hquality, hsnap⟩ :=
        replayDerivative_of_valid (hslot s c hc) hvalid hrec.minute hsound hq rfl
      -- the log shows the sampled levels at the second
      have hshow := hrec.recorded.replays _ (mem_validSnapshots.2 ⟨c, hc, hv, rfl⟩)
      obtain ⟨hb, ha, -, -⟩ := (hacc.sides hv.1).shown hshow
      refine ⟨r, hr, by rw [hquality], ?_⟩
      rw [hsnap]
      exact ⟨h.instrumentID.trans (hacc.instrumentID hv.1).symm, (hacc.sourceTime hv.1).2.symm,
        (hacc.receivedAt hv.1).2.symm, (hacc.epoch hv.1).2.symm, (hacc.changeID hv.1).symm, hb, ha⟩
  · intro hvalid s c hc hno
    have hq := h.slots s.toNat c hc
    have hinvalid : (c.slot (AnchoredCalls calls)).replayValid = false := by
      rw [← Bool.not_eq_true, slot_replayValid (h.accepted s.toNat c hc).notReplayValid]
      exact hno
    obtain ⟨r, hr, hquality, hnone⟩ :=
      replayDerivative_of_invalid (hslot s c hc) hvalid hq hinvalid
    exact ⟨r, hr, by rw [hquality]; exact hinvalid, hnone⟩

/-! ## Runs -/

/-- 2023-11-14 22:14:00 UTC. -/
def derivativeMinute : Time := ⟨1700000040 * Time.second, 0⟩

def freshDerivative : DerivativeMinuteBuffer :=
  { batch := { instrumentID := 1, minuteTime := derivativeMinute, signed := true, minute := none,
               deltas := [], quality := Vector.replicate 60 {} },
    next := 0, last := .none, depth := 5 }

/-- Nothing was sampled at the second, for the given reason. -/
def silentCall (reason : DerivativeReason) (second : Nat) : DerivativeCall :=
  ⟨derivativeMinute.add (second * Time.second), .none, { reason }⟩

/-- A valid second of a signed book, with one bid at a price. -/
def validCall (price : Int64) (second : Nat) : DerivativeCall :=
  let sampleAt := derivativeMinute.add (second * Time.second)
  ⟨sampleAt,
    { instrumentID := 1, sourceTime := sampleAt, receivedAt := sampleAt, epoch := 7, changeID := 9,
      bids := [⟨price, 5⟩], asks := [] },
    { sampled := true, streamValid := true, marketKnown := true, marketOpen := true,
      sourceTime := sampleAt, receivedAt := sampleAt, capturedAt := sampleAt, epoch := 7,
      changeID := 9, lastSnapshotAt := sampleAt, marketStateAt := sampleAt, marketStateBasis := 1,
      bidLevels := 1 }⟩

/-- The buffer after calls it accepts. -/
def derivativeAfter (calls : List DerivativeCall) : DerivativeMinuteBuffer :=
  match freshDerivative.sampleAll calls with
  | .ok b => b
  | .error _ => freshDerivative

/-- Seconds 0, 1 and 3 are valid, and the book changes at second 3. -/
def someDerivativeCalls : List DerivativeCall :=
  [validCall 0 0, validCall 0 1, silentCall DerivativeReason.notReady 2, validCall (-4) 3] ++
    (List.range' 4 56).map (silentCall DerivativeReason.disconnected)

/-- Accepted calls of a whole minute complete the buffer. -/
theorem derivativeAfter_eq (calls : List DerivativeCall)
    (hok : (freshDerivative.sampleAll calls).isOk = true) (hnext : (derivativeAfter calls).next = 60) :
    freshDerivative.sampleAll calls = .ok (derivativeAfter calls) ∧
      (derivativeAfter calls).complete = .ok (derivativeAfter calls).batch := by
  constructor
  · unfold derivativeAfter
    cases h : freshDerivative.sampleAll calls with
    | ok b => rfl
    | error e =>
        rw [h] at hok
        cases hok
  · simp only [DerivativeMinuteBuffer.complete, Check.seq_eq_ok, Check.failIf_eq_ok]
    exact ⟨not_not.2 hnext, rfl⟩

theorem derivative_minute_round_trip_someDerivativeCalls :
    DerivativeRoundTrips 5 someDerivativeCalls (derivativeAfter someDerivativeCalls).batch := by
  have hnew : DerivativeMinuteBuffer.new 1 derivativeMinute true 5 = .ok freshDerivative := rfl
  obtain ⟨hcalls, hcomplete⟩ := derivativeAfter_eq someDerivativeCalls
    (by decide +kernel) (by decide +kernel)
  exact derivative_minute_round_trip hnew hcalls hcomplete

/-- Sixty seconds that were not sampled and give no reason. -/
def silentCalls : List DerivativeCall := (List.range' 0 60).map (silentCall DerivativeReason.ok)

/-- Second one is valid, second zero is not. -/
def lateCalls : List DerivativeCall :=
  [silentCall DerivativeReason.notReady 0, validCall 0 1] ++
    (List.range' 2 58).map (silentCall DerivativeReason.disconnected)

/-- What replay shows, if it succeeds. -/
def replayedSnapshot (batch : DerivativeMinuteBatch) (second : UInt8) : Option DerivativeSnapshot :=
  match replayDerivative batch second with
  | .ok r => some r.snapshot
  | .error _ => none

/-- The buffer completes a batch the validator rejects; and in an accepted batch
without an anchor a valid second is not replayed. -/
theorem derivative_minute_not_always_replayed :
    DerivativeMinuteBuffer.new 1 derivativeMinute true 5 = .ok freshDerivative ∧
    (freshDerivative.sampleAll silentCalls = .ok (derivativeAfter silentCalls) ∧
      (derivativeAfter silentCalls).complete = .ok (derivativeAfter silentCalls).batch ∧
      validateDerivativeBatch (derivativeAfter silentCalls).batch ≠ .ok ()) ∧
    (freshDerivative.sampleAll lateCalls = .ok (derivativeAfter lateCalls) ∧
      (derivativeAfter lateCalls).complete = .ok (derivativeAfter lateCalls).batch ∧
      validateDerivativeBatch (derivativeAfter lateCalls).batch = .ok () ∧
      lateCalls[1]? = some (validCall 0 1) ∧ (validCall 0 1).quality.Valid ∧
      replayedSnapshot (derivativeAfter lateCalls).batch 1 = some .none) := by
  obtain ⟨hsilent, hsilentDone⟩ := derivativeAfter_eq silentCalls (by decide +kernel)
    (by decide +kernel)
  obtain ⟨hlate, hlateDone⟩ := derivativeAfter_eq lateCalls (by decide +kernel)
    (by decide +kernel)
  refine ⟨rfl, ⟨hsilent, hsilentDone, by decide +kernel⟩, hlate, hlateDone, by decide +kernel, rfl,
    by decide, by decide +kernel⟩

end MarketInfo
