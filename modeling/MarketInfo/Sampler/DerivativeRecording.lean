import MarketInfo.Sampler.DerivativeBuffer

/-! # What a derivative buffer has recorded

An anchored buffer holds a log of changes that replays to each valid snapshot at
its second. Each valid second extends the log, by a delta when a level changed.
-/

namespace MarketInfo

open Listing PriceMap

/-- The sides are those of the snapshot. -/
@[reducible] def ShowsDerivative (sides : PriceMap × PriceMap) (x : DerivativeSnapshot) : Prop :=
  Shows sides x.bids x.asks

theorem DerivativeSide.lookup_ne_zero {bids signed : Bool} {levels : List Level}
    (h : DerivativeSide bids signed levels) (p : Int64) : (ofLevels levels).lookup p ≠ some 0 :=
  lookup_ofLevels_ne_zero h.sorted h.qty p

/-- Sides that show valid levels list them and count them. -/
theorem DerivativeSides.shown {depth : Nat} {signed : Bool} {bids asks : List Level}
    {sides : PriceMap × PriceMap} (h : DerivativeSides bids asks depth signed)
    (hs : Shows sides bids asks) :
    listing true sides.1 = bids ∧ listing false sides.2 = asks ∧ sides.1.len = bids.length ∧
      sides.2.len = asks.length := by
  obtain ⟨hb, ha⟩ := hs.listing h.bidSide.sorted h.askSide.sorted
  refine ⟨hb, ha, ?_, ?_⟩
  · rw [← length_listing true, hb]
  · rw [← length_listing false, ha]

/-- The changes between valid levels fit the bound on a delta. -/
theorem length_changes_le_depth {bids signed : Bool} {previous current : List Level} {depth : Nat}
    (hp : DerivativeSide bids signed previous) (hc : DerivativeSide bids signed current)
    (hpl : previous.length ≤ depth) (hcl : current.length ≤ depth) :
    (changes previous current bids).1.length ≤ 2 * depth := by
  have hle : (changes previous current bids).1.length ≤
      (ofLevels previous).len + (ofLevels current).len := length_changes_le
  rw [len_ofLevels hp.sorted, len_ofLevels hc.sorted] at hle
  omega

namespace DerivativeMinuteBuffer

/-- The changes from the last snapshot make a sound delta. -/
theorem soundDelta_changesTo {b : DerivativeMinuteBuffer} {m : DerivativeMinute}
    {s : DerivativeSnapshot} {sides : PriceMap × PriceMap} (hdepth : m.storedDepth.toNat = b.depth)
    (hle : b.depth ≤ bookDepth) (hlast : DerivativeSides b.last.bids b.last.asks b.depth m.signed)
    (hs : DerivativeSides s.bids s.asks b.depth m.signed)
    (hne : 0 < (b.changesTo m.id s).bidChangePrice.length + (b.changesTo m.id s).askChangePrice.length)
    (hshow : ShowsDerivative sides b.last) : SoundDelta m sides (b.changesTo m.id s) := by
  have hbl : (changes b.last.bids s.bids true).1.length ≤ 2 * b.depth :=
    length_changes_le_depth hlast.bidSide hs.bidSide hlast.bids_le hs.bids_le
  have hal : (changes b.last.asks s.asks false).1.length ≤ 2 * b.depth :=
    length_changes_le_depth hlast.askSide hs.askSide hlast.asks_le hs.asks_le
  refine ⟨rfl, ?_, ?_, hne.ne', ?_, ?_⟩
  · rw [hdepth]
    exact hbl
  · rw [hdepth]
    exact hal
  · exact applyDerivativeDelta_changes hshow.1 hlast.bidSide hs.bidSide (by omega)
  · exact applyDerivativeDelta_changes hshow.2 hlast.askSide hs.askSide (by omega)

theorem changesTo_second {b : DerivativeMinuteBuffer} {id : UInt64} {s : DerivativeSnapshot}
    (hn : b.next < 60) : (b.changesTo id s).secondOffset.toNat = b.next := by
  unfold changesTo
  rw [UInt8.toNat_ofNat']
  omega

/-- An anchored buffer that has recorded the given snapshots. -/
structure Recording (b : DerivativeMinuteBuffer) (m : DerivativeMinute)
    (books : List (Nat × DerivativeSnapshot)) : Prop where
  minute : b.batch.minute = some m
  id : minuteID b.batch.instrumentID b.batch.minuteTime = .ok m.id
  instrumentID : m.instrumentID = b.batch.instrumentID
  minuteTime : m.minuteTime = b.batch.minuteTime
  signed : m.signed = b.batch.signed
  depth : m.storedDepth.toNat = b.depth
  version : m.encodingVersion = derivativeEncodingVersion
  anchorShown : DerivativeSides m.bids m.asks b.depth m.signed
  recorded : DeltaLog.Recorded ShowsDerivative applyDelta (anchorSides m.bids m.asks)
    (deltaLog b.batch.deltas) books
  last : ∃ s, books.getLast? = some (s, b.last)
  lastSides : DerivativeSides b.last.bids b.last.asks b.depth m.signed
  past : ∀ e ∈ books, e.1 < b.next
  bits : ∀ s, HasSecond m.validBitmap s ↔ ∃ x, (s, x) ∈ books
  deltaBits : ∀ s, HasSecond m.deltaBitmap s ↔ ∃ d, (s, d) ∈ deltaLog b.batch.deltas
  range : ∀ e ∈ deltaLog b.batch.deltas, 0 < e.1 ∧ e.1 ≤ 59
  each : DeltaLog.Each (SoundDelta m) applyDelta (anchorSides m.bids m.asks)
    (deltaLog b.batch.deltas)

/-- A slot that is not of a valid second leaves the recording as it is. -/
theorem Recording.push {b : DerivativeMinuteBuffer} {m : DerivativeMinute}
    {books : List (Nat × DerivativeSnapshot)} (h : b.Recording m books) (q : DerivativeQuality) :
    (b.push q).Recording m books :=
  ⟨h.minute, h.id, h.instrumentID, h.minuteTime, h.signed, h.depth, h.version, h.anchorShown,
    h.recorded, h.last, h.lastSides, fun e he => (h.past e he).trans (Nat.lt_succ_self _), h.bits,
    h.deltaBits, h.range, h.each⟩

/-- Second zero starts the recording. -/
theorem recording_start {b : DerivativeMinuteBuffer} {s : DerivativeSnapshot} {id : UInt64}
    (hid : minuteID b.batch.instrumentID b.batch.minuteTime = .ok id)
    (hdepth : b.depth = 5 ∨ b.depth = 10) (hnext : b.next = 0) (hdeltas : b.batch.deltas = [])
    (hs : DerivativeSides s.bids s.asks b.depth b.batch.signed) (q : DerivativeQuality) :
    ∃ m, ((b.recordValid (b.anchorMinute s) s).push q).Recording m [(0, s)] := by
  have hstored : (UInt8.ofNat b.depth).toNat = b.depth := by
    rcases hdepth with hd | hd <;> rw [hd] <;> rfl
  have hrecord : b.recordValid (b.anchorMinute s) s =
      { b with
        batch := { b.batch with
          minute := some { b.anchorMinute s with validBitmap := 0#64 ||| (1#64 <<< b.next) } }
        last := s } := by
    unfold recordValid
    rw [if_neg (by omega)]
    rfl
  have hanchor : (b.anchorMinute s).id = id := by
    unfold anchorMinute
    rw [hid]
  rw [hrecord]
  refine ⟨_, rfl, by rw [← hanchor] at hid; exact hid, rfl, rfl, rfl, hstored, rfl, hs, ?_,
    ⟨0, rfl⟩, hs, ?_, ?_, ?_, ?_, ?_⟩
  · change DeltaLog.Recorded _ _ _ (deltaLog b.batch.deltas) _
    rw [hdeltas]
    exact .start (shows_ofLevels _ _)
  · intro e he
    rw [List.mem_singleton.1 he]
    exact Nat.succ_pos _
  · intro t
    dsimp only
    rw [hnext, hasSecond_set (by omega), or_iff_right hasSecond_zero]
    simp
  · intro t
    refine iff_of_false hasSecond_zero ?_
    change ¬ ∃ d, (t, d) ∈ deltaLog b.batch.deltas
    rw [hdeltas]
    simp [deltaLog]
  · intro e he
    change e ∈ deltaLog b.batch.deltas at he
    rw [hdeltas] at he
    cases he
  · change DeltaLog.Each _ _ _ (deltaLog b.batch.deltas)
    rw [hdeltas]
    exact .nil

/-- The bitmaps of a minute do not matter to its deltas. -/
theorem soundDelta_congr {m m' : DerivativeMinute} {sides : PriceMap × PriceMap} {d : BookDelta}
    (h : SoundDelta m sides d) (hid : m'.id = m.id) (hdepth : m'.storedDepth = m.storedDepth)
    (hsigned : m'.signed = m.signed) : SoundDelta m' sides d := by
  refine ⟨h.minuteID.trans hid.symm, ?_, ?_, h.nonempty, ?_⟩
  · rw [hdepth]
    exact h.bids_le
  · rw [hdepth]
    exact h.asks_le
  · rw [hsigned]
    exact h.clean

/-- A later valid second extends the recording. -/
theorem Recording.extend {b : DerivativeMinuteBuffer} {m : DerivativeMinute}
    {books : List (Nat × DerivativeSnapshot)} (h : b.Recording m books) {s : DerivativeSnapshot}
    (hle : b.depth ≤ bookDepth) (hpos : b.next ≠ 0) (hn : b.next < 60)
    (hs : DerivativeSides s.bids s.asks b.depth b.batch.signed) (q : DerivativeQuality) :
    ∃ m', ((b.recordValid m s).push q).Recording m' (books ++ [(b.next, s)]) := by
  rw [← h.signed] at hs
  obtain ⟨t, hlast⟩ := h.last
  have ht : t < b.next := h.past _ (List.mem_of_getLast? hlast)
  have hpast : ∀ e ∈ books ++ [(b.next, s)], e.1 < b.next + 1 := by
    intro e he
    rcases List.mem_append.1 he with he | he
    · exact (h.past e he).trans (Nat.lt_succ_self _)
    · rw [List.mem_singleton.1 he]
      exact Nat.lt_succ_self _
  have hbits : ∀ t, HasSecond (m.validBitmap ||| (1#64 <<< b.next)) t ↔
      ∃ x, (t, x) ∈ books ++ [(b.next, s)] := by
    intro t
    rw [hasSecond_set (by omega), h.bits]
    simp only [List.mem_append, List.mem_singleton, Prod.mk.injEq, exists_or, exists_and_left,
      exists_eq, and_true]
  by_cases hchange : 0 < (b.changesTo m.id s).bidChangePrice.length +
      (b.changesTo m.id s).askChangePrice.length
  · -- a changed level is written as a delta
    have hrecord : b.recordValid m s =
        { b with
          batch := { b.batch with
            minute := some { m with
              validBitmap := m.validBitmap ||| (1#64 <<< b.next)
              deltaBitmap := m.deltaBitmap ||| (1#64 <<< b.next) }
            deltas := b.batch.deltas ++ [b.changesTo m.id s] }
          last := s } := by
      unfold recordValid
      rw [if_pos ⟨Nat.pos_of_ne_zero hpos, hchange⟩]
    have hlog : deltaLog (b.batch.deltas ++ [b.changesTo m.id s]) =
        deltaLog b.batch.deltas ++ [(b.next, b.changesTo m.id s)] := by
      unfold deltaLog
      rw [List.map_append, List.map_singleton, changesTo_second hn]
    rw [hrecord]
    refine ⟨_, rfl, h.id, h.instrumentID, h.minuteTime, h.signed, h.depth, h.version,
      h.anchorShown, ?_, ⟨b.next, by simp [DerivativeMinuteBuffer.push]⟩, hs, hpast, hbits, ?_, ?_, ?_⟩
    · change DeltaLog.Recorded _ _ _ (deltaLog (b.batch.deltas ++ [b.changesTo m.id s])) _
      rw [hlog]
      exact h.recorded.write hlast ht fun sides hshow =>
        hshow.step hs.bidSide.lookup_ne_zero hs.askSide.lookup_ne_zero
    · intro t
      change HasSecond (m.deltaBitmap ||| (1#64 <<< b.next)) t ↔
        ∃ d, (t, d) ∈ deltaLog (b.batch.deltas ++ [b.changesTo m.id s])
      rw [hasSecond_set (by omega), h.deltaBits, hlog]
      simp only [List.mem_append, List.mem_singleton, Prod.mk.injEq, exists_or, exists_and_left,
        exists_eq, and_true]
    · intro e he
      change e ∈ deltaLog (b.batch.deltas ++ [b.changesTo m.id s]) at he
      rw [hlog] at he
      rcases List.mem_append.1 he with he | he
      · exact h.range e he
      · rw [List.mem_singleton.1 he]
        exact ⟨Nat.pos_of_ne_zero hpos, Nat.le_of_lt_succ hn⟩
    · change DeltaLog.Each _ _ _ (deltaLog (b.batch.deltas ++ [b.changesTo m.id s]))
      rw [hlog]
      refine DeltaLog.Each.concat ?_ ?_
      · intro front e back hsplit
        exact soundDelta_congr (h.each front e back hsplit) rfl rfl rfl
      · exact soundDelta_congr
          (soundDelta_changesTo h.depth hle h.lastSides hs hchange (h.recorded.last hlast))
          rfl rfl rfl
  · -- the last snapshot shows the same levels
    have hrecord : b.recordValid m s =
        { b with
          batch := { b.batch with
            minute := some { m with validBitmap := m.validBitmap ||| (1#64 <<< b.next) } }
          last := s } := by
      unfold recordValid
      rw [if_neg fun hc => hchange hc.2]
    have hbids : (changes b.last.bids s.bids true).1 = [] :=
      List.length_eq_zero_iff.1 (Nat.eq_zero_of_add_eq_zero (Nat.eq_zero_of_not_pos hchange)).1
    have hasks : (changes b.last.asks s.asks false).1 = [] :=
      List.length_eq_zero_iff.1 (Nat.eq_zero_of_add_eq_zero (Nat.eq_zero_of_not_pos hchange)).2
    rw [hrecord]
    refine ⟨_, rfl, h.id, h.instrumentID, h.minuteTime, h.signed, h.depth, h.version,
      h.anchorShown, ?_, ⟨b.next, by simp [DerivativeMinuteBuffer.push]⟩, hs, hpast, hbits,
      h.deltaBits, h.range, ?_⟩
    · exact h.recorded.skip hlast ht fun sides hshow => hshow.same hbids hasks
    · intro front e back hsplit
      exact soundDelta_congr (h.each front e back hsplit) rfl rfl rfl

/-- A recording is a minute the validator accepts. -/
theorem Recording.soundMinute {b : DerivativeMinuteBuffer} {m : DerivativeMinute}
    {books : List (Nat × DerivativeSnapshot)} (h : b.Recording m books)
    (hdepth : b.depth = 5 ∨ b.depth = 10) (hanchor : ∃ x, (0, x) ∈ books)
    (hquality : ∀ s, (∃ x, (s, x) ∈ books) ↔
      ∃ q, b.batch.quality.toList[s]? = some q ∧ q.replayValid = true)
    (hbooks : ∀ s x, (s, x) ∈ books → DerivativeSides x.bids x.asks b.depth m.signed ∧
      (b.batch.quality.toList.getD s {}).bidLevels.toNat = x.bids.length ∧
      (b.batch.quality.toList.getD s {}).askLevels.toNat = x.asks.length) :
    SoundMinute b.batch m := by
  refine ⟨h.instrumentID, by rw [h.minuteTime], h.signed, by rw [h.depth]; exact hdepth, h.version,
    (h.bits 0).2 hanchor, fun s => (h.bits s).trans (hquality s), ?_,
    ⟨h.recorded.increasing, h.range, h.deltaBits, h.each⟩, by rw [h.depth]; exact h.anchorShown, ?_⟩
  · intro s hs
    obtain ⟨d, hd⟩ := (h.deltaBits s).1 hs
    exact (h.bits s).2 (h.recorded.logged _ hd)
  · intro s hs
    obtain ⟨x, hx⟩ := (h.bits s).1 hs
    obtain ⟨hsides, hbl, hal⟩ := hbooks s x hx
    have hshow : ShowsDerivative (sidesAt m.bids m.asks b.batch.deltas s) x :=
      h.recorded.replays _ hx
    obtain ⟨hb, ha, hbn, han⟩ := hsides.shown hshow
    refine ⟨?_, hbl.trans hbn.symm, hal.trans han.symm⟩
    rw [hb, ha, h.depth]
    exact hsides

end DerivativeMinuteBuffer

end MarketInfo
