import MarketInfo.Replay.AtSecond
import MarketInfo.Sampler.Buffer

/-! # What a minute buffer holds

An anchored buffer whose deltas were appended in the order of their seconds is a
valid batch at any time (`Anchored.validBatch`); each sample keeps it so.
-/

namespace MarketInfo

open Listing PriceMap

/-! ## Sides that show a snapshot -/

/-- The sides are those of the snapshot. -/
@[reducible] def ShowsBook (sides : PriceMap × PriceMap) (x : BookSnapshot) : Prop :=
  Shows sides x.bids x.asks

theorem ValidSide.lookup_ne_zero {bids : Bool} {levels : List Level} (h : ValidSide bids levels)
    (p : Int64) : (ofLevels levels).lookup p ≠ some 0 :=
  lookup_ofLevels_ne_zero h.sorted (fun l hl => (h.positive l hl).2) p

/-- The difference to the last snapshot takes the sides to the next one. -/
theorem shows_diff {sides : PriceMap × PriceMap} {last next : BookSnapshot} {depth : Nat}
    (h : ShowsBook sides last) (hnext : ValidSnapshot next depth) (minuteID : UInt64)
    (second : UInt8) : ShowsBook (applyDelta sides (diff minuteID second last next)) next :=
  h.step hnext.bids.lookup_ne_zero hnext.asks.lookup_ne_zero

theorem shows_len_le {sides : PriceMap × PriceMap} {x : BookSnapshot} {depth : Nat}
    (h : ShowsBook sides x) (hx : ValidSnapshot x depth) :
    sides.1.len ≤ depth ∧ sides.2.len ≤ depth := by
  obtain ⟨hb, ha⟩ := h.listing hx.bids.sorted hx.asks.sorted
  rw [← length_listing true sides.1, ← length_listing false sides.2, hb, ha]
  exact ⟨hx.bids_le, hx.asks_le⟩

/-! ## The invariant -/

theorem sampleSecond_le (t : Time) : sampleSecond t ≤ 59 := by
  unfold sampleSecond Time.secondOf
  omega

theorem fitsDepth_concat {depth : Nat} {sides : PriceMap × PriceMap} {deltas : List BookDelta}
    {d : BookDelta}
    (h : FitsDepth depth sides.1.keys.toFinset sides.2.keys.toFinset deltas)
    (hd : ((deltas ++ [d]).foldl applyDelta sides).1.len ≤ depth ∧
      ((deltas ++ [d]).foldl applyDelta sides).2.len ≤ depth) :
    FitsDepth depth sides.1.keys.toFinset sides.2.keys.toFinset (deltas ++ [d]) := by
  rw [fitsDepth_sides] at h ⊢
  intro front e back he
  rcases List.eq_nil_or_concat back with rfl | ⟨mid, last, rfl⟩
  · rw [← he]
    exact hd
  · -- the delta lies in the old part of the log
    rw [List.concat_eq_append, ← List.cons_append, ← List.append_assoc] at he
    obtain ⟨hold, -⟩ := List.append_inj' he rfl
    exact h front e mid hold

namespace MinuteBuffer

/-- An anchored buffer. -/
structure Anchored (b : MinuteBuffer) : Prop where
  depth : b.depth = 5 ∨ b.depth = 10
  minuteID : MarketInfo.minuteID b.instrumentID b.minuteTime = .ok b.minuteID
  instrument : b.initial.instrumentID = b.instrumentID
  initial : ValidSnapshot b.initial b.depth
  lastValid : ValidSnapshot b.lastValid b.depth
  sampled : HasSecond b.sampled 0
  zero : HasSecond b.valid 0
  range : ∀ s, HasSecond b.valid s → s ≤ 59
  shows : ShowsBook (b.deltas.foldl applyDelta (anchorSides b.initial.bids b.initial.asks))
    b.lastValid
  deltas : ∀ d ∈ b.deltas, ValidDelta b.minute d
  increasing : b.deltas.Pairwise fun a c => a.secondOffset.toNat < c.secondOffset.toNat
  fits : FitsDepth b.depth (anchorSides b.initial.bids b.initial.asks).1.keys.toFinset
    (anchorSides b.initial.bids b.initial.asks).2.keys.toFinset b.deltas

/-- A buffer that has not been anchored holds no deltas. -/
structure Idle (b : MinuteBuffer) : Prop where
  depth : b.depth = 5 ∨ b.depth = 10
  minuteID : MarketInfo.minuteID b.instrumentID b.minuteTime = .ok b.minuteID
  anchored : b.anchored = false
  valid : b.valid = 0#64
  deltas : b.deltas = []

theorem new_idle {instrumentID : UInt32} {minuteTime : Time} {depth : Nat} {b : MinuteBuffer}
    (h : MinuteBuffer.new instrumentID minuteTime depth = .ok b) :
    b.Idle ∧ b.instrumentID = instrumentID ∧ b.minuteTime = minuteTime.utc ∧ b.depth = depth ∧
      b.sampled = 0#64 ∧ minuteTime.utc.Equal (minuteTime.utc.truncate Time.minute) := by
  simp only [MinuteBuffer.new, Check.seq_eq_ok, Check.failIf_eq_ok] at h
  obtain ⟨hdepth, htime, h⟩ := h
  obtain ⟨id, hid, h⟩ := Check.andThen_eq_ok.1 h
  obtain rfl := Except.ok.inj h
  have hallowed : depth = 5 ∨ depth = 10 := by omega
  exact ⟨⟨hallowed, hid, rfl, rfl, rfl⟩, rfl, rfl, rfl, rfl, not_not.1 htime⟩

/-- The batch of an anchored buffer is valid. -/
theorem Anchored.validBatch {b : MinuteBuffer} (h : b.Anchored) :
    ValidBatch { minute := b.minute, deltas := b.deltas } b.initial.bids b.initial.asks := by
  have hdepth : (UInt8.ofNat b.depth).toNat = b.depth := by
    rcases h.depth with hd | hd <;> rw [hd] <;> rfl
  have hle : b.depth ≤ legacyBookDepth := by
    rcases h.depth with hd | hd <;> rw [hd] <;> decide
  have hb : Padded (pack b.initial.bids) b.initial.bids :=
    padded_pack (h.initial.bids_le.trans hle) h.initial.bids.positive
  have ha : Padded (pack b.initial.asks) b.initial.asks :=
    padded_pack (h.initial.asks_le.trans hle) h.initial.asks.positive
  have hfits := h.fits
  unfold anchorSides at hfits
  rw [keys_ofLevels, keys_ofLevels] at hfits
  obtain ⟨hid, hmin, -, -⟩ := minuteID_eq_ok.1 h.minuteID
  refine ⟨?_, h.minuteID, h.zero, ?_, hb, ha, ?_, h.deltas, h.increasing, by rw [minute, hdepth]; exact hfits⟩
  · refine validateDepth_of_padded ?_ hb ha ?_ ?_
    · unfold KnownDepth minute
      rw [hdepth]
      exact h.depth.imp id Or.inl
    · rw [minute, hdepth]
      exact h.initial.bids_le
    · rw [minute, hdepth]
      exact h.initial.asks_le
  · intro s hs hbit
    have := h.range s hbit
    omega
  · rw [minute, hdepth]
    refine ⟨hid, ?_, h.initial.bids_le, h.initial.asks_le, h.initial.bids_ne, h.initial.asks_ne,
      h.initial.bids, h.initial.asks, h.initial.uncrossed⟩
    -- a minute with an id is not before 1970
    intro hzero
    have hunix : b.minuteTime.unix = Time.zero.unix := by unfold Time.unix; rw [hzero]
    rw [hunix] at hmin
    exact absurd hmin (by decide)

/-- A delta stays valid as further seconds do. -/
theorem validDelta_mono {m m' : MinuteBook} {d : BookDelta} (h : ValidDelta m d)
    (hid : m'.id = m.id) (hvalid : ∀ s, HasSecond m.validBitmap s → HasSecond m'.validBitmap s) :
    ValidDelta m' d :=
  ⟨h.minuteID.trans hid.symm, h.pos, h.le, h.bids_length, h.asks_length, hvalid _ h.valid,
    h.bids_pos, h.asks_pos, h.bids_nodup, h.asks_nodup⟩

/-- Changes between valid sides are at positive prices. -/
theorem changes_pos {previous current : List Level} {bids : Bool} (hp : ValidSide bids previous)
    (hc : ValidSide bids current) : ∀ p ∈ (changes previous current bids).1, 0 < p := by
  intro p hmem
  rcases mem_changes_or hmem with h | h
  · obtain ⟨q, hq⟩ := exists_lookup h
    exact (hp.positive _ ((lookup_ofLevels (nodup_prices hp.sorted)).1 hq)).1
  · obtain ⟨q, hq⟩ := exists_lookup h
    exact (hc.positive _ ((lookup_ofLevels (nodup_prices hc.sorted)).1 hq)).1

variable {b : MinuteBuffer} {sampleTime : Time} {snapshot : BookSnapshot} {valid : Bool}

/-- Second zero anchors an idle buffer. -/
theorem Idle.anchor (h : b.Idle) (hmin : (sampleMinute sampleTime).Equal b.minuteTime)
    (hnew : ¬ HasSecond b.sampled (sampleSecond sampleTime)) (hacc : b.Accepts snapshot valid)
    (hzero : sampleSecond sampleTime = 0) : (b.sample sampleTime snapshot valid).1.Anchored := by
  rw [sample_zero hmin hnew hacc hzero]
  have hsnap := validate_eq_ok.1 hacc.2.2
  refine ⟨h.depth, h.minuteID, hacc.2.1, hsnap, hsnap, ?_, ?_, ?_, ?_, ?_, ?_, ?_⟩
  · exact (hasSecond_set (by omega)).2 (Or.inr hzero.symm)
  · exact (hasSecond_set (by omega)).2 (Or.inr hzero.symm)
  · intro s hs
    rw [h.valid, hasSecond_set (by omega)] at hs
    rcases hs with hs | rfl
    · exact absurd hs hasSecond_zero
    · exact sampleSecond_le sampleTime
  · rw [h.deltas]
    exact shows_ofLevels _ _
  · rw [h.deltas]
    simp
  · rw [h.deltas]
    exact .nil
  · rw [h.deltas]
    intro front d back he
    simp at he

/-- A later sample extends an anchored buffer, if a delta it appends comes after
those before it. -/
theorem Anchored.extend (h : b.Anchored) (hanch : b.anchored = true)
    (hmin : (sampleMinute sampleTime).Equal b.minuteTime)
    (hnew : ¬ HasSecond b.sampled (sampleSecond sampleTime)) (hacc : b.Accepts snapshot valid)
    (hord : ((changes b.lastValid.bids snapshot.bids true).1 = [] ∧
        (changes b.lastValid.asks snapshot.asks false).1 = []) ∨
      ∀ d ∈ b.deltas, d.secondOffset.toNat < sampleSecond sampleTime) :
    (b.sample sampleTime snapshot valid).1.Anchored := by
  have hpos : sampleSecond sampleTime ≠ 0 := fun he => hnew (he ▸ h.sampled)
  have hlt := sampleSecond_le sampleTime
  have hsnap := validate_eq_ok.1 hacc.2.2
  have hset : ∀ (m : BitVec 64) s, HasSecond (m ||| (1#64 <<< sampleSecond sampleTime)) s ↔
      HasSecond m s ∨ s = sampleSecond sampleTime := fun m s => hasSecond_set (by omega)
  have hrange : ∀ s, HasSecond (b.valid ||| (1#64 <<< sampleSecond sampleTime)) s → s ≤ 59 := by
    intro s hs
    rcases (hset _ _).1 hs with hs | rfl
    · exact h.range s hs
    · exact hlt
  have hmono : ∀ s, HasSecond b.valid s →
      HasSecond (b.valid ||| (1#64 <<< sampleSecond sampleTime)) s :=
    fun s hs => (hset _ _).2 (Or.inl hs)
  rw [sample_later hmin hnew hacc hpos hanch]
  by_cases hsame : (changes b.lastValid.bids snapshot.bids true).1 = [] ∧
      (changes b.lastValid.asks snapshot.asks false).1 = []
  · simp only [if_pos hsame]
    exact ⟨h.depth, h.minuteID, h.instrument, h.initial, hsnap, (hset _ _).2 (Or.inl h.sampled),
      hmono 0 h.zero, hrange, h.shows.same hsame.1 hsame.2,
      fun d hd => validDelta_mono (h.deltas d hd) rfl hmono, h.increasing, h.fits⟩
  · have hord := hord.resolve_left hsame
    have hsecond : (UInt8.ofNat (sampleSecond sampleTime)).toNat = sampleSecond sampleTime := by
      rw [UInt8.toNat_ofNat']
      omega
    have hshows := shows_diff h.shows hsnap b.minuteID (UInt8.ofNat (sampleSecond sampleTime))
    simp only [if_neg hsame]
    refine ⟨h.depth, h.minuteID, h.instrument, h.initial, hsnap, (hset _ _).2 (Or.inl h.sampled),
      hmono 0 h.zero, hrange, ?_, ?_, ?_, ?_⟩
    · rw [List.foldl_append]
      exact hshows
    · intro d hd
      rcases List.mem_append.1 hd with hd | hd
      · exact validDelta_mono (h.deltas d hd) rfl hmono
      · rw [List.mem_singleton.1 hd]
        exact
          { minuteID := rfl
            pos := by rw [diff, hsecond]; omega
            le := by rw [diff, hsecond]; exact hlt
            bids_length := (length_changes _ _ _).symm
            asks_length := (length_changes _ _ _).symm
            valid := by rw [diff, hsecond]; exact (hset _ _).2 (Or.inr rfl)
            bids_pos := changes_pos h.lastValid.bids hsnap.bids
            asks_pos := changes_pos h.lastValid.asks hsnap.asks
            bids_nodup := (changes_sorted _ _ _).nodup
            asks_nodup := (changes_sorted _ _ _).nodup }
    · refine DeltaLog.pairwise_concat h.increasing ?_
      intro d hd
      rw [diff, hsecond]
      exact hord d hd
    · refine fitsDepth_concat h.fits ?_
      rw [List.foldl_append]
      exact shows_len_le hshows hsnap

/-- A sample that records nothing leaves the batch alone. -/
theorem Anchored.mark (h : b.Anchored) (second : Nat) (hs : second ≤ 59) :
    ({ b with sampled := b.sampled ||| (1#64 <<< second) } : MinuteBuffer).Anchored :=
  { h with sampled := (hasSecond_set (by omega)).2 (Or.inl h.sampled) }

theorem Idle.mark (h : b.Idle) (second : Nat) :
    ({ b with sampled := b.sampled ||| (1#64 <<< second) } : MinuteBuffer).Idle :=
  { h with }

end MinuteBuffer

end MarketInfo
