import MarketInfo.Model.Minute

/-! # Minute-batch validation

`ValidateMinuteBatch`: the anchor must be a valid snapshot of the stored depth
and the deltas must be those of valid seconds, in order, and never take a side
past the stored depth. `validateMinuteBatch_eq_ok` says what it accepts.
-/

namespace MarketInfo

/-! ## Definitions -/

/-- `applyPriceKeys`, on a set of prices. -/
def applyPriceKeys (side : Finset Int64) (prices : List Int64) (quantities : List UInt64) :
    Finset Int64 :=
  (List.zipWith Level.mk prices quantities).foldl
    (fun side c => if c.qtyLot = 0 then side.erase c.priceTick else insert c.priceTick side) side

/-- The loop of `validateDeltaSide`, with the prices seen so far. -/
def validateDeltaSideFrom (side : String) (seen : List Int64) : List Int64 → Except String Unit
  | [] => .ok ()
  | price :: rest => do
      Check.failIf (price ≤ 0) s!"{side} delta has non-positive price"
      Check.failIf (price ∈ seen) s!"{side} delta repeats price {price}"
      validateDeltaSideFrom side (price :: seen) rest

def validateDeltaSide (prices : List Int64) (side : String) : Except String Unit :=
  validateDeltaSideFrom side [] prices

/-- The loop of `unpadded`, with the index and whether padding has begun. -/
def unpaddedFrom : Nat → Bool → List Level → Except String (List Level)
  | _, _, [] => .ok []
  | index, padding, level :: rest =>
      if level.priceTick = 0 ∧ level.qtyLot = 0 then unpaddedFrom (index + 1) true rest
      else do
        Check.failIf (padding = true) s!"non-zero level {index + 1} follows zero padding"
        Check.failIf (level.priceTick ≤ 0 ∨ level.qtyLot = 0)
          s!"level {index + 1} has invalid price/quantity"
        let out ← unpaddedFrom (index + 1) padding rest
        return level :: out

def unpadded (levels : Vector Level legacyBookDepth) : Except String (List Level) :=
  unpaddedFrom 0 false levels.toList

/-- The checks of one delta before it is applied. -/
def checkDelta (m : MinuteBook) (lastSecond : UInt8) (delta : BookDelta) : Except String Unit := do
  Check.failIf (delta.minuteID ≠ m.id ∨ delta.secondOffset = 0 ∨ 59 < delta.secondOffset)
    "invalid delta identity/second"
  Check.failIf (delta.bidChangePrice.length ≠ delta.bidChangeQty.length ∨
      delta.askChangePrice.length ≠ delta.askChangeQty.length)
    "delta array length mismatch"
  Check.failIf (¬ HasSecond m.validBitmap delta.secondOffset.toNat)
    s!"delta exists for invalid second {delta.secondOffset}"
  Check.failIf (delta.secondOffset ≤ lastSecond) "deltas must have unique increasing second offsets"
  validateDeltaSide delta.bidChangePrice "bid"
  validateDeltaSide delta.askChangePrice "ask"

/-- The loop over the deltas, with the prices of both sides and the last second. -/
def validateDeltasFrom (m : MinuteBook) :
    Finset Int64 → Finset Int64 → UInt8 → List BookDelta → Except String Unit
  | _, _, _, [] => .ok ()
  | bidPrices, askPrices, lastSecond, delta :: rest => do
      checkDelta m lastSecond delta
      let bidPrices := applyPriceKeys bidPrices delta.bidChangePrice delta.bidChangeQty
      let askPrices := applyPriceKeys askPrices delta.askChangePrice delta.askChangeQty
      Check.failIf (m.storedDepth.toNat < bidPrices.card ∨ m.storedDepth.toNat < askPrices.card)
        s!"second {delta.secondOffset} exceeds stored depth {m.storedDepth}"
      validateDeltasFrom m bidPrices askPrices delta.secondOffset rest

def validateMinuteBatch (batch : MinuteBatch) : Except String Unit := do
  let m := batch.minute
  m.validateDepth
  let wantID ← minuteID m.instrumentID m.minuteTime
  Check.failIf (m.id ≠ wantID) "minute id does not match instrument/time"
  Check.failIf (¬ HasSecond m.validBitmap 0) "minute batch has no valid second-zero anchor"
  Check.failIf (m.validBitmap >>> 60 ≠ 0#64) "minute valid bitmap exceeds 60 seconds"
  let bids ← Check.wrap "minute bids" (unpadded m.bids)
  let asks ← Check.wrap "minute asks" (unpadded m.asks)
  let snapshot : BookSnapshot :=
    { instrumentID := m.instrumentID, sourceTime := m.minuteTime, sequence := 0, bids, asks }
  Check.wrap "minute snapshot" (snapshot.validate m.storedDepth.toNat)
  validateDeltasFrom m (bids.map Level.priceTick).toFinset (asks.map Level.priceTick).toFinset 0
    batch.deltas

/-! ## What it accepts -/

theorem validateDeltaSideFrom_eq_ok {side : String} {seen prices : List Int64} :
    validateDeltaSideFrom side seen prices = .ok () ↔
      (∀ p ∈ prices, 0 < p ∧ p ∉ seen) ∧ prices.Nodup := by
  induction prices generalizing seen with
  | nil => simp [validateDeltaSideFrom]
  | cons price rest ih =>
      simp only [validateDeltaSideFrom, Check.seq_eq_ok, Check.failIf_eq_ok, ih, List.nodup_cons,
        List.mem_cons, not_or, forall_eq_or_imp, Int64.not_le]
      constructor
      · rintro ⟨hpos, hseen, hrest, hnd⟩
        refine ⟨⟨⟨hpos, hseen⟩, fun p hp => ⟨(hrest p hp).1, (hrest p hp).2.2⟩⟩, ?_, hnd⟩
        intro hp
        exact (hrest price hp).2.1 rfl
      · rintro ⟨⟨⟨hpos, hseen⟩, hrest⟩, hnew, hnd⟩
        refine ⟨hpos, hseen, fun p hp => ⟨(hrest p hp).1, ?_, (hrest p hp).2⟩, hnd⟩
        rintro rfl
        exact hnew hp

theorem validateDeltaSide_eq_ok {side : String} {prices : List Int64} :
    validateDeltaSide prices side = .ok () ↔ (∀ p ∈ prices, 0 < p) ∧ prices.Nodup := by
  rw [validateDeltaSide, validateDeltaSideFrom_eq_ok]
  simp

/-- Once padding has begun, only zero levels follow. -/
theorem unpaddedFrom_true {index : Nat} {levels out : List Level} :
    unpaddedFrom index true levels = .ok out ↔
      out = [] ∧ levels = List.replicate levels.length .zero := by
  induction levels generalizing index out with
  | nil =>
      simp only [unpaddedFrom, Except.ok.injEq, List.length_nil, List.replicate_zero, and_true]
      exact eq_comm
  | cons level rest ih =>
      unfold unpaddedFrom
      by_cases hz : level.priceTick = 0 ∧ level.qtyLot = 0
      · have hlevel : level = .zero := by
          cases level
          simp only at hz
          rw [hz.1, hz.2]
          rfl
        rw [if_pos hz, ih, hlevel, List.length_cons, List.replicate_succ, List.cons_inj_right]
      · rw [if_neg hz]
        simp only [Check.seq_eq_ok, Check.failIf_eq_ok, not_true_eq_false, false_and, false_iff,
          not_and, List.length_cons, List.replicate_succ, List.cons.injEq]
        rintro - rfl
        exact absurd ⟨rfl, rfl⟩ hz

theorem unpaddedFrom_false {index : Nat} {levels out : List Level} :
    unpaddedFrom index false levels = .ok out ↔
      (∀ l ∈ out, 0 < l.priceTick ∧ l.qtyLot ≠ 0) ∧
        levels = out ++ List.replicate (levels.length - out.length) .zero := by
  induction levels generalizing index out with
  | nil =>
      simp only [unpaddedFrom, Except.ok.injEq, List.length_nil, Nat.zero_sub, List.replicate_zero,
        List.append_nil]
      constructor
      · rintro rfl
        exact ⟨by simp, rfl⟩
      · rintro ⟨-, rfl⟩
        rfl
  | cons level rest ih =>
      unfold unpaddedFrom
      by_cases hz : level.priceTick = 0 ∧ level.qtyLot = 0
      · have hlevel : level = .zero := by
          cases level
          simp only at hz
          rw [hz.1, hz.2]
          rfl
        rw [if_pos hz, unpaddedFrom_true, hlevel]
        constructor
        · rintro ⟨rfl, hrest⟩
          refine ⟨by simp, ?_⟩
          simpa [List.replicate_succ] using hrest
        · rintro ⟨hpos, hall⟩
          cases out with
          | nil => exact ⟨rfl, by simpa [List.replicate_succ] using hall⟩
          | cons o os =>
              -- a positive level is not the zero level
              have ho : Level.zero = o := (List.cons.inj hall).1
              have := (hpos o (by simp)).2
              rw [← ho] at this
              exact absurd rfl this
      · rw [if_neg hz]
        simp only [Check.seq_eq_ok, Check.failIf_eq_ok, Bool.false_eq_true, not_false_eq_true,
          true_and, not_or, Int64.not_le]
        constructor
        · rintro ⟨hlevel, h⟩
          obtain ⟨tail, htail, h⟩ := Check.andThen_eq_ok.1 h
          obtain rfl := Except.ok.inj h
          obtain ⟨hpos, hrest⟩ := ih.1 htail
          refine ⟨?_, ?_⟩
          · intro l hl
            rcases List.mem_cons.1 hl with rfl | hl
            · exact hlevel
            · exact hpos l hl
          · simpa using hrest
        · rintro ⟨hpos, hall⟩
          cases out with
          | nil =>
              simp only [List.nil_append, List.length_cons, List.length_nil, Nat.sub_zero,
                List.replicate_succ, List.cons.injEq] at hall
              exact absurd (by rw [hall.1]; exact ⟨rfl, rfl⟩) hz
          | cons o os =>
              obtain ⟨rfl, hrest⟩ := List.cons.inj hall
              refine ⟨hpos level (by simp), Check.andThen_eq_ok.2 ⟨os, ?_, rfl⟩⟩
              refine ih.2 ⟨fun l hl => hpos l (List.mem_cons_of_mem _ hl), ?_⟩
              simpa using hrest

theorem unpadded_eq_ok {side : Vector Level legacyBookDepth} {levels : List Level} :
    unpadded side = .ok levels ↔ Padded side levels := by
  rw [unpadded, unpaddedFrom_false, Vector.length_toList]
  exact ⟨fun h => ⟨h.1, h.2⟩, fun h => ⟨h.positive, h.toList⟩⟩

/-- A delta that passes its checks, apart from the order of the deltas. -/
structure ValidDelta (m : MinuteBook) (d : BookDelta) : Prop where
  minuteID : d.minuteID = m.id
  pos : 0 < d.secondOffset.toNat
  le : d.secondOffset.toNat ≤ 59
  bids_length : d.bidChangePrice.length = d.bidChangeQty.length
  asks_length : d.askChangePrice.length = d.askChangeQty.length
  valid : HasSecond m.validBitmap d.secondOffset.toNat
  bids_pos : ∀ p ∈ d.bidChangePrice, 0 < p
  asks_pos : ∀ p ∈ d.askChangePrice, 0 < p
  bids_nodup : d.bidChangePrice.Nodup
  asks_nodup : d.askChangePrice.Nodup

theorem checkDelta_eq_ok {m : MinuteBook} {lastSecond : UInt8} {d : BookDelta} :
    checkDelta m lastSecond d = .ok () ↔
      ValidDelta m d ∧ lastSecond.toNat < d.secondOffset.toNat := by
  simp only [checkDelta, Check.seq_eq_ok, Check.failIf_eq_ok, validateDeltaSide_eq_ok, not_or,
    not_not, UInt8.not_le, UInt8.not_lt]
  have hzero : d.secondOffset = 0 ↔ d.secondOffset.toNat = 0 := by
    rw [← UInt8.toNat_inj]
    rfl
  have hle : d.secondOffset ≤ 59 ↔ d.secondOffset.toNat ≤ 59 := UInt8.le_iff_toNat_le
  rw [hzero, hle, UInt8.lt_iff_toNat_lt]
  constructor
  · rintro ⟨⟨hid, hpos, hmax⟩, ⟨hb, ha⟩, hv, hlast, ⟨hbp, hbn⟩, hap, han⟩
    exact ⟨⟨hid, Nat.pos_of_ne_zero hpos, hmax, hb, ha, hv, hbp, hap, hbn, han⟩, hlast⟩
  · rintro ⟨h, hlast⟩
    exact ⟨⟨h.minuteID, h.pos.ne', h.le⟩, ⟨h.bids_length, h.asks_length⟩, h.valid, hlast,
      ⟨h.bids_pos, h.bids_nodup⟩, h.asks_pos, h.asks_nodup⟩

/-- The prices of both sides after a list of deltas. -/
def pricesAfter (bids asks : Finset Int64) (deltas : List BookDelta) : Finset Int64 × Finset Int64 :=
  deltas.foldl (fun s d => (applyPriceKeys s.1 d.bidChangePrice d.bidChangeQty,
    applyPriceKeys s.2 d.askChangePrice d.askChangeQty)) (bids, asks)

/-- After each delta both sides fit the depth. -/
def FitsDepth (depth : Nat) (bids asks : Finset Int64) (deltas : List BookDelta) : Prop :=
  ∀ front d back, deltas = front ++ d :: back →
    (pricesAfter bids asks (front ++ [d])).1.card ≤ depth ∧
      (pricesAfter bids asks (front ++ [d])).2.card ≤ depth

theorem fitsDepth_cons {depth : Nat} {bids asks : Finset Int64} {d : BookDelta}
    {ds : List BookDelta} :
    FitsDepth depth bids asks (d :: ds) ↔
      ((applyPriceKeys bids d.bidChangePrice d.bidChangeQty).card ≤ depth ∧
        (applyPriceKeys asks d.askChangePrice d.askChangeQty).card ≤ depth) ∧
      FitsDepth depth (applyPriceKeys bids d.bidChangePrice d.bidChangeQty)
        (applyPriceKeys asks d.askChangePrice d.askChangeQty) ds := by
  constructor
  · intro h
    refine ⟨h [] d ds rfl, ?_⟩
    intro front e back he
    exact h (d :: front) e back (by rw [he]; rfl)
  · rintro ⟨hd, hds⟩ front e back he
    cases front with
    | nil =>
        obtain ⟨rfl, rfl⟩ := List.cons.inj he
        exact hd
    | cons f fs =>
        obtain ⟨rfl, hrest⟩ := List.cons.inj he
        exact hds fs e back hrest

theorem validateDeltasFrom_eq_ok {m : MinuteBook} {bids asks : Finset Int64} {lastSecond : UInt8}
    {deltas : List BookDelta} :
    validateDeltasFrom m bids asks lastSecond deltas = .ok () ↔
      (∀ d ∈ deltas, ValidDelta m d ∧ lastSecond.toNat < d.secondOffset.toNat) ∧
        deltas.Pairwise (fun a b => a.secondOffset.toNat < b.secondOffset.toNat) ∧
        FitsDepth m.storedDepth.toNat bids asks deltas := by
  induction deltas generalizing bids asks lastSecond with
  | nil =>
      simp only [validateDeltasFrom, true_iff]
      refine ⟨by simp, .nil, ?_⟩
      intro front d back h
      simp at h
  | cons d ds ih =>
      simp only [validateDeltasFrom, Check.seq_eq_ok, Check.failIf_eq_ok, checkDelta_eq_ok, ih,
        not_or, not_lt, fitsDepth_cons, List.mem_cons, forall_eq_or_imp, List.pairwise_cons]
      constructor
      · rintro ⟨hd, hfit, hrest, hpw, hfits⟩
        refine ⟨⟨hd, fun e he => ⟨(hrest e he).1, hd.2.trans (hrest e he).2⟩⟩, ⟨?_, hpw⟩, hfit, hfits⟩
        intro e he
        exact (hrest e he).2
      · rintro ⟨⟨hd, hrest⟩, ⟨hcross, hpw⟩, hfit, hfits⟩
        refine ⟨hd, hfit, ?_, hpw, hfits⟩
        intro e he
        exact ⟨(hrest e he).1, hcross e he⟩

/-- What `ValidateMinuteBatch` accepts. -/
structure ValidBatch (batch : MinuteBatch) (bids asks : List Level) : Prop where
  depth : batch.minute.validateDepth = .ok ()
  id : minuteID batch.minute.instrumentID batch.minute.minuteTime = .ok batch.minute.id
  anchor : HasSecond batch.minute.validBitmap 0
  range : ∀ s, 60 ≤ s → ¬ HasSecond batch.minute.validBitmap s
  padBids : Padded batch.minute.bids bids
  padAsks : Padded batch.minute.asks asks
  snapshot : ValidSnapshot
    { instrumentID := batch.minute.instrumentID, sourceTime := batch.minute.minuteTime,
      sequence := 0, bids, asks } batch.minute.storedDepth.toNat
  deltas : ∀ d ∈ batch.deltas, ValidDelta batch.minute d
  increasing : batch.deltas.Pairwise fun a b => a.secondOffset.toNat < b.secondOffset.toNat
  fits : FitsDepth batch.minute.storedDepth.toNat (bids.map Level.priceTick).toFinset
    (asks.map Level.priceTick).toFinset batch.deltas

theorem validateMinuteBatch_eq_ok {batch : MinuteBatch} :
    validateMinuteBatch batch = .ok () ↔ ∃ bids asks, ValidBatch batch bids asks := by
  simp only [validateMinuteBatch, Check.seq_eq_ok]
  constructor
  · rintro ⟨hdepth, h⟩
    obtain ⟨wantID, hid, h⟩ := Check.andThen_eq_ok.1 h
    simp only [Check.seq_eq_ok, Check.failIf_eq_ok, not_not] at h
    obtain ⟨rfl, hanchor, hrange, h⟩ := h
    obtain ⟨bids, hbids, h⟩ := Check.andThen_eq_ok.1 h
    obtain ⟨asks, hasks, h⟩ := Check.andThen_eq_ok.1 h
    simp only [Check.seq_eq_ok, Check.wrap_eq_ok, validate_eq_ok, validateDeltasFrom_eq_ok] at h
    obtain ⟨hsnap, hdeltas, hpw, hfits⟩ := h
    exact ⟨bids, asks, hdepth, hid, hanchor, shift_eq_zero_iff.1 hrange,
      unpadded_eq_ok.1 (Check.wrap_eq_ok.1 hbids), unpadded_eq_ok.1 (Check.wrap_eq_ok.1 hasks),
      hsnap, fun d hd => (hdeltas d hd).1, hpw, hfits⟩
  · rintro ⟨bids, asks, h⟩
    refine ⟨h.depth, Check.andThen_eq_ok.2 ⟨_, h.id, ?_⟩⟩
    simp only [Check.seq_eq_ok, Check.failIf_eq_ok, not_not]
    refine ⟨trivial, h.anchor, shift_eq_zero_iff.2 h.range, ?_⟩
    refine Check.andThen_eq_ok.2 ⟨bids, Check.wrap_eq_ok.2 (unpadded_eq_ok.2 h.padBids), ?_⟩
    refine Check.andThen_eq_ok.2 ⟨asks, Check.wrap_eq_ok.2 (unpadded_eq_ok.2 h.padAsks), ?_⟩
    simp only [Check.seq_eq_ok, Check.wrap_eq_ok, validate_eq_ok, validateDeltasFrom_eq_ok]
    exact ⟨h.snapshot, fun d hd => ⟨h.deltas d hd, (h.deltas d hd).pos⟩, h.increasing, h.fits⟩

end MarketInfo
