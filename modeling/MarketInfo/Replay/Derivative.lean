import MarketInfo.Model.Derivative
import MarketInfo.Replay.AtSecond

/-! # Derivative replay

`ValidateDerivativeBatch` checks the quality of every second, then replays the
deltas and checks each valid second. `ReplayDerivative` gives back the snapshot
of one second of a batch that passed.
-/

namespace MarketInfo

open Listing PriceMap

/-! ## Definitions -/

/-- The map of the levels. -/
def derivativeMap (levels : List Level) : PriceMap := ofLevels levels

/-- The levels of a map, best price first. -/
def derivativeLevels (m : PriceMap) (bid : Bool) : List Level := listing bid m

/-- The loop of `applyDerivativeDelta`, with the price before this one. The map
keeps the changes made before an error. -/
def applyDerivativeFrom (bid signed : Bool) :
    Option Int64 → PriceMap → List Level → PriceMap × Except String Unit
  | _, m, [] => (m, .ok ())
  | previous, m, c :: rest =>
      if (signed = false ∧ c.priceTick ≤ 0) ∨ (bid = true ∧ ∃ p ∈ previous, p ≤ c.priceTick) ∨
          (bid = false ∧ ∃ p ∈ previous, c.priceTick ≤ p) then
        (m, .error "invalid or unordered delta price")
      else if c.qtyLot = 0 then
        if m.lookup c.priceTick = none then (m, .error "delta deletes absent price")
        else applyDerivativeFrom bid signed (some c.priceTick) (m.erase c.priceTick) rest
      else if m.lookup c.priceTick = some c.qtyLot then (m, .error "noncanonical no-op delta")
      else applyDerivativeFrom bid signed (some c.priceTick) (m.insert c.priceTick c.qtyLot) rest

def applyDerivativeDelta (m : PriceMap) (prices : List Int64) (qtys : List UInt64)
    (bid signed : Bool) : PriceMap × Except String Unit :=
  if prices.length ≠ qtys.length ∨ 2 * bookDepth < prices.length then
    (m, .error "invalid delta arrays")
  else applyDerivativeFrom bid signed none m (List.zipWith Level.mk prices qtys)

/-- The times stored with a quality. -/
def DerivativeQuality.times (q : DerivativeQuality) : List Time :=
  [q.sourceTime, q.receivedAt, q.capturedAt, q.lastSnapshotAt, q.connectionConfirmedAt,
    q.rulePublishedAt, q.marketStateAt]

/-- The times that may not lie after the sample. -/
def DerivativeQuality.knownTimes (q : DerivativeQuality) : List Time :=
  [q.receivedAt, q.lastSnapshotAt, q.connectionConfirmedAt, q.rulePublishedAt, q.marketStateAt]

/-- A sampled second was captured in time; any other claims nothing. -/
def checkCapture (sampleAt : Time) (i : Nat) (q : DerivativeQuality) : Except String Unit :=
  if q.sampled = true then
    Check.failIf (q.capturedAt.Before sampleAt ∨
        q.capturedAt.After (sampleAt.add (250 * Time.millisecond)))
      s!"invalid capture deadline at second {i}"
  else
    Check.failIf (q.streamValid = true ∨ q.replayValid = true) "unsampled second marked valid"

/-- The quality of second `i`. -/
def checkQuality (b : DerivativeMinuteBatch) (depth i : Nat) (q : DerivativeQuality) :
    Except String Unit := do
  let sampleAt := b.minuteTime.add (i * Time.second)
  Check.failIf (DerivativeReason.marketClosed < q.reason ∨ depth < q.bidLevels.toNat ∨
      depth < q.askLevels.toNat)
    s!"invalid quality domain at second {i}"
  Check.checkAll
    (fun t => Check.failIf (¬ t.IsZero ∧ ¬ t.Equal (t.truncate Time.microsecond))
      "quality timestamp exceeds storage precision")
    q.times
  checkCapture sampleAt i q
  Check.checkAll (fun t => Check.failIf (t.After sampleAt) s!"future quality at second {i}")
    q.knownTimes
  Check.failIf (q.streamValid = true ∧ (q.sourceTime.IsZero ∨ q.receivedAt.IsZero ∨ q.epoch = 0 ∨
      q.lastSnapshotAt.IsZero))
    "stream validity without provenance"
  Check.failIf (q.marketOpen = true ∧ q.marketKnown = false) "open market with unknown state"
  Check.failIf (q.marketKnown = true ∧ (q.marketStateAt.IsZero ∨ q.marketStateBasis < 1 ∨
      2 < q.marketStateBasis))
    "market state lacks evidence"
  Check.failIf (q.marketKnown = false ∧ q.marketStateBasis ≠ 0)
    "unknown market state has known basis"
  Check.failIf (decide (q.tradingRuleID = "") ≠ decide q.rulePublishedAt.IsZero ∨
      (q.tradingRuleID ≠ "" ∧ validDigest q.tradingRuleID = false))
    "invalid trading rule reference"
  let wantValid := q.sampled && q.streamValid && q.marketKnown && b.minute.isSome &&
    decide (q.reason = DerivativeReason.ok)
  Check.failIf (q.replayValid ≠ wantValid) s!"quality validity mismatch at second {i}"
  Check.failIf (q.replayValid = false ∧ q.reason = DerivativeReason.ok)
    s!"missing invalid reason at second {i}"
  Check.failIf (b.minute = none ∧ q.streamValid = true ∧ q.marketKnown = true ∧
      q.reason ≠ DerivativeReason.anchorMissing)
    "unanchored valid stream lacks anchor_missing"

/-- The loop over the qualities, with the bitmap of the valid seconds. -/
def checkQualities (b : DerivativeMinuteBatch) (depth : Nat) :
    Nat → BitVec 64 → List DerivativeQuality → Except String (BitVec 64)
  | _, valid, [] => .ok valid
  | i, valid, q :: rest => do
      checkQuality b depth i q
      checkQualities b depth (i + 1) (if q.replayValid = true then valid ||| (1#64 <<< i) else valid)
        rest

/-- The next delta, which must be the one of the second. -/
def checkSecondDelta (m : DerivativeMinute) (id : UInt64) (depth second : Nat) :
    List BookDelta × PriceMap × PriceMap → Except String (List BookDelta × PriceMap × PriceMap)
  | ([], _, _) => .error s!"incomplete derivative batch: missing delta at {second}"
  | (d :: rest, bids, asks) => do
      Check.failIf (d.secondOffset ≠ UInt8.ofNat second)
        s!"incomplete derivative batch: missing delta at {second}"
      Check.failIf (2 * depth < d.bidChangePrice.length ∨ 2 * depth < d.askChangePrice.length)
        "delta exceeds stored depth"
      Check.failIf (d.minuteID ≠ id ∨ d.bidChangePrice.length + d.askChangePrice.length = 0)
        "invalid delta identity/empty delta"
      let newBids := applyDerivativeDelta bids d.bidChangePrice d.bidChangeQty true m.signed
      newBids.2
      let newAsks := applyDerivativeDelta asks d.askChangePrice d.askChangeQty false m.signed
      newAsks.2
      return (rest, newBids.1, newAsks.1)

/-- The deltas not yet read and the sides, after a second whose bit may be set. -/
def readSecond (m : DerivativeMinute) (id : UInt64) (depth : Nat)
    (state : List BookDelta × PriceMap × PriceMap) (second : Nat) :
    Except String (List BookDelta × PriceMap × PriceMap) :=
  if HasSecond m.deltaBitmap second then checkSecondDelta m id depth second state else .ok state

/-- The sides of a valid second. -/
def checkShown (b : DerivativeMinuteBatch) (m : DerivativeMinute) (depth : Nat)
    (sides : PriceMap × PriceMap) (second : Nat) : Except String Unit :=
  if HasSecond m.validBitmap second then do
    Check.wrap s!"second {second}"
      (validateDerivativeSides (derivativeLevels sides.1 true) (derivativeLevels sides.2 false)
        depth m.signed)
    let q := b.quality.toList.getD second {}
    Check.failIf (q.bidLevels.toNat ≠ sides.1.len ∨ q.askLevels.toNat ≠ sides.2.len)
      "replay and quality depth mismatch"
  else .ok ()

def checkSecond (b : DerivativeMinuteBatch) (m : DerivativeMinute) (id : UInt64) (depth : Nat)
    (state : List BookDelta × PriceMap × PriceMap) (second : Nat) :
    Except String (List BookDelta × PriceMap × PriceMap) := do
  let state ← readSecond m id depth state second
  checkShown b m depth state.2 second
  return state

/-- The checks of a minute that has an anchor. -/
def validateDerivativeMinute (b : DerivativeMinuteBatch) (m : DerivativeMinute) (id : UInt64)
    (valid : BitVec 64) : Except String Unit := do
  let depth := m.storedDepth.toNat
  Check.failIf (m.id ≠ id ∨ m.instrumentID ≠ b.instrumentID ∨ ¬ m.minuteTime.Equal b.minuteTime ∨
      m.signed ≠ b.signed ∨ (depth ≠ 5 ∧ depth ≠ 10) ∨
      m.encodingVersion ≠ derivativeEncodingVersion)
    "invalid derivative encoding/identity"
  Check.failIf (¬ HasSecond m.validBitmap 0 ∨ m.validBitmap ≠ valid ∨
      m.validBitmap &&& ~~~minuteMask ≠ 0#64 ∨ HasSecond m.deltaBitmap 0 ∨
      m.deltaBitmap &&& ~~~m.validBitmap ≠ 0#64)
    "invalid derivative minute bitmaps"
  validateDerivativeSides m.bids m.asks depth m.signed
  let bids := derivativeMap m.bids
  let asks := derivativeMap m.asks
  let q := b.quality.toList.getD 0 {}
  Check.failIf (q.bidLevels.toNat ≠ bids.len ∨ q.askLevels.toNat ≠ asks.len)
    "anchor and quality depth mismatch"
  let (rest, _, _) ← (List.range' 1 59).foldlM (checkSecond b m id depth) (b.deltas, bids, asks)
  Check.failIf (rest ≠ []) "unexpected/duplicate delta row"

def validateDerivativeBatch (b : DerivativeMinuteBatch) : Except String Unit :=
  let depth := match b.minute with
    | none => bookDepth
    | some m => m.storedDepth.toNat
  match minuteID b.instrumentID b.minuteTime with
  | .error _ => .error "invalid derivative minute identity"
  | .ok id => do
      Check.failIf (b.minuteTime.IsZero ∨ ¬ b.minuteTime.Equal (b.minuteTime.truncate Time.minute))
        "invalid derivative minute identity"
      let valid ← checkQualities b depth 0 0#64 b.quality.toList
      match b.minute with
      | none =>
          Check.failIf (b.deltas ≠ [] ∨ valid ≠ 0#64) "unanchored minute contains replay data"
      | some m => validateDerivativeMinute b m id valid

structure DerivativeResult where
  sampleTime : Time
  storedDepth : UInt8
  snapshot : DerivativeSnapshot
  quality : DerivativeQuality
deriving DecidableEq

/-- The deltas up to a second; what they do to a side is taken without its error. -/
def replayDerivativeFrom (signed : Bool) (second : UInt8) :
    PriceMap × PriceMap → List BookDelta → PriceMap × PriceMap
  | sides, [] => sides
  | (bids, asks), d :: rest =>
      if second < d.secondOffset then (bids, asks)
      else
        replayDerivativeFrom signed second
          ((applyDerivativeDelta bids d.bidChangePrice d.bidChangeQty true signed).1,
            (applyDerivativeDelta asks d.askChangePrice d.askChangeQty false signed).1)
          rest

def replayDerivative (b : DerivativeMinuteBatch) (second : UInt8) :
    Except String DerivativeResult := do
  Check.failIf (59 < second) "second outside minute"
  validateDerivativeBatch b
  let q := b.quality.toList.getD second.toNat {}
  let r : DerivativeResult :=
    { sampleTime := b.minuteTime.add (second.toNat * Time.second)
      storedDepth := match b.minute with
        | none => UInt8.ofNat bookDepth
        | some m => m.storedDepth
      snapshot := .none
      quality := q }
  match q.replayValid, b.minute with
  | true, some m =>
      let sides := replayDerivativeFrom b.signed second (derivativeMap m.bids, derivativeMap m.asks)
        b.deltas
      return { r with
        snapshot :=
          { instrumentID := b.instrumentID, sourceTime := q.sourceTime, receivedAt := q.receivedAt,
            epoch := q.epoch, changeID := q.changeID, bids := derivativeLevels sides.1 true,
            asks := derivativeLevels sides.2 false } }
  -- a replay-valid quality has passed its check against the minute
  | _, _ => return r

/-! ## One delta -/

/-- Ordered changes that each change something are applied without an error. -/
theorem applyDerivativeFrom_eq {bid signed : Bool} {previous : Option Int64} {m : PriceMap}
    {cs : List Level} (hprice : signed = false → ∀ c ∈ cs, 0 < c.priceTick)
    (hsorted : SideSorted bid cs)
    (hprev : ∀ p ∈ previous, ∀ c ∈ cs, rank bid p < rank bid c.priceTick)
    (heff : ∀ c ∈ cs, (c.qtyLot = 0 → m.lookup c.priceTick ≠ none) ∧
      (c.qtyLot ≠ 0 → m.lookup c.priceTick ≠ some c.qtyLot)) :
    applyDerivativeFrom bid signed previous m cs = (m.putAll cs, .ok ()) := by
  induction cs generalizing previous m with
  | nil => rfl
  | cons c rest ih =>
      obtain ⟨hhead, htail⟩ := List.pairwise_cons.1 hsorted
      have hlater : ∀ d ∈ rest, rank bid c.priceTick < rank bid d.priceTick := fun d hd =>
        hhead _ (List.mem_map_of_mem hd)
      -- the later prices are other keys of the map
      have hrest : applyDerivativeFrom bid signed (some c.priceTick) (m.put c) rest =
          ((m.put c).putAll rest, .ok ()) := by
        refine ih (fun hs d hd => hprice hs d (by simp [hd])) htail ?_ ?_
        · rintro p ⟨⟩ d hd
          exact hlater d hd
        · intro d hd
          have hne : d.priceTick ≠ c.priceTick := fun he =>
            absurd (hlater d hd) (by rw [he]; exact lt_irrefl _)
          rw [lookup_put, if_neg hne]
          exact heff d (by simp [hd])
      have horder : ¬ ((signed = false ∧ c.priceTick ≤ 0) ∨
          (bid = true ∧ ∃ p ∈ previous, p ≤ c.priceTick) ∨
          (bid = false ∧ ∃ p ∈ previous, c.priceTick ≤ p)) := by
        rintro (⟨hs, hle⟩ | ⟨rfl, p, hp, hle⟩ | ⟨rfl, p, hp, hle⟩)
        · exact absurd (hprice hs c (by simp)) (Int64.not_lt.2 hle)
        · exact Int64.not_lt.2 hle (rank_lt_bids.1 (hprev p hp c (by simp)))
        · exact Int64.not_lt.2 hle (rank_lt_asks.1 (hprev p hp c (by simp)))
      obtain ⟨hdel, hset⟩ := heff c (by simp)
      unfold applyDerivativeFrom
      rw [if_neg horder, putAll_cons, ← hrest]
      unfold put
      by_cases hq : c.qtyLot = 0
      · rw [if_pos hq, if_neg (hdel hq), if_pos hq]
      · rw [if_neg hq, if_neg (hset hq), if_neg hq]

/-- The changes between two sides are such changes. -/
theorem applyDerivativeDelta_changes {bid signed : Bool} {m : PriceMap} {previous current : List Level}
    (hm : ∀ p, m.lookup p = (ofLevels previous).lookup p)
    (hp : DerivativeSide bid signed previous) (hc : DerivativeSide bid signed current)
    (hlen : (changes previous current bid).1.length ≤ 2 * bookDepth) :
    applyDerivativeDelta m (changes previous current bid).1 (changes previous current bid).2 bid
        signed =
      (applyArrays m (changes previous current bid).1 (changes previous current bid).2, .ok ()) := by
  have hqty : ∀ p, (ofLevels current).lookup p ≠ some 0 := lookup_ofLevels_ne_zero hc.sorted hc.qty
  unfold applyDerivativeDelta
  rw [if_neg (by rw [length_changes]; omega)]
  refine applyDerivativeFrom_eq ?_ ?_ (by simp) ?_
  · intro hs c hmem
    rw [zipWith_changes] at hmem
    have hkey : c.priceTick ∈ (changes previous current bid).1 := by
      rw [mem_changes]
      intro hsame
      have hl := mem_listing.1 hmem
      rw [lookup_changedMap, if_pos hsame] at hl
      cases hl
    rcases mem_changes_or hkey with h | h
    · obtain ⟨q, hq⟩ := exists_lookup h
      have hl := (lookup_ofLevels (nodup_prices hp.sorted)).1 hq
      exact hp.price hs ⟨c.priceTick, q⟩ hl
    · obtain ⟨q, hq⟩ := exists_lookup h
      have hl := (lookup_ofLevels (nodup_prices hc.sorted)).1 hq
      exact hc.price hs ⟨c.priceTick, q⟩ hl
  · rw [zipWith_changes]
    exact listing_sorted bid _
  · intro c hmem
    rw [hm]
    exact changes_effective hqty hmem

/-- A delta that applies to the sides without an error. -/
@[reducible] def CleanDelta (signed : Bool) (sides : PriceMap × PriceMap) (d : BookDelta) : Prop :=
  applyDerivativeDelta sides.1 d.bidChangePrice d.bidChangeQty true signed =
      ((applyDelta sides d).1, .ok ()) ∧
    applyDerivativeDelta sides.2 d.askChangePrice d.askChangeQty false signed =
      ((applyDelta sides d).2, .ok ())

/-- Replay applies the deltas up to the second. -/
theorem replayDerivativeFrom_eq {signed : Bool} {second : UInt8} {sides : PriceMap × PriceMap}
    {deltas : List BookDelta}
    (h : DeltaLog.Each (CleanDelta signed) applyDelta sides (deltaLog deltas)) :
    replayDerivativeFrom signed second sides deltas =
      DeltaLog.replayTo applyDelta sides (deltaLog deltas) second.toNat := by
  induction deltas generalizing sides with
  | nil => rfl
  | cons d ds ih =>
      obtain ⟨bids, asks⟩ := sides
      obtain ⟨⟨hbids, hasks⟩, hrest⟩ := DeltaLog.each_cons.1 h
      unfold replayDerivativeFrom DeltaLog.replayTo
      by_cases hsec : second < d.secondOffset
      · rw [if_pos hsec, deltaLog, List.map_cons,
          DeltaLog.upTo_cons_of_lt (UInt8.lt_iff_toNat_lt.1 hsec)]
        rfl
      · rw [if_neg hsec, deltaLog, List.map_cons,
          DeltaLog.upTo_cons_of_le (UInt8.le_iff_toNat_le.1 (UInt8.not_lt.1 hsec))]
        dsimp only at hbids hasks
        rw [hbids, hasks]
        exact ih hrest

/-! ## The qualities -/

/-- What the validator accepts as the quality of second `i`. -/
structure ValidQuality (b : DerivativeMinuteBatch) (depth i : Nat) (q : DerivativeQuality) : Prop where
  reason_le : q.reason ≤ DerivativeReason.marketClosed
  bidLevels_le : q.bidLevels.toNat ≤ depth
  askLevels_le : q.askLevels.toNat ≤ depth
  precise : ∀ t ∈ q.times, ¬ t.IsZero → t.Equal (t.truncate Time.microsecond)
  captured : q.sampled = true → ¬ q.capturedAt.Before (b.minuteTime.add (i * Time.second)) ∧
    ¬ q.capturedAt.After ((b.minuteTime.add (i * Time.second)).add (250 * Time.millisecond))
  unsampled : q.sampled = false → q.streamValid = false ∧ q.replayValid = false
  past : ∀ t ∈ q.knownTimes, ¬ t.After (b.minuteTime.add (i * Time.second))
  provenance : q.streamValid = true → ¬ q.sourceTime.IsZero ∧ ¬ q.receivedAt.IsZero ∧ q.epoch ≠ 0 ∧
    ¬ q.lastSnapshotAt.IsZero
  openKnown : q.marketOpen = true → q.marketKnown = true
  known : q.marketKnown = true → ¬ q.marketStateAt.IsZero ∧ 1 ≤ q.marketStateBasis ∧
    q.marketStateBasis ≤ 2
  unknown : q.marketKnown = false → q.marketStateBasis = 0
  rule : q.tradingRuleID = "" ↔ q.rulePublishedAt.IsZero
  digest : q.tradingRuleID ≠ "" → validDigest q.tradingRuleID = true
  replayValid : q.replayValid = true ↔ q.sampled = true ∧ q.streamValid = true ∧
    q.marketKnown = true ∧ b.minute.isSome = true ∧ q.reason = DerivativeReason.ok
  invalid : q.replayValid = false → q.reason ≠ DerivativeReason.ok
  anchorMissing : b.minute = none → q.streamValid = true → q.marketKnown = true →
    q.reason = DerivativeReason.anchorMissing

theorem checkCapture_eq_ok {sampleAt : Time} {i : Nat} {q : DerivativeQuality} :
    checkCapture sampleAt i q = .ok () ↔
      (q.sampled = true → ¬ q.capturedAt.Before sampleAt ∧
        ¬ q.capturedAt.After (sampleAt.add (250 * Time.millisecond))) ∧
      (q.sampled = false → q.streamValid = false ∧ q.replayValid = false) := by
  unfold checkCapture
  cases q.sampled with
  | true => simp
  | false => simp

theorem checkQuality_eq_ok {b : DerivativeMinuteBatch} {depth i : Nat} {q : DerivativeQuality} :
    checkQuality b depth i q = .ok () ↔ ValidQuality b depth i q := by
  have hwant : q.replayValid = (q.sampled && q.streamValid && q.marketKnown && b.minute.isSome &&
      decide (q.reason = DerivativeReason.ok)) ↔
        (q.replayValid = true ↔ q.sampled = true ∧ q.streamValid = true ∧ q.marketKnown = true ∧
          b.minute.isSome = true ∧ q.reason = DerivativeReason.ok) := by
    rw [Bool.eq_iff_iff]
    simp only [Bool.and_eq_true, decide_eq_true_eq, and_assoc]
  simp only [checkQuality, checkCapture_eq_ok, Check.seq_eq_ok, Check.failIf_eq_ok,
    Check.checkAll_eq_ok, not_or, not_and, not_not, ne_eq, UInt8.not_lt, Nat.not_lt,
    Bool.not_eq_false, decide_eq_decide, hwant, and_assoc]
  constructor
  · rintro ⟨hreason, hbid, hask, hprecise, hcap, hun, hpast, hprov, hopen, hknown, hbasis, hrule,
      hdigest, hvalid, hinvalid, hanchor⟩
    exact ⟨hreason, hbid, hask, hprecise, hcap, hun, hpast, hprov, hopen, hknown, hbasis, hrule,
      hdigest, hvalid, hinvalid, hanchor⟩
  · intro h
    exact ⟨h.reason_le, h.bidLevels_le, h.askLevels_le, h.precise, h.captured, h.unsampled, h.past,
      h.provenance, h.openKnown, h.known, h.unknown, h.rule, h.digest, h.replayValid, h.invalid,
      h.anchorMissing⟩

/-- The bitmap of the replay-valid qualities from second `i` on. -/
def replayBits : Nat → BitVec 64 → List DerivativeQuality → BitVec 64
  | _, valid, [] => valid
  | i, valid, q :: rest =>
      replayBits (i + 1) (if q.replayValid = true then valid ||| (1#64 <<< i) else valid) rest

theorem hasSecond_replayBits {i : Nat} {valid : BitVec 64} {qs : List DerivativeQuality} {s : Nat}
    (hi : i + qs.length ≤ 64) :
    HasSecond (replayBits i valid qs) s ↔
      HasSecond valid s ∨ ∃ j q, qs[j]? = some q ∧ q.replayValid = true ∧ s = i + j := by
  induction qs generalizing i valid with
  | nil => simp [replayBits]
  | cons q rest ih =>
      rw [List.length_cons] at hi
      have hbit : HasSecond (if q.replayValid = true then valid ||| (1#64 <<< i) else valid) s ↔
          HasSecond valid s ∨ (q.replayValid = true ∧ s = i) := by
        split
        · rename_i hq
          rw [hasSecond_set (by omega)]
          simp [hq]
        · rename_i hq
          simp [hq]
      unfold replayBits
      rw [ih (by omega), hbit, or_assoc]
      refine or_congr Iff.rfl ?_
      constructor
      · rintro (⟨hq, rfl⟩ | ⟨j, p, hp, hv, rfl⟩)
        · exact ⟨0, q, rfl, hq, rfl⟩
        · exact ⟨j + 1, p, hp, hv, by omega⟩
      · rintro ⟨j, p, hp, hv, rfl⟩
        cases j with
        | zero =>
            obtain rfl := Option.some.inj hp
            exact Or.inl ⟨hv, rfl⟩
        | succ j => exact Or.inr ⟨j, p, hp, hv, by omega⟩

theorem checkQualities_eq_ok {b : DerivativeMinuteBatch} {depth i : Nat} {valid out : BitVec 64}
    {qs : List DerivativeQuality} :
    checkQualities b depth i valid qs = .ok out ↔
      (∀ j q, qs[j]? = some q → ValidQuality b depth (i + j) q) ∧ out = replayBits i valid qs := by
  induction qs generalizing i valid with
  | nil =>
      simp only [checkQualities, Except.ok.injEq, replayBits]
      constructor
      · rintro rfl
        exact ⟨by simp, rfl⟩
      · rintro ⟨-, rfl⟩
        rfl
  | cons q rest ih =>
      simp only [checkQualities, replayBits, Check.seq_eq_ok, checkQuality_eq_ok, ih, ← and_assoc]
      refine and_congr ?_ Iff.rfl
      constructor
      · rintro ⟨hq, hrest⟩ j p hp
        cases j with
        | zero =>
            obtain rfl := Option.some.inj hp
            exact hq
        | succ j =>
            rw [show i + (j + 1) = i + 1 + j by omega]
            exact hrest j p hp
      · intro h
        refine ⟨h 0 q rfl, fun j p hp => ?_⟩
        rw [show i + 1 + j = i + (j + 1) by omega]
        exact h (j + 1) p hp

/-! ## The seconds -/

/-- A delta the validator accepts when it is read over the sides. -/
structure SoundDelta (m : DerivativeMinute) (sides : PriceMap × PriceMap) (d : BookDelta) : Prop where
  minuteID : d.minuteID = m.id
  bids_le : d.bidChangePrice.length ≤ 2 * m.storedDepth.toNat
  asks_le : d.askChangePrice.length ≤ 2 * m.storedDepth.toNat
  nonempty : d.bidChangePrice.length + d.askChangePrice.length ≠ 0
  clean : CleanDelta m.signed sides d

/-- The deltas of a minute, one at each second of the delta bitmap. -/
structure SoundDeltas (m : DerivativeMinute) (deltas : List BookDelta) : Prop where
  increasing : (deltaLog deltas).Pairwise fun a b => a.1 < b.1
  range : ∀ e ∈ deltaLog deltas, 0 < e.1 ∧ e.1 ≤ 59
  bits : ∀ s, HasSecond m.deltaBitmap s ↔ ∃ d, (s, d) ∈ deltaLog deltas
  each : DeltaLog.Each (SoundDelta m) applyDelta (anchorSides m.bids m.asks) (deltaLog deltas)

/-- The sides shown at a second are those its quality counts. -/
structure ShownSides (m : DerivativeMinute) (q : DerivativeQuality) (sides : PriceMap × PriceMap) :
    Prop where
  valid : DerivativeSides (listing true sides.1) (listing false sides.2) m.storedDepth.toNat m.signed
  bidLevels : q.bidLevels.toNat = sides.1.len
  askLevels : q.askLevels.toNat = sides.2.len

theorem checkSecondDelta_eq {m : DerivativeMinute} {sides : PriceMap × PriceMap} {d : BookDelta}
    {rest : List BookDelta} {second : Nat} (h : SoundDelta m sides d)
    (hsecond : d.secondOffset.toNat = second) :
    checkSecondDelta m m.id m.storedDepth.toNat second (d :: rest, sides) =
      .ok (rest, applyDelta sides d) := by
  obtain ⟨bids, asks⟩ := sides
  obtain ⟨hbids, hasks⟩ := h.clean
  have hoffset : d.secondOffset = UInt8.ofNat second := by rw [← hsecond, UInt8.ofNat_toNat]
  have hb := h.bids_le
  have ha := h.asks_le
  simp only at hbids hasks
  simp only [checkSecondDelta, Check.seq_eq_ok, Check.failIf_eq_ok, hbids, hasks]
  have hne := h.nonempty
  exact ⟨not_not.2 hoffset, by omega, fun hbad => hbad.elim (absurd h.minuteID) hne, trivial, trivial,
    rfl⟩

/-- Reading a second takes the log one time further. -/
theorem readSecond_eq {m : DerivativeMinute} {deltas : List BookDelta} (hlog : SoundDeltas m deltas)
    (n : Nat) :
    readSecond m m.id m.storedDepth.toNat
        ((DeltaLog.after (deltaLog deltas) n).map Prod.snd, sidesAt m.bids m.asks deltas n) (n + 1) =
      .ok ((DeltaLog.after (deltaLog deltas) (n + 1)).map Prod.snd,
        sidesAt m.bids m.asks deltas (n + 1)) := by
  unfold readSecond
  by_cases hbit : HasSecond m.deltaBitmap (n + 1)
  · -- the delta of this second is the next one
    obtain ⟨d, hd⟩ := (hlog.bits _).1 hbit
    obtain ⟨hafter, hupTo⟩ := DeltaLog.next_of_mem hlog.increasing hd
    have hsplit := DeltaLog.upTo_append_after (deltaLog deltas) n
    rw [hafter] at hsplit
    have hsound := hlog.each _ _ _ hsplit.symm
    have hsecond : d.secondOffset.toNat = n + 1 := by
      obtain ⟨c, -, hc⟩ := List.mem_map.1 hd
      obtain ⟨hoff, rfl⟩ := Prod.mk.inj hc
      exact hoff
    rw [if_pos hbit, hafter, List.map_cons]
    unfold sidesAt DeltaLog.replayTo
    rw [checkSecondDelta_eq hsound hsecond, hupTo, DeltaLog.applyAll_append]
    rfl
  · have hno : ∀ e ∈ deltaLog deltas, e.1 ≠ n + 1 := by
      rintro ⟨s, d⟩ he rfl
      exact hbit ((hlog.bits _).2 ⟨d, he⟩)
    obtain ⟨hafter, hupTo⟩ := DeltaLog.next_of_not_mem hno
    rw [if_neg hbit, hafter]
    unfold sidesAt DeltaLog.replayTo
    rw [hupTo]

theorem checkShown_eq {b : DerivativeMinuteBatch} {m : DerivativeMinute} {sides : PriceMap × PriceMap}
    {second : Nat}
    (h : HasSecond m.validBitmap second → ShownSides m (b.quality.toList.getD second {}) sides) :
    checkShown b m m.storedDepth.toNat sides second = .ok () := by
  unfold checkShown
  split
  · rename_i hvalid
    have hshown := h hvalid
    simp only [Check.seq_eq_ok, Check.wrap_eq_ok, Check.failIf_eq_ok, validateDerivativeSides_eq_ok]
    exact ⟨hshown.valid, fun hbad => hbad.elim (absurd hshown.bidLevels) (absurd hshown.askLevels)⟩
  · rfl

/-- The loop over the seconds reads the whole log. -/
theorem checkSeconds_eq {b : DerivativeMinuteBatch} {m : DerivativeMinute}
    (hlog : SoundDeltas m b.deltas)
    (hshown : ∀ s, HasSecond m.validBitmap s → ShownSides m (b.quality.toList.getD s {})
      (sidesAt m.bids m.asks b.deltas s)) (n : Nat) :
    (List.range' 1 n).foldlM (checkSecond b m m.id m.storedDepth.toNat)
        (b.deltas, derivativeMap m.bids, derivativeMap m.asks) =
      .ok ((DeltaLog.after (deltaLog b.deltas) n).map Prod.snd,
        sidesAt m.bids m.asks b.deltas n) := by
  induction n with
  | zero =>
      obtain ⟨hnil, hself⟩ := DeltaLog.upTo_eq_nil fun e he => (hlog.range e he).1
      unfold sidesAt DeltaLog.replayTo
      rw [hnil, hself, deltaLog, List.map_map]
      simp only [Function.comp_def, List.map_id']
      rfl
  | succ n ih =>
      have hstep : checkSecond b m m.id m.storedDepth.toNat
          ((DeltaLog.after (deltaLog b.deltas) n).map Prod.snd, sidesAt m.bids m.asks b.deltas n)
          (n + 1) =
            .ok ((DeltaLog.after (deltaLog b.deltas) (n + 1)).map Prod.snd,
              sidesAt m.bids m.asks b.deltas (n + 1)) :=
        Check.andThen_eq_ok.2 ⟨_, readSecond_eq hlog n,
          Check.seq_eq_ok.2 ⟨checkShown_eq (hshown (n + 1)), rfl⟩⟩
      rw [List.range'_concat, List.foldlM_append, ih, Nat.one_mul, Nat.add_comm 1 n]
      exact Check.andThen_eq_ok.2 ⟨_, rfl, Check.andThen_eq_ok.2 ⟨_, hstep, rfl⟩⟩

/-! ## The batch -/

/-- A minute with an anchor that the validator accepts. -/
structure SoundMinute (b : DerivativeMinuteBatch) (m : DerivativeMinute) : Prop where
  instrumentID : m.instrumentID = b.instrumentID
  minuteTime : m.minuteTime.Equal b.minuteTime
  signed : m.signed = b.signed
  depth : m.storedDepth.toNat = 5 ∨ m.storedDepth.toNat = 10
  version : m.encodingVersion = derivativeEncodingVersion
  anchor : HasSecond m.validBitmap 0
  valid : ∀ s, HasSecond m.validBitmap s ↔
    ∃ q, b.quality.toList[s]? = some q ∧ q.replayValid = true
  deltaBits : ∀ s, HasSecond m.deltaBitmap s → HasSecond m.validBitmap s
  deltas : SoundDeltas m b.deltas
  anchorShown : DerivativeSides m.bids m.asks m.storedDepth.toNat m.signed
  shown : ∀ s, HasSecond m.validBitmap s → ShownSides m (b.quality.toList.getD s {})
    (sidesAt m.bids m.asks b.deltas s)

theorem SoundMinute.zero_not_delta {b : DerivativeMinuteBatch} {m : DerivativeMinute}
    (h : SoundMinute b m) : ¬ HasSecond m.deltaBitmap 0 := by
  intro hbit
  obtain ⟨d, hd⟩ := (h.deltas.bits 0).1 hbit
  exact absurd (h.deltas.range _ hd).1 (lt_irrefl _)

theorem sidesAt_zero {m : DerivativeMinute} {deltas : List BookDelta} (h : SoundDeltas m deltas) :
    sidesAt m.bids m.asks deltas 0 = anchorSides m.bids m.asks := by
  unfold sidesAt DeltaLog.replayTo
  rw [(DeltaLog.upTo_eq_nil fun e he => (h.range e he).1).1]
  rfl

theorem validateDerivativeMinute_eq_ok {b : DerivativeMinuteBatch} {m : DerivativeMinute}
    (h : SoundMinute b m) :
    validateDerivativeMinute b m m.id (replayBits 0 0#64 b.quality.toList) = .ok () := by
  have hbits : m.validBitmap = replayBits 0 0#64 b.quality.toList := by
    refine bitmap_ext fun s => ?_
    rw [h.valid, hasSecond_replayBits (by simp), or_iff_right hasSecond_zero]
    constructor
    · rintro ⟨q, hq, hv⟩
      exact ⟨s, q, hq, hv, (Nat.zero_add s).symm⟩
    · rintro ⟨j, q, hq, hv, rfl⟩
      rw [Nat.zero_add]
      exact ⟨q, hq, hv⟩
  have hmask : m.validBitmap &&& ~~~minuteMask = 0#64 := by
    refine andNot_eq_zero_iff.2 fun s hs => hasSecond_minuteMask.2 ?_
    obtain ⟨q, hq, -⟩ := (h.valid s).1 hs
    have hlen := (List.getElem?_eq_some_iff.1 hq).1
    rw [Vector.length_toList] at hlen
    omega
  have hsub := andNot_eq_zero_iff.2 h.deltaBits
  have hanchor := h.shown 0 h.anchor
  rw [sidesAt_zero h.deltas] at hanchor
  have hseconds := checkSeconds_eq h.deltas h.shown 59
  have hrest : DeltaLog.after (deltaLog b.deltas) 59 = [] := by
    unfold DeltaLog.after
    rw [List.dropWhile_eq_nil_iff]
    intro e he
    exact decide_eq_true (h.deltas.range e he).2
  simp only [validateDerivativeMinute, Check.seq_eq_ok, Check.failIf_eq_ok,
    validateDerivativeSides_eq_ok]
  refine ⟨?_, ?_, h.anchorShown, ?_, ?_⟩
  · simp [h.instrumentID, h.minuteTime, h.signed, h.version]
    have := h.depth
    omega
  · simp only [ne_eq, not_or, not_not]
    exact ⟨h.anchor, hbits, hmask, not_not.1 h.zero_not_delta, hsub⟩
  · exact fun hbad => hbad.elim (absurd hanchor.bidLevels) (absurd hanchor.askLevels)
  · rw [hseconds, hrest]
    rfl

/-- The batch of a sound minute passes when its qualities do. -/
theorem validateDerivativeBatch_of_sound {b : DerivativeMinuteBatch} {m : DerivativeMinute}
    (hminute : b.minute = some m) (hid : minuteID b.instrumentID b.minuteTime = .ok m.id)
    (htime : ¬ b.minuteTime.IsZero ∧ b.minuteTime.Equal (b.minuteTime.truncate Time.minute))
    (h : SoundMinute b m) :
    validateDerivativeBatch b = .ok () ↔
      ∀ s q, b.quality.toList[s]? = some q → ValidQuality b m.storedDepth.toNat s q := by
  unfold validateDerivativeBatch
  rw [hid, hminute]
  simp only [Check.seq_eq_ok, Check.failIf_eq_ok, not_or, not_not]
  simp only [Check.andThen_eq_ok, checkQualities_eq_ok, Nat.zero_add]
  constructor
  · rintro ⟨-, valid, ⟨hq, -⟩, -⟩
    exact hq
  · intro hq
    exact ⟨htime, _, ⟨hq, rfl⟩, validateDerivativeMinute_eq_ok h⟩

/-- Without an anchor the qualities are all there is to check. -/
theorem validateDerivativeBatch_of_none {b : DerivativeMinuteBatch} {id : UInt64}
    (hminute : b.minute = none) (hid : minuteID b.instrumentID b.minuteTime = .ok id)
    (htime : ¬ b.minuteTime.IsZero ∧ b.minuteTime.Equal (b.minuteTime.truncate Time.minute))
    (hdeltas : b.deltas = []) :
    validateDerivativeBatch b = .ok () ↔
      ∀ s q, b.quality.toList[s]? = some q → ValidQuality b bookDepth s q := by
  unfold validateDerivativeBatch
  rw [hid, hminute]
  simp only [Check.seq_eq_ok, Check.failIf_eq_ok, not_or, not_not, hdeltas]
  simp only [Check.andThen_eq_ok, checkQualities_eq_ok, Nat.zero_add]
  constructor
  · rintro ⟨-, valid, ⟨hq, -⟩, -⟩
    exact hq
  · intro hq
    refine ⟨htime, _, ⟨hq, rfl⟩, ?_⟩
    rw [Check.failIf_eq_ok, not_or, not_not, not_not]
    refine ⟨rfl, bitmap_ext fun s => ?_⟩
    -- an unanchored quality is never replay-valid
    rw [hasSecond_replayBits (by simp)]
    refine or_iff_left ?_
    rintro ⟨j, q, hj, hv, -⟩
    have := ((hq j q hj).replayValid.1 hv).2.2.2.1
    rw [hminute] at this
    cases this

/-! ## Replay -/

/-- Replay of a second that is not replay-valid. -/
theorem replayDerivative_of_invalid {b : DerivativeMinuteBatch} {second : UInt8}
    {q : DerivativeQuality} (hs : second.toNat ≤ 59) (hb : validateDerivativeBatch b = .ok ())
    (hq : b.quality.toList[second.toNat]? = some q) (hv : q.replayValid = false) :
    ∃ r, replayDerivative b second = .ok r ∧ r.quality = q ∧ r.snapshot = .none := by
  have hmax : ¬ 59 < second := by
    rw [UInt8.not_lt, UInt8.le_iff_toNat_le]
    exact hs
  have hget : b.quality.toList.getD second.toNat {} = q := by
    rw [List.getD_eq_getElem?_getD, hq, Option.getD_some]
  unfold replayDerivative
  simp only [Check.seq_eq_ok, Check.failIf_eq_ok, hb, hget, hv]
  exact ⟨_, ⟨hmax, trivial, rfl⟩, rfl, rfl⟩

/-- Replay of a second that is: the sides of the log at that second. -/
theorem replayDerivative_of_valid {b : DerivativeMinuteBatch} {m : DerivativeMinute}
    {second : UInt8} {q : DerivativeQuality} (hs : second.toNat ≤ 59)
    (hb : validateDerivativeBatch b = .ok ()) (hm : b.minute = some m) (h : SoundMinute b m)
    (hq : b.quality.toList[second.toNat]? = some q) (hv : q.replayValid = true) :
    ∃ r, replayDerivative b second = .ok r ∧ r.quality = q ∧
      r.snapshot =
        { instrumentID := b.instrumentID, sourceTime := q.sourceTime, receivedAt := q.receivedAt,
          epoch := q.epoch, changeID := q.changeID,
          bids := listing true (sidesAt m.bids m.asks b.deltas second.toNat).1,
          asks := listing false (sidesAt m.bids m.asks b.deltas second.toNat).2 } := by
  have hmax : ¬ 59 < second := by
    rw [UInt8.not_lt, UInt8.le_iff_toNat_le]
    exact hs
  have hget : b.quality.toList.getD second.toNat {} = q := by
    rw [List.getD_eq_getElem?_getD, hq, Option.getD_some]
  have hclean : DeltaLog.Each (CleanDelta b.signed) applyDelta (anchorSides m.bids m.asks)
      (deltaLog b.deltas) := by
    intro front e back hsplit
    rw [← h.signed]
    exact (h.deltas.each front e back hsplit).clean
  have hsides : replayDerivativeFrom b.signed second (derivativeMap m.bids, derivativeMap m.asks)
      b.deltas = sidesAt m.bids m.asks b.deltas second.toNat := replayDerivativeFrom_eq hclean
  unfold replayDerivative
  simp only [Check.seq_eq_ok, Check.failIf_eq_ok, hb, hget, hv, hm, hsides]
  exact ⟨_, ⟨hmax, trivial, rfl⟩, rfl, rfl⟩

end MarketInfo
