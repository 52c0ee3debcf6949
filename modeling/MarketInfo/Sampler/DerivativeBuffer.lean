import MarketInfo.Replay.Derivative

/-! # The derivative minute buffer

`sampler.DerivativeMinuteBuffer` takes the sixty seconds of a minute in order,
each with its quality. The minute is anchored by a valid second zero; a later
valid second is recorded by its changes, and without an anchor only its quality
is kept.
-/

namespace MarketInfo

open Listing PriceMap

/-! ## Definitions -/

structure DerivativeMinuteBuffer where
  batch : DerivativeMinuteBatch
  next : Nat
  last : DerivativeSnapshot
  depth : Nat

/-- The quality is of a replayable book. -/
@[reducible] def DerivativeQuality.Valid (q : DerivativeQuality) : Prop :=
  q.streamValid = true ∧ q.marketKnown = true ∧ q.reason = DerivativeReason.ok

/-- The quality with the reason an unknown market gives it. -/
def DerivativeQuality.withMarket (q : DerivativeQuality) : DerivativeQuality :=
  if q.streamValid = true ∧ q.marketKnown = false then
    { q with reason := DerivativeReason.metadataUncertain }
  else q

namespace DerivativeMinuteBuffer

/-- `NewDerivativeMinuteBufferWithDepth`. -/
def new (id : UInt32) (minute : Time) (signed : Bool) (depth : Nat) :
    Except String DerivativeMinuteBuffer := do
  Check.failIf (depth ≠ 5 ∧ depth ≠ 10) "derivative sampling depth must be 5 or 10"
  Check.failIf (minute.IsZero ∨ ¬ minute.Equal (minute.truncate Time.minute)) "exact minute required"
  let _ ← minuteID id minute
  return { batch := { instrumentID := id, minuteTime := minute.utc, signed, minute := none,
                      deltas := [], quality := Vector.replicate 60 {} },
           next := 0, last := .none, depth }

/-- The snapshot of a stream-valid sample. -/
def checkSnapshot (b : DerivativeMinuteBuffer) (sampleAt : Time) (s : DerivativeSnapshot)
    (q : DerivativeQuality) : Except String Unit :=
  if q.streamValid = true then do
    Check.failIf (s.instrumentID ≠ b.batch.instrumentID) "snapshot identity mismatch"
    s.validate b.depth b.batch.signed
    Check.failIf (s.receivedAt.After sampleAt ∨ ¬ s.sourceTime.Equal q.sourceTime ∨
        ¬ s.receivedAt.Equal q.receivedAt ∨ s.epoch ≠ q.epoch ∨ s.changeID ≠ q.changeID ∨
        q.bidLevels.toNat ≠ s.bids.length ∨ q.askLevels.toNat ≠ s.asks.length)
      "snapshot and quality are different versions"
  else .ok ()

/-- The checks of `Sample`. -/
def checkSample (b : DerivativeMinuteBuffer) (sampleAt : Time) (s : DerivativeSnapshot)
    (q : DerivativeQuality) : Except String Unit := do
  Check.failIf (60 ≤ b.next ∨ ¬ sampleAt.Equal (b.batch.minuteTime.add (b.next * Time.second)))
    "samples must be exact consecutive seconds"
  Check.failIf (q.replayValid = true) "replay validity is derived by minute buffer"
  Check.failIf (q.sampled = true ∧ (q.capturedAt.Before sampleAt ∨
      q.capturedAt.After (sampleAt.add (250 * Time.millisecond))))
    "sample outside cutoff completion deadline"
  Check.failIf (q.sampled = false ∧ q.streamValid = true) "unsampled state cannot be stream-valid"
  Check.checkAll (fun t => Check.failIf (t.After sampleAt) "quality contains future state")
    q.knownTimes
  b.checkSnapshot sampleAt s q

/-- The minute second zero anchors. Its id was checked when the buffer was made. -/
def anchorMinute (b : DerivativeMinuteBuffer) (s : DerivativeSnapshot) : DerivativeMinute :=
  { id := match minuteID b.batch.instrumentID b.batch.minuteTime with
      | .ok id => id
      | .error _ => 0
    instrumentID := b.batch.instrumentID
    minuteTime := b.batch.minuteTime
    encodingVersion := derivativeEncodingVersion
    storedDepth := UInt8.ofNat b.depth
    signed := b.batch.signed
    validBitmap := 0#64
    deltaBitmap := 0#64
    bids := s.bids
    asks := s.asks }

/-- The changes from the last valid snapshot. -/
def changesTo (b : DerivativeMinuteBuffer) (id : UInt64) (s : DerivativeSnapshot) : BookDelta :=
  { minuteID := id
    secondOffset := UInt8.ofNat b.next
    bidChangePrice := (changes b.last.bids s.bids true).1
    bidChangeQty := (changes b.last.bids s.bids true).2
    askChangePrice := (changes b.last.asks s.asks false).1
    askChangeQty := (changes b.last.asks s.asks false).2 }

/-- A valid second of an anchored minute. -/
def recordValid (b : DerivativeMinuteBuffer) (m : DerivativeMinute) (s : DerivativeSnapshot) :
    DerivativeMinuteBuffer :=
  let m := { m with validBitmap := m.validBitmap ||| (1#64 <<< b.next) }
  let d := b.changesTo m.id s
  if 0 < b.next ∧ 0 < d.bidChangePrice.length + d.askChangePrice.length then
    { b with
      batch := { b.batch with
        minute := some { m with deltaBitmap := m.deltaBitmap ||| (1#64 <<< b.next) }
        deltas := b.batch.deltas ++ [d] }
      last := s }
  else { b with batch := { b.batch with minute := some m }, last := s }

/-- `b.batch.Quality[b.next] = q; b.next++`. -/
def push (b : DerivativeMinuteBuffer) (q : DerivativeQuality) : DerivativeMinuteBuffer :=
  { b with
    batch := { b.batch with quality := b.batch.quality.setIfInBounds b.next q }
    next := b.next + 1 }

/-- What `Sample` does once its checks have passed. -/
def record (b : DerivativeMinuteBuffer) (s : DerivativeSnapshot) (q : DerivativeQuality) :
    DerivativeMinuteBuffer :=
  if q.Valid then
    match if b.next = 0 then some (b.anchorMinute s) else b.batch.minute with
    | some m => (b.recordValid m s).push { q.withMarket with replayValid := true }
    | none => b.push { q.withMarket with reason := DerivativeReason.anchorMissing }
  else b.push q.withMarket

/-- A sample that fails a check changes nothing. -/
def sample (b : DerivativeMinuteBuffer) (sampleAt : Time) (s : DerivativeSnapshot)
    (q : DerivativeQuality) : Except String DerivativeMinuteBuffer := do
  b.checkSample sampleAt s q
  return b.record s q

def complete (b : DerivativeMinuteBuffer) : Except String DerivativeMinuteBatch := do
  Check.failIf (b.next ≠ 60) "minute requires all 60 quality slots"
  return b.batch

/-! ## What the checks say -/

/-- An accepted sample of second `i`. -/
structure Accepts (b : DerivativeMinuteBuffer) (i : Nat) (s : DerivativeSnapshot)
    (q : DerivativeQuality) : Prop where
  notReplayValid : q.replayValid = false
  captured : q.sampled = true →
    ¬ q.capturedAt.Before (b.batch.minuteTime.add (i * Time.second)) ∧
    ¬ q.capturedAt.After ((b.batch.minuteTime.add (i * Time.second)).add (250 * Time.millisecond))
  unsampled : q.sampled = false → q.streamValid = false
  past : ∀ t ∈ q.knownTimes, ¬ t.After (b.batch.minuteTime.add (i * Time.second))
  instrumentID : q.streamValid = true → s.instrumentID = b.batch.instrumentID
  sides : q.streamValid = true → DerivativeSides s.bids s.asks b.depth b.batch.signed
  sourceTime : q.streamValid = true → ¬ q.sourceTime.IsZero ∧ s.sourceTime.Equal q.sourceTime
  receivedAt : q.streamValid = true → ¬ q.receivedAt.IsZero ∧ s.receivedAt.Equal q.receivedAt
  epoch : q.streamValid = true → q.epoch ≠ 0 ∧ s.epoch = q.epoch
  changeID : q.streamValid = true → s.changeID = q.changeID
  bidLevels : q.streamValid = true → q.bidLevels.toNat = s.bids.length
  askLevels : q.streamValid = true → q.askLevels.toNat = s.asks.length

theorem checkSample_ok {b : DerivativeMinuteBuffer} {sampleAt : Time} {s : DerivativeSnapshot}
    {q : DerivativeQuality} (h : b.checkSample sampleAt s q = .ok ()) :
    b.next < 60 ∧ b.Accepts b.next s q := by
  simp only [checkSample, Check.seq_eq_ok, Check.failIf_eq_ok, Check.checkAll_eq_ok, not_or,
    Nat.not_le, not_not] at h
  obtain ⟨⟨hnext, htime⟩, hreplay, hcap, hun, hpast, hsnap⟩ := h
  have hadd : ∀ d, (sampleAt.add d).unixNano =
      ((b.batch.minuteTime.add (b.next * Time.second)).add d).unixNano := by
    intro d
    rw [Time.add_unixNano, Time.add_unixNano, htime]
  have hstream : q.streamValid = true →
      (s.instrumentID ≠ 0 ∧ ¬ s.sourceTime.IsZero ∧ ¬ s.receivedAt.IsZero ∧ s.epoch ≠ 0) ∧
        s.instrumentID = b.batch.instrumentID ∧
        DerivativeSides s.bids s.asks b.depth b.batch.signed ∧
        s.sourceTime.Equal q.sourceTime ∧ s.receivedAt.Equal q.receivedAt ∧ s.epoch = q.epoch ∧
        s.changeID = q.changeID ∧ q.bidLevels.toNat = s.bids.length ∧
        q.askLevels.toNat = s.asks.length := by
    intro hs
    unfold checkSnapshot at hsnap
    rw [if_pos hs] at hsnap
    simp only [DerivativeSnapshot.validate, Check.seq_eq_ok, Check.failIf_eq_ok,
      validateDerivativeSides_eq_ok, not_or, ne_eq, not_not] at hsnap
    obtain ⟨hid, ⟨hprov, hsides⟩, -, hsource, hrec, hepoch, hchange, hbl, hal⟩ := hsnap
    exact ⟨hprov, hid, hsides, hsource, hrec, hepoch, hchange, hbl, hal⟩
  refine ⟨hnext, ⟨by simpa using hreplay, ?_, ?_, ?_, fun hs => (hstream hs).2.1,
    fun hs => (hstream hs).2.2.1, ?_, ?_, ?_, fun hs => (hstream hs).2.2.2.2.2.2.1,
    fun hs => (hstream hs).2.2.2.2.2.2.2.1, fun hs => (hstream hs).2.2.2.2.2.2.2.2⟩⟩
  · intro hs
    rw [not_and, not_or] at hcap
    obtain ⟨hbefore, hafter⟩ := hcap hs
    exact ⟨fun hb => hbefore (hb.trans_eq htime.symm), fun ha => hafter ((hadd _).trans_lt ha)⟩
  · intro hs
    rw [not_and] at hun
    simpa using hun hs
  · intro t ht ha
    exact hpast t ht (htime.trans_lt ha)
  · intro hs
    obtain ⟨⟨-, hzero, -, -⟩, -, -, heq, -⟩ := hstream hs
    exact ⟨fun hz => hzero (heq.trans hz), heq⟩
  · intro hs
    obtain ⟨⟨-, -, hzero, -⟩, -, -, -, heq, -⟩ := hstream hs
    exact ⟨fun hz => hzero (heq.trans hz), heq⟩
  · intro hs
    obtain ⟨⟨-, -, -, hzero⟩, -, -, -, -, heq, -⟩ := hstream hs
    exact ⟨heq ▸ hzero, heq⟩

end DerivativeMinuteBuffer

end MarketInfo
