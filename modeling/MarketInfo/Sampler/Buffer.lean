import MarketInfo.Sampler.Changes

/-! # The minute buffer

`sampler.MinuteBuffer`: it is anchored by a valid sample of second zero and then
records each later valid sample by its difference to the last one.
-/

namespace MarketInfo

/-! ## Definitions -/

/-- `model.BookSnapshot{}`. -/
def BookSnapshot.none : BookSnapshot :=
  { instrumentID := 0, sourceTime := Time.zero, sequence := 0, bids := [], asks := [] }

structure MinuteBuffer where
  instrumentID : UInt32
  depth : Nat
  minuteTime : Time
  minuteID : UInt64
  anchored : Bool
  sampled : BitVec 64
  valid : BitVec 64
  initial : BookSnapshot
  lastValid : BookSnapshot
  deltas : List BookDelta

def diff (minuteID : UInt64) (second : UInt8) (previous current : BookSnapshot) : BookDelta :=
  { minuteID
    secondOffset := second
    bidChangePrice := (changes previous.bids current.bids true).1
    askChangePrice := (changes previous.asks current.asks false).1
    bidChangeQty := (changes previous.bids current.bids true).2
    askChangeQty := (changes previous.asks current.asks false).2 }

/-- The second of the minute a sample falls into. -/
def sampleSecond (sampleTime : Time) : Nat := (sampleTime.utc.truncate Time.second).secondOf.toNat

/-- The minute a sample falls into. -/
def sampleMinute (sampleTime : Time) : Time :=
  (sampleTime.utc.truncate Time.second).truncate Time.minute

namespace MinuteBuffer

/-- `NewMinuteBufferWithDepth`. -/
def new (instrumentID : UInt32) (minuteTime : Time) (depth : Nat) : Except String MinuteBuffer := do
  Check.failIf (depth ≠ 5 ∧ depth ≠ 10) "sampling depth must be 5 or 10"
  let minuteTime := minuteTime.utc
  Check.failIf (¬ minuteTime.Equal (minuteTime.truncate Time.minute))
    "minute buffer time must be truncated to UTC minute"
  let id ← MarketInfo.minuteID instrumentID minuteTime
  return { instrumentID, depth, minuteTime, minuteID := id, anchored := false, sampled := 0#64,
           valid := 0#64, initial := .none, lastValid := .none, deltas := [] }

def sample (b : MinuteBuffer) (sampleTime : Time) (snapshot : BookSnapshot) (valid : Bool) :
    MinuteBuffer × Except String Unit :=
  if ¬ (sampleMinute sampleTime).Equal b.minuteTime then (b, .error "sample is outside minute buffer")
  else
    let offset := sampleSecond sampleTime
    if HasSecond b.sampled offset then (b, .error s!"second {offset} was already sampled")
    else
      let b := { b with sampled := b.sampled ||| (1#64 <<< offset) }
      if valid = false then (b, .ok ())
      else if snapshot.instrumentID ≠ b.instrumentID then (b, .error "sample instrument mismatch")
      else
        match snapshot.validate b.depth with
        | .error e => (b, .error e)
        | .ok () =>
            if offset = 0 then
              ({ b with anchored := true, initial := snapshot, lastValid := snapshot,
                        valid := b.valid ||| (1#64 <<< offset) }, .ok ())
            else if b.anchored = false then (b, .ok ())
            else
              let delta := diff b.minuteID (UInt8.ofNat offset) b.lastValid snapshot
              let deltas :=
                if 0 < delta.bidChangePrice.length ∨ 0 < delta.askChangePrice.length then
                  b.deltas ++ [delta]
                else b.deltas
              ({ b with deltas, lastValid := snapshot, valid := b.valid ||| (1#64 <<< offset) },
                .ok ())

/-- The minute of the batch. -/
def minute (b : MinuteBuffer) : MinuteBook :=
  { id := b.minuteID, instrumentID := b.instrumentID, minuteTime := b.minuteTime,
    validBitmap := b.valid, storedDepth := UInt8.ofNat b.depth, bids := pack b.initial.bids,
    asks := pack b.initial.asks }

def batch (b : MinuteBuffer) : Option MinuteBatch :=
  if b.anchored = false then none else some { minute := b.minute, deltas := b.deltas }

/-! ## What a sample does -/

/-- A sample the buffer takes for a valid book of its instrument. -/
@[reducible] def Accepts (b : MinuteBuffer) (snapshot : BookSnapshot) (valid : Bool) : Prop :=
  valid = true ∧ snapshot.instrumentID = b.instrumentID ∧ snapshot.validate b.depth = .ok ()

variable {b : MinuteBuffer} {sampleTime : Time} {snapshot : BookSnapshot} {valid : Bool}

/-- What samples never change. -/
structure SameMinute (b b' : MinuteBuffer) : Prop where
  instrumentID : b'.instrumentID = b.instrumentID
  depth : b'.depth = b.depth
  minuteTime : b'.minuteTime = b.minuteTime
  minuteID : b'.minuteID = b.minuteID

/-- A sample that is not of a valid book marks its second and nothing else. -/
theorem sample_of_not_accepts (hmin : (sampleMinute sampleTime).Equal b.minuteTime)
    (hnew : ¬ HasSecond b.sampled (sampleSecond sampleTime)) (hno : ¬ b.Accepts snapshot valid) :
    (b.sample sampleTime snapshot valid).1 =
      { b with sampled := b.sampled ||| (1#64 <<< sampleSecond sampleTime) } := by
  unfold sample
  rw [if_neg (not_not.2 hmin)]
  simp only [hnew, if_false]
  split
  · rfl
  · rename_i hv
    split
    · rfl
    · rename_i hid
      cases hval : snapshot.validate b.depth with
      | error e => rfl
      | ok => exact absurd ⟨by simpa using hv, not_not.1 hid, hval⟩ hno

/-- The anchor. -/
theorem sample_zero (hmin : (sampleMinute sampleTime).Equal b.minuteTime)
    (hnew : ¬ HasSecond b.sampled (sampleSecond sampleTime)) (hacc : b.Accepts snapshot valid)
    (hzero : sampleSecond sampleTime = 0) :
    (b.sample sampleTime snapshot valid).1 =
      { b with
        sampled := b.sampled ||| (1#64 <<< sampleSecond sampleTime)
        anchored := true
        initial := snapshot
        lastValid := snapshot
        valid := b.valid ||| (1#64 <<< sampleSecond sampleTime) } := by
  obtain ⟨hv, hid, hval⟩ := hacc
  unfold sample
  rw [if_neg (not_not.2 hmin)]
  dsimp only
  rw [if_neg hnew, if_neg (by simp [hv]), if_neg (not_not.2 hid), hval]
  dsimp only
  rw [if_pos hzero]

/-- A valid sample of an unanchored minute is dropped. -/
theorem sample_unanchored (hmin : (sampleMinute sampleTime).Equal b.minuteTime)
    (hnew : ¬ HasSecond b.sampled (sampleSecond sampleTime)) (hacc : b.Accepts snapshot valid)
    (hpos : sampleSecond sampleTime ≠ 0) (hanch : b.anchored = false) :
    (b.sample sampleTime snapshot valid).1 =
      { b with sampled := b.sampled ||| (1#64 <<< sampleSecond sampleTime) } := by
  obtain ⟨hv, hid, hval⟩ := hacc
  unfold sample
  rw [if_neg (not_not.2 hmin)]
  dsimp only
  rw [if_neg hnew, if_neg (by simp [hv]), if_neg (not_not.2 hid), hval]
  dsimp only
  rw [if_neg hpos, if_pos hanch]

/-- A later valid sample is recorded by its difference. -/
theorem sample_later (hmin : (sampleMinute sampleTime).Equal b.minuteTime)
    (hnew : ¬ HasSecond b.sampled (sampleSecond sampleTime)) (hacc : b.Accepts snapshot valid)
    (hpos : sampleSecond sampleTime ≠ 0) (hanch : b.anchored = true) :
    (b.sample sampleTime snapshot valid).1 =
      { b with
        sampled := b.sampled ||| (1#64 <<< sampleSecond sampleTime)
        deltas :=
          if (changes b.lastValid.bids snapshot.bids true).1 = [] ∧
              (changes b.lastValid.asks snapshot.asks false).1 = [] then b.deltas
          else b.deltas ++
            [diff b.minuteID (UInt8.ofNat (sampleSecond sampleTime)) b.lastValid snapshot]
        lastValid := snapshot
        valid := b.valid ||| (1#64 <<< sampleSecond sampleTime) } := by
  obtain ⟨hv, hid, hval⟩ := hacc
  unfold sample
  rw [if_neg (not_not.2 hmin)]
  dsimp only
  rw [if_neg hnew, if_neg (by simp [hv]), if_neg (not_not.2 hid), hval]
  dsimp only
  rw [if_neg hpos, if_neg (by simp [hanch])]
  by_cases hsame : (changes b.lastValid.bids snapshot.bids true).1 = [] ∧
      (changes b.lastValid.asks snapshot.asks false).1 = []
  · rw [if_pos hsame, if_neg]
    simp [diff, hsame.1, hsame.2]
  · rw [if_neg hsame, if_pos]
    rw [not_and_or] at hsame
    exact hsame.imp List.length_pos_iff.2 List.length_pos_iff.2

/-- A rejected time or second changes nothing. -/
theorem sample_rejected (h : ¬ (sampleMinute sampleTime).Equal b.minuteTime ∨
      HasSecond b.sampled (sampleSecond sampleTime)) :
    (b.sample sampleTime snapshot valid).1 = b := by
  unfold sample
  split
  · rfl
  · rename_i hmin
    rw [if_pos (h.resolve_left (by simpa using hmin))]

end MinuteBuffer

end MarketInfo
