import MarketInfo.Codec.BookDelivery
import MarketInfo.Sampler.RoundTrip

/-! # The sampling engine

`sampler.Engine` reads every source once a second into the buffer of its minute. With the first
second of a later minute it queues the completed one for the writer, which hands it to the sink.
-/

namespace MarketInfo.Sampler

open Codec (CompletedMinute ceilMilliseconds)
open Listing (sortBy)

/-- `sampler.Source`; `book` tells whether there is a book to read. -/
structure Source where
  instrumentID : UInt32
  book : Bool := true
  storedDepth : Nat
deriving DecidableEq

structure QueuedMinute where
  completed : CompletedMinute
  enqueuedAt : Time
  weight : Nat

/-- What the engine reports. -/
inductive Failure
  | text (e : String)
  | backlog (minute : Time)
  | weightedQueueFull (pending incoming capacity : Nat)
  | instrument (id : UInt32) (e : String)
  | missed (id : UInt32) (e : String)
deriving DecidableEq

/-- `MaxMinuteBacklog`. -/
def maxMinuteBacklog : Int := 45 * Time.second

/-- The engine; the lengths of its samples and writes are left out. -/
structure Engine where
  sources : List Source
  /-- The channel to the writer. -/
  queue : List QueuedMinute := []
  minute : Time := .zero
  buffers : UInt32 → Option MinuteBuffer := fun _ => none
  capacity : Nat
  pendingWeight : Nat := 0
  peakWeight : Nat := 0
  /-- When each unwritten minute was queued. -/
  pending : AList fun _ : Time => Time := ∅
  failure : Option Failure := none
  sampleCount : Nat := 0
  sampleOverruns : Nat := 0
  missedSamples : Nat := 0
  lastOverrunAt : Time := .zero
  lastOverrunID : UInt32 := 0
  pendingSources : List Source := []
  sourcesAt : Time := .zero

/-! ## Sources -/

/-- Zero is the depth of ten levels. -/
def Source.withDepth (s : Source) : Source :=
  if s.storedDepth = 0 then { s with storedDepth := bookDepth } else s

def sortSources (sources : List Source) : List Source :=
  sortBy (fun a b => decide (a.instrumentID < b.instrumentID)) sources

/-- The loop of `NewEngine` over the sources, with the ids seen so far. -/
def checkSources (seen : List UInt32) : List Source → Except String Unit
  | [] => .ok ()
  | s :: rest => do
      Check.failIf (s.storedDepth ≠ 5 ∧ s.storedDepth ≠ 10) "unsupported sample depth"
      Check.failIf (s.instrumentID = 0 ∨ s.book = false) "sampler source is invalid"
      Check.failIf (s.instrumentID ∈ seen) s!"duplicate sampler instrument {s.instrumentID}"
      checkSources (s.instrumentID :: seen) rest

/-- `NewEngine`, of a sink that is there. -/
def Engine.new (sources : List Source) (queueCapacity : Int) : Except String Engine := do
  Check.failIf (sources = []) "sampler requires sources and a minute sink"
  let queueCapacity := if queueCapacity ≤ 0 then max 512 (2 * sources.length) else queueCapacity.toNat
  Check.failIf (queueCapacity < 2 * sources.length)
    s!"minute queue capacity {queueCapacity} cannot hold two complete minutes of {sources.length} sources"
  let sources := sources.map Source.withDepth
  checkSources [] sources
  return { sources := sortSources sources, capacity := queueCapacity }

/-- The loop of `ScheduleSources` over the sources, with the ids seen so far. -/
def checkScheduled (seen : List UInt32) : List Source → Except String Unit
  | [] => .ok ()
  | s :: rest => do
      Check.failIf (s.instrumentID = 0 ∨ s.book = false ∨ s.instrumentID ∈ seen ∨
        (s.storedDepth ≠ 5 ∧ s.storedDepth ≠ 10)) "invalid scheduled source"
      checkScheduled (s.instrumentID :: seen) rest

/-! ## A second -/

namespace Engine

/-- `failLocked`: an unfinished minute is never flushed after a failure. -/
def fail (e : Engine) (err : Failure) : Engine × Except Failure Unit :=
  ({ e with failure := some err, buffers := fun _ => none }, .error err)

/-- `e.buffers[id].Sample(...)`. -/
def sampleInto (e : Engine) (time : Time) (s : Source) (snapshot : BookSnapshot) (valid : Bool) :
    Engine × Except String Unit :=
  match e.buffers s.instrumentID with
  | none => (e, .error "minute buffer is nil")
  | some b => ({ e with buffers := Function.update e.buffers s.instrumentID (some (b.sample time snapshot valid).1) },
      (b.sample time snapshot valid).2)

/-- The loop of `markOverrunLocked`. -/
def markMissed (time : Time) : List Source → Engine → Engine × Except Failure Unit
  | [], e => (e, .ok ())
  | s :: rest, e =>
      match e.sampleInto time s .none false with
      | (e, .error err) => e.fail (.missed s.instrumentID err)
      | (e, .ok ()) => markMissed time rest e

/-- `markOverrunLocked`. -/
def markOverrun (e : Engine) (time : Time) (firstMissed : Nat) : Engine × Except Failure Unit :=
  match markMissed time (e.sources.drop firstMissed) e with
  | (e, .error err) => (e, .error err)
  | (e, .ok ()) =>
      ({ e with
          sampleOverruns := e.sampleOverruns + 1
          missedSamples := e.missedSamples + (e.sources.length - firstMissed)
          lastOverrunAt := time
          lastOverrunID := ((e.sources[firstMissed]?).map Source.instrumentID).getD 0
          sampleCount := e.sampleCount + 1 }, .ok ())

/-- What one call of `sampleBefore` sees: the readings of the clock, and the books. -/
structure Readings where
  /-- At the check of a pending minute. -/
  backlog : Time → Time
  known : Time
  enqueuedAt : Time
  beforeLoop : Time
  /-- After the snapshot of the source of the index. -/
  afterSnapshot : Nat → Time
  books : Nat → BookSnapshot × Bool

/-- The loop over the sources. -/
def sampleSources (time deadline : Time) (r : Readings) : Nat → List Source → Engine → Engine × Except Failure Unit
  | _, [], e => ({ e with sampleCount := e.sampleCount + 1 }, .ok ())
  | index, s :: rest, e =>
      if ¬ (r.afterSnapshot index).Before deadline then e.markOverrun time index
      else
        match e.sampleInto time s (r.books index).1 (r.books index).2 with
        | (e, .error err) => e.fail (.instrument s.instrumentID err)
        | (e, .ok ()) => sampleSources time deadline r (index + 1) rest e

/-- What is completed of the minute. -/
def batches (e : Engine) : List MinuteBatch :=
  e.sources.filterMap fun s => (e.buffers s.instrumentID).bind MinuteBuffer.batch

/-- `enqueueCompletedLocked`. -/
def enqueueCompleted (e : Engine) (known enqueuedAt : Time) : Except Failure Engine :=
  let completed := ⟨e.minute, Int64.ofInt (ceilMilliseconds known.utc), e.batches⟩
  let weight := max 1 e.batches.length
  if e.capacity < e.pendingWeight + weight then
    .error (.weightedQueueFull e.pendingWeight weight e.capacity)
  else if e.queue.length < 2 then
    .ok { e with
      queue := e.queue ++ [⟨completed, enqueuedAt, weight⟩]
      pendingWeight := e.pendingWeight + weight
      peakWeight := max e.peakWeight (e.pendingWeight + weight)
      pending := e.pending.insert e.minute enqueuedAt }
  else .error (.text "minute writer queue full: two completed minutes already queued")

/-- A buffer for each source. -/
def openBuffers (minute : Time) : List Source → (UInt32 → Option MinuteBuffer) →
    (UInt32 → Option MinuteBuffer) × Except String Unit
  | [], buffers => (buffers, .ok ())
  | s :: rest, buffers =>
      match MinuteBuffer.new s.instrumentID minute s.storedDepth with
      | .error err => (buffers, .error err)
      | .ok b => openBuffers minute rest (Function.update buffers s.instrumentID (some b))

/-- The sources that were scheduled for the minute take over. -/
def switchSources (e : Engine) (minute : Time) : Engine :=
  if ¬ e.sourcesAt.IsZero ∧ ¬ minute.Before e.sourcesAt then
    { e with sources := e.pendingSources, pendingSources := [], sourcesAt := .zero }
  else e

/-- A minute starts, after the one before it is queued. -/
def startMinute (e : Engine) (minute : Time) (r : Readings) : Engine × Except Failure Unit :=
  match if e.minute.IsZero then .ok e else e.enqueueCompleted r.known r.enqueuedAt with
  | .error err => e.fail err
  | .ok e =>
      let e := e.switchSources minute
      match openBuffers minute e.sources fun _ => none with
      | (buffers, .error err) => ({ e with minute := minute, buffers := buffers }, .error (.text err))
      | (buffers, .ok ()) => ({ e with minute := minute, buffers := buffers }, .ok ())

/-- A second of the minute that has started. -/
def takeSecond (e : Engine) (time deadline : Time) (r : Readings) : Engine × Except Failure Unit :=
  if ¬ r.beforeLoop.Before deadline then e.markOverrun time 0
  else sampleSources time deadline r 0 e.sources e

/-- `sampleBefore`. -/
def sampleBefore (e : Engine) (time deadline : Time) (r : Readings) : Engine × Except Failure Unit :=
  let time := time.utc.truncate Time.second
  match e.failure with
  | some err => (e, .error err)
  | none =>
      match e.pending.entries.find? fun p => maxMinuteBacklog ≤ (r.backlog p.1).unixNano - p.2.unixNano with
      | some p => e.fail (.backlog p.1)
      | none =>
          let minute := time.truncate Time.minute
          if ¬ e.minute.IsZero ∧ minute.Before e.minute then e.fail (.text "sample clock moved backwards")
          else if e.minute.IsZero ∨ minute.After e.minute then
            match e.startMinute minute r with
            | (e, .error err) => (e, .error err)
            | (e, .ok ()) => e.takeSecond time deadline r
          else e.takeSecond time deadline r

/-- `flushIfCompleted`. -/
def flushIfCompleted (e : Engine) (now known enqueuedAt : Time) : Engine × Except Failure Unit :=
  if ¬ e.minute.IsZero ∧ (now.utc.truncate Time.minute).After e.minute then
    match e.failure with
    | some err => (e, .error err)
    | none =>
        match e.enqueueCompleted known enqueuedAt with
        | .error err => (e, .error err)
        | .ok e => ({ e with minute := .zero, buffers := fun _ => none }, .ok ())
  else (e, .ok ())

/-- `ScheduleSources`. -/
def scheduleSources (e : Engine) (sources : List Source) (time now : Time) : Engine × Except Failure Unit :=
  if time.IsZero ∨ ¬ time.Equal (time.utc.truncate Time.minute) then
    (e, .error (.text "source switch requires exact UTC minute"))
  else
    let sources := sources.map Source.withDepth
    match checkScheduled [] sources with
    | .error err => (e, .error (.text err))
    | .ok () =>
        match e.failure with
        | some err => (e, .error err)
        | none =>
            if time.unixNano ≤ e.minute.unixNano ∨ time.unixNano ≤ (now.utc.truncate Time.minute).unixNano ∨
                ¬ e.sourcesAt.IsZero ∨ e.capacity < 2 * sources.length then
              (e, .error (.text "source switch violates time/pending/capacity boundary"))
            else ({ e with pendingSources := sortSources sources, sourcesAt := time.utc }, .ok ())

end Engine

end MarketInfo.Sampler
