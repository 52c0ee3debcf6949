import MarketInfo.Lib.Transition
import MarketInfo.Sampler.Engine

/-! # From the engine to the sink

The sampling loop, the writer and whoever schedules sources take their steps in any order, under any
clock. What is queued is written in order and at most once, and the pending weight is that of the
minutes not written yet.
-/

namespace MarketInfo.Sampler

open Listing (Sorted)

/-! ## The system -/

/-- The engine with its writer, and what has become of the queued minutes. -/
structure Handover where
  engine : Engine
  /-- What the writer holds. -/
  writing : Option QueuedMinute := none
  writerStopped : Bool := false
  /-- The sampling loop has returned. -/
  stopped : Bool := false
  /-- Given to the sink, in order. -/
  handed : List QueuedMinute := []
  /-- Written, in order. -/
  settled : List QueuedMinute := []

namespace Handover

/-- What is queued and not written. -/
def unwritten (s : Handover) : List QueuedMinute := s.writing.toList ++ s.engine.queue

/-- All that was queued, in order. -/
def queued (s : Handover) : List QueuedMinute := s.settled ++ s.unwritten

end Handover

inductive Event
  | sample (time deadline : Time) (r : Engine.Readings)
  | flush (now known enqueuedAt : Time)
  | schedule (sources : List Source) (time now : Time)
  /-- The writer takes the next minute. -/
  | take (now : Time)
  /-- The sink has taken the minute. -/
  | written (now : Time)
  | writeFailed
  /-- The loop learns that the writer has stopped. -/
  | halt

def QueuedMinute.deadline (q : QueuedMinute) : Time := q.enqueuedAt.add maxMinuteBacklog

/-- The writer is done with a minute. -/
def Engine.settle (e : Engine) (q : QueuedMinute) : Engine :=
  { e with pendingWeight := e.pendingWeight - q.weight, pending := e.pending.erase q.completed.minuteTime }

open Handover in
/-- One step. The clock is past the first minute of the year 1. -/
inductive Step : Handover → Event → Handover → Prop
  | sample (s : Handover) (time deadline : Time) (r : Engine.Readings) (hrunning : s.stopped = false)
      (hclock : Time.zero.unixNano + Time.minute ≤ time.unixNano) :
      Step s (.sample time deadline r) { s with
        engine := (s.engine.sampleBefore time deadline r).1
        stopped := (s.engine.sampleBefore time deadline r).2.toBool = false }
  | flush (s : Handover) (now known enqueuedAt : Time) (hrunning : s.stopped = false) :
      Step s (.flush now known enqueuedAt) { s with
        engine := (s.engine.flushIfCompleted now known enqueuedAt).1, stopped := true }
  | schedule (s : Handover) (sources : List Source) (time now : Time) :
      Step s (.schedule sources time now) { s with engine := (s.engine.scheduleSources sources time now).1 }
  | take (s : Handover) (now : Time) (q : QueuedMinute) (rest : List QueuedMinute)
      (hworks : s.writerStopped = false) (hidle : s.writing = none) (hqueue : s.engine.queue = q :: rest)
      (htime : now.Before q.deadline) :
      Step s (.take now) { s with
        engine := { s.engine with queue := rest }, writing := some q, handed := s.handed ++ [q] }
  | takeLate (s : Handover) (now : Time) (q : QueuedMinute) (rest : List QueuedMinute)
      (hworks : s.writerStopped = false) (hidle : s.writing = none) (hqueue : s.engine.queue = q :: rest)
      (htime : ¬ now.Before q.deadline) :
      Step s (.take now) { s with
        engine := { s.engine with queue := rest }, writing := some q, writerStopped := true }
  | written (s : Handover) (now : Time) (q : QueuedMinute) (hworks : s.writerStopped = false)
      (hwriting : s.writing = some q) (htime : now.Before q.deadline) :
      Step s (.written now) { s with
        engine := s.engine.settle q, writing := none, settled := s.settled ++ [q] }
  | writtenLate (s : Handover) (now : Time) (q : QueuedMinute) (hworks : s.writerStopped = false)
      (hwriting : s.writing = some q) (htime : ¬ now.Before q.deadline) :
      Step s (.written now) { s with writerStopped := true }
  | writeFailed (s : Handover) (q : QueuedMinute) (hworks : s.writerStopped = false)
      (hwriting : s.writing = some q) : Step s .writeFailed { s with writerStopped := true }
  | halt (s : Handover) (hstopped : s.writerStopped = true) : Step s .halt { s with stopped := true }

/-! ## What a second leaves alone -/

/-- What each part of a second keeps. -/
structure Kept (time : Time) (P : Engine → Prop) : Prop where
  into : ∀ e s snapshot valid, P e → P (e.sampleInto time s snapshot valid).1
  fail : ∀ e err, P e → P (e.fail err).1
  counts : ∀ (e : Engine) (overruns missed count : Nat) (last : Time) (id : UInt32), P e →
    P { e with sampleOverruns := overruns, missedSamples := missed, lastOverrunAt := last,
               lastOverrunID := id, sampleCount := count }

namespace Kept

variable {time : Time} {P : Engine → Prop} (h : Kept time P)
include h

theorem markMissed (sources : List Source) (e : Engine) (he : P e) :
    P (Engine.markMissed time sources e).1 := by
  induction sources generalizing e with
  | nil => exact he
  | cons s rest ih =>
      have hinto := h.into e s .none false he
      unfold Engine.markMissed
      split
      · rename_i heq
        rw [heq] at hinto
        exact h.fail _ _ hinto
      · rename_i heq
        rw [heq] at hinto
        exact ih _ hinto

theorem markOverrun (e : Engine) (firstMissed : Nat) (he : P e) : P (e.markOverrun time firstMissed).1 := by
  have hmissed := h.markMissed (e.sources.drop firstMissed) e he
  unfold Engine.markOverrun
  split
  · rename_i heq
    rw [heq] at hmissed
    exact hmissed
  · rename_i heq
    rw [heq] at hmissed
    exact h.counts _ _ _ _ _ _ hmissed

theorem sampleSources (deadline : Time) (r : Engine.Readings) (index : Nat) (sources : List Source) (e : Engine)
    (he : P e) : P (Engine.sampleSources time deadline r index sources e).1 := by
  induction sources generalizing index e with
  | nil => exact h.counts e _ _ _ _ _ he
  | cons s rest ih =>
      have hinto := h.into e s (r.books index).1 (r.books index).2 he
      unfold Engine.sampleSources
      split
      · exact h.markOverrun e index he
      · split
        · rename_i heq
          rw [heq] at hinto
          exact h.fail _ _ hinto
        · rename_i heq
          rw [heq] at hinto
          exact ih _ _ hinto

theorem takeSecond (e : Engine) (deadline : Time) (r : Engine.Readings) (he : P e) :
    P (e.takeSecond time deadline r).1 := by
  unfold Engine.takeSecond
  split
  · exact h.markOverrun e 0 he
  · exact h.sampleSources deadline r 0 e.sources e he

end Kept

/-- A second touches the buffers, the failure and the counts only. -/
structure SameLedger (e e' : Engine) : Prop where
  sources : e'.sources = e.sources
  queue : e'.queue = e.queue
  minute : e'.minute = e.minute
  capacity : e'.capacity = e.capacity
  pendingWeight : e'.pendingWeight = e.pendingWeight
  peakWeight : e'.peakWeight = e.peakWeight
  pending : e'.pending = e.pending
  pendingSources : e'.pendingSources = e.pendingSources

theorem kept_sameLedger (time : Time) (e : Engine) : Kept time (SameLedger e) where
  into := by
    intro e' s snapshot valid h
    unfold Engine.sampleInto
    split
    · exact h
    · exact { h with }
  fail := fun _ _ h => { h with }
  counts := fun _ _ _ _ _ _ h => { h with }

theorem takeSecond_sameLedger (e : Engine) (time deadline : Time) (r : Engine.Readings) :
    SameLedger e (e.takeSecond time deadline r).1 :=
  (kept_sameLedger time e).takeSecond e deadline r ⟨rfl, rfl, rfl, rfl, rfl, rfl, rfl, rfl⟩

theorem sample_sameMinute (b : MinuteBuffer) (time : Time) (snapshot : BookSnapshot) (valid : Bool) :
    b.SameMinute (b.sample time snapshot valid).1 := by
  unfold MinuteBuffer.sample
  split
  · exact ⟨rfl, rfl, rfl, rfl⟩
  · simp only
    repeat' split
    all_goals exact ⟨rfl, rfl, rfl, rfl⟩

/-- Each buffer is that of its instrument and of the minute. -/
def Tagged (e : Engine) : Prop :=
  ∀ id b, e.buffers id = some b → b.instrumentID = id ∧ b.minuteTime.Equal e.minute

theorem kept_tagged (time : Time) : Kept time Tagged where
  into := by
    intro e s snapshot valid h
    unfold Engine.sampleInto
    split
    · exact h
    · rename_i b hb
      intro id b' hb'
      dsimp only at hb' ⊢
      by_cases hid : id = s.instrumentID
      · rw [hid, Function.update_self] at hb'
        have hsame := sample_sameMinute b time snapshot valid
        rw [← Option.some.inj hb', hsame.instrumentID, hsame.minuteTime, hid]
        exact h _ b hb
      · rw [Function.update_of_ne hid] at hb'
        exact h id b' hb'
  fail := fun _ _ _ _ _ hb => nomatch hb
  counts := fun _ _ _ _ _ _ h => h

/-! ## Sources -/

/-- A loop that remembers the ids it has seen accepts distinct ones only. -/
theorem distinct_of_check {check : List UInt32 → List Source → Except String Unit}
    (hstep : ∀ seen s rest, check seen (s :: rest) = .ok () →
      s.instrumentID ∉ seen ∧ check (s.instrumentID :: seen) rest = .ok ())
    {seen : List UInt32} {sources : List Source} (h : check seen sources = .ok ()) :
    (∀ s ∈ sources, s.instrumentID ∉ seen) ∧
      sources.Pairwise fun a b => a.instrumentID ≠ b.instrumentID := by
  induction sources generalizing seen with
  | nil => exact ⟨nofun, .nil⟩
  | cons s rest ih =>
      obtain ⟨hnew, hrest⟩ := hstep _ _ _ h
      obtain ⟨hseen, hpairs⟩ := ih hrest
      refine ⟨?_, .cons ?_ hpairs⟩
      · intro t ht
        rcases List.mem_cons.1 ht with rfl | ht
        · exact hnew
        · exact fun hmem => hseen t ht (List.mem_cons_of_mem _ hmem)
      · intro t ht heq
        exact hseen t ht (heq ▸ List.mem_cons_self)

theorem checkSources_distinct {sources : List Source} (h : checkSources [] sources = .ok ()) :
    sources.Pairwise fun a b => a.instrumentID ≠ b.instrumentID := by
  refine (distinct_of_check ?_ h).2
  intro seen s rest h
  simp only [checkSources, Check.seq_eq_ok, Check.failIf_eq_ok] at h
  exact h.2.2

theorem checkScheduled_distinct {sources : List Source} (h : checkScheduled [] sources = .ok ()) :
    sources.Pairwise fun a b => a.instrumentID ≠ b.instrumentID := by
  refine (distinct_of_check ?_ h).2
  intro seen s rest h
  simp only [checkScheduled, Check.seq_eq_ok, Check.failIf_eq_ok, not_or] at h
  exact ⟨h.1.2.2.1, h.2⟩

def Source.rank (s : Source) : Nat := s.instrumentID.toNat

theorem sorted_sortSources {sources : List Source}
    (h : sources.Pairwise fun a b => a.instrumentID ≠ b.instrumentID) :
    Sorted Source.rank (sortSources sources) := by
  have hless : ∀ a b : Source, decide (a.instrumentID < b.instrumentID) = true ↔ a.rank < b.rank := by
    intro a b
    rw [decide_eq_true_iff, UInt32.lt_iff_toNat_lt]
    rfl
  have hrank : (sources.filter fun _ => true).Pairwise fun a b => a.rank ≠ b.rank := by
    rw [List.filter_true]
    exact h.imp fun hne heq => hne (UInt32.toNat_inj.1 heq)
  have hsorted := Listing.sorted_sortBy_filter hless hrank
  rwa [List.filter_true] at hsorted

/-! ## Completed minutes -/

/-- The sources are in the order of their ids, and so are those that wait. -/
structure Wellformed (e : Engine) : Prop where
  sources : Sorted Source.rank e.sources
  scheduled : Sorted Source.rank e.pendingSources
  tagged : Tagged e

/-- A queued minute. -/
structure Formed (q : QueuedMinute) : Prop where
  weight : q.weight = max 1 q.completed.batches.length
  minute : ∀ b ∈ q.completed.batches, b.minute.minuteTime.Equal q.completed.minuteTime
  sorted : q.completed.batches.Pairwise fun a b => a.minute.instrumentID < b.minute.instrumentID

/-- What is queued of the minute. -/
def Engine.completedMinute (e : Engine) (known enqueuedAt : Time) : QueuedMinute :=
  ⟨⟨e.minute, Int64.ofInt (Codec.ceilMilliseconds known.utc), e.batches⟩, enqueuedAt, max 1 e.batches.length⟩

def Engine.push (e : Engine) (q : QueuedMinute) : Engine :=
  { e with
    queue := e.queue ++ [q]
    pendingWeight := e.pendingWeight + q.weight
    peakWeight := max e.peakWeight (e.pendingWeight + q.weight)
    pending := e.pending.insert q.completed.minuteTime q.enqueuedAt }

theorem enqueueCompleted_eq_ok {e e' : Engine} {known enqueuedAt : Time} :
    e.enqueueCompleted known enqueuedAt = .ok e' ↔
      e.pendingWeight + (e.completedMinute known enqueuedAt).weight ≤ e.capacity ∧ e.queue.length < 2 ∧
        e' = e.push (e.completedMinute known enqueuedAt) := by
  unfold Engine.enqueueCompleted Engine.completedMinute Engine.push
  simp only
  split
  · rename_i h
    simp [h]
  · rename_i h
    split
    · rename_i hqueue
      rw [Except.ok.injEq, eq_comm]
      simp [hqueue, not_lt.1 h]
    · rename_i hqueue
      simp [hqueue]

theorem batch_spec {b : MinuteBuffer} {batch : MinuteBatch} (h : b.batch = some batch) :
    batch.minute.instrumentID = b.instrumentID ∧ batch.minute.minuteTime = b.minuteTime := by
  unfold MinuteBuffer.batch at h
  split at h
  · cases h
  · cases h
    exact ⟨rfl, rfl⟩

theorem mem_batches {e : Engine} {batch : MinuteBatch} :
    batch ∈ e.batches ↔ ∃ s ∈ e.sources, ∃ b, e.buffers s.instrumentID = some b ∧ b.batch = some batch := by
  simp [Engine.batches, Option.bind_eq_some_iff]

theorem formed_completedMinute {e : Engine} (h : Wellformed e) (known enqueuedAt : Time) :
    Formed (e.completedMinute known enqueuedAt) where
  weight := rfl
  minute := by
    intro batch hbatch
    rcases mem_batches.1 hbatch with ⟨s, -, b, hb, heq⟩
    rw [(batch_spec heq).2]
    exact (h.tagged _ b hb).2
  sorted := by
    -- a source without a batch is skipped, the others keep the order of their ids
    refine List.Pairwise.filterMap _ ?_ h.sources
    intro s s' hlt batch hbatch batch' hbatch'
    rcases Option.bind_eq_some_iff.1 hbatch with ⟨b, hb, heq⟩
    rcases Option.bind_eq_some_iff.1 hbatch' with ⟨b', hb', heq'⟩
    rw [(batch_spec heq).1, (batch_spec heq').1, (h.tagged _ b hb).1, (h.tagged _ b' hb').1]
    exact UInt32.lt_iff_toNat_lt.2 hlt

end MarketInfo.Sampler
