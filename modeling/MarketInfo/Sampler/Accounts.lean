import MarketInfo.Sampler.Handover

/-! # Minutes are queued in order and written at most once

Whatever the clock shows, and however the steps of the loop, the writer and the scheduler interleave.
-/

namespace MarketInfo.Sampler

open Listing (Sorted)

variable {e e' : Engine} {time deadline minute known enqueuedAt : Time} {r : Engine.Readings}

/-! ## One call -/

/-- The same minutes are queued, with the same accounts. -/
structure SameQueue (e e' : Engine) : Prop where
  queue : e'.queue = e.queue
  capacity : e'.capacity = e.capacity
  pendingWeight : e'.pendingWeight = e.pendingWeight
  peakWeight : e'.peakWeight = e.peakWeight
  pending : e'.pending = e.pending

theorem SameQueue.refl (e : Engine) : SameQueue e e := ⟨rfl, rfl, rfl, rfl, rfl⟩

theorem SameLedger.sameQueue (h : SameLedger e e') : SameQueue e e' :=
  ⟨h.queue, h.capacity, h.pendingWeight, h.peakWeight, h.pending⟩

/-- There is room for the minute. -/
def Fits (e : Engine) (q : QueuedMinute) : Prop :=
  e.pendingWeight + q.weight ≤ e.capacity ∧ e.queue.length < 2

theorem SameQueue.trans {e'' : Engine} (h : SameQueue e e') (h' : SameQueue e' e'') : SameQueue e e'' :=
  ⟨h'.queue.trans h.queue, h'.capacity.trans h.capacity, h'.pendingWeight.trans h.pendingWeight,
    h'.peakWeight.trans h.peakWeight, h'.pending.trans h.pending⟩

theorem openBuffers_tagged {sources : List Source} {buffers : UInt32 → Option MinuteBuffer}
    (h : ∀ id b, buffers id = some b → b.instrumentID = id ∧ b.minuteTime.Equal minute) :
    ∀ id b, (Engine.openBuffers minute sources buffers).1 id = some b →
      b.instrumentID = id ∧ b.minuteTime.Equal minute := by
  induction sources generalizing buffers with
  | nil => exact h
  | cons s rest ih =>
      unfold Engine.openBuffers
      split
      · exact h
      · rename_i b hb
        refine ih ?_
        obtain ⟨-, hid, hminute, -⟩ := MinuteBuffer.new_idle hb
        intro id b' hb'
        by_cases heq : id = s.instrumentID
        · rw [heq, Function.update_self] at hb'
          rw [← Option.some.inj hb', hid, hminute, heq]
          exact ⟨rfl, rfl⟩
        · rw [Function.update_of_ne heq] at hb'
          exact h id b' hb'

theorem switchSources_spec (e : Engine) (minute : Time) : SameQueue e (e.switchSources minute) ∧
    (Wellformed e → Sorted Source.rank (e.switchSources minute).sources ∧
      Sorted Source.rank (e.switchSources minute).pendingSources) := by
  unfold Engine.switchSources
  split
  · exact ⟨⟨rfl, rfl, rfl, rfl, rfl⟩, fun h => ⟨h.scheduled, .nil⟩⟩
  · exact ⟨.refl e, fun h => ⟨h.sources, h.scheduled⟩⟩

theorem fail_wellformed (h : Wellformed e) (err : Failure) : Wellformed (e.fail err).1 :=
  ⟨h.sources, h.scheduled, fun _ _ hb => nomatch hb⟩

/-- The minute that was open is queued. -/
def Queues (e : Engine) (e' : Engine) : Prop :=
  ∃ known enqueuedAt, Fits e (e.completedMinute known enqueuedAt) ∧
    SameQueue (e.push (e.completedMinute known enqueuedAt)) e'

/-- What a sample of the minute does to the queue. -/
inductive Pushed (e : Engine) (minute : Time) : Except Failure Unit → Engine → Prop
  /-- The engine failed, or the minute goes on. -/
  | kept {result : Except Failure Unit} {e' : Engine} (h : SameQueue e e')
      (hsame : result = .ok () → e.minute.IsZero ∨ e.minute.Equal minute) : Pushed e minute result e'
  | pushed {result : Except Failure Unit} {e' : Engine} (hopen : ¬ e.minute.IsZero) (hafter : minute.After e.minute)
      (h : Queues e e') : Pushed e minute result e'

theorem Pushed.trans {e'' : Engine} {result result' : Except Failure Unit} (h : Pushed e minute result e')
    (h' : SameQueue e' e'') (hok : result' = .ok () → result = .ok ()) : Pushed e minute result' e'' := by
  cases h with
  | kept h hsame => exact .kept (h.trans h') fun hresult => hsame (hok hresult)
  | pushed hopen hafter h =>
      obtain ⟨known, enqueuedAt, hfits, h⟩ := h
      exact .pushed hopen hafter ⟨known, enqueuedAt, hfits, h.trans h'⟩

/-- The sources of the minute, and their buffers. -/
theorem opened_spec (h : Wellformed e) (minute : Time) :
    let buffers := Engine.openBuffers minute (e.switchSources minute).sources fun _ => none
    SameQueue e { e.switchSources minute with minute := minute, buffers := buffers.1 } ∧
      Wellformed { e.switchSources minute with minute := minute, buffers := buffers.1 } := by
  obtain ⟨hsame, hsorted⟩ := switchSources_spec e minute
  refine ⟨hsame.trans ⟨rfl, rfl, rfl, rfl, rfl⟩, (hsorted h).1, (hsorted h).2, ?_⟩
  exact openBuffers_tagged fun _ _ hb => nomatch hb

/-- A minute starts: the one before is queued, or the engine fails. -/
theorem startMinute_spec (h : Wellformed e) (hnew : e.minute.IsZero ∨ minute.After e.minute) :
    Pushed e minute (e.startMinute minute r).2 (e.startMinute minute r).1 ∧
      Wellformed (e.startMinute minute r).1 ∧
      ((e.startMinute minute r).2 = .ok () → (e.startMinute minute r).1.minute = minute) := by
  unfold Engine.startMinute
  by_cases hzero : e.minute.IsZero
  · have hopened := opened_spec h minute
    rw [if_pos hzero]
    simp only
    split <;> rename_i heq <;> rw [heq] at hopened
    · exact ⟨.kept hopened.1 nofun, hopened.2, nofun⟩
    · exact ⟨.kept hopened.1 fun _ => .inl hzero, hopened.2, fun _ => rfl⟩
  · rw [if_neg hzero]
    cases hqueue : e.enqueueCompleted r.known r.enqueuedAt with
    | error err => exact ⟨.kept ⟨rfl, rfl, rfl, rfl, rfl⟩ nofun, fail_wellformed h err, nofun⟩
    | ok e₁ =>
        obtain ⟨hweight, hroom, rfl⟩ := enqueueCompleted_eq_ok.1 hqueue
        have hwell : Wellformed (e.push (e.completedMinute r.known r.enqueuedAt)) :=
          ⟨h.sources, h.scheduled, h.tagged⟩
        have hopened := opened_spec hwell minute
        have hafter := hnew.resolve_left hzero
        simp only
        split <;> rename_i heq <;> rw [heq] at hopened
        · exact ⟨.pushed hzero hafter ⟨_, _, ⟨hweight, hroom⟩, hopened.1⟩, hopened.2, nofun⟩
        · exact ⟨.pushed hzero hafter ⟨_, _, ⟨hweight, hroom⟩, hopened.1⟩, hopened.2, fun _ => rfl⟩

/-- The minute of a sample. -/
def minuteOf (time : Time) : Time := (time.utc.truncate Time.second).truncate Time.minute

theorem takeSecond_spec (h : Wellformed e) (time deadline : Time) (r : Engine.Readings) :
    SameQueue e (e.takeSecond time deadline r).1 ∧
      Wellformed (e.takeSecond time deadline r).1 ∧ (e.takeSecond time deadline r).1.minute = e.minute := by
  have hledger := takeSecond_sameLedger e time deadline r
  refine ⟨hledger.sameQueue, ⟨?_, ?_, ?_⟩, hledger.minute⟩
  · rw [hledger.sources]
    exact h.sources
  · rw [hledger.pendingSources]
    exact h.scheduled
  · exact (kept_tagged time).takeSecond e deadline r h.tagged

/-- A sample: at most the minute before is queued, and no sample goes back. -/
theorem sampleBefore_spec (h : Wellformed e) (time deadline : Time) (r : Engine.Readings) :
    Pushed e (minuteOf time) (e.sampleBefore time deadline r).2 (e.sampleBefore time deadline r).1 ∧
      Wellformed (e.sampleBefore time deadline r).1 ∧
      ((e.sampleBefore time deadline r).2 = .ok () →
        (e.sampleBefore time deadline r).1.minute.Equal (minuteOf time)) := by
  unfold minuteOf Engine.sampleBefore
  simp only
  generalize (time.utc.truncate Time.second).truncate Time.minute = minute
  generalize time.utc.truncate Time.second = second
  split
  · exact ⟨.kept (.refl e) nofun, h, nofun⟩
  · split
    · exact ⟨.kept ⟨rfl, rfl, rfl, rfl, rfl⟩ nofun, fail_wellformed h _, nofun⟩
    · by_cases hback : ¬ e.minute.IsZero ∧ minute.Before e.minute
      · rw [if_pos hback]
        exact ⟨.kept ⟨rfl, rfl, rfl, rfl, rfl⟩ nofun, fail_wellformed h _, nofun⟩
      · rw [if_neg hback]
        by_cases hnew : e.minute.IsZero ∨ minute.After e.minute
        · rw [if_pos hnew]
          have hstart := startMinute_spec (r := r) h hnew
          rcases hresult : e.startMinute minute r with ⟨e₁, err | ⟨⟨⟩⟩⟩ <;> rw [hresult] at hstart
          · exact ⟨hstart.1, hstart.2.1, nofun⟩
          · have htake := takeSecond_spec hstart.2.1 second deadline r
            refine ⟨hstart.1.trans htake.1 fun _ => rfl, htake.2.1, fun _ => ?_⟩
            rw [htake.2.2, hstart.2.2 rfl]
        · rw [if_neg hnew]
          have htake := takeSecond_spec h second deadline r
          have hminute : e.minute.Equal minute := by
            -- neither before nor after
            have hforward : ¬ minute.Before e.minute := fun hlt => hback ⟨fun hzero => hnew (.inl hzero), hlt⟩
            exact le_antisymm (not_lt.1 hforward) (not_lt.1 fun hlt => hnew (.inr hlt))
          refine ⟨.kept htake.1 fun _ => .inr hminute, htake.2.1, fun _ => ?_⟩
          rw [htake.2.2]
          exact hminute

/-! ## The accounts -/

/-- What the accounts say of the minutes. -/
structure Accounts (s : Handover) : Prop where
  queue_le : s.engine.queue.length ≤ 2
  weight : s.engine.pendingWeight = (s.unwritten.map QueuedMinute.weight).sum
  peak : s.engine.pendingWeight ≤ s.engine.peakWeight ∧ s.engine.peakWeight ≤ s.engine.capacity
  pending : ∀ minute time, s.engine.pending.lookup minute = some time ↔
    ∃ q ∈ s.unwritten, q.completed.minuteTime = minute ∧ q.enqueuedAt = time
  formed : ∀ q ∈ s.queued, Formed q
  increasing : s.queued.Pairwise fun p q => p.completed.minuteTime.Before q.completed.minuteTime
  handed : s.handed = s.settled ++ s.writing.toList ∨ s.writerStopped = true ∧ s.handed = s.settled

/-- The minutes that are queued are past. -/
def Past (s : Handover) : Prop :=
  ∀ q ∈ s.queued, q.completed.minuteTime.Before s.engine.minute ∧ ¬ s.engine.minute.IsZero

/-- What each step keeps. -/
structure Accounted (s : Handover) : Prop where
  accounts : Accounts s
  wellformed : Wellformed s.engine
  past : s.stopped = false → Past s

variable {s s' : Handover} {event : Event}

theorem Accounts.of_sameQueue (h : Accounts s) (hsame : SameQueue s.engine e') (stopped : Bool) :
    Accounts { s with engine := e', stopped := stopped } := by
  have hunwritten : ({ s with engine := e', stopped := stopped } : Handover).unwritten = s.unwritten := by
    rw [Handover.unwritten, hsame.queue]
    rfl
  have hqueued : ({ s with engine := e', stopped := stopped } : Handover).queued = s.queued := by
    rw [Handover.queued, hunwritten]
    rfl
  constructor
  · rw [hsame.queue]
    exact h.queue_le
  · rw [hunwritten, hsame.pendingWeight]
    exact h.weight
  · rw [hsame.pendingWeight, hsame.peakWeight, hsame.capacity]
    exact h.peak
  · rw [hunwritten, hsame.pending]
    exact h.pending
  · rw [hqueued]
    exact h.formed
  · rw [hqueued]
    exact h.increasing
  · exact h.handed

theorem Accounts.push (h : Accounts s) {q : QueuedMinute} (hformed : Formed q) (hfits : Fits s.engine q)
    (hpast : ∀ p ∈ s.queued, p.completed.minuteTime.Before q.completed.minuteTime) :
    Accounts { s with engine := s.engine.push q } := by
  have hunwritten : ({ s with engine := s.engine.push q } : Handover).unwritten = s.unwritten ++ [q] :=
    (List.append_assoc _ _ _).symm
  have hqueued : ({ s with engine := s.engine.push q } : Handover).queued = s.queued ++ [q] := by
    rw [Handover.queued, hunwritten, ← List.append_assoc]
    rfl
  have hmem : ∀ p ∈ s.unwritten, p ∈ s.queued := fun p hp => List.mem_append_right _ hp
  constructor
  · have := hfits.2
    simp only [Engine.push, List.length_append, List.length_singleton]
    omega
  · rw [hunwritten, List.map_append, List.sum_append, ← h.weight]
    simp [Engine.push]
  · have := h.peak
    have := hfits.1
    simp only [Engine.push]
    omega
  · intro minute time
    rw [hunwritten]
    simp only [Engine.push, List.mem_append, List.mem_singleton, or_and_right, exists_or, exists_eq_left]
    by_cases heq : q.completed.minuteTime = minute
    · -- no other minute has the key
      rw [← heq, AList.lookup_insert, Option.some.injEq]
      constructor
      · intro htime
        exact .inr ⟨rfl, htime⟩
      · rintro (⟨p, hp, hminute, -⟩ | ⟨-, htime⟩)
        · have hbefore := hpast p (hmem p hp)
          rw [hminute] at hbefore
          exact absurd hbefore (lt_irrefl _)
        · exact htime
    · rw [AList.lookup_insert_ne (Ne.symm heq), h.pending]
      simp [heq]
  · rw [hqueued]
    intro p hp
    rcases List.mem_append.1 hp with hp | hp
    · exact h.formed p hp
    · rw [List.mem_singleton.1 hp]
      exact hformed
  · rw [hqueued]
    refine List.pairwise_append.2 ⟨h.increasing, List.pairwise_singleton _ _, ?_⟩
    intro p hp p' hp'
    rw [List.mem_singleton.1 hp']
    exact hpast p hp
  · exact h.handed

theorem Accounts.queues (h : Accounts s) (hwell : Wellformed s.engine) (hpast : Past s)
    (hqueues : Queues s.engine e') (stopped : Bool) : Accounts { s with engine := e', stopped := stopped } := by
  obtain ⟨known, enqueuedAt, hfits, hsame⟩ := hqueues
  have hpush := h.push (formed_completedMinute hwell known enqueuedAt) hfits fun p hp => (hpast p hp).1
  exact hpush.of_sameQueue hsame stopped

theorem mem_queued_of_queues (hqueues : Queues s.engine e') (stopped : Bool) {q : QueuedMinute}
    (hq : q ∈ ({ s with engine := e', stopped := stopped } : Handover).queued) :
    q ∈ s.queued ∨ q.completed.minuteTime = s.engine.minute := by
  obtain ⟨known, enqueuedAt, -, hsame⟩ := hqueues
  simp only [Handover.queued, Handover.unwritten, hsame.queue, Engine.push, ← List.append_assoc,
    List.mem_append, List.mem_singleton] at hq
  rcases hq with hq | rfl
  · exact .inl (by simpa [Handover.queued, Handover.unwritten, or_assoc] using hq)
  · exact .inr rfl

theorem queued_of_sameQueue (hsame : SameQueue s.engine e') (stopped : Bool) :
    ({ s with engine := e', stopped := stopped } : Handover).queued = s.queued := by
  simp [Handover.queued, Handover.unwritten, hsame.queue]

theorem minuteOf_unixNano_gt {time : Time} (h : Time.zero.unixNano + Time.minute ≤ time.unixNano) :
    Time.zero.unixNano < (minuteOf time).unixNano := by
  simp only [minuteOf, Time.truncate, Time.utc_unixNano, Time.minute, Time.second] at h ⊢
  omega

theorem Accounted.sample (h : Accounted s) (hrunning : s.stopped = false) (time deadline : Time) (r : Engine.Readings)
    (hclock : Time.zero.unixNano + Time.minute ≤ time.unixNano) :
    Accounted { s with
      engine := (s.engine.sampleBefore time deadline r).1
      stopped := (s.engine.sampleBefore time deadline r).2.toBool = false } := by
  have hspec := sampleBefore_spec h.wellformed time deadline r
  have hpast := h.past hrunning
  have hzero := minuteOf_unixNano_gt hclock
  revert hspec
  rcases s.engine.sampleBefore time deadline r with ⟨e', result⟩
  intro ⟨hpushed, hwell, hminute⟩
  refine ⟨?_, hwell, ?_⟩
  · cases hpushed with
    | kept hsame _ => exact h.accounts.of_sameQueue hsame _
    | pushed _ _ hqueues => exact h.accounts.queues h.wellformed hpast hqueues _
  · intro hrunning'
    have hok : result = .ok () := by
      cases result with
      | error err => cases hrunning'
      | ok u => rfl
    have hminute := hminute hok
    intro q hq
    dsimp only at hq ⊢ hminute
    refine ⟨?_, ?_⟩
    · rw [Time.Before, hminute]
      cases hpushed with
      | kept hsame hstays =>
          rw [queued_of_sameQueue hsame] at hq
          have hbefore := hpast q hq
          rw [← (hstays hok).resolve_left hbefore.2]
          exact hbefore.1
      | pushed _ hafter hqueues =>
          rcases mem_queued_of_queues hqueues _ hq with hq | heq
          · exact lt_trans (hpast q hq).1 hafter
          · rw [heq]
            exact hafter
    · rw [Time.IsZero, hminute]
      exact ne_of_gt hzero

theorem Accounted.flush (h : Accounted s) (hrunning : s.stopped = false) (now known enqueuedAt : Time) :
    Accounted { s with engine := (s.engine.flushIfCompleted now known enqueuedAt).1, stopped := true } := by
  suffices hflush : Accounts { s with engine := (s.engine.flushIfCompleted now known enqueuedAt).1, stopped := true } ∧
      Wellformed (s.engine.flushIfCompleted now known enqueuedAt).1 from ⟨hflush.1, hflush.2, nofun⟩
  have hsame := h.accounts.of_sameQueue (.refl s.engine) true
  unfold Engine.flushIfCompleted
  split
  · split
    · exact ⟨hsame, h.wellformed⟩
    · cases hqueue : s.engine.enqueueCompleted known enqueuedAt with
      | error err => exact ⟨hsame, h.wellformed⟩
      | ok e₁ =>
          obtain ⟨hweight, hroom, rfl⟩ := enqueueCompleted_eq_ok.1 hqueue
          refine ⟨h.accounts.queues h.wellformed (h.past hrunning) ?_ true, ?_⟩
          · exact ⟨known, enqueuedAt, ⟨hweight, hroom⟩, ⟨rfl, rfl, rfl, rfl, rfl⟩⟩
          · exact ⟨h.wellformed.sources, h.wellformed.scheduled, fun _ _ hb => nomatch hb⟩
  · exact ⟨hsame, h.wellformed⟩

theorem scheduleSources_spec (h : Wellformed e) (sources : List Source) (time now : Time) :
    SameQueue e (e.scheduleSources sources time now).1 ∧ Wellformed (e.scheduleSources sources time now).1 ∧
      (e.scheduleSources sources time now).1.minute = e.minute := by
  unfold Engine.scheduleSources
  simp only
  split
  · exact ⟨.refl e, h, rfl⟩
  · split
    · exact ⟨.refl e, h, rfl⟩
    · rename_i hcheck
      split
      · exact ⟨.refl e, h, rfl⟩
      · split
        · exact ⟨.refl e, h, rfl⟩
        · exact ⟨⟨rfl, rfl, rfl, rfl, rfl⟩,
            ⟨h.sources, sorted_sortSources (checkScheduled_distinct hcheck), h.tagged⟩, rfl⟩

theorem Accounted.schedule (h : Accounted s) (sources : List Source) (time now : Time) :
    Accounted { s with engine := (s.engine.scheduleSources sources time now).1 } := by
  obtain ⟨hsame, hwell, hminute⟩ := scheduleSources_spec h.wellformed sources time now
  refine ⟨h.accounts.of_sameQueue hsame s.stopped, hwell, ?_⟩
  intro hrunning q hq
  rw [queued_of_sameQueue hsame s.stopped] at hq
  dsimp only
  rw [hminute]
  exact h.past hrunning q hq

/-! ## The writer -/

/-- The writer takes the oldest minute. -/
theorem Accounted.take (h : Accounted s) {q : QueuedMinute} {rest : List QueuedMinute} (hidle : s.writing = none)
    (hqueue : s.engine.queue = q :: rest) {handed : List QueuedMinute} {writerStopped : Bool}
    (hhanded : handed = s.settled ++ [q] ∨ writerStopped = true ∧ handed = s.settled) :
    Accounted { s with
      engine := { s.engine with queue := rest }
      writing := some q
      handed := handed
      writerStopped := writerStopped } := by
  -- the minute moves from the channel to the writer, and stays unwritten
  have hunwritten : s.unwritten = q :: rest := by
    rw [Handover.unwritten, hidle, hqueue, Option.toList_none, List.nil_append]
  have hqueued : s.queued = s.settled ++ q :: rest := by rw [Handover.queued, hunwritten]
  obtain ⟨⟨hle, hweight, hpeak, hpending, hformed, hincreasing, -⟩, hwell, hpast⟩ := h
  rw [hunwritten] at hweight hpending
  rw [hqueued] at hformed hincreasing
  rw [hqueue, List.length_cons] at hle
  refine ⟨⟨le_of_lt hle, hweight, hpeak, hpending, hformed, hincreasing, hhanded⟩, ⟨hwell.1, hwell.2, hwell.3⟩, ?_⟩
  intro hrunning p hp
  refine hpast hrunning p ?_
  rw [hqueued]
  exact hp

/-- A minute is written. -/
theorem Accounted.settle (h : Accounted s) {q : QueuedMinute} (hworks : s.writerStopped = false)
    (hwriting : s.writing = some q) :
    Accounted { s with engine := s.engine.settle q, writing := none, settled := s.settled ++ [q] } := by
  have hunwritten : s.unwritten = q :: s.engine.queue := by rw [Handover.unwritten, hwriting]; rfl
  have hqueued : s.queued = (s.settled ++ [q]) ++ s.engine.queue := by
    rw [Handover.queued, hunwritten, List.append_assoc, List.singleton_append]
  obtain ⟨⟨hle, hweight, hpeak, hpending, hformed, hincreasing, hhanded⟩, hwell, hpast⟩ := h
  rw [hunwritten, List.map_cons, List.sum_cons] at hweight
  rw [hqueued] at hformed hincreasing
  -- so that the pending map forgets no other minute
  have hlater : ∀ p ∈ s.engine.queue, q.completed.minuteTime.Before p.completed.minuteTime := by
    intro p hp
    exact (List.pairwise_append.1 hincreasing).2.2 q (by simp) p hp
  refine ⟨⟨hle, ?_, ?_, ?_, hformed, hincreasing, ?_⟩, ⟨hwell.1, hwell.2, hwell.3⟩, ?_⟩
  · change s.engine.pendingWeight - q.weight = _
    rw [hweight, Nat.add_sub_cancel_left]
    rfl
  · exact ⟨le_trans (Nat.sub_le _ _) hpeak.1, hpeak.2⟩
  · intro minute time
    change (s.engine.pending.erase q.completed.minuteTime).lookup minute = some time ↔ ∃ p ∈ s.engine.queue, _
    by_cases heq : minute = q.completed.minuteTime
    · rw [heq, AList.lookup_erase]
      constructor
      · nofun
      · intro ⟨p, hp, hminute, _⟩
        have hlt := hlater p hp
        rw [hminute] at hlt
        exact absurd hlt (lt_irrefl _)
    · rw [AList.lookup_erase_ne heq, hpending, hunwritten]
      simp [Ne.symm heq]
  · rcases hhanded with hhanded | ⟨hstopped, -⟩
    · rw [hwriting] at hhanded
      exact .inl (hhanded.trans (List.append_nil _).symm)
    · rw [hworks] at hstopped
      cases hstopped
  · intro hrunning p hp
    refine hpast hrunning p ?_
    rw [hqueued]
    exact hp

/-- The writer or the loop stops. -/
theorem Accounted.halt (h : Accounted s) (writerStopped stopped : Bool)
    (hwriter : s.writerStopped = true → writerStopped = true) (hloop : s.stopped = true → stopped = true) :
    Accounted { s with writerStopped := writerStopped, stopped := stopped } := by
  obtain ⟨⟨hle, hweight, hpeak, hpending, hformed, hincreasing, hhanded⟩, hwell, hpast⟩ := h
  refine ⟨⟨hle, hweight, hpeak, hpending, hformed, hincreasing, ?_⟩, hwell, ?_⟩
  · exact hhanded.imp_right fun h => ⟨hwriter h.1, h.2⟩
  · intro hrunning
    refine hpast ?_
    cases hs : s.stopped with
    | false => rfl
    | true => exact absurd (hloop hs) (by simpa using hrunning)

/-! ## Runs -/

theorem Step.accounted (hstep : Step s event s') (h : Accounted s) : Accounted s' := by
  cases hstep with
  | sample time deadline r hrunning hclock => exact h.sample hrunning time deadline r hclock
  | flush now known enqueuedAt hrunning => exact h.flush hrunning now known enqueuedAt
  | schedule sources time now => exact h.schedule sources time now
  | take now q rest hworks hidle hqueue _ =>
      refine h.take hidle hqueue (.inl ?_)
      rcases h.accounts.handed with hhanded | ⟨_, hhanded⟩
      · rw [hhanded, hidle, Option.toList_none, List.append_nil]
      · rw [hhanded]
  | takeLate now q rest hworks hidle hqueue _ =>
      refine h.take hidle hqueue (.inr ⟨rfl, ?_⟩)
      rcases h.accounts.handed with hhanded | ⟨_, hhanded⟩
      · rw [hhanded, hidle, Option.toList_none, List.append_nil]
      · exact hhanded
  | written now q hworks hwriting _ => exact h.settle hworks hwriting
  | writtenLate => exact h.halt true s.stopped (fun _ => rfl) id
  | writeFailed => exact h.halt true s.stopped (fun _ => rfl) id
  | halt => exact h.halt s.writerStopped true id fun _ => rfl

theorem new_spec {sources : List Source} {capacity : Int} (h : Engine.new sources capacity = .ok e) :
    Wellformed e ∧ e.queue = [] ∧ e.pendingWeight = 0 ∧ e.peakWeight = 0 ∧ e.pending = ∅ ∧ e.minute = .zero := by
  simp only [Engine.new, Check.seq_eq_ok, Check.failIf_eq_ok, pure, Except.pure, Except.ok.injEq] at h
  obtain ⟨-, -, hcheck, rfl⟩ := h
  refine ⟨⟨sorted_sortSources (checkSources_distinct hcheck), .nil, ?_⟩, rfl, rfl, rfl, rfl, rfl⟩
  intro id b hb
  cases hb

theorem accounted_new {sources : List Source} {capacity : Int} (h : Engine.new sources capacity = .ok e) :
    Accounted { engine := e } := by
  obtain ⟨hwell, hqueue, hweight, hpeak, hpending, hminute⟩ := new_spec h
  have hunwritten : ({ engine := e } : Handover).unwritten = [] := hqueue
  have hqueued : ({ engine := e } : Handover).queued = [] := by rw [Handover.queued, hunwritten]; rfl
  refine ⟨⟨?_, ?_, ?_, ?_, ?_, ?_, .inl rfl⟩, hwell, ?_⟩
  · simp [hqueue]
  · rw [hunwritten]
    exact hweight
  · simp [hweight, hpeak]
  · intro minute time
    rw [hunwritten]
    simp [hpending]
  · rw [hqueued]
    nofun
  · rw [hqueued]
    exact .nil
  · intro _ q hq
    rw [hqueued] at hq
    cases hq

theorem run_accounted {sources : List Source} {capacity : Int} {events : List Event}
    (h : Engine.new sources capacity = .ok e) (hrun : Transition.Run Step { engine := e } events s) : Accounted s :=
  hrun.invariant Accounted (accounted_new h) fun _ _ _ hstep hs => hstep.accounted hs

/-- A source without a book to read yet. -/
def oneSource : List Source := [{ instrumentID := 1, storedDepth := 10 }]

/-- Every reading of the clock is `time`. -/
def readAt (time : Time) : Engine.Readings where
  backlog _ := time
  known := time
  enqueuedAt := time
  beforeLoop := time
  afterSnapshot _ := time
  books _ := (.none, false)

/-- The seconds from a minute on. -/
def secondOf (n : Int) : Time := ⟨1700000040000000000 + n * Time.second, 0⟩

def oneEngine : Engine := { sources := oneSource, capacity := 512 }

/-- The engine after a sample of a first minute, and of a second one. -/
def sampledOnce : Engine := (oneEngine.sampleBefore (secondOf 0) (secondOf 1) (readAt (secondOf 0))).1

def sampledTwice : Engine := (sampledOnce.sampleBefore (secondOf 60) (secondOf 61) (readAt (secondOf 60))).1

theorem step_of_sampled {e : Engine} (hok : (e.sampleBefore time deadline r).2.toBool = true)
    (hclock : Time.zero.unixNano + Time.minute ≤ time.unixNano) :
    Step { engine := e } (.sample time deadline r) { engine := (e.sampleBefore time deadline r).1 } := by
  have hstep := Step.sample { engine := e } time deadline r rfl hclock
  rw [hok] at hstep
  exact hstep

theorem sampledTwice_run : Transition.Run Step { engine := oneEngine }
    [.sample (secondOf 0) (secondOf 1) (readAt (secondOf 0)), .sample (secondOf 60) (secondOf 61) (readAt (secondOf 60))]
    { engine := sampledTwice } :=
  .cons (step_of_sampled (by decide +kernel) (by decide))
    (.cons (step_of_sampled (by decide +kernel) (by decide)) (.nil _))

theorem sampledTwice_queue : sampledTwice.minute = secondOf 60 ∧
    sampledTwice.queue.map (fun q => decide ((secondOf 61).Before q.deadline)) = [true] := by
  decide +kernel

/-- While the loop runs, the minute is the current one or was queued. -/
def Covers (minute : Time) (s : Handover) : Prop :=
  s.stopped = false → s.engine.minute.Equal minute ∨ ∃ q ∈ s.queued, q.completed.minuteTime.Equal minute

theorem queued_of_queues (hqueues : Queues s.engine e') (stopped : Bool) : ∃ known enqueuedAt,
    ({ s with engine := e', stopped := stopped } : Handover).queued =
      s.queued ++ [s.engine.completedMinute known enqueuedAt] := by
  obtain ⟨known, enqueuedAt, -, hsame⟩ := hqueues
  exact ⟨known, enqueuedAt, by simp [Handover.queued, Handover.unwritten, hsame.queue, Engine.push]⟩

theorem mem_queued_completed (hqueues : Queues s.engine e') (stopped : Bool) :
    (∀ q ∈ s.queued, q ∈ ({ s with engine := e', stopped := stopped } : Handover).queued) ∧
      ∃ q ∈ ({ s with engine := e', stopped := stopped } : Handover).queued,
        q.completed.minuteTime = s.engine.minute := by
  obtain ⟨known, enqueuedAt, hqueued⟩ := queued_of_queues hqueues stopped
  rw [hqueued]
  exact ⟨fun q hq => List.mem_append_left _ hq, _, List.mem_append_right _ (List.mem_singleton_self _), rfl⟩

theorem Covers.sample {minute : Time} (h : Accounted s) (hcovers : Covers minute s) (hzero : ¬ minute.IsZero)
    (hrunning : s.stopped = false) (time deadline : Time) (r : Engine.Readings) :
    Covers minute { s with
      engine := (s.engine.sampleBefore time deadline r).1
      stopped := (s.engine.sampleBefore time deadline r).2.toBool = false } := by
  have hspec := sampleBefore_spec h.wellformed time deadline r
  revert hspec
  rcases s.engine.sampleBefore time deadline r with ⟨e', result⟩
  intro ⟨hpushed, _, hminute⟩ hrunning'
  have hok : result = .ok () := by
    cases result with
    | error err => cases hrunning'
    | ok u => rfl
  cases hpushed with
  | kept hsame hstays =>
      rw [queued_of_sameQueue hsame]
      rcases hcovers hrunning with hcurrent | hqueued
      · refine .inl ?_
        have hopen : ¬ s.engine.minute.IsZero := fun hopen => hzero (hcurrent.symm.trans hopen)
        exact (hminute hok).trans (((hstays hok).resolve_left hopen).symm.trans hcurrent)
      · exact .inr hqueued
  | pushed _ _ hqueues =>
      obtain ⟨hkept, q, hq, heq⟩ := mem_queued_completed (s := s) hqueues (decide (result.toBool = false))
      rcases hcovers hrunning with hcurrent | ⟨p, hp, hpm⟩
      · refine .inr ⟨q, hq, ?_⟩
        rw [heq]
        exact hcurrent
      · exact .inr ⟨p, hkept p hp, hpm⟩

theorem Step.covers {minute : Time} (hstep : Step s event s') (h : Accounted s) (hzero : ¬ minute.IsZero)
    (hcovers : Covers minute s) : Covers minute s' := by
  cases hstep with
  | sample time deadline r hrunning _ => exact hcovers.sample h hzero hrunning time deadline r
  | flush => exact fun hrunning => nomatch hrunning
  | schedule sources time now =>
      obtain ⟨hsame, -, hminute⟩ := scheduleSources_spec h.wellformed sources time now
      intro hrunning
      rw [queued_of_sameQueue hsame s.stopped]
      dsimp only
      rw [hminute]
      exact hcovers hrunning
  | take now q rest _ hidle hqueue _ =>
      intro hrunning
      simpa [Handover.queued, Handover.unwritten, hidle, hqueue] using hcovers hrunning
  | takeLate now q rest _ hidle hqueue _ =>
      intro hrunning
      simpa [Handover.queued, Handover.unwritten, hidle, hqueue] using hcovers hrunning
  | written now q _ hwriting _ =>
      intro hrunning
      simpa [Handover.queued, Handover.unwritten, hwriting, Engine.settle] using hcovers hrunning
  | writtenLate => exact hcovers
  | writeFailed => exact hcovers
  | halt => exact fun hrunning => nomatch hrunning

theorem covers_of_run {events : List Event} (hrun : Transition.Run Step s events s') (h : Accounted s)
    {time deadline : Time} {r : Engine.Readings} (hsampled : Event.sample time deadline r ∈ events) :
    Covers (minuteOf time) s' := by
  induction hrun with
  | nil s => cases hsampled
  | @cons s₁ _ _ _ _ hstep hrest ih =>
      rcases List.mem_cons.1 hsampled with rfl | hlater
      · -- the sample makes it the current minute, and then it stays covered
        have hafter := hstep.accounted h
        cases hstep with
        | sample _ _ _ hrunning hclock =>
            have hspec := sampleBefore_spec h.wellformed time deadline r
            have hzero : ¬ (minuteOf time).IsZero := ne_of_gt (minuteOf_unixNano_gt hclock)
            refine (hrest.invariant (fun s => Accounted s ∧ Covers (minuteOf time) s) ⟨hafter, ?_⟩ ?_).2
            · intro hrunning'
              refine .inl (hspec.2.2 ?_)
              cases hresult : (s₁.engine.sampleBefore time deadline r).2 with
              | error err => simp [hresult, Except.toBool] at hrunning'
              | ok u => rfl
            · intro s _ s' hstep ⟨hs, hcovers⟩
              exact ⟨hstep.accounted hs, hstep.covers hs hzero hcovers⟩
      · exact ih (hstep.accounted h) hlater

/-- While the loop runs, every minute that was sampled is the current one, or was queued once. -/
theorem sampled_minutes_queued {sources : List Source} {capacity : Int} {e : Engine} {events : List Event}
    {s : Handover} (hnew : Engine.new sources capacity = .ok e)
    (hrun : Transition.Run Step { engine := e } events s) (hrunning : s.stopped = false)
    {time deadline : Time} {r : Engine.Readings} (hsampled : Event.sample time deadline r ∈ events) :
    s.engine.minute.Equal (minuteOf time) ∨
      ∃ q ∈ s.queued, q.completed.minuteTime.Equal (minuteOf time) ∧
        ∀ q' ∈ s.queued, q'.completed.minuteTime.Equal (minuteOf time) → q' = q := by
  have hincreasing := (run_accounted hnew hrun).accounts.increasing
  rcases covers_of_run hrun (accounted_new hnew) hsampled hrunning with hcurrent | ⟨q, hq, hminute⟩
  · exact .inl hcurrent
  · refine .inr ⟨q, hq, hminute, ?_⟩
    intro q' hq' hminute'
    by_contra hne
    have hsymm : Std.Symm fun p q : QueuedMinute =>
      p.completed.minuteTime.unixNano ≠ q.completed.minuteTime.unixNano := ⟨fun _ _ h => h.symm⟩
    exact (hincreasing.imp ne_of_lt).forall hq' hq hne (hminute'.trans hminute.symm)

theorem sampled_minutes_queued_first : ∃ s : Handover, s.engine.minute = secondOf 60 ∧
    (s.engine.minute.Equal (minuteOf (secondOf 0)) ∨
      ∃ q ∈ s.queued, q.completed.minuteTime.Equal (minuteOf (secondOf 0)) ∧
        ∀ q' ∈ s.queued, q'.completed.minuteTime.Equal (minuteOf (secondOf 0)) → q' = q) := by
  have hnew : Engine.new oneSource 0 = .ok oneEngine := rfl
  exact ⟨_, sampledTwice_queue.1, sampled_minutes_queued hnew sampledTwice_run rfl List.mem_cons_self⟩

end MarketInfo.Sampler
