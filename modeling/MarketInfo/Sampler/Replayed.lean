import MarketInfo.Sampler.Accounts
import MarketInfo.Sampler.Readings

/-! # What was read is what is replayed

The readings of a run are kept beside its states. While the seconds of no instrument go back within a minute,
every queued minute is valid and replays exactly the books that were read in time.
-/

namespace MarketInfo.Sampler

open Listing (Sorted)

variable {e e' : Engine} {time deadline minute : Time} {r : Engine.Readings} {sources : List Source}
  {buffers buffers' : UInt32 → Option MinuteBuffer} {log readings : List Reading} {s s' : Handover} {event : Event}

/-! ## The minute -/

/-- The readings of a source in the minute, in order. -/
def samplesOf (log : List Reading) (s : Source) (minute : Time) : List MinuteSample :=
  (log.filter fun p => decide (p.source = s ∧ p.OfMinute minute)).map Reading.sample

theorem mem_samplesOf {source : Source} {c : MinuteSample} : c ∈ samplesOf log source minute ↔
    ∃ p ∈ log, p.source = source ∧ p.OfMinute minute ∧ p.sample = c := by
  simp [samplesOf, and_assoc]

theorem samplesOf_append (log new : List Reading) (source : Source) (minute : Time) :
    samplesOf (log ++ new) source minute = samplesOf log source minute ++ samplesOf new source minute := by
  simp [samplesOf]

theorem samplesOf_eq_nil (h : ∀ p ∈ readings, ¬ p.OfMinute minute) (source : Source) :
    samplesOf readings source minute = [] := by
  rw [List.eq_nil_iff_forall_not_mem]
  intro c hc
  obtain ⟨p, hp, -, hminute, -⟩ := mem_samplesOf.1 hc
  exact h p hp hminute

/-- One reading of each source. -/
theorem samplesOf_of_mem (hids : readings.Pairwise fun p q => p.source ≠ q.source) {p : Reading}
    (hp : p ∈ readings) (hminute : p.OfMinute minute) : samplesOf readings p.source minute = [p.sample] := by
  induction readings with
  | nil => cases hp
  | cons q rest ih =>
      obtain ⟨hne, hrest⟩ := List.pairwise_cons.1 hids
      rcases List.mem_cons.1 hp with rfl | hp
      · have hnil : rest.filter (fun q => decide (q.source = p.source ∧ q.OfMinute minute)) = [] := by
          rw [List.filter_eq_nil_iff]
          intro q hq
          rw [decide_eq_true_iff, not_and]
          exact fun heq => absurd heq.symm (hne q hq)
        rw [samplesOf, List.filter_cons_of_pos (by simpa using hminute), hnil]
        rfl
      · have hskip : ¬ (q.source = p.source ∧ q.OfMinute minute) := fun h => hne p hp h.1
        rw [samplesOf, List.filter_cons_of_neg (by simpa using hskip)]
        exact ih hrest hp

/-- The buffers of the sources have recorded what was read in the minute. -/
structure Sampled (minute : Time) (sources : List Source) (buffers : UInt32 → Option MinuteBuffer)
    (log : List Reading) : Prop where
  exact : Codec.checkMinute minute = .ok ()
  sorted : Sorted Source.rank sources
  opened : ∀ s ∈ sources, ∃ b, buffers s.instrumentID = some b ∧
    Buffered s.instrumentID minute.utc s.storedDepth (samplesOf log s minute) b
  read : ∀ p ∈ log, p.OfMinute minute → p.source ∈ sources

/-- Other minutes leave it alone. -/
theorem Sampled.later (h : Sampled minute sources buffers log) (hnew : ∀ p ∈ readings, ¬ p.OfMinute minute) :
    Sampled minute sources buffers (log ++ readings) := by
  refine ⟨h.exact, h.sorted, ?_, ?_⟩
  · intro s hs
    rw [samplesOf_append, samplesOf_eq_nil hnew, List.append_nil]
    exact h.opened s hs
  · intro p hp hminute
    rcases List.mem_append.1 hp with hp | hp
    · exact h.read p hp hminute
    · exact absurd hminute (hnew p hp)

/-- A second of the minute. -/
theorem Sampled.second (h : Sampled minute sources buffers log) (htook : Took buffers buffers' readings)
    (hsources : readings.map Reading.source = sources)
    (hminute : ∀ p ∈ readings, p.OfMinute minute) (hsteady : Steady (log ++ readings)) :
    Sampled minute sources buffers' (log ++ readings) := by
  have hids : readings.Pairwise fun p q => p.source ≠ q.source := by
    have hsorted := h.sorted
    rw [← hsources, Sorted, List.pairwise_map] at hsorted
    exact hsorted.imp fun hlt heq => ne_of_rank hlt (congrArg Source.instrumentID heq)
  refine ⟨h.exact, h.sorted, ?_, ?_⟩
  · intro s hs
    obtain ⟨p, hp, rfl⟩ := List.mem_map.1 (hsources ▸ hs)
    obtain ⟨b, hb, hg⟩ := htook.each p hp
    obtain ⟨b', hb', hbuffered⟩ := h.opened p.source hs
    rw [hb] at hb'
    cases hb'
    refine ⟨_, hg, ?_⟩
    rw [samplesOf_append, samplesOf_of_mem hids hp (hminute p hp)]
    refine hbuffered.sample (hminute p hp) ?_
    intro c hc
    obtain ⟨q, hq, heq, hq', rfl⟩ := mem_samplesOf.1 hc
    refine (List.pairwise_append.1 hsteady).2.2 q hq p hp (congrArg Source.instrumentID heq) ?_
    exact (hminute p hp).trans hq'.symm
  · intro p hp hpm
    rcases List.mem_append.1 hp with hp | hp
    · exact h.read p hp hpm
    · exact hsources ▸ List.mem_map_of_mem hp

theorem openBuffers_opened (hids : Sorted Source.rank sources)
    (h : Engine.openBuffers minute sources buffers = (buffers', .ok ())) :
    (∀ id, (∀ s ∈ sources, s.instrumentID ≠ id) → buffers' id = buffers id) ∧
      ∀ s ∈ sources, ∃ b, MinuteBuffer.new s.instrumentID minute s.storedDepth = .ok b ∧
        buffers' s.instrumentID = some b := by
  induction sources generalizing buffers with
  | nil => exact ⟨fun _ _ => (congrFun (Prod.mk.inj h).1 _).symm, fun _ hs => absurd hs List.not_mem_nil⟩
  | cons s rest ih =>
      obtain ⟨hnew, hrest⟩ := List.pairwise_cons.1 hids
      unfold Engine.openBuffers at h
      split at h
      · cases h
      · rename_i b hb
        obtain ⟨hothers, hopened⟩ := ih hrest h
        constructor
        · intro id hid
          rw [hothers id fun t ht => hid t (List.mem_cons_of_mem _ ht)]
          exact Function.update_of_ne (Ne.symm (hid s List.mem_cons_self)) _ _
        · intro t ht
          rcases List.mem_cons.1 ht with rfl | ht
          · refine ⟨b, hb, ?_⟩
            rw [hothers _ fun u hu => Ne.symm (ne_of_rank (hnew u hu)), Function.update_self]
          · exact hopened t ht

/-- The minute starts. -/
theorem Sampled.start (hids : Sorted Source.rank sources) (hexact : Codec.checkMinute minute = .ok ())
    (h : Engine.openBuffers minute sources (fun _ => none) = (buffers, .ok ()))
    (hlog : ∀ p ∈ log, ¬ p.OfMinute minute) : Sampled minute sources buffers log := by
  refine ⟨hexact, hids, ?_, fun p hp hminute => absurd hminute (hlog p hp)⟩
  intro s hs
  obtain ⟨b, hnew, hb⟩ := (openBuffers_opened hids h).2 s hs
  rw [samplesOf_eq_nil hlog]
  exact ⟨b, hb, buffered_sampleAll hnew ⟨fun _ hc => absurd hc List.not_mem_nil, .nil⟩⟩

theorem checkMinute_minuteOf (hclock : Time.zero.unixNano + Time.minute ≤ time.unixNano) :
    Codec.checkMinute (minuteOf time) = .ok () := by
  have hzero := minuteOf_unixNano_gt hclock
  rw [Codec.checkMinute, Check.failIf_eq_ok, not_or, not_not]
  refine ⟨ne_of_gt hzero, ?_⟩
  simp only [Time.Equal, minuteOf, Time.truncate, Time.utc_unixNano, Time.minute, Time.second]
  omega

theorem ofMinute_readings {p : Reading} (hp : p ∈ e.readings (time.utc.truncate Time.second) deadline r) :
    p.OfMinute (minuteOf time) := by
  obtain ⟨i, hi, rfl⟩ := List.mem_mapIdx.1 hp
  have htime : (r.read (time.utc.truncate Time.second) deadline i).time = time.utc.truncate Time.second := by
    unfold Engine.Readings.read
    split <;> rfl
  change (sampleMinute (r.read (time.utc.truncate Time.second) deadline i).time).Equal (minuteOf time)
  rw [htime]
  simp only [Time.Equal, sampleMinute, minuteOf, Time.truncate, Time.utc_unixNano, Time.minute, Time.second]
  omega

theorem source_readings (e : Engine) (time deadline : Time) (r : Engine.Readings) :
    (e.readings time deadline r).map Reading.source = e.sources := by
  refine List.ext_getElem (by simp [Engine.readings]) ?_
  intro i h _
  simp [Engine.readings]

/-! ## A second of the engine -/

/-- A sample that succeeds goes on with the minute, or starts one. -/
theorem sampleBefore_cases (hok : (e.sampleBefore time deadline r).2 = .ok ()) :
    ∃ e₁, e.sampleBefore time deadline r = e₁.takeSecond (time.utc.truncate Time.second) deadline r ∧
      (e₁ = e ∧ ¬ e.minute.IsZero ∧ e.minute.Equal (minuteOf time) ∨
        (e.minute.IsZero ∨ (minuteOf time).After e.minute) ∧ e.startMinute (minuteOf time) r = (e₁, .ok ())) := by
  revert hok
  unfold minuteOf Engine.sampleBefore
  simp only
  generalize (time.utc.truncate Time.second).truncate Time.minute = minute
  generalize time.utc.truncate Time.second = second
  split
  · intro hok
    cases hok
  · split
    · intro hok
      cases hok
    · by_cases hback : ¬ e.minute.IsZero ∧ minute.Before e.minute
      · rw [if_pos hback]
        intro hok
        cases hok
      · rw [if_neg hback]
        by_cases hnew : e.minute.IsZero ∨ minute.After e.minute
        · rw [if_pos hnew]
          rcases hresult : e.startMinute minute r with ⟨e₁, err | ⟨⟨⟩⟩⟩
          · intro hok
            cases hok
          · exact fun _ => ⟨e₁, rfl, .inr ⟨hnew, rfl⟩⟩
        · rw [if_neg hnew]
          refine fun _ => ⟨e, rfl, .inl ⟨rfl, fun hzero => hnew (.inl hzero), ?_⟩⟩
          have hforward : ¬ minute.Before e.minute := fun hlt => hback ⟨fun hzero => hnew (.inl hzero), hlt⟩
          exact le_antisymm (not_lt.1 hforward) (not_lt.1 fun hlt => hnew (.inr hlt))

theorem startMinute_opened (h : e.startMinute minute r = (e', .ok ())) :
    e'.minute = minute ∧ Engine.openBuffers minute e'.sources (fun _ => none) = (e'.buffers, .ok ()) := by
  unfold Engine.startMinute at h
  split at h
  · cases h
  · rename_i e₀ _
    simp only at h
    rcases hopen : Engine.openBuffers minute (e₀.switchSources minute).sources (fun _ => none) with
      ⟨buffers, err | ⟨⟨⟩⟩⟩ <;> rw [hopen] at h
    · cases h
    · cases h
      exact ⟨rfl, hopen⟩

/-- What the buffers have recorded after one more second. -/
theorem sampled_second (hwell : Wellformed e) (hclock : Time.zero.unixNano + Time.minute ≤ time.unixNano)
    (hok : (e.sampleBefore time deadline r).2 = .ok ())
    (hcurrent : ¬ e.minute.IsZero → Sampled e.minute e.sources e.buffers log)
    (hpast : ∀ p ∈ log, ¬ e.minute.IsZero ∧ (sampleMinute p.sample.time).unixNano ≤ e.minute.unixNano)
    (hsteady : Steady (log ++
      (e.sampleBefore time deadline r).1.readings (time.utc.truncate Time.second) deadline r)) :
    Sampled (e.sampleBefore time deadline r).1.minute (e.sampleBefore time deadline r).1.sources
      (e.sampleBefore time deadline r).1.buffers
      (log ++ (e.sampleBefore time deadline r).1.readings (time.utc.truncate Time.second) deadline r) := by
  obtain ⟨e₁, heq, hcases⟩ := sampleBefore_cases hok
  rw [heq] at hok hsteady ⊢
  have hledger := takeSecond_sameLedger e₁ (time.utc.truncate Time.second) deadline r
  have hreadings : (e₁.takeSecond (time.utc.truncate Time.second) deadline r).1.readings
      (time.utc.truncate Time.second) deadline r = e₁.readings (time.utc.truncate Time.second) deadline r := by
    unfold Engine.readings
    rw [hledger.sources]
  rw [hreadings] at hsteady ⊢
  rw [hledger.minute, hledger.sources]
  -- a minute that is just opened has no reading yet, since those in the log are of earlier ones
  have hopened : Sampled e₁.minute e₁.sources e₁.buffers log ∧ e₁.minute.Equal (minuteOf time) := by
    rcases hcases with ⟨rfl, hopen, hminute⟩ | ⟨hnew, hstart⟩
    · exact ⟨hcurrent hopen, hminute⟩
    · have hspec := startMinute_spec (r := r) hwell hnew
      rw [hstart] at hspec
      obtain ⟨hminute, hopen⟩ := startMinute_opened hstart
      rw [hminute]
      refine ⟨Sampled.start hspec.2.1.sources (checkMinute_minuteOf hclock) hopen ?_, rfl⟩
      intro p hp hof
      obtain ⟨hzero, hle⟩ := hpast p hp
      rw [hof] at hle
      exact absurd (hnew.resolve_left hzero) (not_lt.2 hle)
  obtain ⟨hsampled, hminute⟩ := hopened
  refine hsampled.second (takeSecond_took hsampled.sorted hok) (source_readings ..) ?_ hsteady
  intro p hp
  exact (ofMinute_readings hp).trans hminute.symm

/-! ## Readings beside the states -/

/-- The handover, and what was read so far. -/
abbrev Logged := Handover × List Reading

/-- What the step has read; a sample that fails ends the loop, and nothing of it is kept. -/
def Event.reads : Event → Handover → List Reading
  | .sample time deadline r, s =>
      if s.stopped then [] else s.engine.readings (time.utc.truncate Time.second) deadline r
  | _, _ => []

def LoggedStep (s : Logged) (event : Event) (s' : Logged) : Prop :=
  Step s.1 event s'.1 ∧ s'.2 = s.2 ++ event.reads s'.1

/-- Every run has its readings. -/
theorem exists_logged {events : List Event} (hrun : Transition.Run Step s events s') (log : List Reading) :
    ∃ log', Transition.Run LoggedStep (s, log) events (s', log') := by
  induction hrun generalizing log with
  | nil s => exact ⟨log, .nil _⟩
  | @cons s₁ s₂ s₃ event events hstep _ ih =>
      obtain ⟨log', hrest⟩ := ih (log ++ event.reads s₂)
      exact ⟨log', .cons ⟨hstep, rfl⟩ hrest⟩

/-- A queued minute is what some buffers had recorded of the minute's readings. -/
def FromReadings (q : QueuedMinute) (log : List Reading) : Prop :=
  ∃ sources buffers, Sampled q.completed.minuteTime sources buffers log ∧
    q.completed.batches = sources.filterMap fun s => (buffers s.instrumentID).bind MinuteBuffer.batch

/-- What each step keeps. -/
structure Traced (s : Logged) : Prop where
  accounted : Accounted s.1
  current : s.1.stopped = false → ¬ s.1.engine.minute.IsZero →
    Sampled s.1.engine.minute s.1.engine.sources s.1.engine.buffers s.2
  past : s.1.stopped = false → ∀ p ∈ s.2,
    ¬ s.1.engine.minute.IsZero ∧ (sampleMinute p.sample.time).unixNano ≤ s.1.engine.minute.unixNano
  queued : ∀ q ∈ s.1.queued, FromReadings q s.2

theorem Traced.frame (h : Traced (s, log)) (haccounted : Accounted s') (hqueued : s'.queued = s.queued)
    (hstopped : s'.stopped = false → s.stopped = false) (hminute : s'.engine.minute = s.engine.minute)
    (hsources : s'.engine.sources = s.engine.sources) (hbuffers : s'.engine.buffers = s.engine.buffers) :
    Traced (s', log) := by
  refine ⟨haccounted, ?_, ?_, ?_⟩
  · intro hrunning hopen
    dsimp only at hrunning hopen ⊢
    rw [hminute] at hopen
    rw [hminute, hsources, hbuffers]
    exact h.current (hstopped hrunning) hopen
  · intro hrunning
    dsimp only at hrunning ⊢
    rw [hminute]
    exact h.past (hstopped hrunning)
  · dsimp only
    rw [hqueued]
    exact h.queued

/-- The minute that is queued, and those before it. -/
theorem Traced.queues (h : Traced (s, log)) (hrunning : s.stopped = false) (hopen : ¬ s.engine.minute.IsZero)
    (hqueues : Queues s.engine e') (stopped : Bool) {q : QueuedMinute}
    (hq : q ∈ ({ s with engine := e', stopped := stopped } : Handover).queued) :
    FromReadings q log ∧ q.completed.minuteTime.unixNano ≤ s.engine.minute.unixNano := by
  obtain ⟨known, enqueuedAt, heq⟩ := queued_of_queues hqueues stopped
  rw [heq] at hq
  rcases List.mem_append.1 hq with hq | hq
  · exact ⟨h.queued q hq, le_of_lt (h.accounted.past hrunning q hq).1⟩
  · rw [List.mem_singleton.1 hq]
    exact ⟨⟨_, _, h.current hrunning hopen, rfl⟩, le_refl _⟩

theorem FromReadings.later {q : QueuedMinute} (h : FromReadings q log)
    (hbefore : q.completed.minuteTime.unixNano < (minuteOf time).unixNano)
    (hnew : ∀ p ∈ readings, p.OfMinute (minuteOf time)) : FromReadings q (log ++ readings) := by
  obtain ⟨sources, buffers, hsampled, hbatches⟩ := h
  refine ⟨sources, buffers, hsampled.later ?_, hbatches⟩
  intro p hp hof
  rw [← hof, hnew p hp] at hbefore
  exact lt_irrefl _ hbefore

theorem Traced.sample (h : Traced (s, log)) (hrunning : s.stopped = false) (time deadline : Time)
    (r : Engine.Readings) (hclock : Time.zero.unixNano + Time.minute ≤ time.unixNano) :
    let s' : Handover := { s with
      engine := (s.engine.sampleBefore time deadline r).1
      stopped := (s.engine.sampleBefore time deadline r).2.toBool = false }
    Steady (log ++ (Event.sample time deadline r).reads s') →
      Traced (s', log ++ (Event.sample time deadline r).reads s') := by
  intro s' hsteady
  have haccounted : Accounted s' := h.accounted.sample hrunning time deadline r hclock
  have hspec := sampleBefore_spec h.accounted.wellformed time deadline r
  have hqueued : ∀ q ∈ s'.queued, FromReadings q log ∧ ((s.engine.sampleBefore time deadline r).2 = .ok () →
      q.completed.minuteTime.unixNano < (minuteOf time).unixNano) := by
    intro q hq
    rcases hspec.1 with ⟨hsame, hstays⟩ | ⟨hopen, hafter, hqueues⟩
    · rw [queued_of_sameQueue hsame] at hq
      obtain ⟨hbefore, hopen⟩ := h.accounted.past hrunning q hq
      exact ⟨h.queued q hq, fun hok => ((hstays hok).resolve_left hopen) ▸ hbefore⟩
    · obtain ⟨hfrom, hle⟩ := h.queues hrunning hopen hqueues _ hq
      exact ⟨hfrom, fun _ => lt_of_le_of_lt hle hafter⟩
  -- a sample that fails ends the loop, and then only the queued minutes matter
  by_cases hok : (s.engine.sampleBefore time deadline r).2 = .ok ()
  · have hruns : s'.stopped = false := by
      change decide ((s.engine.sampleBefore time deadline r).2.toBool = false) = false
      rw [hok]
      rfl
    have hreadings : (Event.sample time deadline r).reads s' =
        s'.engine.readings (time.utc.truncate Time.second) deadline r := if_neg (hruns ▸ Bool.false_ne_true)
    rw [hreadings] at hsteady ⊢
    have hsampled := sampled_second h.accounted.wellformed hclock hok (h.current hrunning) (h.past hrunning) hsteady
    have hminute := hspec.2.2 hok
    have hnew : ∀ p ∈ s'.engine.readings (time.utc.truncate Time.second) deadline r, p.OfMinute (minuteOf time) :=
      fun p hp => ofMinute_readings hp
    refine ⟨haccounted, fun _ _ => hsampled, ?_, ?_⟩
    · intro _ p hp
      have hzero := minuteOf_unixNano_gt hclock
      refine ⟨fun hopen => absurd (hminute.symm.trans hopen) (ne_of_gt hzero), ?_⟩
      rcases List.mem_append.1 hp with hp | hp
      · -- the minute was not before that of the reading
        obtain ⟨hopen, hle⟩ := h.past hrunning p hp
        have hforward : s.engine.minute.unixNano ≤ (minuteOf time).unixNano := by
          rcases hspec.1 with ⟨_, hstays⟩ | ⟨_, hafter, _⟩
          · exact le_of_eq ((hstays hok).resolve_left hopen)
          · exact le_of_lt hafter
        exact (hle.trans hforward).trans (le_of_eq hminute.symm)
      · exact le_of_eq ((hnew p hp).trans hminute.symm)
    · intro q hq
      obtain ⟨hfrom, hbefore⟩ := hqueued q hq
      exact hfrom.later (hbefore hok) hnew
  · have hstops : s'.stopped = true := by
      cases hresult : (s.engine.sampleBefore time deadline r).2 with
      | ok u => exact absurd hresult hok
      | error err => simp [s', hresult, Except.toBool]
    have hreadings : (Event.sample time deadline r).reads s' = [] := if_pos hstops
    rw [hreadings, List.append_nil]
    refine ⟨haccounted, ?_, ?_, fun q hq => (hqueued q hq).1⟩
    · intro hrunning'
      exact absurd (hstops.symm.trans hrunning') (by decide)
    · intro hrunning'
      exact absurd (hstops.symm.trans hrunning') (by decide)

theorem Traced.flush (h : Traced (s, log)) (hrunning : s.stopped = false) (now known enqueuedAt : Time) :
    Traced ({ s with engine := (s.engine.flushIfCompleted now known enqueuedAt).1, stopped := true }, log) := by
  have hstops : ∀ {P : Prop}, true = false → P := fun hrunning' => absurd hrunning' (by decide)
  refine ⟨h.accounted.flush hrunning now known enqueuedAt, hstops, hstops, ?_⟩
  have hsame : ∀ q ∈ ({ s with engine := s.engine, stopped := true } : Handover).queued, FromReadings q log := by
    rw [queued_of_sameQueue (.refl s.engine)]
    exact h.queued
  dsimp only
  unfold Engine.flushIfCompleted
  split
  · rename_i hopen
    split
    · exact hsame
    · cases hqueue : s.engine.enqueueCompleted known enqueuedAt with
      | error err => exact hsame
      | ok e₁ =>
          obtain ⟨hweight, hroom, rfl⟩ := enqueueCompleted_eq_ok.1 hqueue
          intro q hq
          refine (h.queues hrunning hopen.1 ?_ true hq).1
          exact ⟨known, enqueuedAt, ⟨hweight, hroom⟩, ⟨rfl, rfl, rfl, rfl, rfl⟩⟩
  · exact hsame

theorem scheduleSources_same (e : Engine) (sources : List Source) (time now : Time) :
    (e.scheduleSources sources time now).1.sources = e.sources ∧
      (e.scheduleSources sources time now).1.buffers = e.buffers := by
  unfold Engine.scheduleSources
  simp only
  repeat' split
  all_goals exact ⟨rfl, rfl⟩

theorem LoggedStep.traced {a b : Logged} (hstep : LoggedStep a event b) (h : Traced a) (hsteady : Steady b.2) :
    Traced b := by
  obtain ⟨s, log⟩ := a
  obtain ⟨s', log'⟩ := b
  obtain ⟨hstep, hlog⟩ := hstep
  dsimp only at hstep hlog hsteady
  have haccounted := hstep.accounted h.accounted
  cases hstep with
  | sample time deadline r hrunning hclock =>
      rw [hlog] at hsteady ⊢
      exact h.sample hrunning time deadline r hclock hsteady
  | flush now known enqueuedAt hrunning =>
      rw [hlog.trans (List.append_nil log)]
      exact h.flush hrunning now known enqueuedAt
  | schedule sources time now =>
      rw [hlog.trans (List.append_nil log)]
      obtain ⟨hsame, -, hminute⟩ := scheduleSources_spec h.accounted.wellformed sources time now
      obtain ⟨hsources, hbuffers⟩ := scheduleSources_same s.engine sources time now
      exact h.frame haccounted (queued_of_sameQueue hsame s.stopped) id hminute hsources hbuffers
  | take now q rest _ hidle hqueue _ =>
      rw [hlog.trans (List.append_nil log)]
      refine h.frame haccounted ?_ id rfl rfl rfl
      simp [Handover.queued, Handover.unwritten, hidle, hqueue]
  | takeLate now q rest _ hidle hqueue _ =>
      rw [hlog.trans (List.append_nil log)]
      refine h.frame haccounted ?_ id rfl rfl rfl
      simp [Handover.queued, Handover.unwritten, hidle, hqueue]
  | written now q _ hwriting _ =>
      rw [hlog.trans (List.append_nil log)]
      refine h.frame haccounted ?_ id rfl rfl rfl
      simp [Handover.queued, Handover.unwritten, hwriting, Engine.settle]
  | writtenLate =>
      rw [hlog.trans (List.append_nil log)]
      exact h.frame haccounted rfl id rfl rfl rfl
  | writeFailed =>
      rw [hlog.trans (List.append_nil log)]
      exact h.frame haccounted rfl id rfl rfl rfl
  | halt =>
      rw [hlog.trans (List.append_nil log)]
      refine h.frame haccounted rfl ?_ rfl rfl rfl
      intro hrunning
      cases hrunning

theorem run_traced {a b : Logged} {events : List Event} (hrun : Transition.Run LoggedStep a events b)
    (h : Traced a) (hsteady : Steady b.2) : Traced b := by
  refine hrun.invariant (fun x => Steady x.2 → Traced x) (fun _ => h) ?_ hsteady
  intro x event y hstep hx hy
  refine hstep.traced (hx ?_) hy
  rw [hstep.2] at hy
  exact (List.pairwise_append.1 hy).1

/-! ## What is replayed -/

/-- What is stored of a minute, against the readings. -/
structure Replays (q : QueuedMinute) (log : List Reading) : Prop where
  valid : Codec.validateCompletedMinute q.completed = .ok ()
  complete : ∀ p ∈ log, p.OfMinute q.completed.minuteTime → p.OfValidBook → p.sample.second = 0 →
    ∃ batch ∈ q.completed.batches, batch.minute.instrumentID = p.source.instrumentID
  shown : ∀ batch ∈ q.completed.batches, ∀ second : UInt8,
    (∃ x, atSecond batch.minute batch.deltas second = .ok (some x)) ↔
      ∃ p ∈ log, p.OfMinute q.completed.minuteTime ∧ p.source.instrumentID = batch.minute.instrumentID ∧
        p.OfValidBook ∧ p.sample.second = second.toNat
  exact : ∀ batch ∈ q.completed.batches, ∀ p ∈ log, p.OfMinute q.completed.minuteTime →
    p.source.instrumentID = batch.minute.instrumentID → p.OfValidBook →
    ∃ x, atSecond batch.minute batch.deltas (UInt8.ofNat p.sample.second) = .ok (some x) ∧
      x.bids = p.sample.snapshot.bids ∧ x.asks = p.sample.snapshot.asks

section Stored

variable {instrumentID : UInt32} {minuteTime : Time} {depth : Nat} {calls : List MinuteSample} {b : MinuteBuffer}
  {batch : MinuteBatch}

/-- A buffer with a valid book at second zero has a batch. -/
theorem exists_batch (h : Buffered instrumentID minuteTime depth calls b) {c : MinuteSample} (hc : c ∈ calls)
    (hv : c.OfValidBook instrumentID depth) (hzero : c.second = 0) : ∃ batch, b.batch = some batch := by
  rcases h.state with ⟨-, hno⟩ | hrec
  · exact absurd hzero (hno c hc hv)
  · exact ⟨_, if_neg (by simp [hrec.anchored])⟩

theorem batch_eq (hb : b.batch = some batch) : b.anchored = true ∧ batch = ⟨b.minute, b.deltas⟩ := by
  unfold MinuteBuffer.batch at hb
  split at hb
  · cases hb
  · rename_i hanchored
    exact ⟨by simpa using hanchored, (Option.some.inj hb).symm⟩

theorem recording_of_batch (h : Buffered instrumentID minuteTime depth calls b) (hb : b.batch = some batch) :
    Recording b (validBooks instrumentID depth calls) := by
  rcases h.state with ⟨hidle, -⟩ | hrec
  · exact absurd (hidle.anchored.symm.trans (batch_eq hb).1) Bool.false_ne_true
  · exact hrec

theorem validate_of_batch (h : Buffered instrumentID minuteTime depth calls b) (hb : b.batch = some batch) :
    validateMinuteBatch batch = .ok () := by
  rw [(batch_eq hb).2]
  exact validateMinuteBatch_eq_ok.2 ⟨_, _, (recording_of_batch h hb).inv.validBatch⟩

/-- Replay shows the books that were sampled. -/
theorem atSecond_of_batch (h : Buffered instrumentID minuteTime depth calls b) (hb : b.batch = some batch)
    {c : MinuteSample} (hc : c ∈ calls) (hv : c.OfValidBook instrumentID depth) :
    ∃ x, atSecond batch.minute batch.deltas (UInt8.ofNat c.second) = .ok (some x) ∧
      x.bids = c.snapshot.bids ∧ x.asks = c.snapshot.asks := by
  rw [(batch_eq hb).2]
  exact h.atSecond (batch_eq hb).1 hc hv

/-- Replay shows no other second. -/
theorem exists_of_atSecond (h : Buffered instrumentID minuteTime depth calls b) (hb : b.batch = some batch)
    {second : UInt8} {x : BookSnapshot} (hx : atSecond batch.minute batch.deltas second = .ok (some x)) :
    ∃ c ∈ calls, c.OfValidBook instrumentID depth ∧ c.second = second.toNat := by
  have hrec := recording_of_batch h hb
  rw [(batch_eq hb).2] at hx
  by_cases hs : second.toNat ≤ 59
  · rw [atSecond_of_valid hrec.inv.validBatch hs] at hx
    by_cases hbit : HasSecond b.minute.validBitmap second.toNat
    · obtain ⟨y, hy⟩ := (hrec.bits second.toNat).1 hbit
      obtain ⟨c, hc, hv, hcs, -⟩ := mem_validBooks.1 hy
      exact ⟨c, hc, hv, hcs⟩
    · rw [if_neg hbit] at hx
      cases hx
  · exact absurd hx (atSecond_of_late (by omega))

end Stored

theorem validateBatches_ok {batches : List MinuteBatch} {previous : Option UInt32}
    (hvalid : ∀ b ∈ batches, b.minute.minuteTime.Equal minute ∧ validateMinuteBatch b = .ok ())
    (hlater : ∀ p ∈ previous, ∀ b ∈ batches, p < b.minute.instrumentID)
    (hsorted : batches.Pairwise fun a b => a.minute.instrumentID < b.minute.instrumentID) :
    Codec.validateBatches minute previous batches = .ok () := by
  induction batches generalizing previous with
  | nil => rfl
  | cons b rest ih =>
      obtain ⟨hfirst, hrest⟩ := List.pairwise_cons.1 hsorted
      obtain ⟨hminute, hbatch⟩ := hvalid b List.mem_cons_self
      refine Codec.validateBatches_cons.2 ⟨?_, hbatch, ?_⟩
      · rw [not_or, not_not]
        refine ⟨hminute, ?_⟩
        rintro ⟨p, hp, hle⟩
        exact absurd (hlater p hp b List.mem_cons_self) (UInt32.not_lt.2 hle)
      · refine ih (fun b hb => hvalid b (List.mem_cons_of_mem _ hb)) ?_ hrest
        intro p hp c hc
        cases hp
        exact hfirst c hc

theorem FromReadings.replays {q : QueuedMinute} (h : FromReadings q log) (hformed : Formed q) : Replays q log := by
  obtain ⟨sources, buffers, hsampled, hbatches⟩ := h
  -- each batch is that of a source, and of its buffer
  have hbatch : ∀ batch ∈ q.completed.batches, ∃ source ∈ sources, ∃ b, b.batch = some batch ∧
      Buffered source.instrumentID q.completed.minuteTime.utc source.storedDepth
        (samplesOf log source q.completed.minuteTime) b ∧ batch.minute.instrumentID = source.instrumentID := by
    intro batch hmem
    rw [hbatches] at hmem
    obtain ⟨source, hsource, hsome⟩ := List.mem_filterMap.1 hmem
    obtain ⟨b, hb, hbuffered⟩ := hsampled.opened source hsource
    rw [hb] at hsome
    exact ⟨source, hsource, b, hsome, hbuffered, (batch_spec hsome).1.trans hbuffered.ofInstrument⟩
  -- within a minute the instrument tells the source
  have hsame : ∀ p ∈ log, p.OfMinute q.completed.minuteTime → ∀ source ∈ sources,
      p.source.instrumentID = source.instrumentID → p.source = source := by
    intro p hp hminute source hsource heq
    by_contra hne
    have hsymm : Std.Symm fun s t : Source => s.instrumentID ≠ t.instrumentID := ⟨fun _ _ h => h.symm⟩
    exact (hsampled.sorted.imp ne_of_rank).forall (hsampled.read p hp hminute) hsource hne heq
  constructor
  · simp only [Codec.validateCompletedMinute, Check.seq_eq_ok]
    refine ⟨hsampled.exact, validateBatches_ok ?_ (fun _ hp => by cases hp) hformed.sorted⟩
    intro batch hmem
    obtain ⟨source, -, b, hsome, hbuffered, -⟩ := hbatch batch hmem
    exact ⟨hformed.minute batch hmem, validate_of_batch hbuffered hsome⟩
  · intro p hp hminute hv hzero
    obtain ⟨b, hb, hbuffered⟩ := hsampled.opened p.source (hsampled.read p hp hminute)
    have hc : p.sample ∈ samplesOf log p.source q.completed.minuteTime := mem_samplesOf.2 ⟨p, hp, rfl, hminute, rfl⟩
    obtain ⟨batch, hsome⟩ := exists_batch hbuffered hc hv hzero
    refine ⟨batch, ?_, (batch_spec hsome).1.trans hbuffered.ofInstrument⟩
    rw [hbatches]
    exact List.mem_filterMap.2 ⟨p.source, hsampled.read p hp hminute, by rw [hb]; exact hsome⟩
  · intro batch hmem second
    obtain ⟨source, hsource, b, hsome, hbuffered, hid⟩ := hbatch batch hmem
    constructor
    · rintro ⟨x, hx⟩
      obtain ⟨c, hc, hv, hsecond⟩ := exists_of_atSecond hbuffered hsome hx
      obtain ⟨p, hp, rfl, hminute, rfl⟩ := mem_samplesOf.1 hc
      exact ⟨p, hp, hminute, hid.symm, hv, hsecond⟩
    · rintro ⟨p, hp, hminute, heq, hv, hsecond⟩
      obtain rfl := hsame p hp hminute source hsource (heq.trans hid)
      obtain ⟨x, hx, -⟩ := atSecond_of_batch hbuffered hsome (mem_samplesOf.2 ⟨p, hp, rfl, hminute, rfl⟩) hv
      rw [hsecond, UInt8.ofNat_toNat] at hx
      exact ⟨x, hx⟩
  · intro batch hmem p hp hminute heq hv
    obtain ⟨source, hsource, b, hsome, hbuffered, hid⟩ := hbatch batch hmem
    obtain rfl := hsame p hp hminute source hsource (heq.trans hid)
    exact atSecond_of_batch hbuffered hsome (mem_samplesOf.2 ⟨p, hp, rfl, hminute, rfl⟩) hv

theorem traced_new {capacity : Int} (h : Engine.new sources capacity = .ok e) : Traced ({ engine := e }, []) := by
  have haccounted := accounted_new h
  obtain ⟨-, hqueue, -, -, -, hminute⟩ := new_spec h
  refine ⟨haccounted, ?_, fun _ p hp => absurd hp List.not_mem_nil, ?_⟩
  · intro _ hopen
    dsimp only at hopen
    rw [hminute] at hopen
    exact absurd rfl hopen
  · intro q hq
    simp [Handover.queued, Handover.unwritten, hqueue] at hq

/-- As long as no instrument is read at an earlier second of a minute after a later one, every queued minute is
valid and replays, at each second, exactly the book that was read in time there. -/
theorem minutes_replay_readings {capacity : Int} {events : List Event} (hnew : Engine.new sources capacity = .ok e)
    (hrun : Transition.Run LoggedStep ({ engine := e }, []) events (s, log)) (hsteady : Steady log) :
    ∀ q ∈ s.queued, Replays q log := by
  have h := run_traced hrun (traced_new hnew) hsteady
  exact fun q hq => (h.queued q hq).replays (h.accounted.accounts.formed q hq)

/-- A book is read. -/
def bookAt (time : Time) : Engine.Readings := { readAt time with books := fun _ => (someBook 100 101, true) }

/-- The engine after a book was read in a first minute, and none in a second one. -/
def readOnce : Engine := (oneEngine.sampleBefore (secondOf 0) (secondOf 1) (bookAt (secondOf 0))).1

def readTwice : Engine := (readOnce.sampleBefore (secondOf 60) (secondOf 61) (readAt (secondOf 60))).1

def twoReadings : List Reading :=
  readOnce.readings ((secondOf 0).utc.truncate Time.second) (secondOf 1) (bookAt (secondOf 0)) ++
    readTwice.readings ((secondOf 60).utc.truncate Time.second) (secondOf 61) (readAt (secondOf 60))

theorem logged_of_sampled {e : Engine} (hok : (e.sampleBefore time deadline r).2.toBool = true)
    (hclock : Time.zero.unixNano + Time.minute ≤ time.unixNano) (log : List Reading) :
    LoggedStep ({ engine := e }, log) (.sample time deadline r) ({ engine := (e.sampleBefore time deadline r).1 },
      log ++ (e.sampleBefore time deadline r).1.readings (time.utc.truncate Time.second) deadline r) :=
  ⟨step_of_sampled hok hclock, rfl⟩

theorem minutes_replay_readings_twice : ∃ s : Handover,
    s.queued.map (fun q => q.completed.batches.map fun batch => batch.minute.instrumentID) = [[1]] ∧
      twoReadings.map (fun p => decide p.OfValidBook) = [true, false] ∧ ∀ q ∈ s.queued, Replays q twoReadings := by
  have hnew : Engine.new oneSource 0 = .ok oneEngine := rfl
  have hrun : Transition.Run LoggedStep ({ engine := oneEngine }, []) _ ({ engine := readTwice }, twoReadings) :=
    .cons (logged_of_sampled (by decide +kernel) (by decide) [])
      (.cons (logged_of_sampled (by decide +kernel) (by decide) _) (.nil _))
  have hsteady : Steady twoReadings := by
    unfold Steady
    decide +kernel
  exact ⟨_, by decide +kernel, by decide +kernel, minutes_replay_readings hnew hrun hsteady⟩

end MarketInfo.Sampler
