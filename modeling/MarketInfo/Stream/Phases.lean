import MarketInfo.Stream.Loop

/-! # What the loop keeps

The record of the loop is a legal life of every target: resync, acknowledged
unsubscribe, acknowledged subscribe, snapshot. What is buffered came after every
unsubscribe acknowledged so far, and the counter is the sum of the buffers.
-/

namespace MarketInfo

namespace Stream

variable {τ π : Type}

/-! ## Phases -/

/-- The phase of a target after an effect; `none` when the effect is out of place. -/
def Effect.next (topic : String) (phase : Phase) : Effect π → Option Phase
  | .apply ev awaiting ready =>
      if ev.message.topic ≠ topic then some phase
      else if phase = .awaitingSnapshot ∧ awaiting = true then
        some (if ready = true then .active else .awaitingSnapshot)
      else if phase = .active ∧ awaiting = false then some .active
      else none
  | .resync t =>
      if t ≠ topic then some phase
      else if phase = .awaitingSnapshot ∨ phase = .active then some .awaitingUnsubscribe
      else none
  | .unsubscribed t _ =>
      if t ≠ topic then some phase
      else if phase = .awaitingUnsubscribe then some .awaitingSubscribe
      else none
  | .subscribed t _ =>
      if t ≠ topic then some phase
      else if phase = .awaitingSubscribe then some .awaitingSnapshot
      else none
  | .invalidate _ => some phase

/-- The phase of a target after a record, newest first, from some phase. -/
def phaseFrom (topic : String) (start : Phase) : List (Effect π) → Option Phase
  | [] => some start
  | e :: log => (phaseFrom topic start log).bind fun phase => e.next topic phase

def phaseOf (topic : String) (log : List (Effect π)) : Option Phase :=
  phaseFrom topic .awaitingSubscribe log

theorem phaseFrom_append {topic : String} {start : Phase} {new old : List (Effect π)} :
    phaseFrom topic start (new ++ old) =
      (phaseFrom topic start old).bind fun phase => phaseFrom topic phase new := by
  induction new with
  | nil =>
      cases h : phaseFrom topic start old with
      | none =>
          rw [List.nil_append, h]
          rfl
      | some phase =>
          rw [List.nil_append, h]
          rfl
  | cons e new ih =>
      rw [List.cons_append, phaseFrom, ih]
      cases phaseFrom topic start old with
      | none => rfl
      | some phase => rfl

theorem next_awaitingUnsubscribe {e : Effect π} {topic : String} {phase : Phase}
    (h : e.next topic .awaitingUnsubscribe = some phase) :
    phase = .awaitingUnsubscribe ∨
      phase = .awaitingSubscribe ∧ ∃ order, e = .unsubscribed topic order := by
  cases e with
  | apply ev awaiting ready => simp [Effect.next] at h; exact Or.inl h.2.symm
  | resync t => simp [Effect.next] at h; exact Or.inl h.2.symm
  | unsubscribed t order =>
      by_cases ht : t = topic
      · simp [Effect.next, ht] at h
        exact Or.inr ⟨h.symm, order, by rw [ht]⟩
      · simp [Effect.next, ht] at h
        exact Or.inl h.symm
  | subscribed t order => simp [Effect.next] at h; exact Or.inl h.2.symm
  | invalidate t => simp [Effect.next] at h; exact Or.inl h.symm

theorem next_awaitingSubscribe {e : Effect π} {topic : String} {phase : Phase}
    (h : e.next topic .awaitingSubscribe = some phase) :
    phase = .awaitingSubscribe ∨
      phase = .awaitingSnapshot ∧ ∃ order, e = .subscribed topic order := by
  cases e with
  | apply ev awaiting ready => simp [Effect.next] at h; exact Or.inl h.2.symm
  | resync t => simp [Effect.next] at h; exact Or.inl h.2.symm
  | unsubscribed t order => simp [Effect.next] at h; exact Or.inl h.2.symm
  | subscribed t order =>
      by_cases ht : t = topic
      · simp [Effect.next, ht] at h
        exact Or.inr ⟨h.symm, order, by rw [ht]⟩
      · simp [Effect.next, ht] at h
        exact Or.inl h.symm
  | invalidate t => simp [Effect.next] at h; exact Or.inl h.symm

theorem next_active {e : Effect π} {topic : String} {phase : Phase}
    (h : e.next topic phase = some .active) :
    phase = .active ∨ ∃ ev, e = .apply ev true true ∧ ev.message.topic = topic := by
  cases e with
  | apply ev awaiting ready =>
      by_cases ht : ev.message.topic = topic
      · by_cases hawaiting : phase = .awaitingSnapshot ∧ awaiting = true
        · cases ready with
          | true => exact Or.inr ⟨ev, by rw [hawaiting.2], ht⟩
          | false => simp [Effect.next, ht, hawaiting] at h
        · simp only [Effect.next, ht, hawaiting] at h
          simp at h
          exact Or.inl h.1
      · simp [Effect.next, ht] at h
        exact Or.inl h
  | resync t =>
      by_cases ht : t = topic
      · simp [Effect.next, ht] at h
      · simp [Effect.next, ht] at h
        exact Or.inl h
  | unsubscribed t order =>
      by_cases ht : t = topic
      · simp [Effect.next, ht] at h
      · simp [Effect.next, ht] at h
        exact Or.inl h
  | subscribed t order =>
      by_cases ht : t = topic
      · simp [Effect.next, ht] at h
      · simp [Effect.next, ht] at h
        exact Or.inl h
  | invalidate t =>
      simp [Effect.next] at h
      exact Or.inl h

/-- Leaving the wait for the unsubscribe takes its acknowledgement. -/
theorem unsubscribed_mem {topic : String} {log : List (Effect π)} {phase : Phase}
    (h : phaseFrom topic .awaitingUnsubscribe log = some phase) (hne : phase ≠ .awaitingUnsubscribe) :
    ∃ new order old, log = new ++ .unsubscribed topic order :: old ∧
      phaseFrom topic .awaitingSubscribe new = some phase := by
  induction log generalizing phase with
  | nil => exact absurd (Option.some.inj h).symm hne
  | cons e log ih =>
      obtain ⟨before, hbefore, hnext⟩ := Option.bind_eq_some_iff.1 h
      by_cases hstill : before = .awaitingUnsubscribe
      · subst hstill
        rcases next_awaitingUnsubscribe hnext with hsame | ⟨rfl, order, rfl⟩
        · exact absurd hsame hne
        · exact ⟨[], order, log, rfl, rfl⟩
      · obtain ⟨new, order, old, rfl, hnew⟩ := ih hbefore hstill
        exact ⟨e :: new, order, old, rfl, Option.bind_eq_some_iff.2 ⟨before, hnew, hnext⟩⟩

/-- Leaving the wait for the subscribe takes its acknowledgement. -/
theorem subscribed_mem {topic : String} {log : List (Effect π)} {phase : Phase}
    (h : phaseFrom topic .awaitingSubscribe log = some phase) (hne : phase ≠ .awaitingSubscribe) :
    ∃ new order old, log = new ++ .subscribed topic order :: old ∧
      phaseFrom topic .awaitingSnapshot new = some phase := by
  induction log generalizing phase with
  | nil => exact absurd (Option.some.inj h).symm hne
  | cons e log ih =>
      obtain ⟨before, hbefore, hnext⟩ := Option.bind_eq_some_iff.1 h
      by_cases hstill : before = .awaitingSubscribe
      · subst hstill
        rcases next_awaitingSubscribe hnext with hsame | ⟨rfl, order, rfl⟩
        · exact absurd hsame hne
        · exact ⟨[], order, log, rfl, rfl⟩
      · obtain ⟨new, order, old, rfl, hnew⟩ := ih hbefore hstill
        exact ⟨e :: new, order, old, rfl, Option.bind_eq_some_iff.2 ⟨before, hnew, hnext⟩⟩

/-- Only a message that establishes a snapshot makes a target active. -/
theorem snapshot_mem {topic : String} {start : Phase} {log : List (Effect π)}
    (h : phaseFrom topic start log = some .active) (hstart : start ≠ .active) :
    ∃ new ev old, log = new ++ .apply ev true true :: old ∧ ev.message.topic = topic := by
  induction log with
  | nil => exact absurd (Option.some.inj h) hstart
  | cons e log ih =>
      obtain ⟨before, hbefore, hnext⟩ := Option.bind_eq_some_iff.1 h
      rcases next_active hnext with rfl | ⟨ev, rfl, htopic⟩
      · obtain ⟨new, ev, old, rfl, htopic⟩ := ih hbefore
        exact ⟨e :: new, ev, old, rfl, htopic⟩
      · exact ⟨[], ev, log, rfl, htopic⟩

/-! ## The order of messages -/

/-- A message came after every unsubscribe of its topic that was acknowledged. -/
@[reducible] def Later (log : List (Effect π)) (ev : Received π) : Prop :=
  ∀ order, .unsubscribed ev.message.topic order ∈ log → order < ev.receiveOrder

/-- Every message was applied after the unsubscribes before it. -/
def Timely : List (Effect π) → Prop
  | [] => True
  | .apply ev _ _ :: log => Timely log ∧ Later log ev
  | _ :: log => Timely log

theorem Timely.split {new old : List (Effect π)} {ev : Received π} {awaiting ready : Bool}
    (h : Timely (new ++ .apply ev awaiting ready :: old)) : Later old ev := by
  induction new with
  | nil => exact h.2
  | cons e new ih =>
      cases e with
      | apply => exact ih h.1
      | _ => exact ih h

/-! ## The invariant of the loop -/

/-- `n` bounds the order of the messages handled so far. -/
structure LoopInv (cfg : Config τ π) (n : Nat) (l : Loop τ π) : Prop where
  count : l.preAckCount = ∑ topic ∈ cfg.topics.toFinset, ((l.preAck topic).length : Int)
  phase : ∀ topic, phaseOf topic l.log = some (l.targets topic).phase
  timely : Timely l.log
  acked : ∀ topic order, .unsubscribed topic order ∈ l.log → order ≤ n
  buffered : ∀ topic, ∀ ev ∈ l.preAck topic,
    ev.message.topic = topic ∧ topic ∈ cfg.topics ∧ ev.receiveOrder ≤ n ∧ Later l.log ev
  quiet : ∀ topic, l.preAck topic ≠ [] → (l.targets topic).phase = .awaitingSubscribe

theorem LoopInv.mono {cfg : Config τ π} {n m : Nat} {l : Loop τ π} (h : LoopInv cfg n l)
    (hle : n ≤ m) : LoopInv cfg m l := by
  refine ⟨h.count, h.phase, h.timely, ?_, ?_, h.quiet⟩
  · intro topic order hmem
    exact (h.acked topic order hmem).trans hle
  · intro topic ev hev
    obtain ⟨h1, h2, h3, h4⟩ := h.buffered topic ev hev
    exact ⟨h1, h2, h3.trans hle, h4⟩

/-- The parts of the loop that the invariant does not read. -/
theorem LoopInv.congr {cfg : Config τ π} {n : Nat} {l l' : Loop τ π} (h : LoopInv cfg n l)
    (htargets : l'.targets = l.targets) (hpreAck : l'.preAck = l.preAck)
    (hcount : l'.preAckCount = l.preAckCount) (hlog : l'.log = l.log) : LoopInv cfg n l' := by
  refine ⟨?_, ?_, ?_, ?_, ?_, ?_⟩
  · rw [hcount, hpreAck]
    exact h.count
  · rw [htargets, hlog]
    exact h.phase
  · rw [hlog]
    exact h.timely
  · rw [hlog]
    exact h.acked
  · rw [hpreAck, hlog]
    exact h.buffered
  · rw [hpreAck, htargets]
    exact h.quiet

/-! ## Buffers -/

theorem sum_update {s : Finset String} (f : String → Int) {i : String} (hi : i ∈ s) (b : Int) :
    ∑ x ∈ s, Function.update f i b x = ∑ x ∈ s, f x - f i + b := by
  rw [Finset.sum_update_of_mem hi, ← Finset.sum_sdiff (Finset.singleton_subset_iff.2 hi),
    Finset.sum_singleton]
  ring

theorem length_update (preAck : String → List (Received π)) (topic : String)
    (events : List (Received π)) :
    (fun t => ((Function.update preAck topic events t).length : Int)) =
      Function.update (fun t => ((preAck t).length : Int)) topic events.length := by
  funext t
  by_cases ht : t = topic
  · rw [ht, Function.update_self, Function.update_self]
  · rw [Function.update_of_ne ht, Function.update_of_ne ht]

variable {cfg : Config τ π} {n : Nat} {l : Loop τ π} {topic : String}

theorem inv_dropBuffer (h : LoopInv cfg n l) (topic : String) :
    LoopInv cfg n (l.dropBuffer topic) := by
  have hpreAck : (l.dropBuffer topic).preAck = Function.update l.preAck topic [] := rfl
  have hsub : ∀ t, ∀ ev ∈ (l.dropBuffer topic).preAck t, ev ∈ l.preAck t ∧ t ≠ topic := by
    intro t ev hev
    rw [hpreAck] at hev
    by_cases ht : t = topic
    · rw [ht, Function.update_self] at hev
      cases hev
    · rw [Function.update_of_ne ht] at hev
      exact ⟨hev, ht⟩
  refine ⟨?_, h.phase, h.timely, h.acked, ?_, ?_⟩
  · change l.preAckCount - (l.preAck topic).length =
      ∑ t ∈ cfg.topics.toFinset, ((Function.update l.preAck topic [] t).length : Int)
    rw [length_update]
    by_cases htopic : topic ∈ cfg.topics
    · rw [sum_update _ (List.mem_toFinset.2 htopic), h.count]
      simp
    · -- an unknown topic has no buffer
      have hnil : l.preAck topic = [] := by
        rw [List.eq_nil_iff_forall_not_mem]
        intro ev hev
        exact htopic (h.buffered topic ev hev).2.1
      rw [hnil, h.count, List.length_nil]
      have hsame : Function.update (fun t => ((l.preAck t).length : Int)) topic ((0 : Nat) : Int) =
          fun t => ((l.preAck t).length : Int) := by
        refine Function.update_eq_self_iff.2 ?_
        rw [hnil]
        rfl
      rw [hsame]
      simp
  · intro t ev hev
    exact h.buffered t ev (hsub t ev hev).1
  · intro t hne
    obtain ⟨ev, hev⟩ := List.exists_mem_of_ne_nil _ hne
    exact h.quiet t (List.ne_nil_of_mem (hsub t ev hev).1)

theorem inv_buffer (h : LoopInv cfg n l) {ev : Received π} (htopic : ev.message.topic ∈ cfg.topics)
    (hphase : (l.targets ev.message.topic).phase = .awaitingSubscribe) (hn : ev.receiveOrder ≤ n)
    (hlater : Later l.log ev) : LoopInv cfg n (l.buffer ev.message.topic ev) := by
  have hpreAck : (l.buffer ev.message.topic ev).preAck =
      Function.update l.preAck ev.message.topic (l.preAck ev.message.topic ++ [ev]) := rfl
  refine ⟨?_, h.phase, h.timely, h.acked, ?_, ?_⟩
  · change l.preAckCount + 1 = ∑ t ∈ cfg.topics.toFinset, ((Function.update l.preAck
      ev.message.topic (l.preAck ev.message.topic ++ [ev]) t).length : Int)
    rw [length_update, sum_update _ (List.mem_toFinset.2 htopic), h.count, List.length_append,
      List.length_singleton]
    push_cast
    ring
  · intro t e he
    rw [hpreAck] at he
    by_cases ht : t = ev.message.topic
    · rw [ht, Function.update_self] at he
      rcases List.mem_append.1 he with he | he
      · rw [ht]
        exact h.buffered _ e he
      · obtain rfl := List.mem_singleton.1 he
        exact ⟨ht.symm, by rw [ht]; exact htopic, hn, hlater⟩
    · rw [Function.update_of_ne ht] at he
      exact h.buffered t e he
  · intro t hne
    by_cases ht : t = ev.message.topic
    · rw [ht]
      exact hphase
    · rw [hpreAck, Function.update_of_ne ht] at hne
      exact h.quiet t hne

/-! ## Effects -/

/-- What an effect on one target needs. -/
structure Legal (n : Nat) (l : Loop τ π) (topic : String) (e : Effect π) (t : Target τ) : Prop where
  phase : e.next topic (l.targets topic).phase = some t.phase
  others : ∀ topic', topic' ≠ topic → ∀ phase, e.next topic' phase = some phase
  timely : Timely l.log → Timely (e :: l.log)
  acked : ∀ topic' order, e = .unsubscribed topic' order → topic' = topic ∧ order ≤ n
  quiet : l.preAck topic ≠ [] → t.phase = .awaitingSubscribe ∧ ∀ order, e ≠ .unsubscribed topic order

theorem inv_effect (h : LoopInv cfg n l) {e : Effect π} {t : Target τ} (he : Legal n l topic e t) :
    LoopInv cfg n ((l.setTarget topic t).record e) := by
  have htargets : ((l.setTarget topic t).record e).targets = Function.update l.targets topic t := rfl
  refine ⟨h.count, ?_, he.timely h.timely, ?_, ?_, ?_⟩
  · intro topic'
    refine Option.bind_eq_some_iff.2 ⟨_, h.phase topic', ?_⟩
    rw [htargets]
    by_cases ht : topic' = topic
    · rw [ht, Function.update_self]
      exact he.phase
    · rw [Function.update_of_ne ht]
      exact he.others topic' ht _
  · intro topic' order hmem
    rcases List.mem_cons.1 hmem with heq | hmem
    · exact (he.acked topic' order heq.symm).2
    · exact h.acked topic' order hmem
  · intro topic' ev hev
    obtain ⟨htopic, hknown, hn, hlater⟩ := h.buffered topic' ev hev
    refine ⟨htopic, hknown, hn, ?_⟩
    intro order hmem
    rcases List.mem_cons.1 hmem with heq | hmem
    · -- a target that buffers does not wait for an unsubscribe
      obtain ⟨hsame, -⟩ := he.acked _ order heq.symm
      have hne : l.preAck topic ≠ [] := by
        rw [← hsame, htopic]
        exact List.ne_nil_of_mem hev
      exact absurd (by rw [← heq, hsame]) ((he.quiet hne).2 order)
    · exact hlater order hmem
  · intro topic' hne
    rw [htargets]
    by_cases ht : topic' = topic
    · rw [ht, Function.update_self]
      rw [ht] at hne
      exact (he.quiet hne).1
    · rw [Function.update_of_ne ht]
      exact h.quiet topic' hne

theorem enqueue_same (cfg : Config τ π) (l : Loop τ π) (operation : String) (topics : List String) :
    (enqueue cfg l operation topics).1.targets = l.targets ∧
      (enqueue cfg l operation topics).1.preAck = l.preAck ∧
      (enqueue cfg l operation topics).1.preAckCount = l.preAckCount ∧
      (enqueue cfg l operation topics).1.log = l.log := by
  unfold enqueue
  dsimp only
  split
  · exact ⟨rfl, rfl, rfl, rfl⟩
  · exact ⟨rfl, rfl, rfl, rfl⟩

theorem inv_enqueue (h : LoopInv cfg n l) (operation : String) (topics : List String) :
    LoopInv cfg n (enqueue cfg l operation topics).1 := by
  obtain ⟨h1, h2, h3, h4⟩ := enqueue_same cfg l operation topics
  exact h.congr h1 h2 h3 h4

/-- A target that is past its subscribe has no buffer. -/
theorem LoopInv.no_buffer (h : LoopInv cfg n l)
    (hphase : (l.targets topic).phase ≠ .awaitingSubscribe) : l.preAck topic = [] := by
  by_contra hne
  exact hphase (h.quiet topic hne)

/-- No unsubscribe was acknowledged between two records. -/
@[reducible] def NoNewAck (old new : List (Effect π)) : Prop :=
  ∀ topic order, .unsubscribed topic order ∈ new → .unsubscribed topic order ∈ old

theorem NoNewAck.later {old new : List (Effect π)} (h : NoNewAck old new) {ev : Received π}
    (hlater : Later old ev) : Later new ev := by
  intro order hmem
  exact hlater order (h _ _ hmem)

theorem inv_resync (h : LoopInv cfg n l) (topic cause : String)
    (hphase : (l.targets topic).phase = .awaitingSnapshot ∨ (l.targets topic).phase = .active) :
    LoopInv cfg n (resync cfg l topic cause).1 ∧
      NoNewAck l.log (resync cfg l topic cause).1.log := by
  unfold resync
  split
  · exact ⟨h, fun _ _ hmem => hmem⟩
  · have hempty : l.preAck topic = [] := by
      refine h.no_buffer ?_
      rcases hphase with hphase | hphase
      · rw [hphase]
        nofun
      · rw [hphase]
        nofun
    have hlegal : Legal n l topic (.resync topic) ((l.targets topic).resynced cfg topic cause) := by
      refine ⟨?_, ?_, fun ht => ht, ?_, fun hne => absurd hempty hne⟩
      · unfold Effect.next
        dsimp only
        rw [if_neg (not_not.2 rfl), if_pos hphase]
        rfl
      · intro topic' ht phase
        unfold Effect.next
        dsimp only
        rw [if_pos (Ne.symm ht)]
      · intro topic' order heq
        cases heq
    refine ⟨inv_enqueue (inv_dropBuffer (inv_effect h hlegal) topic) _ _, ?_⟩
    obtain ⟨-, -, -, hlog⟩ := enqueue_same cfg (((l.setTarget topic
      ((l.targets topic).resynced cfg topic cause)).record (.resync topic)).dropBuffer topic)
      "unsubscribe" [topic]
    rw [hlog]
    intro topic' order hmem
    rcases List.mem_cons.1 hmem with heq | hmem
    · cases heq
    · exact hmem

end Stream

end MarketInfo
