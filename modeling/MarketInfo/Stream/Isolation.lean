import MarketInfo.Stream.Connection

/-! # Resyncs are isolated

After a resync a target sees only messages that were received after its
unsubscribe was acknowledged, and it is live again only after its subscribe was
acknowledged and a message has established its snapshot.
-/

namespace MarketInfo

namespace Stream

variable {τ π : Type} {cfg : Config τ π} {n : Nat}

/-! ## Steps -/

/-- A change that leaves the loop and the messages in flight alone. -/
theorem Inv.congr {c c' : Connection τ π} (h : Inv cfg n c) (hloop : LoopInv cfg n c'.loop)
    (hflight : c'.inFlight = c.inFlight) (horder : c'.order = c.order) : Inv cfg n c' := by
  refine ⟨hloop, ?_, ?_, ?_⟩
  · rw [horder]
    exact h.le
  · rw [hflight, horder]
    exact h.pending
  · rw [hflight]
    exact h.ordered

/-- Dropping what the reader holds. -/
theorem Inv.stop {c : Connection τ π} (h : Inv cfg n c) : Inv cfg n { c with reader := .stopped } := by
  have hsub : ({ c with reader := .stopped } : Connection τ π).inFlight.Sublist c.inFlight := by
    unfold Connection.inFlight
    exact List.Sublist.append (List.Sublist.refl _) (List.nil_sublist _)
  exact ⟨h.loop, h.le, fun ev hev => h.pending ev (hsub.subset hev), h.ordered.sublist hsub⟩

/-- The next event of the queue comes after all that were handled. -/
theorem inv_next {c : Connection τ π} (h : Inv cfg n c) {event : StreamEvent π}
    {rest : List (StreamEvent π)} (hqueue : c.queue = event :: rest) {loop : Loop τ π}
    {status : Status} (hloop : ∀ m, Fresh cfg n m event → LoopInv cfg m loop) :
    ∃ m, Inv cfg m { c with queue := rest, loop, status } := by
  have hflight : c.inFlight = (event :: rest).filterMap receivedOf ++ c.reader.held := by
    unfold Connection.inFlight
    rw [hqueue]
  cases event with
  | sent id =>
      refine ⟨n, hloop n (.sent id), h.le, ?_, ?_⟩
      · intro ev hev
        refine h.pending ev ?_
        rw [hflight]
        exact hev
      · have hordered := h.ordered
        rw [hflight] at hordered
        exact hordered
  | received ev =>
      have hordered := h.ordered
      rw [hflight] at hordered
      obtain ⟨hafter, hrest⟩ := List.pairwise_cons.1 hordered
      have hpending : Pending cfg n c.order ev := by
        refine h.pending ev ?_
        rw [hflight]
        exact List.mem_cons_self ..
      refine ⟨ev.receiveOrder, hloop _ (.received hpending.after hpending.topic), hpending.bound,
        ?_, hrest⟩
      intro ev' hev'
      have hpending' : Pending cfg n c.order ev' := by
        refine h.pending ev' ?_
        rw [hflight]
        exact List.mem_cons_of_mem _ hev'
      exact ⟨hafter ev' hev', hpending'.bound, hpending'.topic⟩

theorem inv_step {c c' : Connection τ π} {l : Label π} (hstep : Step cfg c l c')
    (h : ∃ n, Inv cfg n c) : ∃ n, Inv cfg n c' := by
  obtain ⟨n, h⟩ := h
  cases hstep with
  | receive payload message hreader hdecodes =>
      have hflight : c.inFlight = c.queue.filterMap receivedOf := by
        unfold Connection.inFlight
        rw [hreader]
        exact List.append_nil _
      refine ⟨n, h.loop, h.le.trans (Nat.le_succ _), ?_, ?_⟩
      · intro ev hev
        rcases List.mem_append.1 hev with hev | hev
        · have hpending := h.pending ev (by rw [hflight]; exact hev)
          exact ⟨hpending.after, hpending.bound.trans (Nat.le_succ _), hpending.topic⟩
        · obtain rfl := List.mem_singleton.1 hev
          refine ⟨Nat.lt_succ_of_le h.le, le_refl _, ?_⟩
          intro hpong hack
          exact hdecodes.known.resolve_left (hdecodes.data hpong hack)
      · refine List.pairwise_append.2 ⟨?_, List.pairwise_singleton _ _, ?_⟩
        · rw [← hflight]
          exact h.ordered
        · intro a ha b hb
          obtain rfl := List.mem_singleton.1 hb
          exact Nat.lt_succ_of_le (h.pending a (by rw [hflight]; exact ha)).bound
  | @stamp ev hreader =>
      have hflight : c.inFlight = c.queue.filterMap receivedOf ++ [ev] := by
        unfold Connection.inFlight
        rw [hreader]
        rfl
      refine ⟨n, h.loop, h.le, ?_, ?_⟩
      · intro ev' hev'
        rcases List.mem_append.1 hev' with hev' | hev'
        · exact h.pending ev' (by rw [hflight]; exact List.mem_append_left _ hev')
        · obtain rfl := List.mem_singleton.1 hev'
          have hpending := h.pending ev (by rw [hflight]; exact List.mem_append_right _ (by simp))
          exact ⟨hpending.after, hpending.bound, hpending.topic⟩
      · have hordered := h.ordered
        rw [hflight] at hordered
        obtain ⟨hqueue, -, hcross⟩ := List.pairwise_append.1 hordered
        refine List.pairwise_append.2 ⟨hqueue, List.pairwise_singleton _ _, ?_⟩
        intro a ha b hb
        obtain rfl := List.mem_singleton.1 hb
        exact hcross a ha ev (List.mem_singleton.2 rfl)
  | @push ev hreader _ =>
      refine ⟨n, h.congr h.loop ?_ rfl⟩
      unfold Connection.inFlight
      rw [hreader, List.filterMap_append]
      exact List.append_nil _
  | readerFails err => exact ⟨n, (inv_fail h err).stop⟩
  | readerStops => exact ⟨n, h.stop⟩
  | writerTakes _ _ => exact ⟨n, h.congr (h.loop.congr rfl rfl rfl rfl) rfl rfl⟩
  | @writerSends command hwaiting _ =>
      refine ⟨n, h.congr h.loop ?_ rfl⟩
      unfold Connection.inFlight
      rw [List.filterMap_append]
      exact congrArg (· ++ _) (List.append_nil _)
  | writerFails err => exact ⟨n, inv_fail h err⟩
  | handle now _ hqueue _ =>
      refine inv_next h hqueue ?_
      intro m hfresh
      exact inv_handle h.loop now hfresh
  | handleFailed now _ hqueue _ =>
      refine inv_next h hqueue ?_
      intro m hfresh
      cases hfresh with
      | sent => exact h.loop
      | received hlt _ => exact h.loop.mono hlt.le
  | tick now _ _ => exact ⟨n, h.congr (inv_tick h.loop now) rfl rfl⟩
  | tickFailed now _ _ => exact ⟨n, h.congr h.loop rfl rfl⟩
  | fails _ =>
      have hfail := inv_fail h ‹String›
      exact ⟨n, hfail.congr hfail.loop rfl rfl⟩
  | failure _ _ => exact ⟨n, h.congr h.loop rfl rfl⟩
  | cancelled _ => exact ⟨n, h.congr h.loop rfl rfl⟩
  | returns _ => exact ⟨n, h.congr (inv_invalidateAll h.loop _) rfl rfl⟩

/-! ## After a terminal failure -/

/-- The loop has returned at most once, and then every target was invalidated. -/
structure Ended (cfg : Config τ π) (c c' : Connection τ π) : Prop where
  err : c'.err = c.err
  targets : c'.loop.targets = c.loop.targets ∨
    (c.status ≠ .stopped ∧ c'.status = .stopped ∧
      c'.loop.targets = invalidateTargets cfg "websocket shard stopped" c.loop.targets)

theorem ended_step {c c' : Connection τ π} {l : Label π} (hstep : Step cfg c l c')
    (herr : c.err ≠ none) : Ended cfg c c' := by
  have hfail : ∀ err, fail cfg c err = c := fun err => if_neg herr
  cases hstep with
  | receive => exact ⟨rfl, Or.inl rfl⟩
  | stamp => exact ⟨rfl, Or.inl rfl⟩
  | push => exact ⟨rfl, Or.inl rfl⟩
  | readerFails err =>
      rw [hfail]
      exact ⟨rfl, Or.inl rfl⟩
  | readerStops => exact ⟨rfl, Or.inl rfl⟩
  | writerTakes => exact ⟨rfl, Or.inl rfl⟩
  | writerSends => exact ⟨rfl, Or.inl rfl⟩
  | writerFails err =>
      rw [hfail]
      exact ⟨rfl, Or.inl rfl⟩
  | handle _ _ _ hnone => exact absurd hnone herr
  | handleFailed => exact ⟨rfl, Or.inl rfl⟩
  | tick _ _ hnone => exact absurd hnone herr
  | tickFailed => exact ⟨rfl, Or.inl rfl⟩
  | fails =>
      rw [hfail]
      exact ⟨rfl, Or.inl rfl⟩
  | failure => exact ⟨rfl, Or.inl rfl⟩
  | cancelled => exact ⟨rfl, Or.inl rfl⟩
  | returns hstatus =>
      refine ⟨rfl, Or.inr ⟨?_, rfl, rfl⟩⟩
      rw [hstatus]
      nofun

/-- A connection that has stopped stays so. -/
theorem stopped_step {c c' : Connection τ π} {l : Label π} (hstep : Step cfg c l c')
    (hstopped : c.status = .stopped) : c'.status = .stopped := by
  have hno : ∀ status, c.status = status → status ≠ .stopped → False := by
    rintro status rfl hne
    exact hne hstopped
  have hfail : ∀ err, (fail cfg c err).status = c.status := by
    intro err
    unfold fail
    split
    · rfl
    · rfl
  cases hstep with
  | readerFails err => exact (hfail err).trans hstopped
  | writerFails err => exact (hfail err).trans hstopped
  | handle _ hstatus => exact (hno _ hstatus nofun).elim
  | handleFailed _ hstatus => exact (hno _ hstatus nofun).elim
  | tick _ hstatus => exact (hno _ hstatus nofun).elim
  | tickFailed _ hstatus => exact (hno _ hstatus nofun).elim
  | fails hstatus => exact (hno _ hstatus nofun).elim
  | failure hstatus => exact (hno _ hstatus nofun).elim
  | cancelled hstatus => exact (hno _ hstatus nofun).elim
  | returns => rfl
  | _ => exact hstopped

theorem ended_run {c c' : Connection τ π} {labels : List (Label π)}
    (hrun : Transition.Run (Step cfg) c labels c') (herr : c.err ≠ none) : Ended cfg c c' := by
  induction hrun with
  | nil c => exact ⟨rfl, Or.inl rfl⟩
  | @cons c mid c' l labels hstep hrest ih =>
      have hfirst := ended_step hstep herr
      have hlast := ih (by rw [hfirst.err]; exact herr)
      refine ⟨hlast.err.trans hfirst.err, ?_⟩
      rcases hfirst.targets with hsame | ⟨hrunning, hstopped, hinvalid⟩
      · rcases hlast.targets with hsame' | ⟨hrunning', hstopped', hinvalid'⟩
        · exact Or.inl (hsame'.trans hsame)
        · refine Or.inr ⟨fun hno => hrunning' (stopped_step hstep hno), hstopped', ?_⟩
          rw [hinvalid', hsame]
      · -- it stopped in the first step
        rcases hlast.targets with hsame' | ⟨hrunning', -, -⟩
        · refine Or.inr ⟨hrunning, ?_, hsame'.trans hinvalid⟩
          exact hrest.invariant (fun c => c.status = .stopped) hstopped
            fun _ _ _ hs hstill => stopped_step hs hstill
        · exact absurd hstopped hrunning'

/-! ## Isolation -/

/-- A record is legal as a whole, and so is what stands before any effect. -/
theorem phaseOf_split {topic : String} {new old : List (Effect π)} {e : Effect π} {phase : Phase}
    (h : phaseOf topic (new ++ e :: old) = some phase) :
    ∃ before after, phaseOf topic old = some before ∧ e.next topic before = some after := by
  unfold phaseOf at h
  rw [phaseFrom_append] at h
  obtain ⟨after, hafter, -⟩ := Option.bind_eq_some_iff.1 h
  obtain ⟨before, hbefore, hnext⟩ := Option.bind_eq_some_iff.1 hafter
  exact ⟨before, after, hbefore, hnext⟩

/-- After a resync a target waits for its unsubscribe. -/
theorem phaseOf_resync {topic : String} {mid old : List (Effect π)} {phase : Phase}
    (h : phaseOf topic (mid ++ .resync topic :: old) = some phase) :
    phaseFrom topic .awaitingUnsubscribe mid = some phase := by
  unfold phaseOf at h
  rw [phaseFrom_append] at h
  obtain ⟨after, hafter, hmid⟩ := Option.bind_eq_some_iff.1 h
  obtain ⟨before, -, hnext⟩ := Option.bind_eq_some_iff.1 hafter
  unfold Effect.next at hnext
  dsimp only at hnext
  rw [if_neg (not_not.2 rfl)] at hnext
  split at hnext
  · obtain rfl := Option.some.inj hnext
    exact hmid
  · cases hnext

/-- What is applied to a target is applied before its unsubscribe is asked for, or
after its subscribe was acknowledged. -/
theorem phase_of_apply {topic : String} {ev : Received π} {awaiting ready : Bool}
    {before after : Phase} (htopic : ev.message.topic = topic)
    (h : (Effect.apply ev awaiting ready).next topic before = some after) :
    before ≠ .awaitingUnsubscribe ∧ before ≠ .awaitingSubscribe := by
  unfold Effect.next at h
  dsimp only at h
  rw [if_neg (not_not.2 htopic)] at h
  split at h
  · rename_i hphase
    rw [hphase.1]
    exact ⟨nofun, nofun⟩
  · split at h
    · rename_i hphase
      rw [hphase.1]
      exact ⟨nofun, nofun⟩
    · cases h

/-- What holds of a connection after any run. -/
structure Isolated (cfg : Config τ π) (c : Connection τ π) : Prop where
  /-- Between a resync and a later message, both acknowledgements have come, and the
  message was received after the first. -/
  fresh : ∀ topic new ev awaiting ready mid old,
    c.loop.log = new ++ .apply ev awaiting ready :: (mid ++ .resync topic :: old) →
      ev.message.topic = topic →
        (∃ after order before, mid = after ++ .unsubscribed topic order :: before ∧
          ∃ order', .subscribed topic order' ∈ after) ∧
        ∀ order, .unsubscribed topic order ∈ mid → order < ev.receiveOrder
  /-- A target that is live again has had both acknowledgements, and then a message
  that established its snapshot. -/
  live : ∀ topic mid old, c.loop.log = mid ++ .resync topic :: old →
    (c.loop.targets topic).phase = .active →
      ∃ last ev mid' order mid'' order' first,
        mid = last ++ .apply ev true true :: mid' ++ .subscribed topic order :: mid'' ++
            .unsubscribed topic order' :: first ∧ ev.message.topic = topic
  /-- The counter is the sum of the buffers. -/
  count : c.loop.preAckCount =
    ∑ topic ∈ cfg.topics.toFinset, ((c.loop.preAck topic).length : Int)
  /-- After the first failure nothing is done to a target but the invalidation on
  return. -/
  terminal : c.err ≠ none → ∀ labels c', Transition.Run (Step cfg) c labels c' →
    c'.loop.targets = c.loop.targets ∨
      (c.status ≠ .stopped ∧ c'.status = .stopped ∧
        c'.loop.targets = invalidateTargets cfg "websocket shard stopped" c.loop.targets)

theorem isolated_of_inv {c : Connection τ π} (h : Inv cfg n c) : Isolated cfg c := by
  refine ⟨?_, ?_, h.loop.count, ?_⟩
  · intro topic new ev awaiting ready mid old hlog htopic
    have hphase := h.loop.phase topic
    have htimely := h.loop.timely
    rw [hlog] at hphase htimely
    obtain ⟨before, after, hbefore, hnext⟩ := phaseOf_split hphase
    obtain ⟨hunsub, hsub⟩ := phase_of_apply htopic hnext
    obtain ⟨after', order, before', rfl, hrest⟩ := unsubscribed_mem (phaseOf_resync hbefore) hunsub
    obtain ⟨new', order', old', rfl, -⟩ := subscribed_mem hrest hsub
    refine ⟨⟨_, order, before', rfl, order', by simp⟩, ?_⟩
    intro o ho
    refine htimely.split o ?_
    rw [htopic]
    exact List.mem_append_left _ ho
  · intro topic mid old hlog hactive
    have hphase := h.loop.phase topic
    rw [hlog, hactive] at hphase
    obtain ⟨after, order', first, rfl, hrest⟩ := unsubscribed_mem (phaseOf_resync hphase) nofun
    obtain ⟨after', order, mid'', rfl, hrest'⟩ := subscribed_mem hrest nofun
    obtain ⟨last, ev, mid', rfl, htopic⟩ := snapshot_mem hrest' nofun
    exact ⟨last, ev, mid', order, mid'', order', first, rfl, htopic⟩
  · intro herr labels c' hrun
    exact (ended_run hrun herr).targets

def reasonAdapter : Adapter String Nat where
  apply _ _ payload _ := ("", .ok (payload = 0))
  reset _ _ reason := reason
  invalidate _ _ reason := reason

def oneTopic : Config String Nat where
  adapter := reasonAdapter
  topics := ["book"]
  batches := [["book"]]
  queueCapacity := 4096
  preAckCapacity := 4096
  commandCapacity := 64
  ackPerTopic := true
  requireAckID := false
  resync := true
  staleTargetOnly := false
  allowQuietActive := true
  silenceTimeout := 45000000000
  subscribeTimeout := 10000000000

def oneTopicStart : Connection String Nat := start oneTopic (fun _ => 0) fun _ => ""

def oneTopicFailed : Connection String Nat :=
  { fail oneTopic oneTopicStart "read error" with reader := .stopped }

end Stream

end MarketInfo
