import MarketInfo.Stream.Phases

/-! # Every step of the loop keeps the invariant -/

namespace MarketInfo

namespace Stream

variable {τ π : Type} {cfg : Config τ π} {n : Nat} {l : Loop τ π}

/-! ## Messages -/

/-- A message of a known topic that may be applied now. -/
structure Ready (cfg : Config τ π) (n : Nat) (log : List (Effect π)) (ev : Received π) : Prop where
  topic : ev.message.topic ∈ cfg.topics
  order : ev.receiveOrder ≤ n
  later : Later log ev

theorem legal_apply {ev : Received π} {ready : Bool} {t : Target τ} (h : LoopInv cfg n l)
    (hlater : Later l.log ev)
    (hphase : (l.targets ev.message.topic).phase = .awaitingSnapshot ∨
      (l.targets ev.message.topic).phase = .active)
    (ht : t.phase = if ready = true then .active else (l.targets ev.message.topic).phase) :
    Legal n l ev.message.topic
      (.apply ev (decide ((l.targets ev.message.topic).phase = .awaitingSnapshot)) ready) t := by
  have hempty : l.preAck ev.message.topic = [] := by
    refine h.no_buffer ?_
    rcases hphase with hphase | hphase
    · rw [hphase]
      nofun
    · rw [hphase]
      nofun
  refine ⟨?_, ?_, fun htimely => ⟨htimely, hlater⟩, ?_, fun hne => absurd hempty hne⟩
  · unfold Effect.next
    dsimp only
    rw [if_neg (not_not.2 rfl), ht]
    rcases hphase with hphase | hphase
    · rw [hphase, if_pos ⟨rfl, rfl⟩]
    · rw [hphase, if_neg (by nofun), if_pos ⟨rfl, rfl⟩]
      split
      · rfl
      · rfl
  · intro topic' htopic phase
    unfold Effect.next
    dsimp only
    rw [if_pos (Ne.symm htopic)]
  · intro topic' order heq
    cases heq

theorem noNewAck_apply (log : List (Effect π)) (ev : Received π) (awaiting ready : Bool) :
    NoNewAck log (.apply ev awaiting ready :: log) := by
  intro topic order hmem
  rcases List.mem_cons.1 hmem with heq | hmem
  · cases heq
  · exact hmem

theorem inv_applyTarget (h : LoopInv cfg n l) (now : Int) {ev : Received π} (hev : Ready cfg n l.log ev)
    (hphase : (l.targets ev.message.topic).phase = .awaitingSnapshot ∨
      (l.targets ev.message.topic).phase = .active) :
    LoopInv cfg n (applyTarget cfg now l ev).1 ∧ NoNewAck l.log (applyTarget cfg now l ev).1.log := by
  unfold applyTarget
  dsimp only
  split
  · -- the adapter refused the message
    rename_i state cause _
    have hlegal : Legal n l ev.message.topic
        (.apply ev (decide ((l.targets ev.message.topic).phase = .awaitingSnapshot)) false)
        { l.targets ev.message.topic with state } :=
      legal_apply h hev.later hphase rfl
    have happlied := inv_effect h hlegal
    have hsame : ∀ (t : Target τ) (e : Effect π),
        ((l.setTarget ev.message.topic t).record e).targets ev.message.topic = t := by
      intro t e
      exact Function.update_self _ _ _
    obtain ⟨hinv, hack⟩ := inv_resync happlied ev.message.topic cause (by rw [hsame]; exact hphase)
    refine ⟨hinv, ?_⟩
    intro topic order hmem
    exact noNewAck_apply _ _ _ _ topic order (hack topic order hmem)
  · exact ⟨inv_effect h (legal_apply h hev.later hphase rfl), noNewAck_apply _ _ _ _⟩
  · exact ⟨inv_effect h (legal_apply h hev.later hphase rfl), noNewAck_apply _ _ _ _⟩

theorem inv_apply (h : LoopInv cfg n l) (now : Int) {ev : Received π} (hev : Ready cfg n l.log ev) :
    LoopInv cfg n (apply cfg now l ev).1 ∧ NoNewAck l.log (apply cfg now l ev).1.log := by
  unfold apply
  dsimp only
  split
  · exact ⟨h, fun _ _ hmem => hmem⟩
  · rename_i hcurrent
    split
    · rename_i hphase
      split
      · exact ⟨h, fun _ _ hmem => hmem⟩
      · exact ⟨inv_buffer h hev.topic hphase hev.order hev.later, fun _ _ hmem => hmem⟩
    · rename_i hphase
      refine inv_applyTarget h now hev ?_
      rw [not_or] at hcurrent
      cases hp : (l.targets ev.message.topic).phase with
      | awaitingSubscribe => exact absurd hp hphase
      | awaitingSnapshot => exact Or.inl rfl
      | active => exact Or.inr rfl
      | awaitingUnsubscribe => exact absurd hp hcurrent.2

theorem inv_replay (h : LoopInv cfg n l) (now : Int) {events : List (Received π)}
    (hevents : ∀ ev ∈ events, Ready cfg n l.log ev) : LoopInv cfg n (replay cfg now l events).1 := by
  induction events generalizing l with
  | nil => exact h
  | cons ev rest ih =>
      obtain ⟨hinv, hack⟩ := inv_apply h now (hevents ev (List.mem_cons_self ..))
      rw [replay]
      rcases happ : apply cfg now l ev with ⟨l', e | ⟨⟩⟩
      · rw [happ] at hinv
        exact hinv
      · rw [happ] at hinv hack
        refine ih hinv ?_
        intro ev' hev'
        have hready := hevents ev' (List.mem_cons_of_mem _ hev')
        exact ⟨hready.topic, hready.order, hack.later hready.later⟩

/-! ## Acknowledgements -/

/-- Acknowledged unsubscribes: the targets wait for their subscribe. -/
theorem inv_unsubscribed (h : LoopInv cfg n l) {topic : String}
    (hphase : (l.targets topic).phase = .awaitingUnsubscribe) {order : Nat} (horder : order ≤ n) :
    LoopInv cfg n
      ((l.setTarget topic (l.targets topic).unsubscribed).record (.unsubscribed topic order)) := by
  have hempty : l.preAck topic = [] := by
    refine h.no_buffer ?_
    rw [hphase]
    nofun
  refine inv_effect h ⟨?_, ?_, fun ht => ht, ?_, fun hne => absurd hempty hne⟩
  · unfold Effect.next
    dsimp only
    rw [if_neg (not_not.2 rfl), if_pos hphase]
    rfl
  · intro topic' ht phase
    unfold Effect.next
    dsimp only
    rw [if_pos (Ne.symm ht)]
  · intro topic' order' heq
    obtain ⟨rfl, rfl⟩ := Effect.unsubscribed.inj heq
    exact ⟨rfl, horder⟩

/-- An acknowledged subscribe takes the buffer of its target away. -/
theorem inv_subscribed (h : LoopInv cfg n l) {topic : String}
    (hphase : (l.targets topic).phase = .awaitingSubscribe) (now : Int) (order : Nat) :
    LoopInv cfg n (((l.setTarget topic ((l.targets topic).subscribed now)).record
      (.subscribed topic order)).dropBuffer topic) := by
  have hdropped := inv_dropBuffer h topic
  have hempty : (l.dropBuffer topic).preAck topic = [] := Function.update_self ..
  refine inv_effect (e := .subscribed topic order) (t := (l.targets topic).subscribed now) hdropped
    ⟨?_, ?_, fun ht => ht, ?_, fun hne => absurd hempty hne⟩
  · unfold Effect.next
    dsimp only
    rw [if_neg (not_not.2 rfl)]
    exact if_pos hphase
  · intro topic' ht phase
    unfold Effect.next
    dsimp only
    rw [if_pos (Ne.symm ht)]
  · intro topic' order' heq
    cases heq

theorem inv_ackTopics (h : LoopInv cfg n l) (now : Int) (operation : String) {order : Nat}
    (horder : order ≤ n) (topics : List String) :
    LoopInv cfg n (ackTopics cfg now operation order l topics).1 ∧
      (operation ≠ "unsubscribe" →
        NoNewAck l.log (ackTopics cfg now operation order l topics).1.log) ∧
      ∀ events, (ackTopics cfg now operation order l topics).2 = .ok events →
        ∀ ev ∈ events,
          Ready cfg n (ackTopics cfg now operation order l topics).1.log ev := by
  induction topics generalizing l with
  | nil =>
      refine ⟨h, fun _ _ _ hmem => hmem, ?_⟩
      intro events hevents ev hev
      obtain rfl := Except.ok.inj hevents
      cases hev
  | cons topic rest ih =>
      rw [ackTopics]
      split
      · rename_i hunsubscribe
        split
        · exact ⟨h, fun _ _ _ hmem => hmem, fun _ hno => by cases hno⟩
        · rename_i hphase
          have hinv := inv_enqueue (inv_unsubscribed h (not_not.1 hphase) horder) "subscribe" [topic]
          rcases henq : enqueue cfg ((l.setTarget topic (l.targets topic).unsubscribed).record
            (.unsubscribed topic order)) "subscribe" [topic] with ⟨l', e | ⟨⟩⟩
          · rw [henq] at hinv
            exact ⟨hinv, fun hno => absurd hunsubscribe hno, fun _ hno => by cases hno⟩
          · rw [henq] at hinv
            obtain ⟨hrest, -, hevents⟩ := ih hinv
            exact ⟨hrest, fun hno => absurd hunsubscribe hno, hevents⟩
      · rename_i hsubscribe
        split
        · exact ⟨h, fun _ _ _ hmem => hmem, fun _ hno => by cases hno⟩
        · rename_i hphase
          have hinv := inv_subscribed h (not_not.1 hphase) now order
          obtain ⟨hrest, hack, hevents⟩ := ih hinv
          -- subscribes acknowledge no unsubscribe
          have hnone : NoNewAck l.log (ackTopics cfg now operation order
              (((l.setTarget topic ((l.targets topic).subscribed now)).record
                (.subscribed topic order)).dropBuffer topic) rest).1.log := by
            intro topic' order' hmem
            rcases List.mem_cons.1 (hack hsubscribe topic' order' hmem) with heq | hmem
            · cases heq
            · exact hmem
          rcases hacked : ackTopics cfg now operation order
              (((l.setTarget topic ((l.targets topic).subscribed now)).record
                (.subscribed topic order)).dropBuffer topic) rest with ⟨l', e | tail⟩
          · rw [hacked] at hrest hnone
            exact ⟨hrest, fun _ => hnone, fun _ hno => by cases hno⟩
          · rw [hacked] at hrest hnone hevents
            refine ⟨hrest, fun _ => hnone, ?_⟩
            intro events heq ev hev
            obtain rfl := Except.ok.inj heq
            rcases List.mem_append.1 hev with hev | hev
            · obtain ⟨htopic, hknown, hn, hlater⟩ := h.buffered topic ev hev
              refine ⟨by rw [htopic]; exact hknown, hn, hnone.later hlater⟩
            · exact hevents tail rfl ev hev

theorem inv_acknowledge (h : LoopInv cfg n l) (now : Int) (msg : Message) {order : Nat}
    (horder : order ≤ n) : LoopInv cfg n (acknowledge cfg now l msg order).1 := by
  unfold acknowledge
  split
  · exact h
  · rename_i id _
    split
    · exact h
    · split
      · exact h
      · split
        · exact h
        · rename_i topics left _
          have hsettled : LoopInv cfg n (settle l id left) := h.congr rfl rfl rfl rfl
          obtain ⟨hinv, -, hevents⟩ := inv_ackTopics hsettled now msg.operation horder topics
          rcases hacked : ackTopics cfg now msg.operation order (settle l id left) topics with
            ⟨l', e | events⟩
          · rw [hacked] at hinv
            exact hinv
          · rw [hacked] at hinv hevents
            refine inv_replay hinv now ?_
            intro ev hev
            exact hevents events rfl ev (Listing.mem_sortBy.1 hev)

/-! ## Events and the ticker -/

/-- An event that the loop takes from its queue. -/
inductive Fresh (cfg : Config τ π) (n : Nat) : Nat → StreamEvent π → Prop where
  | sent (id : String) : Fresh cfg n n (.sent id)
  | received {ev : Received π} : n < ev.receiveOrder →
      (ev.message.pong = false → ev.message.acknowledgement = false →
        ev.message.topic ∈ cfg.topics) →
      Fresh cfg n ev.receiveOrder (.received ev)

theorem inv_handle (h : LoopInv cfg n l) (now : Int) {m : Nat} {event : StreamEvent π}
    (hevent : Fresh cfg n m event) : LoopInv cfg m (handle cfg now l event).1 := by
  cases hevent with
  | sent id => exact h.congr rfl rfl rfl rfl
  | @received ev hlt htopic =>
      have hmono := h.mono hlt.le
      unfold handle
      dsimp only
      split
      · exact hmono
      · rename_i hpong
        split
        · rename_i hack
          have hready : Ready cfg ev.receiveOrder l.log ev := by
            refine ⟨htopic (Bool.eq_false_iff.2 hpong) hack, le_refl _, ?_⟩
            intro order hmem
            exact (h.acked _ order hmem).trans_lt hlt
          exact (inv_apply hmono now hready).1
        · exact inv_acknowledge hmono now ev.message (le_refl _)

theorem inv_tickTargets (h : LoopInv cfg n l) (now : Int) (topics : List String) :
    LoopInv cfg n (tickTargets cfg now l topics).1 := by
  induction topics generalizing l with
  | nil => exact h
  | cons topic rest ih =>
      rw [tickTargets]
      dsimp only
      split
      · exact ih h
      · rename_i hstale
        have hphase := (not_not.1 hstale).2.1
        split
        · -- only the observation expires
          refine ih (inv_effect h ⟨rfl, fun _ _ _ => rfl, fun ht => ht, ?_, ?_⟩)
          · intro topic' order heq
            cases heq
          · intro hne
            exact ⟨h.quiet topic hne, fun _ => by nofun⟩
        · have hinv := (inv_resync h topic
            s!"websocket target {topic} stale or missing snapshot" hphase.symm).1
          rcases hres : resync cfg l topic
            s!"websocket target {topic} stale or missing snapshot" with ⟨l', e | ⟨⟩⟩
          · rw [hres] at hinv
            exact hinv
          · rw [hres] at hinv
            exact ih hinv

theorem inv_tick (h : LoopInv cfg n l) (now : Int) : LoopInv cfg n (tick cfg now l).1 := by
  unfold tick
  split
  · exact h
  · exact inv_tickTargets h now cfg.topics

end Stream

end MarketInfo
