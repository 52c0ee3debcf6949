import MarketInfo.OptionsLive.PendingMinutes

/-! # The cache budget is the pending minutes

A step moves minutes, charges one, releases one or changes the charge of one
(`Effect`); everything about the budget follows from that. The order of the sink is
an invariant of one worker: while its writer is at work, what was queued is what the
sink took, then the writer's minute, then the queue.
-/

namespace MarketInfo.OptionsLive.Pending

/-! ## What a step does to the minutes -/

/-- What a step does to the budget and to the minutes that exist. -/
inductive Effect (s s' : Cache × Worker) : Prop
  | moved : s'.1.budget = s.1.budget → s'.2.pending.Perm s.2.pending → s'.2.next = s.2.next →
      s'.2.captured = s.2.captured → s'.2.released = s.2.released → Effect s s'
  | captured (cost : Int) : s.1.budget.reserve cost = some s'.1.budget →
      s'.2.pending.Perm (⟨s.2.next, cost⟩ :: s.2.pending) → s'.2.next = s.2.next + 1 →
      s'.2.captured = s.2.captured ++ [s.2.next] → s'.2.released = s.2.released → Effect s s'
  | released (p : Minute) : s'.1.budget = s.1.budget.release p.cost →
      s.2.pending.Perm (p :: s'.2.pending) → s'.2.next = s.2.next →
      s'.2.captured = s.2.captured → s'.2.released = s.2.released ++ [p.id] → Effect s s'
  | recharged (p : Minute) (cost : Int) (rest : List Minute) : 0 ≤ cost →
      s.2.pending.Perm (p :: rest) → s'.2.pending.Perm ({ p with cost := cost } :: rest) →
      s'.1.budget.used = s.1.budget.used - p.cost + cost → s'.1.budget.limit = s.1.budget.limit →
      (s.1.budget.used ≤ s.1.budget.limit → s'.1.budget.used ≤ s'.1.budget.limit) →
      s'.2.next = s.2.next → s'.2.captured = s.2.captured → s'.2.released = s.2.released →
      Effect s s'

theorem charge_eq_some {c c' : Cache} {v : Envelope} (h : c.charge v = some c') :
    c.budget.reserve (captureCost v) = some c'.budget := by
  unfold Cache.charge at h
  split at h
  · cases h
  · rcases Option.map_eq_some_iff.mp h with ⟨b, hb, rfl⟩
    exact hb

theorem recharge_eq_some {c c' : Cache} {p : Minute} {cost : Int} (h : c.recharge p cost = some c') :
    c'.budget.used = c.budget.used - p.cost + cost ∧ c'.budget.limit = c.budget.limit ∧
      (c.budget.used ≤ c.budget.limit → c'.budget.used ≤ c'.budget.limit) := by
  unfold Cache.recharge at h
  split at h
  · rcases Option.map_eq_some_iff.mp h with ⟨b, hb, rfl⟩
    rcases BufferBudget.reserve_eq_some.mp hb with ⟨-, hfits, rfl⟩
    refine ⟨?_, rfl, fun _ => hfits⟩
    show c.budget.used + (cost - p.cost) = _
    omega
  · rename_i hless
    rw [← Option.some.inj h]
    refine ⟨?_, rfl, fun hle => ?_⟩
    · show c.budget.used - (p.cost - cost) = _
      omega
    · show c.budget.used - (p.cost - cost) ≤ c.budget.limit
      omega

/-- The pending minutes with one of the hands full. -/
theorem perm_mid {a b : List Minute} {p : Minute} {q : List Minute} :
    (a ++ (p :: b) ++ q).Perm (p :: (a ++ b ++ q)) := by
  rw [List.append_assoc, List.append_assoc]
  exact List.perm_middle

/-- The hands and the queue hold what they held. -/
theorem Effect.still {c c' : Cache} {w w' : Worker} (hbudget : c'.budget = c.budget)
    (howner : w'.owner.held = w.owner.held) (hwriter : w'.writer.held = w.writer.held)
    (hqueue : w'.queue = w.queue) (hnext : w'.next = w.next) (hcaptured : w'.captured = w.captured)
    (hreleased : w'.released = w.released) : Effect (c, w) (c', w') := by
  refine .moved hbudget (List.Perm.of_eq ?_) hnext hcaptured hreleased
  simp only [Worker.pending, howner, hwriter, hqueue]

theorem WorkerStep.effect {s s' : Cache × Worker} (h : WorkerStep s s') : Effect s s' := by
  cases h with
  | skip c w v howner hfull => exact .moved rfl (List.Perm.refl _) rfl rfl rfl
  | capture c c' w v howner hroom hcharge =>
      refine .captured (captureCost v) (charge_eq_some hcharge) ?_ rfl rfl rfl
      simp only [Worker.pending, howner, Owner.held]
      exact List.Perm.refl _
  | send c w p howner hroom =>
      refine .moved rfl ?_ rfl rfl rfl
      simp only [Worker.pending, howner, Owner.held]
      rw [List.nil_append, ← List.append_assoc]
      exact List.perm_append_comm.trans (List.Perm.of_eq (List.append_assoc _ _ _).symm)
  | refuse c w p howner hfull =>
      exact .still rfl (by rw [howner]; rfl) rfl rfl rfl rfl rfl
  | drop c w p howner =>
      refine .released p rfl ?_ rfl rfl rfl
      simp only [Worker.pending, howner, Owner.held]
      exact List.Perm.refl _
  | stop c w howner =>
      exact .still rfl (by rw [howner]; rfl) rfl rfl rfl rfl rfl
  | close c w howner =>
      exact .still rfl (by rw [howner]; rfl) rfl rfl rfl rfl rfl
  | timeout c w howner => exact .moved rfl (List.Perm.refl _) rfl rfl rfl
  | written c w howner hwriter =>
      exact .still rfl (by rw [howner]; rfl) rfl rfl rfl rfl rfl
  | empty c w p rest howner hqueue =>
      refine .moved rfl ?_ rfl rfl rfl
      simp only [Worker.pending, howner, Owner.held, hqueue]
      exact List.perm_middle.symm
  | emptied c w p howner =>
      refine .released p rfl ?_ rfl rfl rfl
      simp only [Worker.pending, howner, Owner.held]
      exact List.Perm.refl _
  | finish c w howner hqueue =>
      exact .still rfl (by rw [howner]; rfl) rfl rfl rfl rfl rfl
  | take c w p rest hwriter hqueue =>
      refine .moved rfl ?_ rfl rfl rfl
      simp only [Worker.pending, hwriter, Writer.held, hqueue]
      rw [List.append_nil, List.append_assoc]
      exact List.Perm.refl _
  | ended c w hwriter hqueue hclosed =>
      exact .still rfl rfl (by rw [hwriter]; rfl) rfl rfl rfl rfl
  | acquire c w p hwriter hroom =>
      exact .still rfl rfl (by rw [hwriter]; rfl) rfl rfl rfl rfl
  | abandon c w p hwriter hcancelled =>
      exact .still rfl rfl (by rw [hwriter]; rfl) rfl rfl rfl rfl
  | encodeError c w p hwriter =>
      exact .still rfl rfl (by rw [hwriter]; rfl) rfl rfl rfl rfl
  | encoded c c' w p size hwriter hrecharge =>
      rcases recharge_eq_some hrecharge with ⟨hused, hlimit, hfits⟩
      refine .recharged p (size + 256) (w.owner.held ++ w.queue) (by omega) ?_ ?_ hused hlimit hfits
        rfl rfl rfl
      · simp only [Worker.pending, hwriter, Writer.held]
        rw [List.append_assoc]
        exact List.perm_middle
      · simp only [Worker.pending, Writer.held]
        rw [List.append_assoc]
        exact List.perm_middle
  | tooLong c w p size hwriter hrecharge =>
      exact .still rfl rfl (by rw [hwriter]; rfl) rfl rfl rfl rfl
  | giveUp c w p hwriter hcancelled =>
      exact .still rfl rfl (by rw [hwriter]; rfl) rfl rfl rfl rfl
  | offer c w p hwriter hcancelled =>
      exact .still rfl rfl (by rw [hwriter]; rfl) rfl rfl rfl rfl
  | unreadable c w p hwriter =>
      have hheld : w.writer.held = [p] := by
        rcases hwriter with hwriter | hwriter
        · rw [hwriter]
          rfl
        · rw [hwriter]
          rfl
      exact .still rfl rfl hheld.symm rfl rfl rfl rfl
  | accept c w p hwriter =>
      exact .still rfl rfl (by rw [hwriter]; rfl) rfl rfl rfl rfl
  | refusedCancelled c w p hwriter hcancelled =>
      exact .still rfl rfl (by rw [hwriter]; rfl) rfl rfl rfl rfl
  | retry c w p hwriter hcancelled =>
      exact .still rfl rfl (by rw [hwriter]; rfl) rfl rfl rfl rfl
  | waited c w p hwriter =>
      exact .still rfl rfl (by rw [hwriter]; rfl) rfl rfl rfl rfl
  | interrupted c w p hwriter hcancelled =>
      exact .still rfl rfl (by rw [hwriter]; rfl) rfl rfl rfl rfl
  | release c w p again hwriter =>
      refine .released p rfl ?_ rfl rfl rfl
      have hafter : (if again then Writer.idle else .draining).held = [] := by
        cases again <;> rfl
      have hheld : w.writer.held = [p] := by rw [hwriter]; rfl
      unfold Worker.pending
      rw [hheld, hafter]
      exact perm_mid
  | drain c w p rest hwriter hqueue =>
      refine .moved rfl ?_ rfl rfl rfl
      simp only [Worker.pending, hwriter, Writer.held, hqueue]
      rw [List.append_nil, List.append_assoc]
      exact List.Perm.refl _
  | drained c w p hwriter =>
      refine .released p rfl ?_ rfl rfl rfl
      simp only [Worker.pending, hwriter, Writer.held]
      exact perm_mid
  | returned c w hwriter hqueue =>
      exact .still rfl rfl (by rw [hwriter]; rfl) rfl rfl rfl rfl

/-! ## One worker -/

/-- Every minute charged is one of the worker's, and either still exists or was released. -/
structure Worker.Accounted (w : Worker) : Prop where
  each : w.captured.Perm (w.pending.map Minute.id ++ w.released)
  once : w.captured.Nodup
  below : ∀ id ∈ w.captured, id < w.next
  charged : ∀ p ∈ w.pending, 0 ≤ p.cost

theorem accounted_start : Worker.start.Accounted where
  each := List.Perm.refl _
  once := List.nodup_nil
  below := by simp [Worker.start]
  charged := by simp [Worker.pending, Worker.start, Owner.held, Writer.held]

theorem holds_of_perm {w : Worker} {ps : List Minute} (h : w.pending.Perm ps) :
    w.holds = (ps.map Minute.cost).sum := (h.map Minute.cost).sum_eq

/-- The budget moves by what the worker holds more or less. -/
structure Kept (s s' : Cache × Worker) : Prop where
  accounted : s'.2.Accounted
  used : s'.1.budget.used - s.1.budget.used = s'.2.holds - s.2.holds
  limit : s'.1.budget.limit = s.1.budget.limit
  fits : s.1.budget.used ≤ s.1.budget.limit → s'.1.budget.used ≤ s'.1.budget.limit

theorem Effect.kept {s s' : Cache × Worker} (h : Effect s s') (hs : s.2.Accounted) : Kept s s' := by
  have hids : ∀ {ps qs : List Minute}, ps.Perm qs → (ps.map Minute.id).Perm (qs.map Minute.id) :=
    fun hperm => hperm.map Minute.id
  cases h with
  | moved hbudget hpending hnext hcaptured hreleased =>
      refine ⟨⟨?_, ?_, ?_, ?_⟩, ?_, ?_, ?_⟩
      · rw [hcaptured, hreleased]
        exact hs.each.trans ((hids hpending.symm).append_right _)
      · rw [hcaptured]
        exact hs.once
      · rw [hcaptured, hnext]
        exact hs.below
      · exact fun p hp => hs.charged p (hpending.mem_iff.mp hp)
      · rw [hbudget, holds_of_perm hpending, holds_of_perm (List.Perm.refl s.2.pending)]
        omega
      · rw [hbudget]
      · rw [hbudget]
        exact id
  | captured cost hreserve hpending hnext hcaptured hreleased =>
      rcases BufferBudget.reserve_eq_some.mp hreserve with ⟨hcost, hfits, hbudget⟩
      have hnew : s.2.next ∉ s.2.captured := fun hmem => lt_irrefl _ (hs.below _ hmem)
      refine ⟨⟨?_, ?_, ?_, ?_⟩, ?_, ?_, ?_⟩
      · rw [hcaptured, hreleased]
        have hadd := (hs.each.append_right [s.2.next]).trans List.perm_append_comm
        exact hadd.trans ((hids hpending.symm).append_right _)
      · rw [hcaptured]
        exact hs.once.append (List.nodup_singleton _) (List.disjoint_singleton.mpr hnew)
      · rw [hcaptured, hnext]
        intro id hid
        rcases List.mem_append.mp hid with hold | hself
        · exact Nat.lt_succ_of_lt (hs.below id hold)
        · rw [List.mem_singleton.mp hself]
          exact Nat.lt_succ_self _
      · intro p hp
        rcases List.mem_cons.mp (hpending.mem_iff.mp hp) with rfl | hold
        · exact hcost
        · exact hs.charged p hold
      · rw [hbudget, holds_of_perm hpending, List.map_cons, List.sum_cons,
          holds_of_perm (List.Perm.refl s.2.pending)]
        dsimp only
        omega
      · rw [hbudget]
      · rw [hbudget]
        exact fun _ => hfits
  | released p hbudget hpending hnext hcaptured hreleased =>
      have hcost := hs.charged p (hpending.mem_iff.mpr (List.mem_cons_self ..))
      refine ⟨⟨?_, ?_, ?_, ?_⟩, ?_, ?_, ?_⟩
      · rw [hcaptured, hreleased]
        refine hs.each.trans (((hids hpending).append_right _).trans ?_)
        rw [List.map_cons, List.cons_append, ← List.append_assoc]
        exact (List.perm_append_singleton _ _).symm
      · rw [hcaptured]
        exact hs.once
      · rw [hcaptured, hnext]
        exact hs.below
      · exact fun q hq => hs.charged q (hpending.mem_iff.mpr (List.mem_cons_of_mem _ hq))
      · rw [hbudget, holds_of_perm hpending, List.map_cons, List.sum_cons,
          holds_of_perm (List.Perm.refl s'.2.pending), BufferBudget.release_used]
        omega
      · rw [hbudget, BufferBudget.release_limit]
      · rw [hbudget, BufferBudget.release_used, BufferBudget.release_limit]
        omega
  | recharged p cost rest hcost hbefore hafter hused hlimit hfits hnext hcaptured hreleased =>
      refine ⟨⟨?_, ?_, ?_, ?_⟩, ?_, hlimit, hfits⟩
      · -- the minute is the same one at another charge
        rw [hcaptured, hreleased]
        exact hs.each.trans (((hids hbefore).trans (hids hafter).symm).append_right _)
      · rw [hcaptured]
        exact hs.once
      · rw [hcaptured, hnext]
        exact hs.below
      · intro q hq
        rcases List.mem_cons.mp (hafter.mem_iff.mp hq) with rfl | hold
        · exact hcost
        · exact hs.charged q (hbefore.mem_iff.mpr (List.mem_cons_of_mem _ hold))
      · rw [hused, holds_of_perm hbefore, holds_of_perm hafter, List.map_cons, List.map_cons,
          List.sum_cons, List.sum_cons]
        dsimp only
        omega

/-! ## Shutdown -/

/-- The owner is past the writer's end. -/
def Owner.Late : Owner → Prop
  | .emptying | .emptied _ | .done => True
  | _ => False

/-- A worker empties the queue only behind its writer, and is done when it is empty. -/
structure Worker.Closing (w : Worker) : Prop where
  behind : w.owner.Late → w.writer = .returned
  empty : w.owner = .done → w.queue = []

theorem closing_early {w : Worker} (h : ¬ w.owner.Late) : w.Closing where
  behind := fun hlate => absurd hlate h
  empty := fun hdone => absurd (by rw [hdone]; trivial) h

theorem closing_start : Worker.start.Closing := closing_early id

/-- While the writer is at work the owner is not behind it. -/
theorem Worker.Closing.busy {w w' : Worker} (h : w.Closing) (hwriter : w.writer ≠ .returned)
    (howner : w'.owner = w.owner) : w'.Closing :=
  closing_early fun hlate => hwriter (h.behind (howner ▸ hlate))

/-- The owner takes the rest of the queue. -/
theorem Worker.Closing.late {w w' : Worker} (h : w.Closing) (hlate : w.owner.Late)
    (hwriter : w'.writer = w.writer) (howner : w'.owner ≠ .done) : w'.Closing where
  behind := fun _ => hwriter.trans (h.behind hlate)
  empty := fun hdone => absurd hdone howner

theorem WorkerStep.closing {s s' : Cache × Worker} (h : WorkerStep s s') (hs : s.2.Closing) :
    s'.2.Closing := by
  cases h with
  | skip c w v howner hfull => exact hs
  | capture c c' w v howner hroom hcharge => exact closing_early id
  | send c w p howner hroom => exact closing_early id
  | refuse c w p howner hfull => exact closing_early id
  | drop c w p howner => exact closing_early id
  | stop c w howner => exact closing_early id
  | close c w howner => exact closing_early id
  | timeout c w howner => exact ⟨hs.behind, hs.empty⟩
  | written c w howner hwriter => exact ⟨fun _ => hwriter, fun hdone => nomatch hdone⟩
  | empty c w p rest howner hqueue =>
      exact hs.late (by rw [howner]; trivial) rfl fun hdone => nomatch hdone
  | emptied c w p howner =>
      exact hs.late (by rw [howner]; trivial) rfl fun hdone => nomatch hdone
  | finish c w howner hqueue => exact ⟨fun _ => hs.behind (by rw [howner]; trivial), fun _ => hqueue⟩
  | take c w p rest hwriter hqueue => exact hs.busy (by rw [hwriter]; nofun) rfl
  | ended c w hwriter hqueue hclosed => exact hs.busy (by rw [hwriter]; nofun) rfl
  | acquire c w p hwriter hroom => exact hs.busy (by rw [hwriter]; nofun) rfl
  | abandon c w p hwriter hcancelled => exact hs.busy (by rw [hwriter]; nofun) rfl
  | encodeError c w p hwriter => exact hs.busy (by rw [hwriter]; nofun) rfl
  | encoded c c' w p size hwriter hrecharge => exact hs.busy (by rw [hwriter]; nofun) rfl
  | tooLong c w p size hwriter hrecharge => exact hs.busy (by rw [hwriter]; nofun) rfl
  | giveUp c w p hwriter hcancelled => exact hs.busy (by rw [hwriter]; nofun) rfl
  | offer c w p hwriter hcancelled => exact hs.busy (by rw [hwriter]; nofun) rfl
  | unreadable c w p hwriter =>
      rcases hwriter with hwriter | hwriter
      · exact hs.busy (by rw [hwriter]; nofun) rfl
      · exact hs.busy (by rw [hwriter]; nofun) rfl
  | accept c w p hwriter => exact hs.busy (by rw [hwriter]; nofun) rfl
  | refusedCancelled c w p hwriter hcancelled => exact hs.busy (by rw [hwriter]; nofun) rfl
  | retry c w p hwriter hcancelled => exact hs.busy (by rw [hwriter]; nofun) rfl
  | waited c w p hwriter => exact hs.busy (by rw [hwriter]; nofun) rfl
  | interrupted c w p hwriter hcancelled => exact hs.busy (by rw [hwriter]; nofun) rfl
  | release c w p again hwriter => exact hs.busy (by rw [hwriter]; nofun) rfl
  | drain c w p rest hwriter hqueue => exact hs.busy (by rw [hwriter]; nofun) rfl
  | drained c w p hwriter => exact hs.busy (by rw [hwriter]; nofun) rfl
  | returned c w hwriter hqueue => exact hs.busy (by rw [hwriter]; nofun) rfl

theorem Worker.Closing.pending {w : Worker} (h : w.Closing) (hdone : w.owner = .done) :
    w.pending = [] := by
  unfold Worker.pending
  rw [hdone, h.behind (by rw [hdone]; trivial), h.empty hdone]
  rfl

/-! ## The order of the sink -/

/-- The minutes the sink was offered, each time. -/
def offered (sink : List SinkEvent) : List Nat :=
  sink.filterMap fun e => match e with
    | .offered id => some id
    | .accepted _ => none

/-- The minutes the sink took. -/
def accepted (sink : List SinkEvent) : List Nat :=
  sink.filterMap fun e => match e with
    | .offered _ => none
    | .accepted id => some id

theorem mem_offered {sink : List SinkEvent} {id : Nat} : id ∈ offered sink ↔ .offered id ∈ sink := by
  unfold offered
  rw [List.mem_filterMap]
  constructor
  · rintro ⟨_ | _, he, hid⟩
    · cases hid
      exact he
    · cases hid
  · exact fun h => ⟨_, h, rfl⟩

theorem mem_accepted {sink : List SinkEvent} {id : Nat} : id ∈ accepted sink ↔ .accepted id ∈ sink := by
  unfold accepted
  rw [List.mem_filterMap]
  constructor
  · rintro ⟨_ | _, he, hid⟩
    · cases hid
    · cases hid
      exact he
  · exact fun h => ⟨_, h, rfl⟩

theorem offered_append (a b : List SinkEvent) : offered (a ++ b) = offered a ++ offered b :=
  List.filterMap_append

theorem accepted_append (a b : List SinkEvent) : accepted (a ++ b) = accepted a ++ accepted b :=
  List.filterMap_append

/-- What the writer has yet to get accepted, while it is at work. -/
def Worker.ahead (w : Worker) : Option (List Nat) :=
  match w.writer with
  | .idle | .releasing _ true => some (w.queue.map Minute.id)
  | .compressing p | .encoding p | .trying p | .offering p | .waiting p =>
      some (p.id :: w.queue.map Minute.id)
  | .releasing _ false | .draining | .drained _ | .returned => none

/-- No minute is offered before the sink took every earlier one that was queued. -/
def Worker.EarlierFirst (w : Worker) : Prop :=
  ∀ pre id post, w.sink = pre ++ .offered id :: post →
    id ∈ w.queued ∧ ∀ earlier ∈ w.queued, earlier < id → .accepted earlier ∈ pre

structure Worker.Ordered (w : Worker) : Prop where
  sorted : w.queued.Pairwise (· < ·)
  below : ∀ id ∈ w.queued, id < w.next
  inHand : ∀ p, w.owner = .captured p → p.id < w.next ∧ ∀ id ∈ w.queued, id < p.id
  accepted : accepted w.sink <+: w.queued
  offers : (offered w.sink).Pairwise (· ≤ ·)
  line : ∀ rest, w.ahead = some rest → w.queued = Pending.accepted w.sink ++ rest
  later : ∀ rest, w.ahead = some rest → ∀ o ∈ offered w.sink, ∀ r ∈ rest, o ≤ r
  earlier : w.EarlierFirst

theorem ordered_start : Worker.start.Ordered where
  sorted := List.Pairwise.nil
  below := by simp [Worker.start]
  inHand := fun p hp => nomatch hp
  accepted := List.prefix_refl _
  offers := List.Pairwise.nil
  line := by
    intro rest hrest
    rw [← Option.some.inj hrest]
    rfl
  later := by simp [Worker.start, offered]
  earlier := by
    intro pre id post hsink
    exact absurd hsink (by simp [Worker.start])

/-- A step that leaves the sink and what was queued alone. -/
theorem Worker.Ordered.quiet {w w' : Worker} (h : w.Ordered) (hqueued : w'.queued = w.queued)
    (hsink : w'.sink = w.sink) (hnext : w'.next = w.next)
    (howner : ∀ p, w'.owner = .captured p → w.owner = .captured p)
    (hahead : ∀ rest, w'.ahead = some rest → w.ahead = some rest) : w'.Ordered where
  sorted := hqueued ▸ h.sorted
  below := by
    rw [hqueued, hnext]
    exact h.below
  inHand := by
    rw [hqueued, hnext]
    exact fun p hp => h.inHand p (howner p hp)
  accepted := by
    rw [hqueued, hsink]
    exact h.accepted
  offers := hsink ▸ h.offers
  line := by
    rw [hqueued, hsink]
    exact fun rest hrest => h.line rest (hahead rest hrest)
  later := by
    rw [hsink]
    exact fun rest hrest => h.later rest (hahead rest hrest)
  earlier := by
    unfold Worker.EarlierFirst
    rw [hqueued, hsink]
    exact h.earlier

/-- A list that grew by one event, split at an event. -/
theorem split_concat {α : Type} {xs pre post : List α} {a b : α} (h : xs ++ [a] = pre ++ b :: post) :
    (xs = pre ∧ a = b) ∨ ∃ post', xs = pre ++ b :: post' := by
  rcases List.eq_nil_or_concat post with rfl | ⟨post', c, rfl⟩
  · have hlast := List.append_inj' h rfl
    exact .inl ⟨hlast.1, (List.cons.inj hlast.2).1⟩
  · rw [List.concat_eq_append, ← List.cons_append, ← List.append_assoc] at h
    exact .inr ⟨post', (List.append_inj' h rfl).1⟩

theorem Worker.Ordered.send {w : Worker} {p : Minute} (h : w.Ordered) (howner : w.owner = .captured p) :
    Worker.Ordered { w with
      owner := .running, queue := w.queue ++ [p], queued := w.queued ++ [p.id] } := by
  rcases h.inHand p howner with ⟨hnext, hlast⟩
  have hoffered : ∀ o ∈ offered w.sink, o < p.id := by
    intro o ho
    rcases List.append_of_mem (mem_offered.mp ho) with ⟨pre, post, hsink⟩
    exact hlast o (h.earlier pre o post hsink).1
  -- what is ahead grows at its end
  have hahead : ∀ rest, Worker.ahead { w with
      owner := .running, queue := w.queue ++ [p], queued := w.queued ++ [p.id] } = some rest →
      ∃ old, w.ahead = some old ∧ rest = old ++ [p.id] := by
    intro rest hrest
    unfold Worker.ahead at hrest ⊢
    dsimp only at hrest
    split at hrest
    · exact ⟨_, rfl, by rw [← Option.some.inj hrest, List.map_append, List.map_singleton]⟩
    · exact ⟨_, rfl, by rw [← Option.some.inj hrest, List.map_append, List.map_singleton]⟩
    · exact ⟨_, rfl, by rw [← Option.some.inj hrest, List.map_append, List.map_singleton]; rfl⟩
    · exact ⟨_, rfl, by rw [← Option.some.inj hrest, List.map_append, List.map_singleton]; rfl⟩
    · exact ⟨_, rfl, by rw [← Option.some.inj hrest, List.map_append, List.map_singleton]; rfl⟩
    · exact ⟨_, rfl, by rw [← Option.some.inj hrest, List.map_append, List.map_singleton]; rfl⟩
    · exact ⟨_, rfl, by rw [← Option.some.inj hrest, List.map_append, List.map_singleton]; rfl⟩
    · cases hrest
    · cases hrest
    · cases hrest
    · cases hrest
  refine ⟨?_, ?_, (fun q hq => nomatch hq), ?_, h.offers, ?_, ?_, ?_⟩
  · exact List.pairwise_append.mpr ⟨h.sorted, List.pairwise_singleton _ _, fun id hid r hr => by
      rw [List.mem_singleton.mp hr]
      exact hlast id hid⟩
  · intro id hid
    rcases List.mem_append.mp hid with hold | hself
    · exact h.below id hold
    · rw [List.mem_singleton.mp hself]
      exact hnext
  · exact h.accepted.trans (List.prefix_append _ _)
  · intro rest hrest
    rcases hahead rest hrest with ⟨old, hold, rfl⟩
    show w.queued ++ [p.id] = Pending.accepted w.sink ++ (old ++ [p.id])
    rw [h.line old hold, List.append_assoc]
  · intro rest hrest o ho r hr
    rcases hahead rest hrest with ⟨old, hold, rfl⟩
    rcases List.mem_append.mp hr with hr | hr
    · exact h.later old hold o ho r hr
    · rw [List.mem_singleton.mp hr]
      exact (hoffered o ho).le
  · intro pre id post hsink
    rcases h.earlier pre id post hsink with ⟨hid, hbefore⟩
    refine ⟨List.mem_append_left _ hid, fun earlier hmem hlt => ?_⟩
    rcases List.mem_append.mp hmem with hold | hself
    · exact hbefore earlier hold hlt
    · -- the new minute is later than all that were offered
      rw [List.mem_singleton.mp hself] at hlt
      exact absurd (hlast id hid) (not_lt.mpr hlt.le)

theorem Worker.Ordered.offer {w : Worker} {p : Minute} (h : w.Ordered) (hwriter : w.writer = .trying p) :
    Worker.Ordered { w with writer := .offering p, sink := w.sink ++ [.offered p.id] } := by
  have hahead : w.ahead = some (p.id :: w.queue.map Minute.id) := by
    unfold Worker.ahead
    rw [hwriter]
  have hline := h.line _ hahead
  have hlater := h.later _ hahead
  have hoffered : offered (w.sink ++ [.offered p.id]) = offered w.sink ++ [p.id] := offered_append _ _
  have haccepted : Pending.accepted (w.sink ++ [.offered p.id]) = Pending.accepted w.sink := by
    rw [accepted_append]
    exact List.append_nil _
  have hsorted := h.sorted
  rw [hline] at hsorted
  refine ⟨h.sorted, h.below, h.inHand, ?_, ?_, ?_, ?_, ?_⟩
  · show Pending.accepted (w.sink ++ [.offered p.id]) <+: w.queued
    rw [haccepted]
    exact h.accepted
  · show (offered (w.sink ++ [.offered p.id])).Pairwise (· ≤ ·)
    rw [hoffered]
    exact List.pairwise_append.mpr ⟨h.offers, List.pairwise_singleton _ _, fun o ho r hr => by
      rw [List.mem_singleton.mp hr]
      exact hlater o ho p.id (List.mem_cons_self ..)⟩
  · intro rest hrest
    rw [← Option.some.inj hrest]
    show w.queued = Pending.accepted (w.sink ++ [.offered p.id]) ++ _
    rw [haccepted]
    exact hline
  · intro rest hrest o ho r hr
    rw [← Option.some.inj hrest] at hr
    change o ∈ offered (w.sink ++ [.offered p.id]) at ho
    rw [hoffered] at ho
    rcases List.mem_append.mp ho with ho | ho
    · exact hlater o ho r hr
    · rw [List.mem_singleton.mp ho]
      rcases List.mem_cons.mp hr with rfl | hr
      · exact le_refl _
      · have hrest' := (List.pairwise_append.mp hsorted).2.1
        exact ((List.pairwise_cons.mp hrest').1 r hr).le
  · intro pre id post hsink
    rcases split_concat hsink with ⟨hpre, hid⟩ | ⟨post', hsink'⟩
    · -- the minute offered now: everything queued before it was accepted
      obtain rfl : p.id = id := SinkEvent.offered.inj hid
      refine ⟨by rw [hline]; simp, fun earlier hmem hlt => ?_⟩
      rw [← hpre]
      change earlier ∈ w.queued at hmem
      rw [hline] at hmem
      rcases List.mem_append.mp hmem with hacc | hrest
      · exact mem_accepted.mp hacc
      · rcases List.mem_cons.mp hrest with rfl | hrest
        · exact absurd hlt (lt_irrefl _)
        · have hrest' := (List.pairwise_append.mp hsorted).2.1
          exact absurd ((List.pairwise_cons.mp hrest').1 earlier hrest) (not_lt.mpr hlt.le)
    · exact h.earlier pre id post' hsink'

theorem Worker.Ordered.accept {w : Worker} {p : Minute} (h : w.Ordered) (hwriter : w.writer = .offering p) :
    Worker.Ordered { w with writer := .releasing p true, sink := w.sink ++ [.accepted p.id] } := by
  have hahead : w.ahead = some (p.id :: w.queue.map Minute.id) := by
    unfold Worker.ahead
    rw [hwriter]
  have hline := h.line _ hahead
  have hoffered : offered (w.sink ++ [.accepted p.id]) = offered w.sink := by
    rw [offered_append]
    exact List.append_nil _
  have haccepted : Pending.accepted (w.sink ++ [.accepted p.id]) = Pending.accepted w.sink ++ [p.id] :=
    accepted_append _ _
  have hline' : w.queued = (Pending.accepted w.sink ++ [p.id]) ++ w.queue.map Minute.id := by
    rw [hline, List.append_assoc]
    rfl
  refine ⟨h.sorted, h.below, h.inHand, ?_, ?_, ?_, ?_, ?_⟩
  · show Pending.accepted (w.sink ++ [.accepted p.id]) <+: w.queued
    rw [haccepted, hline']
    exact List.prefix_append _ _
  · show (offered (w.sink ++ [.accepted p.id])).Pairwise (· ≤ ·)
    rw [hoffered]
    exact h.offers
  · intro rest hrest
    rw [← Option.some.inj hrest]
    show w.queued = Pending.accepted (w.sink ++ [.accepted p.id]) ++ _
    rw [haccepted]
    exact hline'
  · intro rest hrest o ho r hr
    rw [← Option.some.inj hrest] at hr
    change o ∈ offered (w.sink ++ [.accepted p.id]) at ho
    rw [hoffered] at ho
    exact h.later _ hahead o ho r (List.mem_cons_of_mem _ hr)
  · intro pre id post hsink
    rcases split_concat hsink with ⟨-, hid⟩ | ⟨post', hsink'⟩
    · cases hid
    · exact h.earlier pre id post' hsink'

/-- The writer goes on to the same line of minutes. -/
theorem Worker.Ordered.writes {w w' : Worker} (h : w.Ordered) (hqueued : w'.queued = w.queued)
    (hsink : w'.sink = w.sink) (hnext : w'.next = w.next) (howner : w'.owner = w.owner)
    (hahead : w'.ahead = w.ahead ∨ w'.ahead = none) : w'.Ordered := by
  refine h.quiet hqueued hsink hnext (fun p hp => howner ▸ hp) fun rest hrest => ?_
  rcases hahead with hsame | hnone
  · exact hsame ▸ hrest
  · rw [hnone] at hrest
    cases hrest

/-- The owner changes its phase and has no minute to send after it. -/
theorem Worker.Ordered.owns {w w' : Worker} (h : w.Ordered) (hqueued : w'.queued = w.queued)
    (hsink : w'.sink = w.sink) (hnext : w'.next = w.next) (howner : ∀ p, w'.owner ≠ .captured p)
    (hahead : w'.ahead = w.ahead) : w'.Ordered :=
  h.quiet hqueued hsink hnext (fun p hp => absurd hp (howner p)) fun _ hrest => hahead ▸ hrest

theorem Worker.Ordered.capture {w : Worker} (h : w.Ordered) (cost : Int) :
    Worker.Ordered { w with
      owner := .captured ⟨w.next, cost⟩, next := w.next + 1, captured := w.captured ++ [w.next] } where
  sorted := h.sorted
  below := fun id hid => Nat.lt_succ_of_lt (h.below id hid)
  inHand := by
    intro p hp
    rw [← Owner.captured.inj hp]
    exact ⟨Nat.lt_succ_self _, h.below⟩
  accepted := h.accepted
  offers := h.offers
  line := h.line
  later := h.later
  earlier := h.earlier

theorem WorkerStep.ordered {s s' : Cache × Worker} (h : WorkerStep s s') (hs : s.2.Ordered)
    (hclosing : s.2.Closing) : s'.2.Ordered := by
  cases h with
  | skip c w v howner hfull => exact hs
  | capture c c' w v howner hroom hcharge => exact hs.capture _
  | send c w p howner hroom => exact hs.send howner
  | refuse c w p howner hfull => exact hs.owns rfl rfl rfl nofun rfl
  | drop c w p howner => exact hs.owns rfl rfl rfl nofun rfl
  | stop c w howner => exact hs.owns rfl rfl rfl nofun rfl
  | close c w howner => exact hs.owns rfl rfl rfl nofun rfl
  | timeout c w howner => exact hs.writes rfl rfl rfl rfl (.inl rfl)
  | written c w howner hwriter => exact hs.owns rfl rfl rfl nofun rfl
  | empty c w p rest howner hqueue =>
      -- the writer has returned, so nothing more is offered
      have hreturned := hclosing.behind (by rw [howner]; trivial)
      refine hs.quiet rfl rfl rfl nofun fun rest hrest => ?_
      unfold Worker.ahead at hrest
      rw [hreturned] at hrest
      cases hrest
  | emptied c w p howner => exact hs.owns rfl rfl rfl nofun rfl
  | finish c w howner hqueue => exact hs.owns rfl rfl rfl nofun rfl
  | take c w p rest hwriter hqueue =>
      refine hs.writes rfl rfl rfl rfl (.inl ?_)
      unfold Worker.ahead
      rw [hwriter, hqueue]
      rfl
  | ended c w hwriter hqueue hclosed => exact hs.writes rfl rfl rfl rfl (.inr rfl)
  | acquire c w p hwriter hroom =>
      exact hs.writes rfl rfl rfl rfl (.inl (by unfold Worker.ahead; rw [hwriter]))
  | abandon c w p hwriter hcancelled => exact hs.writes rfl rfl rfl rfl (.inr rfl)
  | encodeError c w p hwriter => exact hs.writes rfl rfl rfl rfl (.inr rfl)
  | encoded c c' w p size hwriter hrecharge =>
      exact hs.writes rfl rfl rfl rfl (.inl (by unfold Worker.ahead; rw [hwriter]))
  | tooLong c w p size hwriter hrecharge => exact hs.writes rfl rfl rfl rfl (.inr rfl)
  | giveUp c w p hwriter hcancelled => exact hs.writes rfl rfl rfl rfl (.inr rfl)
  | offer c w p hwriter hcancelled => exact hs.offer hwriter
  | unreadable c w p hwriter => exact hs.writes rfl rfl rfl rfl (.inr rfl)
  | accept c w p hwriter => exact hs.accept hwriter
  | refusedCancelled c w p hwriter hcancelled => exact hs.writes rfl rfl rfl rfl (.inr rfl)
  | retry c w p hwriter hcancelled =>
      exact hs.writes rfl rfl rfl rfl (.inl (by unfold Worker.ahead; rw [hwriter]))
  | waited c w p hwriter =>
      exact hs.writes rfl rfl rfl rfl (.inl (by unfold Worker.ahead; rw [hwriter]))
  | interrupted c w p hwriter hcancelled => exact hs.writes rfl rfl rfl rfl (.inr rfl)
  | release c w p again hwriter =>
      cases again with
      | false => exact hs.writes rfl rfl rfl rfl (.inr rfl)
      | true => exact hs.writes rfl rfl rfl rfl (.inl (by unfold Worker.ahead; rw [hwriter]; rfl))
  | drain c w p rest hwriter hqueue => exact hs.writes rfl rfl rfl rfl (.inr rfl)
  | drained c w p hwriter => exact hs.writes rfl rfl rfl rfl (.inr rfl)
  | returned c w hwriter hqueue => exact hs.writes rfl rfl rfl rfl (.inr rfl)

/-! ## Runs -/

structure Worker.Inv (w : Worker) : Prop where
  accounted : w.Accounted
  closing : w.Closing
  ordered : w.Ordered

structure Workers.Balanced (limit : Int) (s : Workers) : Prop where
  limit : s.cache.budget.limit = limit
  used : s.cache.budget.used = (s.workers.map Worker.holds).sum
  fits : s.cache.budget.used ≤ s.cache.budget.limit
  workers : ∀ w ∈ s.workers, w.Inv

theorem Step.balanced {limit : Int} {s s' : Workers} {a : Unit} (h : Step s a s')
    (hs : s.Balanced limit) : s'.Balanced limit := by
  cases h with
  | start =>
      refine ⟨hs.limit, ?_, hs.fits, ?_⟩
      · show s.cache.budget.used = ((s.workers ++ [Worker.start]).map Worker.holds).sum
        rw [List.map_append, List.sum_append, List.map_singleton, List.sum_singleton, hs.used]
        exact (add_zero _).symm
      · intro w hw
        rcases List.mem_append.mp hw with hold | hnew
        · exact hs.workers w hold
        · rw [List.mem_singleton.mp hnew]
          exact ⟨accounted_start, closing_start, ordered_start⟩
  | work i w w' c hw hstep =>
      have hinv := hs.workers w (List.mem_of_getElem? hw)
      have hkept := hstep.effect.kept hinv.accounted
      have hused := hkept.used
      have hfits := hkept.fits hs.fits
      dsimp only at hused hfits
      refine ⟨hkept.limit.trans hs.limit, ?_, hfits, ?_⟩
      · show c.budget.used = ((s.workers.set i w').map Worker.holds).sum
        rw [Ledger.sum_set _ _ i hw, ← hs.used]
        omega
      · intro v hv
        rcases List.mem_or_eq_of_mem_set hv with hold | rfl
        · exact hs.workers v hold
        · exact ⟨hkept.accounted, hstep.closing hinv.closing, hstep.ordered hinv.ordered hinv.closing⟩

theorem balanced_run {limit : Int} {s : Workers} {as : List Unit} (hlimit : 0 ≤ limit)
    (h : Transition.Run Step ⟨newCatalogMinuteCache limit, []⟩ as s) : s.Balanced limit := by
  refine h.invariant (Workers.Balanced limit) ⟨rfl, rfl, hlimit, fun w hw => nomatch hw⟩ ?_
  intro s a s' hstep hs
  exact hstep.balanced hs

/-- In every reachable state the budget in use is the charge of the minutes that exist,
within the limit; each minute charged exists or was released, once; when all workers
are done nothing is in use and all is released; and each worker's sink was offered its
minutes in their order, none before it had accepted all that were queued earlier. -/
theorem pending_budget {limit : Int} (hlimit : 0 ≤ limit) {as : List Unit} {s : Workers}
    (h : Transition.Run Step ⟨newCatalogMinuteCache limit, []⟩ as s) :
    s.cache.budget.used = (s.workers.map fun w => (w.pending.map Minute.cost).sum).sum ∧
    s.cache.budget.used ≤ limit ∧
    (∀ w ∈ s.workers, w.captured.Nodup ∧
      w.captured.Perm (w.pending.map Minute.id ++ w.released)) ∧
    ((∀ w ∈ s.workers, w.owner = .done) → s.cache.budget.used = 0 ∧
      ∀ w ∈ s.workers, w.pending = [] ∧ w.captured.Perm w.released) ∧
    ∀ w ∈ s.workers, w.queued.Pairwise (· < ·) ∧ accepted w.sink <+: w.queued ∧
      (offered w.sink).Pairwise (· ≤ ·) ∧ w.EarlierFirst := by
  have hs := balanced_run hlimit h
  refine ⟨hs.used, hs.limit ▸ hs.fits, ?_, ?_, ?_⟩
  · intro w hw
    have hinv := (hs.workers w hw).accounted
    exact ⟨hinv.once, hinv.each⟩
  · intro hdone
    have hnone : ∀ w ∈ s.workers, w.pending = [] := fun w hw =>
      (hs.workers w hw).closing.pending (hdone w hw)
    constructor
    · rw [hs.used]
      refine List.sum_eq_zero fun n hn => ?_
      rcases List.mem_map.mp hn with ⟨w, hw, rfl⟩
      unfold Worker.holds
      rw [hnone w hw]
      rfl
    · intro w hw
      have heach := (hs.workers w hw).accounted.each
      rw [hnone w hw] at heach
      exact ⟨hnone w hw, heach⟩
  · intro w hw
    have hordered := (hs.workers w hw).ordered
    exact ⟨hordered.sorted, hordered.accepted, hordered.offers, hordered.earlier⟩

/-! ## A run -/

/-- The charge of a minute without books. -/
def emptyEnvelope : Envelope := ⟨[], 0⟩

/-- One worker with a minute in its queue. -/
def oneQueued : Workers :=
  ⟨⟨⟨5000, 1024⟩, 0⟩, [⟨.running, .idle, [⟨0, 1024⟩], false, false, 1, [0], [0], [], []⟩]⟩

theorem run_oneQueued :
    Transition.Run Step ⟨newCatalogMinuteCache 5000, []⟩ [(), (), ()] oneQueued :=
  .cons (.start _)
    (.cons (.work _ 0 .start _ ⟨⟨5000, 1024⟩, 0⟩ rfl
        (.capture _ _ .start emptyEnvelope rfl (by decide) (by decide)))
      (.cons (.work _ 0 _ _ ⟨⟨5000, 1024⟩, 0⟩ rfl (.send _ _ ⟨0, 1024⟩ rfl (by decide)))
        (.nil _)))

theorem pending_budget_oneQueued :
    oneQueued.cache.budget.used =
        (oneQueued.workers.map fun w => (w.pending.map Minute.cost).sum).sum ∧
      oneQueued.cache.budget.used ≤ 5000 ∧ oneQueued.cache.budget.used = 1024 :=
  ⟨(pending_budget (by decide) run_oneQueued).1, (pending_budget (by decide) run_oneQueued).2.1, rfl⟩

end MarketInfo.OptionsLive.Pending
