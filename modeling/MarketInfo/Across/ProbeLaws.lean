import MarketInfo.Across.Probes

/-! # Every order keeps its task

An order that goes on has one task without delay, and what is handed out stays a task until
its outcome is committed, whatever happens in between.
-/

namespace MarketInfo.Across.Probes

variable {κ : Type}

/-! ## Slots -/

/-- What tells the tasks of one order apart. -/
def slot (t : ProbeTask κ) : κ × Option UInt32 := (t.Key, t.Delay)

theorem slots_followups (k : κ) (base : Int) :
    (followups k base).map slot = [(k, some 2000), (k, some 5000), (k, some 10000)] := rfl

theorem mem_followups {k : κ} {base : Int} {t : ProbeTask κ} (h : t ∈ followups k base) :
    t.Key = k ∧ t.Delay ≠ none := by
  obtain ⟨d, -, rfl⟩ := List.mem_map.1 h
  exact ⟨rfl, Option.some_ne_none d⟩

theorem nodup_follow {tasks : List (ProbeTask κ)} {k : κ} (base : Int) (h : (tasks.map slot).Nodup)
    (hnone : ∀ t ∈ tasks, t.Key = k → t.Delay = none) :
    ((tasks ++ followups k base).map slot).Nodup := by
  rw [List.map_append, slots_followups]
  refine h.append (by simp) ?_
  intro p hp hp'
  obtain ⟨t, ht, rfl⟩ := List.mem_map.1 hp
  have hkey : t.Key = k ∧ t.Delay ≠ none := by
    simp only [slot, List.mem_cons, Prod.mk.injEq, List.not_mem_nil, or_false] at hp'
    rcases hp' with ⟨hk, hd⟩ | ⟨hk, hd⟩ | ⟨hk, hd⟩
    · exact ⟨hk, by simp [hd]⟩
    · exact ⟨hk, by simp [hd]⟩
    · exact ⟨hk, by simp [hd]⟩
  exact hkey.2 (hnone t ht hkey.1)

theorem nodup_concat {tasks : List (ProbeTask κ)} {t : ProbeTask κ} (h : (tasks.map slot).Nodup)
    (hnew : ∀ t' ∈ tasks, slot t' ≠ slot t) : ((tasks ++ [t]).map slot).Nodup := by
  rw [List.map_append, List.map_singleton]
  refine h.append (by simp) ?_
  intro p hp hp'
  obtain ⟨t', ht', rfl⟩ := List.mem_map.1 hp
  exact hnew t' ht' (List.mem_singleton.1 hp')

/-! ## The watcher -/

variable [LinearOrder κ]

structure Watcher.Sound (m : Manifest) (w : Watcher κ) : Prop where
  parent : ∀ t ∈ w.Tasks, ∃ o, w.Orders.get t.Key = some o
  slots : (w.Tasks.map slot).Nodup
  undelayed : ∀ k o, w.Orders.get k = some o → o.Terminal = false → ∃ t ∈ w.Tasks, slot t = (k, none)
  /-- Tasks at a delay are made once. -/
  followed : ∀ t ∈ w.Tasks, t.Delay ≠ none → ∀ o, w.Orders.get t.Key = some o → o.Followups = true
  bound : w.Orders.len ≤ m.MaxPending.toNat

theorem sound_empty (m : Manifest) : Watcher.Sound m ({} : Watcher κ) where
  parent := by simp
  slots := by simp
  undelayed := by simp
  followed := by simp
  bound := Nat.zero_le _

theorem addAt_cases (orderKey : Deposit → κ) (w : Watcher κ) (d : Deposit) (origin : Origin) (m : Manifest)
    (time : Int) :
    (∃ b, w.addAt orderKey d origin m time = (w, b)) ∨
      ∃ p : PendingOrder, ∃ more,
        w.Orders.get (orderKey d) = none ∧ w.Orders.len < m.MaxPending.toNat ∧
        (more = [] ∨ p.Followups = true ∧ more = followups (orderKey d) d.AvailableAt) ∧
        w.addAt orderKey d origin m time =
          ({ Orders := w.Orders.set (orderKey d) p,
             Tasks := w.Tasks ++ [⟨orderKey d, time, none, .baseline⟩] ++ more }, true) := by
  unfold Watcher.addAt
  split
  · exact .inl ⟨_, rfl⟩
  · dsimp only
    split
    · exact .inl ⟨_, rfl⟩
    · rename_i hnew
      split
      · exact .inl ⟨_, rfl⟩
      · rename_i hroom
        have hnone : w.Orders.get (orderKey d) = none := by simpa using hnew
        right
        refine ⟨{ Deposit := d, Origin := origin, Followups := decide (origin = .live) && !exclusive d }, ?_⟩
        by_cases hfollow : (decide (origin = .live) && !exclusive d) = true
        · refine ⟨followups (orderKey d) d.AvailableAt, hnone, by omega, .inr ⟨hfollow, rfl⟩, ?_⟩
          rw [if_pos hfollow]
          rfl
        · refine ⟨[], hnone, by omega, .inl rfl, ?_⟩
          rw [if_neg hfollow, List.append_nil]

theorem Watcher.Sound.addAt {m : Manifest} {w : Watcher κ} (h : w.Sound m) (orderKey : Deposit → κ) (d : Deposit)
    (origin : Origin) (time : Int) : (w.addAt orderKey d origin m time).1.Sound m := by
  rcases addAt_cases orderKey w d origin m time with ⟨b, hsame⟩ | ⟨p, more, hnone, hroom, hmore, hadd⟩
  · rw [hsame]
    exact h
  · rw [hadd]
    -- no task of the new key is there yet
    have hother : ∀ t ∈ w.Tasks, t.Key ≠ orderKey d := by
      intro t ht hkey
      obtain ⟨o, ho⟩ := h.parent t ht
      rw [hkey, hnone] at ho
      cases ho
    have hkeys : ∀ t ∈ more, t.Key = orderKey d ∧ p.Followups = true := by
      intro t ht
      rcases hmore with rfl | ⟨hp, rfl⟩
      · cases ht
      · exact ⟨(mem_followups ht).1, hp⟩
    have hget : ∀ k, k ≠ orderKey d → (w.Orders.set (orderKey d) p).get k = w.Orders.get k := fun k hk =>
      OrderedMap.get_set_ne _ _ hk
    have hbase : ((w.Tasks ++ [(⟨orderKey d, time, none, .baseline⟩ : ProbeTask κ)]).map slot).Nodup :=
      nodup_concat h.slots fun t ht heq => hother t ht (congrArg Prod.fst heq)
    show Watcher.Sound m _
    refine ⟨?_, ?_, ?_, ?_, ?_⟩
    · intro t ht
      rcases List.mem_append.1 ht with ht | ht
      · rcases List.mem_append.1 ht with ht | ht
        · obtain ⟨o, ho⟩ := h.parent t ht
          exact ⟨o, (hget _ (hother t ht)).trans ho⟩
        · rw [List.mem_singleton.1 ht]
          exact ⟨p, OrderedMap.get_set_self _ _ _⟩
      · rw [(hkeys t ht).1]
        exact ⟨p, OrderedMap.get_set_self _ _ _⟩
    · rcases hmore with rfl | ⟨-, rfl⟩
      · rw [List.append_nil]
        exact hbase
      · refine nodup_follow _ hbase fun t ht hkey => ?_
        rcases List.mem_append.1 ht with ht | ht
        · exact absurd hkey (hother t ht)
        · rw [List.mem_singleton.1 ht]
    · intro k o ho hopen
      by_cases hk : k = orderKey d
      · exact ⟨⟨orderKey d, time, none, .baseline⟩, by simp, by rw [hk]; rfl⟩
      · rw [hget k hk] at ho
        obtain ⟨t, ht, hslot⟩ := h.undelayed k o ho hopen
        exact ⟨t, by simp [ht], hslot⟩
    · intro t ht hdelay o ho
      rcases List.mem_append.1 ht with ht | ht
      · rcases List.mem_append.1 ht with ht | ht
        · rw [hget _ (hother t ht)] at ho
          exact h.followed t ht hdelay o ho
        · rw [List.mem_singleton.1 ht] at hdelay
          exact absurd rfl hdelay
      · rw [(hkeys t ht).1, OrderedMap.get_set_self] at ho
        obtain rfl := Option.some.inj ho
        exact (hkeys t ht).2
    · rw [OrderedMap.len_set_new hnone]
      exact hroom

theorem watch_deposit (orderKey : Deposit → κ) (s : RuntimeState κ) (d : Deposit) (finalized restoring : Bool)
    (m : Manifest) (time : Int) :
    (s.deposit orderKey d finalized restoring m time).Watch = s.Watch ∨
      (s.deposit orderKey d finalized restoring m time).Watch =
        (s.Watch.addAt orderKey d (d.origin restoring) m time).1 := by
  unfold RuntimeState.deposit
  split
  · exact .inl rfl
  · right
    dsimp only
    generalize s.Watch.addAt orderKey d (d.origin restoring) m time = added
    cases added.2 with
    | true => rfl
    | false => rfl

theorem mem_addAt (orderKey : Deposit → κ) (w : Watcher κ) (d : Deposit) (origin : Origin) (m : Manifest)
    (time : Int) {t : ProbeTask κ} (ht : t ∈ w.Tasks) : t ∈ (w.addAt orderKey d origin m time).1.Tasks := by
  rcases addAt_cases orderKey w d origin m time with ⟨b, hsame⟩ | ⟨p, more, -, -, -, hadd⟩
  · rw [hsame]
    exact ht
  · rw [hadd]
    simp [ht]

/-! ## Orphaned orders -/

/-- An order that may have been ended, and nothing else. -/
def Ended (o o' : PendingOrder) : Prop :=
  o'.Followups = o.Followups ∧ (o'.Terminal = false → o.Terminal = false)

theorem orphan_orders (capture : Bytes) (orders : OrderedMap κ PendingOrder) (es : List (κ × PendingOrder))
    (hes : ∀ e ∈ es, orders.get e.1 = some e.2) (next : OrderedMap κ PendingOrder)
    (hnext : ∀ k, Option.Rel Ended (orders.get k) (next.get k)) :
    (es.foldl (fun orders e => if e.2.Deposit.CaptureId = capture then orders.set e.1 { e.2 with Terminal := true }
      else orders) next).len = next.len ∧
    ∀ k, Option.Rel Ended (orders.get k)
      ((es.foldl (fun orders e => if e.2.Deposit.CaptureId = capture then
        orders.set e.1 { e.2 with Terminal := true } else orders) next).get k) := by
  induction es generalizing next with
  | nil => exact ⟨rfl, hnext⟩
  | cons e es ih =>
      rw [List.foldl_cons]
      have hrest := fun x hx => hes x (List.mem_cons_of_mem e hx)
      split
      · have hold := hes e List.mem_cons_self
        have hsome := hnext e.1
        rw [hold] at hsome
        obtain ⟨o', ho'⟩ : ∃ o', next.get e.1 = some o' := by
          cases hget : next.get e.1 with
          | none =>
              rw [hget] at hsome
              cases hsome
          | some o' => exact ⟨o', rfl⟩
        obtain ⟨hlen, hrel⟩ := ih hrest (next.set e.1 { e.2 with Terminal := true }) fun k => by
          rw [OrderedMap.get_set]
          split
          · rename_i hk
            rw [hk, hold]
            exact .some ⟨rfl, fun h => by cases h⟩
          · exact hnext k
        exact ⟨hlen.trans (OrderedMap.len_set_old ho' _), hrel⟩
      · exact ih hrest next hnext

theorem Watcher.Sound.orphan {m : Manifest} {s : RuntimeState κ} (h : s.Watch.Sound m) (capture : Bytes) :
    (s.orphan capture).Watch.Sound m := by
  have hself : ∀ k, Option.Rel Ended (s.Watch.Orders.get k) (s.Watch.Orders.get k) := fun k => by
    cases s.Watch.Orders.get k with
    | none => exact .none
    | some o => exact .some ⟨rfl, id⟩
  obtain ⟨hlen, hrel⟩ := orphan_orders capture s.Watch.Orders s.Watch.Orders.entries
    (fun e he => OrderedMap.get_eq_some.2 he) s.Watch.Orders hself
  have hback : ∀ k o', (s.orphan capture).Watch.Orders.get k = some o' →
      ∃ o, s.Watch.Orders.get k = some o ∧ Ended o o' := by
    intro k o' ho'
    have hk := hrel k
    change Option.Rel Ended _ ((s.orphan capture).Watch.Orders.get k) at hk
    rw [ho'] at hk
    cases hget : s.Watch.Orders.get k with
    | none =>
        rw [hget] at hk
        cases hk
    | some o =>
        rw [hget] at hk
        cases hk with
        | some hended => exact ⟨o, rfl, hended⟩
  refine ⟨?_, h.slots, ?_, ?_, hlen.le.trans h.bound⟩
  · intro t ht
    obtain ⟨o, ho⟩ := h.parent t ht
    have hk := hrel t.Key
    rw [ho] at hk
    cases hget : (s.orphan capture).Watch.Orders.get t.Key with
    | none =>
        change Option.Rel Ended _ ((s.orphan capture).Watch.Orders.get t.Key) at hk
        rw [hget] at hk
        cases hk
    | some o' => exact ⟨o', rfl⟩
  · intro k o' ho' hopen
    obtain ⟨o, ho, hended⟩ := hback k o' ho'
    exact h.undelayed k o ho (hended.2 hopen)
  · intro t ht hdelay o' ho'
    obtain ⟨o, ho, hended⟩ := hback t.Key o' ho'
    rw [hended.1]
    exact h.followed t ht hdelay o ho

/-! ## Outcomes -/

/-- What a committed outcome does to the watcher: its task goes, and with the order going on
the next check and the first tasks at a delay may come. -/
theorem probeCommitted_cases {s : RuntimeState κ} {tr : ProbeTransition κ} (p : OrderProbe) (now : Int)
    {o : PendingOrder} (hskipped : tr.Skipped = false) (horder : s.Watch.Orders.get tr.Task.Key = some o)
    (htask : tr.Task ∈ s.Watch.Tasks) :
    ∃ s', s.probeCommitted tr p now = .ok s' ∧ s'.Skipped = s.Skipped ∧
      ((∃ o' more, o.Terminal = false ∧ s'.Watch.Orders = s.Watch.Orders.set tr.Task.Key o' ∧
          s'.Watch.Tasks = s.Watch.Tasks.erase tr.Task ++ more ++
            (if tr.Task.Delay = none then [⟨tr.Task.Key, p.AvailableAt + nextDelay o' p, none, .openCheck⟩] else []) ∧
          (more = [] ∧ o'.Followups = o.Followups ∨
            o.Followups = false ∧ o'.Followups = true ∧ more = followups tr.Task.Key p.AvailableAt)) ∨
        (∃ o', o'.Terminal = true ∧ o'.Followups = o.Followups ∧
          s'.Watch.Orders = s.Watch.Orders.set tr.Task.Key o' ∧
          s'.Watch.Tasks = s.Watch.Tasks.erase tr.Task) ∨
        ((∀ t ∈ s.Watch.Tasks.erase tr.Task, t.Key ≠ tr.Task.Key) ∧
          s'.Watch.Orders = s.Watch.Orders.delete tr.Task.Key ∧
          s'.Watch.Tasks = s.Watch.Tasks.erase tr.Task)) := by
  unfold RuntimeState.probeCommitted
  simp only [hskipped, Bool.false_eq_true, if_false, horder, htask, not_true_eq_false]
  by_cases hopen : ends tr o p = false ∧ o.Terminal = false
  · simp only [hopen.1, hopen.2, Bool.false_eq_true, if_false, if_true]
    refine ⟨_, rfl, rfl, .inl ?_⟩
    by_cases hfollow : (decide (o.Origin = .live) && !o.Followups && ProbeOpen o.Deposit p) = true
    · simp only [hfollow, if_true]
      have hfirst : o.Followups = false := by
        simp only [Bool.and_eq_true, Bool.not_eq_true'] at hfollow
        exact hfollow.1.2
      refine ⟨_, followups tr.Task.Key p.AvailableAt, trivial, rfl, ?_, .inr ⟨hfirst, rfl, rfl⟩⟩
      split
      · rfl
      · rw [List.append_nil]
    · simp only [hfollow, Bool.false_eq_true, if_false]
      refine ⟨_, [], trivial, rfl, ?_, .inl ⟨rfl, rfl⟩⟩
      split
      · rw [List.append_nil]
      · rw [List.append_nil, List.append_nil]
  · -- the order has ended, before this outcome or with it
    obtain ⟨o', ho', hterminal, hsame⟩ : ∃ o', (if ends tr o p = true then { o with Terminal := true } else o) = o' ∧
        o'.Terminal = true ∧ o'.Followups = o.Followups := by
      refine ⟨_, rfl, ?_⟩
      split
      · exact ⟨rfl, rfl⟩
      · refine ⟨?_, rfl⟩
        by_contra hterminal
        simp_all
    simp only [ho', hterminal, Bool.true_eq_false, if_false]
    split
    · exact ⟨_, rfl, rfl, .inr (.inl ⟨o', hterminal, hsame, rfl, rfl⟩)⟩
    · rename_i hnone
      refine ⟨_, rfl, rfl, .inr (.inr ⟨?_, rfl, rfl⟩)⟩
      simpa using hnone

theorem mem_of_erase_slot {w : Watcher κ} {m : Manifest} (h : w.Sound m) {t t' : ProbeTask κ} (ht : t ∈ w.Tasks)
    (ht' : t' ∈ w.Tasks.erase t) : slot t' ≠ slot t := by
  intro heq
  have hsame : t' = t := List.inj_on_of_nodup_map h.slots (List.mem_of_mem_erase ht') ht heq
  rw [hsame] at ht'
  exact List.Nodup.not_mem_erase (List.Nodup.of_map _ h.slots) ht'

theorem Watcher.Sound.committed {m : Manifest} {s s' : RuntimeState κ} (h : s.Watch.Sound m) {tr : ProbeTransition κ}
    {p : OrderProbe} {now : Int} (hskipped : tr.Skipped = false) (htask : tr.Task ∈ s.Watch.Tasks)
    (hcommit : s.probeCommitted tr p now = .ok s') : s'.Watch.Sound m := by
  obtain ⟨o, ho⟩ := h.parent _ htask
  obtain ⟨next, hnext, -, hcases⟩ := probeCommitted_cases p now hskipped ho htask
  obtain rfl : s' = next := Except.ok.inj (hcommit.symm.trans hnext)
  have herased : ((s.Watch.Tasks.erase tr.Task).map slot).Nodup :=
    h.slots.sublist (List.erase_sublist.map slot)
  have hkept : ∀ t ∈ s.Watch.Tasks, t.Key ≠ tr.Task.Key → t ∈ s.Watch.Tasks.erase tr.Task := fun t ht hkey =>
    (List.mem_erase_of_ne fun heq => hkey (congrArg ProbeTask.Key heq)).2 ht
  rcases hcases with ⟨o', more, hopen, horders, htasks, hmore⟩ | ⟨o', hterminal, hfollowups, horders, htasks⟩ |
    ⟨hnone, horders, htasks⟩
  · -- the order goes on: a check without delay takes the place of the one that was made
    have hget : ∀ k, k ≠ tr.Task.Key → s'.Watch.Orders.get k = s.Watch.Orders.get k := fun k hk => by
      rw [horders, OrderedMap.get_set_ne _ _ hk]
    have hself : s'.Watch.Orders.get tr.Task.Key = some o' := by
      rw [horders, OrderedMap.get_set_self]
    have hmoreKey : ∀ t ∈ more, t.Key = tr.Task.Key ∧ t.Delay ≠ none ∧ o'.Followups = true := by
      intro t ht
      rcases hmore with ⟨rfl, -⟩ | ⟨-, hdone, rfl⟩
      · cases ht
      · exact ⟨(mem_followups ht).1, (mem_followups ht).2, hdone⟩
    have hslots : ((s.Watch.Tasks.erase tr.Task ++ more).map slot).Nodup := by
      rcases hmore with ⟨rfl, -⟩ | ⟨hfirst, -, rfl⟩
      · rw [List.append_nil]
        exact herased
      · refine nodup_follow _ herased fun t ht hkey => ?_
        by_contra hdelay
        have hdone := h.followed t (List.mem_of_mem_erase ht) hdelay o (hkey ▸ ho)
        rw [hfirst] at hdone
        cases hdone
    have hmem : ∀ t ∈ s'.Watch.Tasks, t ∈ s.Watch.Tasks.erase tr.Task ∨ t ∈ more ∨
        (tr.Task.Delay = none ∧ slot t = (tr.Task.Key, none)) := by
      intro t ht
      rw [htasks] at ht
      rcases List.mem_append.1 ht with ht | ht
      · rcases List.mem_append.1 ht with ht | ht
        · exact .inl ht
        · exact .inr (.inl ht)
      · split at ht
        · rw [List.mem_singleton.1 ht]
          exact .inr (.inr ⟨‹_›, rfl⟩)
        · cases ht
    refine ⟨?_, ?_, ?_, ?_, ?_⟩
    · intro t ht
      by_cases hk : t.Key = tr.Task.Key
      · exact ⟨o', hk ▸ hself⟩
      · rcases hmem t ht with hold | hnew | ⟨-, hnew⟩
        · obtain ⟨o'', ho''⟩ := h.parent t (List.mem_of_mem_erase hold)
          exact ⟨o'', (hget _ hk).trans ho''⟩
        · exact absurd (hmoreKey t hnew).1 hk
        · exact absurd (congrArg Prod.fst hnew) hk
    · rw [htasks]
      split
      · rename_i hdelay
        refine nodup_concat hslots fun t ht heq => ?_
        rcases List.mem_append.1 ht with ht | ht
        · exact mem_of_erase_slot h htask ht (heq.trans (by rw [slot, slot, hdelay]))
        · exact (hmoreKey t ht).2.1 (congrArg Prod.snd heq)
      · rw [List.append_nil]
        exact hslots
    · intro k o'' ho'' hrunning
      by_cases hk : k = tr.Task.Key
      · by_cases hdelay : tr.Task.Delay = none
        · refine ⟨⟨tr.Task.Key, p.AvailableAt + nextDelay o' p, none, .openCheck⟩, ?_, by rw [hk]; rfl⟩
          rw [htasks, if_pos hdelay]
          simp
        · obtain ⟨t, ht, hslot⟩ := h.undelayed _ o ho hopen
          refine ⟨t, ?_, by rw [hk, hslot]⟩
          have hne : t ≠ tr.Task := fun heq => hdelay (heq ▸ congrArg Prod.snd hslot)
          rw [htasks]
          simp [(List.mem_erase_of_ne hne).2 ht]
      · rw [hget k hk] at ho''
        obtain ⟨t, ht, hslot⟩ := h.undelayed k o'' ho'' hrunning
        refine ⟨t, ?_, hslot⟩
        rw [htasks]
        simp [hkept t ht fun heq => hk ((congrArg Prod.fst hslot).symm.trans heq)]
    · intro t ht hdelay o'' ho''
      by_cases hk : t.Key = tr.Task.Key
      · rw [hk, hself] at ho''
        obtain rfl := Option.some.inj ho''
        rcases hmem t ht with hold | hnew | ⟨-, hnew⟩
        · have hdone := h.followed t (List.mem_of_mem_erase hold) hdelay o (hk ▸ ho)
          rcases hmore with ⟨-, hsame⟩ | ⟨-, hdone', -⟩
          · rw [hsame, hdone]
          · exact hdone'
        · exact (hmoreKey t hnew).2.2
        · exact absurd (congrArg Prod.snd hnew) hdelay
      · rcases hmem t ht with hold | hnew | ⟨-, hnew⟩
        · rw [hget _ hk] at ho''
          exact h.followed t (List.mem_of_mem_erase hold) hdelay o'' ho''
        · exact absurd (hmoreKey t hnew).1 hk
        · exact absurd (congrArg Prod.fst hnew) hk
    · rw [horders, OrderedMap.len_set_old ho]
      exact h.bound
  · -- it has ended, with tasks left
    have hback : ∀ k o'', s'.Watch.Orders.get k = some o'' → k = tr.Task.Key ∧ o'' = o' ∨
        k ≠ tr.Task.Key ∧ s.Watch.Orders.get k = some o'' := by
      intro k o'' ho''
      rw [horders, OrderedMap.get_set] at ho''
      split at ho''
      · exact .inl ⟨‹_›, (Option.some.inj ho'').symm⟩
      · exact .inr ⟨‹_›, ho''⟩
    refine ⟨?_, htasks ▸ herased, ?_, ?_, ?_⟩
    · intro t ht
      rw [htasks] at ht
      obtain ⟨o'', ho''⟩ := h.parent t (List.mem_of_mem_erase ht)
      by_cases hk : t.Key = tr.Task.Key
      · exact ⟨o', by rw [horders, hk, OrderedMap.get_set_self]⟩
      · exact ⟨o'', by rw [horders, OrderedMap.get_set_ne _ _ hk, ho'']⟩
    · intro k o'' ho'' hrunning
      rcases hback k o'' ho'' with ⟨-, rfl⟩ | ⟨hk, ho''⟩
      · rw [hterminal] at hrunning
        cases hrunning
      · obtain ⟨t, ht, hslot⟩ := h.undelayed k o'' ho'' hrunning
        exact ⟨t, htasks ▸ hkept t ht fun heq => hk ((congrArg Prod.fst hslot).symm.trans heq), hslot⟩
    · intro t ht hdelay o'' ho''
      rw [htasks] at ht
      rcases hback _ o'' ho'' with ⟨hk, rfl⟩ | ⟨hk, ho''⟩
      · rw [hfollowups]
        exact h.followed t (List.mem_of_mem_erase ht) hdelay o (hk ▸ ho)
      · exact h.followed t (List.mem_of_mem_erase ht) hdelay o'' ho''
    · rw [horders, OrderedMap.len_set_old ho]
      exact h.bound
  · -- it has ended and its last task was this one
    have hback : ∀ k o'', s'.Watch.Orders.get k = some o'' →
        k ≠ tr.Task.Key ∧ s.Watch.Orders.get k = some o'' := by
      intro k o'' ho''
      rw [horders, OrderedMap.get_delete] at ho''
      split at ho''
      · cases ho''
      · exact ⟨‹_›, ho''⟩
    refine ⟨?_, htasks ▸ herased, ?_, ?_, ?_⟩
    · intro t ht
      rw [htasks] at ht
      obtain ⟨o'', ho''⟩ := h.parent t (List.mem_of_mem_erase ht)
      exact ⟨o'', by rw [horders, OrderedMap.get_delete_ne _ (hnone t ht), ho'']⟩
    · intro k o'' ho'' hrunning
      obtain ⟨hk, ho''⟩ := hback k o'' ho''
      obtain ⟨t, ht, hslot⟩ := h.undelayed k o'' ho'' hrunning
      exact ⟨t, htasks ▸ hkept t ht fun heq => hk ((congrArg Prod.fst hslot).symm.trans heq), hslot⟩
    · intro t ht hdelay o'' ho''
      rw [htasks] at ht
      exact h.followed t (List.mem_of_mem_erase ht) hdelay o'' (hback _ o'' ho'').2
    · rw [horders]
      exact (OrderedMap.len_delete_le _ _).trans h.bound

/-! ## Selection -/

theorem selectTask_spec {s : RuntimeState κ} {m : Manifest} {time now : Int} {leased : ProbeTask κ → Bool}
    {all tasks : List (ProbeTask κ)} {wait : Int} {w : Work κ}
    (h : selectTask s m time now leased all tasks wait = .work w) :
    w.Transition.Skipped = false ∧ w.lease ∈ tasks ∧ leased w.lease = false := by
  induction tasks generalizing wait with
  | nil => cases h
  | cons task rest ih =>
      have hlater : ∀ wait, selectTask s m time now leased all rest wait = .work w →
          w.Transition.Skipped = false ∧ w.lease ∈ task :: rest ∧ leased w.lease = false := fun wait hrest => by
        obtain ⟨hskipped, hmem, hleased⟩ := ih hrest
        exact ⟨hskipped, List.mem_cons_of_mem task hmem, hleased⟩
      unfold selectTask at h
      split at h
      · exact hlater _ h
      · split at h
        · exact hlater _ h
        · rename_i hfree
          have hhead : ∀ v : Work κ, v.Transition.Skipped = false → v.lease = task → Selection.work v = .work w →
              w.Transition.Skipped = false ∧ w.lease ∈ task :: rest ∧ leased w.lease = false := by
            intro v hskipped hlease hsame
            obtain rfl := Selection.work.inj hsame
            rw [hlease]
            exact ⟨hskipped, List.mem_cons_self, by simpa using hfree⟩
          dsimp only at h
          split at h
          · exact hlater _ h
          · split at h
            · exact hlater _ h
            · split at h
              · exact hhead _ rfl rfl h
              · split at h
                · exact hhead _ rfl rfl h
                · split at h
                  · split at h
                    · exact hlater _ h
                    · exact hhead _ rfl rfl h
                  · exact hhead _ rfl rfl h

theorem selectProbe_spec {s : RuntimeState κ} {m : Manifest} {invalidating : Bool} {time now : Int}
    {leased : ProbeTask κ → Bool} {w : Work κ} (h : s.selectProbe m invalidating time now leased = .work w) :
    leased w.lease = false ∧ (w.Transition.Skipped = false → w.lease ∈ s.Watch.Tasks) := by
  unfold RuntimeState.selectProbe at h
  split at h
  · cases h
  · split at h
    · rename_i e hfind
      obtain rfl := Selection.work.inj h
      have hfree : leased (skippedTask e.1 e.2) = false := by simpa using List.find?_some hfind
      refine ⟨hfree, fun hskipped => ?_⟩
      cases hskipped
    · obtain ⟨hskipped, hmem, hleased⟩ := selectTask_spec h
      exact ⟨hleased, fun _ => List.mem_mergeSort.1 hmem⟩

/-! ## Runs -/

/-- What holds of the owner and of the works it has handed out. -/
structure System.Sound (m : Manifest) (s : System κ) : Prop where
  watch : s.state.Watch.Sound m
  leases : (s.held.map fun h => h.1.lease).Nodup
  /-- What is out and not committed is still to be done. -/
  pending : ∀ w, (w, false) ∈ s.held → w.Transition.Skipped = false → w.lease ∈ s.state.Watch.Tasks

theorem sound_start (m : Manifest) : System.Sound m ({} : System κ) where
  watch := sound_empty m
  leases := List.nodup_nil
  pending := by simp

theorem lease_ne {s : System κ} (h : (s.held.map fun h => h.1.lease).Nodup) {x y : Work κ × Bool}
    (hx : x ∈ s.held) (hy : y ∈ s.held.erase x) : y.1.lease ≠ x.1.lease := by
  intro heq
  have hsame : y = x := List.inj_on_of_nodup_map h (List.mem_of_mem_erase hy) hx heq
  rw [hsame] at hy
  exact List.Nodup.not_mem_erase (List.Nodup.of_map _ h) hy

theorem System.Sound.step {orderKey : Deposit → κ} {m : Manifest} {s s' : System κ} {e : Event κ}
    (h : s.Sound m) (hstep : Step orderKey m s e s') : s'.Sound m := by
  cases hstep with
  | deposit d finalized restoring time =>
      rcases watch_deposit orderKey s.state d finalized restoring m time with hsame | hadd
      · exact ⟨hsame ▸ h.watch, h.leases, fun w hw hskipped => hsame ▸ h.pending w hw hskipped⟩
      · refine ⟨hadd ▸ h.watch.addAt orderKey d (d.origin restoring) time, h.leases, fun w hw hskipped => ?_⟩
        show w.lease ∈ (s.state.deposit orderKey d finalized restoring m time).Watch.Tasks
        rw [hadd]
        exact mem_addAt orderKey _ d (d.origin restoring) m time (h.pending w hw hskipped)
  | orphan capture => exact ⟨h.watch.orphan capture, h.leases, h.pending⟩
  | select invalidating time now w hselect =>
      obtain ⟨hfree, htask⟩ := selectProbe_spec hselect
      refine ⟨h.watch, ?_, ?_⟩
      · rw [List.map_cons, List.nodup_cons]
        refine ⟨fun hmem => ?_, h.leases⟩
        obtain ⟨x, hx, hlease⟩ := List.mem_map.1 hmem
        have hleased : s.leased w.lease = true := List.any_eq_true.2 ⟨x, hx, decide_eq_true hlease⟩
        rw [hfree] at hleased
        cases hleased
      · intro v hv hskipped
        rcases List.mem_cons.1 hv with heq | hv
        · obtain rfl : v = w := (Prod.mk.inj heq).1
          exact htask hskipped
        · exact h.pending v hv hskipped
  | commit w p now state held hcommit =>
      have hperm := List.perm_cons_erase held
      have hleases : (((w, true) :: s.held.erase (w, false)).map fun h => h.1.lease).Nodup :=
        (hperm.map fun h => h.1.lease).nodup_iff.1 h.leases
      by_cases hskipped : w.Transition.Skipped = true
      · -- the watcher is not looked at
        have hwatch : state.Watch = s.state.Watch := by
          unfold RuntimeState.probeCommitted at hcommit
          simp only [hskipped, if_true] at hcommit
          split at hcommit
          · cases hcommit
          · rw [← Except.ok.inj hcommit]
        refine ⟨hwatch ▸ h.watch, hleases, fun v hv hv' => ?_⟩
        rcases List.mem_cons.1 hv with heq | hv
        · cases (Prod.mk.inj heq).2
        · show v.lease ∈ state.Watch.Tasks
          rw [hwatch]
          exact h.pending v (List.mem_of_mem_erase hv) hv'
      · have hopen : w.Transition.Skipped = false := by simpa using hskipped
        have htask := h.pending w held hopen
        refine ⟨h.watch.committed hopen htask hcommit, hleases, fun v hv hv' => ?_⟩
        rcases List.mem_cons.1 hv with heq | hv
        · cases (Prod.mk.inj heq).2
        · have hother := lease_ne h.leases held hv
          have hkept : v.lease ∈ s.state.Watch.Tasks.erase w.Transition.Task :=
            (List.mem_erase_of_ne hother).2 (h.pending v (List.mem_of_mem_erase hv) hv')
          obtain ⟨o, ho⟩ := h.watch.parent _ htask
          obtain ⟨next, hnext, -, hcases⟩ := probeCommitted_cases p now hopen ho htask
          obtain rfl : state = next := Except.ok.inj (hcommit.symm.trans hnext)
          rcases hcases with ⟨o', more, -, -, htasks, -⟩ | ⟨o', -, -, -, htasks⟩ | ⟨-, -, htasks⟩
          · show v.lease ∈ state.Watch.Tasks
            rw [htasks]
            simp [hkept]
          · exact htasks ▸ hkept
          · exact htasks ▸ hkept
  | release w committed held =>
      refine ⟨h.watch, h.leases.sublist (List.erase_sublist.map _), fun v hv hskipped => ?_⟩
      exact h.pending v (List.mem_of_mem_erase hv) hskipped

/-- A work's outcome can be committed: its order and its task are there. -/
theorem System.Sound.commits {m : Manifest} {s : System κ} (h : s.Sound m) {w : Work κ} (hw : (w, false) ∈ s.held)
    (p : OrderProbe) (now : Int) (hp : w.Transition.Skipped = true → p.ProbeStatus = .skippedBudget) :
    ∃ state, s.state.probeCommitted w.Transition p now = .ok state := by
  by_cases hskipped : w.Transition.Skipped = true
  · refine ⟨{ s.state with Skipped := s.state.Skipped.delete w.Transition.Task.Key }, ?_⟩
    rw [RuntimeState.probeCommitted, if_pos hskipped, if_neg (not_not.2 (hp hskipped))]
  · have hopen : w.Transition.Skipped = false := by simpa using hskipped
    obtain ⟨o, ho⟩ := h.watch.parent _ (h.pending w hw hopen)
    obtain ⟨state, hstate, -⟩ := probeCommitted_cases p now hopen ho (h.pending w hw hopen)
    exact ⟨state, hstate⟩

/-- The commit of a skipped observation of the order. -/
def Event.observesSkipped (k : κ) : Event κ → Prop
  | .commit w _ _ => w.Transition.Skipped = true ∧ w.Transition.Task.Key = k
  | _ => False

theorem skipped_step {orderKey : Deposit → κ} {m : Manifest} {s s' : System κ} {e : Event κ}
    (hstep : Step orderKey m s e s') (hsound : s.Sound m) {k : κ} (hk : (s.state.Skipped.get k).isSome = true)
    (he : ¬ e.observesSkipped k) : (s'.state.Skipped.get k).isSome = true := by
  cases hstep with
  | deposit d finalized restoring time =>
      show ((s.state.deposit orderKey d finalized restoring m time).Skipped.get k).isSome = true
      unfold RuntimeState.deposit
      split
      · exact hk
      · dsimp only
        generalize s.state.Watch.addAt orderKey d (d.origin restoring) m time = added
        cases added.2 with
        | true => exact hk
        | false =>
            -- the record is this one or another's
            rw [if_neg Bool.false_ne_true, OrderedMap.get_set]
            split
            · rfl
            · exact hk
  | orphan capture => exact hk
  | select invalidating time now w hselect => exact hk
  | commit w p now state held hcommit =>
      by_cases hskipped : w.Transition.Skipped = true
      · have hother : k ≠ w.Transition.Task.Key := fun heq => he ⟨hskipped, heq.symm⟩
        unfold RuntimeState.probeCommitted at hcommit
        simp only [hskipped, if_true] at hcommit
        split at hcommit
        · cases hcommit
        · rw [← Except.ok.inj hcommit]
          show ((s.state.Skipped.delete w.Transition.Task.Key).get k).isSome = true
          rw [OrderedMap.get_delete_ne _ hother]
          exact hk
      · have hopen : w.Transition.Skipped = false := by simpa using hskipped
        have htask := hsound.pending w held hopen
        obtain ⟨o, ho⟩ := hsound.watch.parent _ htask
        obtain ⟨next, hnext, hsame, -⟩ := probeCommitted_cases p now hopen ho htask
        obtain rfl : state = next := Except.ok.inj (hcommit.symm.trans hnext)
        show (state.Skipped.get k).isSome = true
        rw [hsame]
        exact hk
  | release w committed held => exact hk

theorem skipped_run {orderKey : Deposit → κ} {m : Manifest} {s s' : System κ} {es : List (Event κ)}
    (hrun : Transition.Run (Step orderKey m) s es s') (hsound : s.Sound m) {k : κ}
    (hk : (s.state.Skipped.get k).isSome = true) (hes : ∀ e ∈ es, ¬ e.observesSkipped k) :
    (s'.state.Skipped.get k).isSome = true := by
  induction hrun with
  | nil s => exact hk
  | @cons s s₁ s₂ e es hstep hrest ih =>
      have hfirst := skipped_step hstep hsound hk (hes e List.mem_cons_self)
      exact ih (hsound.step hstep) hfirst fun f hf => hes f (List.mem_cons_of_mem e hf)

/-- What is refused is recorded. -/
theorem skipped_deposit {orderKey : Deposit → κ} {m : Manifest} {s : RuntimeState κ} {d : Deposit}
    {restoring : Bool} {time : Int} (h : (s.Watch.addAt orderKey d (d.origin restoring) m time).2 = false) :
    ((s.deposit orderKey d false restoring m time).Skipped.get (orderKey d)).isSome = true := by
  unfold RuntimeState.deposit
  rw [if_neg Bool.false_ne_true]
  dsimp only
  rw [h, if_neg Bool.false_ne_true, OrderedMap.get_set_self]
  rfl

theorem one_undelayed {m : Manifest} {w : Watcher κ} (h : w.Sound m) {k : κ} {o : PendingOrder}
    (ho : w.Orders.get k = some o) (hopen : o.Terminal = false) :
    (w.Tasks.filter fun t => t.Key = k ∧ t.Delay = none).length = 1 := by
  let undelayed := w.Tasks.filter fun t => t.Key = k ∧ t.Delay = none
  have hslots : undelayed.map slot = List.replicate undelayed.length (k, none) := by
    refine List.eq_replicate_iff.2 ⟨List.length_map slot, fun p hp => ?_⟩
    obtain ⟨t, ht, rfl⟩ := List.mem_map.1 hp
    have htask := (List.mem_filter.1 ht).2
    simp only [decide_eq_true_eq] at htask
    exact Prod.ext htask.1 htask.2
  have hmost : undelayed.length ≤ 1 := by
    have hnodup : (undelayed.map slot).Nodup := h.slots.sublist (List.filter_sublist.map slot)
    rw [hslots] at hnodup
    exact List.nodup_replicate.1 hnodup
  obtain ⟨t, ht, hslot⟩ := h.undelayed k o ho hopen
  have hmem : t ∈ undelayed :=
    List.mem_filter.2 ⟨ht, decide_eq_true ⟨congrArg Prod.fst hslot, congrArg Prod.snd hslot⟩⟩
  exact le_antisymm hmost (List.length_pos_of_mem hmem)

/-- Whatever was found, selected, committed, failed and orphaned, and in whatever order. -/
theorem probes_complete_and_unique (orderKey : Deposit → κ) (m : Manifest) {es : List (Event κ)} {s : System κ}
    (hrun : Transition.Run (Step orderKey m) {} es s) :
    (∀ k o, s.state.Watch.Orders.get k = some o → o.Terminal = false →
      (s.state.Watch.Tasks.filter fun t => t.Key = k ∧ t.Delay = none).length = 1) ∧
    s.state.Watch.Tasks.Nodup ∧
    (∀ t ∈ s.state.Watch.Tasks, (s.state.Watch.Orders.get t.Key).isSome = true) ∧
    s.state.Watch.Orders.len ≤ m.MaxPending.toNat ∧
    (∀ w, (w, false) ∈ s.held → ∀ p now, (w.Transition.Skipped = true → p.ProbeStatus = .skippedBudget) →
      ∃ state, s.state.probeCommitted w.Transition p now = .ok state) ∧
    ∀ (d : Deposit) (restoring : Bool) (time : Int),
      (s.state.Watch.addAt orderKey d (d.origin restoring) m time).2 = false →
      ∀ fs s', Transition.Run (Step orderKey m)
          { s with state := s.state.deposit orderKey d false restoring m time } fs s' →
        (∀ f ∈ fs, ¬ f.observesSkipped (orderKey d)) → (s'.state.Skipped.get (orderKey d)).isSome = true := by
  have hsound : s.Sound m := hrun.invariant (System.Sound m) (sound_start m) fun s e s' hstep hs => hs.step hstep
  refine ⟨fun k o ho hopen => one_undelayed hsound.watch ho hopen, List.Nodup.of_map slot hsound.watch.slots, ?_,
    hsound.watch.bound, fun w hw p now hp => hsound.commits hw p now hp, ?_⟩
  · intro t ht
    obtain ⟨o, ho⟩ := hsound.watch.parent t ht
    rw [ho]
    rfl
  · intro d restoring time hrefused fs s' hfs hnone
    exact skipped_run hfs (hsound.step (.deposit s d false restoring time)) (skipped_deposit hrefused) hnone

/-- Two deposits where there is room for one, and the observation of the second. -/
theorem probes_complete_and_unique_of_two :
    let two : Manifest := { Chains := [⟨1, [1], [2]⟩, ⟨10, [3], [4]⟩], MaxPending := 1, FreshMillis := 2000 }
    let found (relay : Bytes) : Deposit :=
      { CaptureId := [], ChainId := 1, SpokePool := [1], BlockHash := [], DestinationChainId := 10,
        ExclusiveRelayer := List.replicate 32 0, InputToken := WordAddress [2], OutputToken := WordAddress [4],
        FillDeadline := 90, ExclusivityDeadline := 0, Message := [], RelayHash := relay,
        LiveReceivedAt := some 0, AvailableAt := 0 }
    let key (d : Deposit) : Nat := d.RelayHash.length
    let once := ({} : RuntimeState Nat).deposit key (found [7]) false false two 0
    let twice := once.deposit key (found [7, 7]) false false two 0
    let work : Work Nat :=
      { Order := { Deposit := found [7, 7], Origin := .live },
        Transition := { Task := ⟨2, 0, none, .skippedBudget⟩, Skipped := true }, Forced := some .skippedBudget }
    let s : System Nat := { state := { twice with Skipped := twice.Skipped.delete 2 }, held := [(work, true)] }
    (s.state.Watch.Tasks.filter fun t => t.Key = 1 ∧ t.Delay = none).length = 1 ∧
      s.state.Watch.Tasks.length = 4 ∧ s.state.Watch.Orders.len ≤ 1 ∧ (twice.Skipped.get 2).isSome = true := by
  intro two found key once twice work s
  have hrun : Transition.Run (Step key two) {}
      [.deposit (found [7]) false false 0, .deposit (found [7, 7]) false false 0, .select false 0 0,
        .commit work { ProbeStatus := .skippedBudget, AvailableAt := 0 } 0] s :=
    .cons (.deposit _ _ _ _ _) <| .cons (.deposit _ _ _ _ _) <| .cons (.select _ _ _ _ work rfl) <|
      .cons (.commit _ work _ _ s.state (List.mem_singleton.2 rfl) rfl) <| .nil _
  have hfirst : Transition.Run (Step key two) {} [.deposit (found [7]) false false 0] { state := once } :=
    .cons (.deposit _ _ _ _ _) (.nil _)
  obtain ⟨hone, -, -, hbound, -⟩ := probes_complete_and_unique key two hrun
  obtain ⟨-, -, -, -, -, hskipped⟩ := probes_complete_and_unique key two hfirst
  refine ⟨hone 1 { Deposit := found [7], Origin := .live, Followups := true } rfl rfl, rfl, hbound, ?_⟩
  exact hskipped (found [7, 7]) false 0 rfl [] { state := twice } (.nil _) (by simp)

end MarketInfo.Across.Probes
