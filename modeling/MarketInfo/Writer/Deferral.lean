import MarketInfo.Lib.Transition
import MarketInfo.Writer.Scheduler

/-! # Deferred picks

A picked task that cannot run is finished at no cost. What such a pick leaves behind, after
any number of them: the time a group without ready tasks is taken to have spent, and the
hour before which an unconfirmed task is not tried again.
-/

namespace MarketInfo.Writer

open Spool (Delivery)
open Transition (Run)

/-- Why a picked task could not run. -/
inductive Cause
  | budgetBusy
  | queueFull
  /-- The attempt before is not confirmed gone; it was asked for at some time. -/
  | unconfirmed (probed : Time)
deriving DecidableEq

structure Deferral where
  order : List Entry
  now : Time
  picked : Identity
  cause : Cause

namespace Scheduler

/-- `s.finish(t, 0)`, and five seconds of rest after an unconfirmed attempt. -/
def defer (s : Scheduler) (t : Task) : Cause → Scheduler
  | .unconfirmed probed =>
      (s.finish t 0).put { t with inflight := false, retryAt := probed.add (5 * Time.second) }
  | .budgetBusy => s.finish t 0
  | .queueFull => s.finish t 0

/-- A pick that is deferred. Time does not go back while the attempt is asked for. -/
def Deferred (s : Scheduler) (a : Deferral) (s' : Scheduler) : Prop :=
  a.order.Perm s.tasks.entries ∧ (∀ p, a.cause = .unconfirmed p → a.now.unixNano ≤ p.unixNano) ∧
    ∃ t s₁, s.pick a.order a.now = some (t, s₁) ∧ t.key = a.picked ∧ s' = s₁.defer t a.cause

end Scheduler

/-- The task was put off by an unconfirmed attempt. -/
def PutOff (as : List Deferral) (id : Identity) : Prop :=
  ∃ a ∈ as, a.picked = id ∧ ∃ p, a.cause = .unconfirmed p

/-- One task before and after: it may rest longer, and only if it was put off. -/
structure Rests (off : Prop) (t t' : Task) : Prop where
  candidate : t'.candidate = t.candidate
  redis : t'.redis = t.redis
  disk : t'.disk = t.disk
  inflight : t'.inflight = t.inflight
  blocked : t'.blocked = t.blocked
  later : t.retryAt.unixNano ≤ t'.retryAt.unixNano
  same : off ∨ t'.retryAt = t.retryAt

theorem Rests.refl (off : Prop) (t : Task) : Rests off t t := ⟨rfl, rfl, rfl, rfl, rfl, le_rfl, .inr rfl⟩

theorem Rests.trans {off off' : Prop} {t u v : Task} (h : Rests off t u) (h' : Rests off' u v) :
    Rests (off ∨ off') t v where
  candidate := h'.candidate.trans h.candidate
  redis := h'.redis.trans h.redis
  disk := h'.disk.trans h.disk
  inflight := h'.inflight.trans h.inflight
  blocked := h'.blocked.trans h.blocked
  later := h.later.trans h'.later
  same := by
    rcases h.same with hoff | heq
    · exact .inl (.inl hoff)
    · rcases h'.same with hoff | heq'
      · exact .inl (.inr hoff)
      · exact .inr (heq'.trans heq)

theorem Rests.mono {off off' : Prop} {t t' : Task} (h : Rests off t t') (himp : off → off') :
    Rests off' t t' :=
  ⟨h.candidate, h.redis, h.disk, h.inflight, h.blocked, h.later, h.same.imp_left himp⟩

/-- A task that rests longer is ready at no other time. -/
theorem Rests.ready {off : Prop} {t t' : Task} (h : Rests off t t') {id : Identity} {now : Time}
    {c : Fin 2 × Fin 2} (hready : classOf now ⟨id, t'⟩ = some c) : classOf now ⟨id, t⟩ = some c := by
  have hlater := h.later
  unfold classOf at hready ⊢
  dsimp only at hready ⊢
  by_cases hskip : Skipped t' now
  · rw [if_pos hskip] at hready
    cases hready
  · -- what held the task back before still does
    have hskip' : ¬ Skipped t now := by
      rintro (hflight | hblocked | hearly | ⟨hredis, hdisk⟩)
      · exact hskip (.inl (h.inflight.trans hflight))
      · exact hskip (.inr (.inl (h.blocked.trans hblocked)))
      · exact hskip (.inr (.inr (.inl (lt_of_lt_of_le hearly hlater))))
      · exact hskip (.inr (.inr (.inr ⟨h.redis.trans hredis, h.disk.trans hdisk⟩)))
    rw [if_neg hskip] at hready
    rw [if_neg hskip', ← hready]
    unfold groupOf kindOf
    rw [h.candidate]

theorem Rests.same_class {off : Prop} {t t' : Task} (h : Rests off t t') (hoff : ¬ off) {id : Identity}
    {now : Time} : classOf now ⟨id, t'⟩ = classOf now ⟨id, t⟩ := by
  have hretry := h.same.resolve_left hoff
  unfold classOf groupOf kindOf Skipped
  dsimp only
  rw [h.inflight, h.blocked, h.redis, h.disk, h.candidate, hretry]

theorem Rests.older {off off' : Prop} {t t' u u' : Task} (h : Rests off t t') (h' : Rests off' u u')
    {id id' : Identity} (holder : Older ⟨id, t⟩ ⟨id', u⟩) : Older ⟨id, t'⟩ ⟨id', u'⟩ := by
  unfold Older Task.key at holder ⊢
  dsimp only at holder ⊢
  rw [h.candidate, h'.candidate]
  exact holder

namespace Scheduler

/-- The tasks before and after. -/
def TasksRest (off : Identity → Prop) (s s' : Scheduler) : Prop :=
  ∀ id, (s.tasks.lookup id = none ∧ s'.tasks.lookup id = none) ∨
    ∃ t t', s.tasks.lookup id = some t ∧ s'.tasks.lookup id = some t' ∧ Rests (off id) t t'

theorem classOf_ready {e : Entry} {now : Time} {c : Fin 2 × Fin 2} (h : classOf now e = some c) :
    e.2.inflight = false ∧ e.2.retryAt.unixNano ≤ now.unixNano := by
  unfold classOf at h
  by_cases hskip : Skipped e.2 now
  · rw [if_pos hskip] at h
    cases h
  · rw [not_or, not_or, not_or, Bool.not_eq_true] at hskip
    exact ⟨hskip.1, not_lt.1 hskip.2.2.1⟩

/-- What is left of a deferred pick. -/
theorem deferred_cases {s s' : Scheduler} {a : Deferral} (h : s.Deferred a s') :
    s'.reserved = s.reserved ∧ s'.worked = s.worked ∧
      (s'.spent = s.spent ∨ ∃ g, ¬ s.Has a.now (1 - g) ∧ s'.spent = s.borrow g) ∧
      TasksRest (fun id => a.picked = id ∧ ∃ p, a.cause = .unconfirmed p) s s' := by
  obtain ⟨horder, hclock, t, s₁, hpick, hid, rfl⟩ := h
  obtain ⟨e, g, k, holdest, ht, htasks, hreserved, hworked, -, -, hspent⟩ := pick_cases horder hpick
  have hgroup : t.group = g := by rw [ht]; rfl
  have hkey : t.key = e.1 := by
    rw [ht]
    exact s.keyed e.1 e.2 (mem_entries.1 holdest.1)
  have hlookup : s.tasks.lookup t.key = some e.2 := by
    rw [hkey]
    exact mem_entries.1 holdest.1
  have hready := classOf_ready holdest.2.1
  -- the sums are those of the finished pick, whatever the cause
  have hsums : (s₁.defer t a.cause).reserved =
      Function.update s₁.reserved t.group (s₁.reserved t.group - t.estimate) ∧
      (s₁.defer t a.cause).worked = Function.update s₁.worked t.group (s₁.worked t.group + (0 : ℤ)) ∧
      (s₁.defer t a.cause).spent = Function.update s₁.spent t.group (s₁.spent t.group + (0 : ℤ)) := by
    rcases a.cause with _ | _ | p
    · exact ⟨rfl, rfl, rfl⟩
    · exact ⟨rfl, rfl, rfl⟩
    · exact ⟨rfl, rfl, rfl⟩
  obtain ⟨hreserved', hworked', hspent'⟩ := hsums
  refine ⟨?_, ?_, ?_, ?_⟩
  · rw [hreserved', hreserved, hgroup, Function.update_self, add_sub_cancel_right, Function.update_idem,
      Function.update_eq_self]
  · rw [hworked', Int.cast_zero, add_zero, Function.update_eq_self, hworked]
  · rw [hspent', Int.cast_zero, add_zero, Function.update_eq_self]
    rcases hspent with ⟨-, hsame⟩ | ⟨hnone, hborrow⟩
    · exact .inl hsame
    · exact .inr ⟨g, hnone, hborrow⟩
  · intro id
    -- only the picked task is put back
    by_cases hother : id = t.key
    · subst hother
      refine .inr ⟨e.2, ?_⟩
      have hrests : ∀ retryAt : Time, e.2.retryAt.unixNano ≤ retryAt.unixNano →
          ((a.picked = t.key ∧ ∃ p, a.cause = .unconfirmed p) ∨ retryAt = e.2.retryAt) →
          Rests (a.picked = t.key ∧ ∃ p, a.cause = .unconfirmed p) e.2
            { t with inflight := false, retryAt := retryAt } := by
        intro retryAt hlater hsame
        rw [ht]
        exact ⟨rfl, rfl, rfl, hready.1.symm, rfl, hlater, by rwa [ht] at hsame⟩
      have hretry : t.retryAt = e.2.retryAt := by rw [ht]; rfl
      have hplain := hrests t.retryAt (by rw [hretry]) (.inr hretry)
      rcases hcause : a.cause with _ | _ | p
      · refine ⟨_, hlookup, ?_, by rw [hcause] at hplain; exact hplain⟩
        exact AList.lookup_insert _
      · refine ⟨_, hlookup, ?_, by rw [hcause] at hplain; exact hplain⟩
        exact AList.lookup_insert _
      · have hp := hclock p hcause
        have hoff := hrests (p.add (5 * Time.second))
          (by rw [Time.add_unixNano]; unfold Time.second; omega) (.inl ⟨hid.symm, p, hcause⟩)
        refine ⟨_, hlookup, ?_, by rw [hcause] at hoff; exact hoff⟩
        exact AList.lookup_insert _
    · have hsame : (s₁.defer t a.cause).tasks.lookup id = s.tasks.lookup id := by
        have hfinish : (s₁.finish t 0).tasks.lookup id = s.tasks.lookup id := by
          change (s₁.tasks.insert t.key _).lookup id = _
          rw [AList.lookup_insert_ne hother, htasks, AList.lookup_insert_ne hother]
        rcases a.cause with _ | _ | p
        · exact hfinish
        · exact hfinish
        · exact (AList.lookup_insert_ne hother).trans hfinish
      rw [hsame]
      rcases s.tasks.lookup id with _ | u
      · exact .inl ⟨rfl, rfl⟩
      · exact .inr ⟨u, u, rfl, rfl, Rests.refl _ u⟩

/-! ## Runs of deferrals -/

theorem tasksRest_refl (off : Identity → Prop) (s : Scheduler) : TasksRest off s s := by
  intro id
  rcases s.tasks.lookup id with _ | t
  · exact .inl ⟨rfl, rfl⟩
  · exact .inr ⟨t, t, rfl, rfl, Rests.refl _ t⟩

theorem TasksRest.trans {off off' : Identity → Prop} {s s₁ s' : Scheduler} (h : TasksRest off s s₁)
    (h' : TasksRest off' s₁ s') : TasksRest (fun id => off id ∨ off' id) s s' := by
  intro id
  rcases h id with ⟨hnone, hnone₁⟩ | ⟨t, t₁, ht, ht₁, hrests⟩
  · rcases h' id with ⟨-, hnone'⟩ | ⟨u, -, hu, -, -⟩
    · exact .inl ⟨hnone, hnone'⟩
    · rw [hnone₁] at hu
      cases hu
  · rcases h' id with ⟨hnone₁, -⟩ | ⟨u, t', hu, ht', hrests'⟩
    · rw [ht₁] at hnone₁
      cases hnone₁
    · rw [ht₁] at hu
      obtain rfl := Option.some.inj hu
      exact .inr ⟨t, t', ht, ht', hrests.trans hrests'⟩

theorem share_pos (g : Fin 2) : 0 < share g := by
  unfold share
  split <;> norm_num

theorem sub_sub_self (g : Fin 2) : 1 - (1 - g) = g := by
  rcases Fin.exists_fin_two.1 ⟨g, rfl⟩ with rfl | rfl <;> rfl

theorem one_sub_ne (g : Fin 2) : 1 - g ≠ g := by
  rcases Fin.exists_fin_two.1 ⟨g, rfl⟩ with rfl | rfl <;> decide

/-- A group that is level with the other stays so. -/
theorem borrow_borrow {s s₁ : Scheduler} (hreserved : s₁.reserved = s.reserved) {g : Fin 2}
    (hspent : s₁.spent = s.borrow g) (g' : Fin 2) : s₁.borrow g' = s.borrow g := by
  have hself : s₁.spent (1 - g) = s.used g * share (1 - g) - s.reserved (1 - g) := by
    rw [hspent]
    exact Function.update_self _ _ _
  have hother : s₁.spent g = s.spent g := by
    rw [hspent]
    exact Function.update_of_ne (one_sub_ne g).symm _ _
  have hlevel : s₁.used g = s.used g := by
    unfold used
    rw [hother, hreserved]
  have hlevel' : s₁.used (1 - g) = s.used g := by
    have hshare := (share_pos (1 - g)).ne'
    unfold used at hself ⊢
    rw [hself, hreserved]
    field_simp
    ring
  have hcases : g' = g ∨ g' = 1 - g := by
    rcases Fin.exists_fin_two.1 ⟨g, rfl⟩ with rfl | rfl <;>
      rcases Fin.exists_fin_two.1 ⟨g', rfl⟩ with rfl | rfl <;> decide
  -- the same loan again moves nothing, the opposite one puts back what was there
  rcases hcases with rfl | rfl
  · unfold borrow at hspent ⊢
    rw [hlevel, hreserved, hspent, Function.update_idem]
  · have hback : s.used g * share g - s.reserved g = s₁.spent g := by
      have hshare := (share_pos g).ne'
      rw [hother]
      unfold used
      field_simp
      ring
    rw [← hspent]
    unfold borrow
    rw [hlevel', sub_sub_self, hreserved, hback, Function.update_eq_self]

/-- What a run of deferrals leaves. -/
theorem run_deferred {s s' : Scheduler} {as : List Deferral} (h : Run Deferred s as s') :
    s'.reserved = s.reserved ∧ s'.worked = s.worked ∧
      (s'.spent = s.spent ∨ ∃ pre a post mid g, as = pre ++ a :: post ∧ Run Deferred s pre mid ∧
        ¬ mid.Has a.now (1 - g) ∧ s'.spent = s.borrow g) ∧
      TasksRest (PutOff as) s s' := by
  induction h with
  | nil s => exact ⟨rfl, rfl, .inl rfl, tasksRest_refl _ s⟩
  | cons hstep hrun ih =>
      rename_i s s₁ s' a as
      obtain ⟨hreserved, hworked, hspent, htasks⟩ := deferred_cases hstep
      obtain ⟨hreserved', hworked', hspent', htasks'⟩ := ih
      refine ⟨hreserved'.trans hreserved, hworked'.trans hworked, ?_, ?_⟩
      · rcases hspent with hsame | ⟨g, hnone, hborrow⟩
        · rcases hspent' with hsame' | ⟨pre, b, post, mid, g, rfl, hpre, hnone, hborrow⟩
          · exact .inl (hsame'.trans hsame)
          · refine .inr ⟨a :: pre, b, post, mid, g, rfl, .cons hstep hpre, hnone, ?_⟩
            rw [hborrow]
            unfold borrow used
            rw [hsame, hreserved]
        -- the first loan levels the groups, and the later ones find them level
        · refine .inr ⟨[], a, as, s, g, rfl, .nil s, hnone, ?_⟩
          rcases hspent' with hsame' | ⟨-, -, -, -, g', -, -, -, hborrow'⟩
          · exact hsame'.trans hborrow
          · rw [hborrow']
            exact borrow_borrow hreserved hborrow g'
      · intro id
        have hboth := (htasks.trans htasks') id
        refine hboth.imp_right ?_
        rintro ⟨t, t', ht, ht', hrests⟩
        refine ⟨t, t', ht, ht', hrests.mono ?_⟩
        rintro (⟨hid, hcause⟩ | ⟨b, hb, hid, hcause⟩)
        · exact ⟨a, List.mem_cons_self, hid, hcause⟩
        · exact ⟨b, List.mem_cons_of_mem a hb, hid, hcause⟩

/-- The candidate of a class is the same task afterwards, unless it was put off. -/
theorem TasksRest.oldest {off : Identity → Prop} {s s' : Scheduler} (h : TasksRest off s s') {now : Time}
    {c : Fin 2 × Fin 2} {o o' : Option Entry} (ho : s.Oldest now c o) (ho' : s'.Oldest now c o')
    (hon : ∀ e, o = some e → ¬ off e.1) : o'.map Sigma.fst = o.map Sigma.fst := by
  -- who is ready afterwards was ready before
  have hback : ∀ b ∈ s'.tasks.entries, classOf now b = some c →
      ∃ t, s.tasks.lookup b.1 = some t ∧ Rests (off b.1) t b.2 ∧ classOf now ⟨b.1, t⟩ = some c := by
    intro b hb hclass
    rcases h b.1 with ⟨-, hnone⟩ | ⟨t, t', ht, ht', hrests⟩
    · rw [mem_entries.1 hb] at hnone
      cases hnone
    · rw [mem_entries.1 hb] at ht'
      obtain rfl := Option.some.inj ht'
      exact ⟨t, ht, hrests, hrests.ready hclass⟩
  rcases o with _ | e
  · rcases o' with _ | b
    · rfl
    · obtain ⟨t, ht, -, hclass⟩ := hback b ho'.1 ho'.2.1
      exact absurd hclass (ho ⟨b.1, t⟩ (mem_entries.2 ht))
  · rcases h e.1 with ⟨hnone, -⟩ | ⟨t, t', ht, ht', hrests⟩
    · rw [mem_entries.1 ho.1] at hnone
      cases hnone
    · rw [mem_entries.1 ho.1] at ht
      obtain rfl := Option.some.inj ht
      have hclass : classOf now ⟨e.1, t'⟩ = some c := (hrests.same_class (hon e rfl)).trans ho.2.1
      -- the old candidate is still ready, and its rivals were its rivals before
      have hleads : s'.Oldest now c (some ⟨e.1, t'⟩) := by
        refine ⟨mem_entries.2 ht', hclass, ?_⟩
        intro b hb hbc
        obtain ⟨u, hu, hurests, huclass⟩ := hback b hb hbc
        rcases ho.2.2 ⟨b.1, u⟩ (mem_entries.2 hu) huclass with heq | holder
        · have hid := congrArg Sigma.fst heq
          change b.1 = e.1 at hid
          rw [mem_entries, hid, ht'] at hb
          obtain ⟨id, v⟩ := b
          obtain rfl : id = e.1 := hid
          exact .inl (by rw [Option.some.inj hb])
        · exact .inr (hrests.older hurests holder)
      rw [ho'.unique hleads]
      rfl

/-- Any number of deferrals leaves the reserved and the worked time of every group as it was,
and the spent time too, but that one group may be put level with the other while it has no ready
task. In every class the next pick finds the task it would have found, unless that task was put
off by an unconfirmed attempt. -/
theorem deferrals_neutral {s s' : Scheduler} {as : List Deferral} (h : Run Deferred s as s') :
    s'.reserved = s.reserved ∧ s'.worked = s.worked ∧
      (s'.spent = s.spent ∨ ∃ pre a post mid g, as = pre ++ a :: post ∧ Run Deferred s pre mid ∧
        ¬ mid.Has a.now (1 - g) ∧ s'.spent = s.borrow g) ∧
      ∀ (now : Time) (c : Fin 2 × Fin 2) (order order' : List Entry), order.Perm s.tasks.entries →
        order'.Perm s'.tasks.entries → (∀ e, best now order c = some e → ¬ PutOff as e.1) →
        (best now order' c).map Sigma.fst = (best now order c).map Sigma.fst := by
  obtain ⟨hreserved, hworked, hspent, htasks⟩ := run_deferred h
  refine ⟨hreserved, hworked, hspent, ?_⟩
  intro now c order order' horder horder' hon
  exact htasks.oldest (best_oldest _ horder c) (best_oldest _ horder' c) hon

/-! ## One task alone -/

/-- A minute of 1970, with one member. -/
def oldMinute : Delivery where
  database := [100]
  kind := cexKind
  id := [49]
  service := [115]
  generation := 1
  minute := ⟨0, 0⟩
  digest := Vector.replicate 32 0
  members := 1
  codec := 1
  payload := []
  minute_unix := by decide

def oldTask : Task where
  candidate := ⟨oldMinute, 1⟩
  redis := true
  disk := false
  inflight := false
  retryAt := ⟨0, 0⟩
  failures := 0
  blocked := false
  seen := ⟨0, 0⟩
  group := ⟨0, Nat.zero_lt_two⟩
  estimate := 0

/-- One recent task, in a group that has spent 7 nanoseconds. -/
def oneTask : Scheduler := { newScheduler.put oldTask with spent := Function.update (fun _ => 0) oldTask.group 7 }

theorem entries_oneTask : oneTask.tasks.entries = [⟨oldTask.key, oldTask⟩] := rfl

theorem class_oldTask (k : Fin 2 × Fin 2) : classOf ⟨0, 0⟩ ⟨oldTask.key, oldTask⟩ = some k ↔ k = (0, 0) := by
  have hclass : classOf ⟨0, 0⟩ ⟨oldTask.key, oldTask⟩ = some (0, 0) := by decide
  rw [hclass]
  exact ⟨fun h => (Option.some.inj h).symm, fun h => by rw [h]⟩

theorem pick_oneTask : ∃ t s', oneTask.pick oneTask.tasks.entries ⟨0, 0⟩ = some (t, s') ∧
    t.key = oldTask.key ∧ t.group = 0 ∧ s'.spent = oneTask.borrow 0 := by
  have hready : oneTask.Has ⟨0, 0⟩ 0 :=
    ⟨⟨oldTask.key, oldTask⟩, List.mem_cons_self, 0, (class_oldTask _).2 rfl⟩
  have hsome := pick_isSome (List.Perm.refl _) hready
  obtain ⟨t, s', hpick⟩ := hsome
  obtain ⟨e, g, k, holdest, rfl, -, -, -, -, -, hspent⟩ := pick_cases (List.Perm.refl _) hpick
  have hmem := holdest.1
  rw [entries_oneTask] at hmem
  obtain rfl := List.mem_singleton.1 hmem
  obtain ⟨rfl, rfl⟩ := Prod.mk.inj ((class_oldTask _).1 holdest.2.1)
  refine ⟨_, s', hpick, rfl, rfl, ?_⟩
  rcases hspent with ⟨⟨e, he, k, hclass⟩, -⟩ | ⟨-, hborrow⟩
  · rw [entries_oneTask] at he
    obtain rfl := List.mem_singleton.1 he
    exact absurd (Prod.mk.inj ((class_oldTask _).1 hclass)).1 (one_sub_ne 0)
  · exact hborrow

/-- The group without tasks is put level, so its spent time is not what it was. -/
theorem borrowed_not_neutral :
    ¬ ∀ (s : Scheduler) (order : List Entry) (now : Time) (t : Task) (s₁ : Scheduler),
      order.Perm s.tasks.entries → s.pick order now = some (t, s₁) →
        (s₁.finish t 0).spent = s.spent ∧ (s₁.finish t 0).reserved = s.reserved ∧
          (s₁.finish t 0).costPerMember = s.costPerMember ∧ (s₁.finish t 0).costPerByte = s.costPerByte := by
  intro h
  obtain ⟨t, s', hpick, -, hgroup, hspent⟩ := pick_oneTask
  have hsame := congrFun (h _ _ _ _ _ (List.Perm.refl _) hpick).1 1
  have hfinish : (s'.finish t 0).spent 1 = oneTask.borrow 0 1 := by
    change Function.update s'.spent t.group _ 1 = _
    rw [hgroup, hspent]
    exact Function.update_of_ne (by decide) _ _
  rw [hfinish] at hsame
  have hgroup₀ : oldTask.group = 0 := rfl
  norm_num [borrow, used, share, oneTask, newScheduler, put, hgroup₀] at hsame

theorem deferrals_neutral_oneTask : ∃ (a : Deferral) (s' : Scheduler), Run Deferred oneTask [a] s' ∧
    s'.reserved = oneTask.reserved ∧ s'.worked = oneTask.worked := by
  obtain ⟨t, s₁, hpick, hkey, -, -⟩ := pick_oneTask
  have hrun : Run Deferred oneTask [⟨oneTask.tasks.entries, ⟨0, 0⟩, oldTask.key, .budgetBusy⟩]
      (s₁.defer t .budgetBusy) :=
    .cons ⟨List.Perm.refl _, nofun, t, s₁, hpick, hkey, rfl⟩ (.nil _)
  have hneutral := deferrals_neutral hrun
  exact ⟨_, _, hrun, hneutral.1, hneutral.2.1⟩

end Scheduler

end MarketInfo.Writer
