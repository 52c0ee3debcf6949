import MarketInfo.Writer.Engine

/-! # The writer's accounts

What the groups reserve is what their tasks in flight were estimated at, what the budget has
in use is what the live jobs hold, and each job gives its bytes back once.
-/

namespace MarketInfo.Writer

open Spool (Candidate Delivery)
open Transition (Run)

/-! ## The estimates in flight -/

/-- What a task counts for in the reserved time of a group. -/
def reservedFor (g : Fin 2) (t : Task) : ℚ := if t.inflight = true ∧ t.group = g then t.estimate else 0

theorem reservedFor_idle {t : Task} (h : t.inflight = false) (g : Fin 2) : reservedFor g t = 0 := by
  unfold reservedFor
  rw [if_neg]
  rintro ⟨hflight, -⟩
  rw [h] at hflight
  cases hflight

namespace Scheduler

variable {s s' : Scheduler} {t : Task} {order : List Entry} {now : Time}

/-- The reserved time of a group is that of its tasks in flight. -/
def Balanced (s : Scheduler) : Prop := ∀ g, s.reserved g = Ledger.total (reservedFor g) s.tasks

/-- The task of an identity is in flight. -/
def Flying (s : Scheduler) (id : Identity) : Prop := ∃ t, s.tasks.lookup id = some t ∧ t.inflight = true

theorem held_eq {id : Identity} (h : s.tasks.lookup id = some t) (g : Fin 2) :
    Ledger.held (reservedFor g) s.tasks id = reservedFor g t := by
  unfold Ledger.held
  rw [h]
  rfl

theorem held_idle {id : Identity} (h : ¬ s.Flying id) (g : Fin 2) :
    Ledger.held (reservedFor g) s.tasks id = 0 := by
  unfold Ledger.held
  rcases hlookup : s.tasks.lookup id with _ | t
  · rfl
  · refine reservedFor_idle ?_ g
    rw [← Bool.not_eq_true]
    exact fun hflight => h ⟨t, hlookup, hflight⟩

theorem flying_put (id : Identity) :
    (s.put t).Flying id ↔ (id = t.key ∧ t.inflight = true) ∨ (id ≠ t.key ∧ s.Flying id) := by
  unfold Flying
  rw [put_tasks]
  by_cases hid : id = t.key
  · subst hid
    rw [AList.lookup_insert]
    constructor
    · rintro ⟨u, hu, hflight⟩
      rw [← Option.some.inj hu] at hflight
      exact .inl ⟨rfl, hflight⟩
    · rintro (⟨-, hflight⟩ | ⟨hne, -⟩)
      · exact ⟨t, rfl, hflight⟩
      · exact absurd rfl hne
  · rw [AList.lookup_insert_ne hid]
    constructor
    · exact fun h => .inr ⟨hid, h⟩
    · rintro (⟨heq, -⟩ | ⟨-, h⟩)
      · exact absurd heq hid
      · exact h

theorem flying_delete (id id' : Identity) : (s.delete id').Flying id ↔ id ≠ id' ∧ s.Flying id := by
  unfold Flying
  rw [delete_tasks]
  by_cases hid : id = id'
  · subst hid
    rw [AList.lookup_erase]
    exact ⟨(by rintro ⟨t, ht, -⟩; cases ht), fun h => absurd rfl h.1⟩
  · rw [AList.lookup_erase_ne hid]
    exact ⟨fun h => ⟨hid, h⟩, fun h => h.2⟩

/-- A task at rest is written over one at rest, or is new. -/
theorem Balanced.put (h : s.Balanced) (hold : ¬ s.Flying t.key) (hnew : t.inflight = false) :
    (s.put t).Balanced := by
  intro g
  rw [put_reserved, put_tasks, Ledger.total_insert, held_idle hold, reservedFor_idle hnew, sub_zero, add_zero]
  exact h g

/-- What is not accounted for may change at any task. -/
theorem Balanced.touch (h : s.Balanced) {u : Task} (hold : s.tasks.lookup t.key = some u)
    (hsame : t.inflight = u.inflight ∧ t.group = u.group ∧ t.estimate = u.estimate) : (s.put t).Balanced := by
  intro g
  have hweight : reservedFor g t = reservedFor g u := by
    unfold reservedFor
    rw [hsame.1, hsame.2.1, hsame.2.2]
  rw [put_reserved, put_tasks, Ledger.total_insert, held_eq hold, hweight, sub_add_cancel]
  exact h g

theorem Balanced.delete (h : s.Balanced) {id : Identity} (hold : ¬ s.Flying id) : (s.delete id).Balanced := by
  intro g
  rw [delete_reserved, delete_tasks, Ledger.total_erase, held_idle hold, sub_zero]
  exact h g

/-- The picked task rested, and flies. -/
theorem pick_flying (horder : order.Perm s.tasks.entries) (hpick : s.pick order now = some (t, s')) :
    ¬ s.Flying t.key ∧ s'.tasks.lookup t.key = some t ∧ t.inflight = true ∧
      ∀ id, s'.Flying id ↔ id = t.key ∨ s.Flying id := by
  obtain ⟨e, g, k, holdest, ht, htasks, -⟩ := pick_cases horder hpick
  have hflight : t.inflight = true := by rw [ht]; rfl
  have hkey : t.key = e.1 := by
    rw [ht]
    exact s.keyed e.1 e.2 (mem_entries.1 holdest.1)
  have hrest : ¬ s.Flying t.key := by
    rintro ⟨u, hu, hflying⟩
    rw [hkey, mem_entries.1 holdest.1] at hu
    rw [← Option.some.inj hu, (classOf_ready holdest.2.1).1] at hflying
    cases hflying
  refine ⟨hrest, ?_, hflight, ?_⟩
  · rw [htasks]
    exact AList.lookup_insert _
  · intro id
    have hput := flying_put (s := s) (t := t) id
    unfold Flying at hput ⊢
    rw [put_tasks] at hput
    rw [htasks, hput]
    constructor
    · rintro (⟨hid, -⟩ | ⟨-, h⟩)
      · exact .inl hid
      · exact .inr h
    · rintro (hid | h)
      · exact .inl ⟨hid, hflight⟩
      · refine .inr ⟨?_, h⟩
        rintro rfl
        exact hrest h

theorem Balanced.pick (h : s.Balanced) (horder : order.Perm s.tasks.entries)
    (hpick : s.pick order now = some (t, s')) : s'.Balanced := by
  obtain ⟨hrest, -, hflight, -⟩ := pick_flying horder hpick
  obtain ⟨e, g, k, -, ht, htasks, hreserved, -⟩ := pick_cases horder hpick
  have hgroup : t.group = g := by rw [ht]; rfl
  intro g'
  rw [hreserved, htasks, Ledger.total_insert, held_idle hrest, sub_zero, ← h g']
  unfold reservedFor
  by_cases hg : g' = g
  · subst hg
    rw [Function.update_self, if_pos ⟨hflight, hgroup⟩]
  · rw [Function.update_of_ne hg, if_neg, add_zero]
    rintro ⟨-, hsame⟩
    exact hg (hsame.symm.trans hgroup)

/-- A task in flight gives back its estimate when it is finished. -/
theorem Balanced.finish (h : s.Balanced) (hlookup : s.tasks.lookup t.key = some t) (hflight : t.inflight = true)
    (work : Int) : (s.finish t work).Balanced := by
  intro g
  have htasks : (s.finish t work).tasks = s.tasks.insert t.key { t with inflight := false } := rfl
  have hreserved : (s.finish t work).reserved =
      Function.update s.reserved t.group (s.reserved t.group - t.estimate) := rfl
  have hidle : reservedFor g { t with inflight := false } = 0 := reservedFor_idle rfl g
  rw [htasks, hreserved, Ledger.total_insert, held_eq hlookup, hidle, add_zero]
  unfold reservedFor
  by_cases hg : g = t.group
  · subst hg
    rw [Function.update_self, if_pos ⟨hflight, rfl⟩, h t.group]
    rfl
  · rw [Function.update_of_ne hg, if_neg, sub_zero, h g]
    · rfl
    · rintro ⟨-, hsame⟩
      exact hg hsame.symm

theorem flying_finish (work : Int) (id : Identity) :
    (s.finish t work).Flying id ↔ id ≠ t.key ∧ s.Flying id := by
  have hput := flying_put (s := s) (t := { t with inflight := false }) id
  have hsame : (s.finish t work).Flying id ↔ (s.put { t with inflight := false }).Flying id := Iff.rfl
  rw [hsame, hput]
  constructor
  · rintro (⟨-, hflight⟩ | h)
    · cases hflight
    · exact h
  · exact .inr

/-- A deferred pick changes neither the balance nor who flies. -/
theorem deferred_flying (h : s.Balanced) (horder : order.Perm s.tasks.entries)
    (hpick : s.pick order now = some (t, s')) (cause : Cause) :
    (s'.defer t cause).Balanced ∧ ∀ id, (s'.defer t cause).Flying id ↔ s.Flying id := by
  obtain ⟨hrest, hlookup, hflight, hflying⟩ := pick_flying horder hpick
  have hbalanced := (h.pick horder hpick).finish hlookup hflight 0
  have hsame : ∀ id, (s'.finish t 0).Flying id ↔ s.Flying id := by
    intro id
    rw [flying_finish, hflying]
    constructor
    · rintro ⟨hne, hid | hold⟩
      · exact absurd hid hne
      · exact hold
    · intro hold
      refine ⟨?_, .inr hold⟩
      rintro rfl
      exact hrest hold
  -- only an unconfirmed attempt touches the task again, to let it rest
  rcases cause with _ | _ | p
  · exact ⟨hbalanced, hsame⟩
  · exact ⟨hbalanced, hsame⟩
  · refine ⟨hbalanced.put ?_ rfl, ?_⟩
    · exact fun hfly => hrest ((hsame _).1 hfly)
    · intro id
      change ((s'.finish t 0).put _).Flying id ↔ _
      rw [flying_put, hsame]
      constructor
      · rintro (⟨-, hnot⟩ | ⟨-, hold⟩)
        · cases hnot
        · exact hold
      · intro hold
        refine .inr ⟨?_, hold⟩
        rintro rfl
        exact hrest hold

end Scheduler

/-! ## The bytes -/

namespace Engine

variable {e e' : Engine} {i : Nat} {x : Slot}

/-- What the live jobs hold together. -/
def held (e : Engine) : Int := (e.slots.map fun x => x.job.reserved).sum

structure Budgeted (e : Engine) : Prop where
  used : e.budget.used = e.held
  limit : e.budget.limit = e.cfg.prepareBytes
  within : e.budget.used ≤ e.budget.limit
  positive : ∀ x ∈ e.slots, 0 < x.job.reserved
  sound : e.panicked = false
  owners : (e.released ++ e.slots.map fun x => x.job.owner).Perm (List.range e.owners)

theorem budgeted_initial (cfg : Config) : Budgeted (initial cfg) where
  used := rfl
  limit := rfl
  within := by
    have := cfg.bounded
    show (0 : Int) ≤ cfg.prepareBytes
    omega
  positive := fun x hx => absurd hx List.not_mem_nil
  sound := rfl
  owners := List.Perm.refl _

theorem perm_eraseIdx {α : Type} {xs : List α} {i : Nat} {x : α} (h : xs[i]? = some x) :
    (x :: xs.eraseIdx i).Perm xs := by
  obtain ⟨hi, rfl⟩ := List.getElem?_eq_some_iff.1 h
  exact List.getElem_cons_eraseIdx_perm hi

theorem map_set_same {α β : Type} {xs : List α} {i : Nat} {x y : α} {f : α → β} (h : xs[i]? = some x)
    (hsame : f y = f x) : (xs.set i y).map f = xs.map f := by
  rw [List.map_set, hsame]
  refine List.ext_getElem? fun n => ?_
  rw [List.getElem?_set]
  split
  · rename_i hn
    subst hn
    rw [List.getElem?_map, h, List.length_map]
    split
    · rfl
    · rename_i hlong
      rw [List.getElem?_eq_none (by omega)] at h
      cases h
  · rfl

@[simp] theorem release_s (e : Engine) (j : Job) : (e.release j).s = e.s := by
  unfold release
  split
  · split <;> rfl
  · rfl

@[simp] theorem release_slots (e : Engine) (j : Job) : (e.release j).slots = e.slots := by
  unfold release
  split
  · split <;> rfl
  · rfl

@[simp] theorem release_phase (e : Engine) (j : Job) : (e.release j).phase = e.phase := by
  unfold release
  split
  · split <;> rfl
  · rfl

/-- No job holds more than is in use. -/
theorem Budgeted.reserved_le (h : Budgeted e) (hx : x ∈ e.slots) : x.job.reserved ≤ e.budget.used := by
  have hnonneg : ∀ n ∈ e.slots.map fun x => x.job.reserved, 0 ≤ n := by
    intro n hn
    obtain ⟨y, hy, rfl⟩ := List.mem_map.1 hn
    exact (h.positive y hy).le
  rw [h.used]
  exact List.single_le_sum hnonneg _ (List.mem_map_of_mem hx)

/-- A job that leaves gives back what it holds, and the release does not underflow. -/
theorem Budgeted.release (h : Budgeted e) (hi : e.slots[i]? = some x) :
    Budgeted ({ e with slots := e.slots.eraseIdx i }.release x.job) := by
  have hx : x ∈ e.slots := List.mem_of_getElem? hi
  have hperm := perm_eraseIdx hi
  have hpositive := h.positive x hx
  have hsum : x.job.reserved + (e.slots.eraseIdx i |>.map fun y => y.job.reserved).sum = e.held := by
    have := (hperm.map fun y => y.job.reserved).sum_eq
    rwa [List.map_cons, List.sum_cons] at this
  -- a job holds no more than is in use, so the release subtracts exactly its bytes
  have hreleased : ({ e with slots := e.slots.eraseIdx i } : Engine).release x.job =
      { e with
        slots := e.slots.eraseIdx i
        budget := { e.budget with used := e.budget.used - x.job.reserved }
        released := e.released ++ [x.job.owner] } := by
    unfold Engine.release
    rw [if_pos hpositive]
    dsimp only
    rw [ByteBudget.release_eq hpositive.le (h.reserved_le hx)]
  rw [hreleased]
  have hused := h.used
  have hwithin := h.within
  refine ⟨?_, h.limit, ?_, ?_, h.sound, ?_⟩
  · show e.budget.used - x.job.reserved = (e.slots.eraseIdx i |>.map fun y => y.job.reserved).sum
    omega
  · show e.budget.used - x.job.reserved ≤ e.budget.limit
    omega
  · exact fun y hy => h.positive y ((List.eraseIdx_sublist e.slots i).subset hy)
  · show (e.released ++ [x.job.owner] ++ (e.slots.eraseIdx i).map fun y => y.job.owner).Perm _
    rw [List.append_assoc]
    have hmap := hperm.map fun y => y.job.owner
    rw [List.map_cons] at hmap
    exact (List.Perm.append_left e.released hmap).trans h.owners

/-- A job changes its stage, and may hold more. -/
theorem Budgeted.move (h : Budgeted e) (hi : e.slots[i]? = some x) {y : Slot} {b : ByteBudget}
    (howner : y.job.owner = x.job.owner) (hpositive : 0 < y.job.reserved) (hlimit : b.limit = e.budget.limit)
    (hused : b.used = e.budget.used - x.job.reserved + y.job.reserved) (hwithin : b.used ≤ b.limit) :
    Budgeted { e with budget := b, slots := e.slots.set i y } where
  used := by
    show b.used = ((e.slots.set i y).map fun x => x.job.reserved).sum
    rw [Ledger.sum_set (fun x : Slot => x.job.reserved) e.slots i hi y, hused, h.used]
    rfl
  limit := hlimit.trans h.limit
  within := hwithin
  positive := by
    intro z hz
    rcases List.mem_or_eq_of_mem_set hz with hz | rfl
    · exact h.positive z hz
    · exact hpositive
  sound := h.sound
  owners := by
    show (e.released ++ (e.slots.set i y).map fun x => x.job.owner).Perm _
    rw [map_set_same (f := fun x : Slot => x.job.owner) hi howner]
    exact h.owners

/-- A job changes its stage only. -/
theorem Budgeted.setSlot (h : Budgeted e) (hi : e.slots[i]? = some x) {j : Job} {stage : Stage}
    (howner : j.owner = x.job.owner) (hreserved : j.reserved = x.job.reserved) :
    Budgeted (e.setSlot i j stage) := by
  have hpositive := h.positive x (List.mem_of_getElem? hi)
  have hmoved := h.move hi (y := ⟨j, stage⟩) (b := e.budget) howner
    (by rw [← hreserved] at hpositive; exact hpositive)
    rfl (by rw [hreserved]; omega) h.within
  exact hmoved

/-- A job is dispatched with its bytes. -/
theorem Budgeted.push (h : Budgeted e) {y : Slot} {b : ByteBudget}
    (hacquired : e.budget.TryAcquire y.job.reserved = some b)
    (howner : y.job.owner = e.owners) (hpositive : 0 < y.job.reserved) :
    Budgeted { e with budget := b, owners := e.owners + 1, slots := e.slots ++ [y] } := by
  obtain ⟨-, hroom, rfl⟩ := ByteBudget.tryAcquire_eq_some.1 hacquired
  refine ⟨?_, h.limit, hroom, ?_, h.sound, ?_⟩
  · show e.budget.used + y.job.reserved = ((e.slots ++ [y]).map fun x => x.job.reserved).sum
    rw [h.used, List.map_append, List.sum_append]
    simp [held]
  · intro z hz
    rcases List.mem_append.1 hz with hz | hz
    · exact h.positive z hz
    · rw [List.mem_singleton.1 hz]
      exact hpositive
  · show (e.released ++ (e.slots ++ [y]).map fun x => x.job.owner).Perm (List.range (e.owners + 1))
    rw [List.map_append, List.range_succ, ← List.append_assoc, List.map_singleton, howner]
    exact h.owners.append_right _

/-! ## The jobs in flight -/

end Engine

/-- The stages of a job whose minute is the one it was dispatched for. -/
def Stage.Proven : Stage → Prop
  | .ready => True
  | .committing => True
  | .done none => True
  | _ => False

/-- While the loop runs, the tasks in flight are those of the live jobs. -/
structure Flights (s : Scheduler) (slots : List Slot) (phase : Phase) : Prop where
  balanced : s.Balanced
  distinct : (slots.map Slot.key).Nodup
  flying : phase = .running → ∀ id, s.Flying id ↔ id ∈ slots.map Slot.key
  named : ∀ x ∈ slots, x.stage.Proven → identity x.job.d = x.key

namespace Flights

variable {s s' : Scheduler} {slots : List Slot} {phase : Phase} {i : Nat} {x : Slot}

theorem initial : Flights newScheduler [] .running where
  balanced := fun _ => rfl
  distinct := List.nodup_nil
  flying := by
    intro _ id
    refine ⟨?_, fun h => absurd h List.not_mem_nil⟩
    rintro ⟨t, ht, -⟩
    change (∅ : AList fun _ : Identity => Task).lookup id = some t at ht
    rw [AList.lookup_empty] at ht
    cases ht
  named := fun x hx => absurd hx List.not_mem_nil

/-- The scheduler changes, and who flies does not. -/
theorem scheduler (h : Flights s slots phase) (hbalanced : s'.Balanced)
    (hflying : ∀ id, s'.Flying id ↔ s.Flying id) : Flights s' slots phase :=
  ⟨hbalanced, h.distinct, fun hrun id => (hflying id).trans (h.flying hrun id), h.named⟩

theorem ended (h : Flights s slots phase) (phase' : Phase) (hphase : phase' ≠ .running) :
    Flights s slots phase' :=
  ⟨h.balanced, h.distinct, fun hrun => absurd hrun hphase, h.named⟩

theorem set (h : Flights s slots phase) (hi : slots[i]? = some x) {y : Slot} (hkey : y.key = x.key)
    (hnamed : y.stage.Proven → identity y.job.d = y.key) : Flights s (slots.set i y) phase := by
  have hkeys : (slots.set i y).map Slot.key = slots.map Slot.key := Engine.map_set_same hi hkey
  refine ⟨h.balanced, ?_, ?_, ?_⟩
  · rw [hkeys]
    exact h.distinct
  · rw [hkeys]
    exact h.flying
  · intro z hz
    rcases List.mem_or_eq_of_mem_set hz with hz | rfl
    · exact h.named z hz
    · exact hnamed

/-- A job that leaves takes its identity along. -/
theorem mem_erase (h : Flights s slots phase) (hi : slots[i]? = some x) (id : Identity) :
    id ∈ (slots.eraseIdx i).map Slot.key ↔ id ≠ x.key ∧ id ∈ slots.map Slot.key := by
  have hperm := (Engine.perm_eraseIdx hi).map Slot.key
  rw [List.map_cons] at hperm
  have hdistinct := (hperm.nodup_iff).2 h.distinct
  rw [← hperm.mem_iff, List.mem_cons]
  constructor
  · intro hid
    refine ⟨?_, .inr hid⟩
    rintro rfl
    exact (List.nodup_cons.1 hdistinct).1 hid
  · rintro ⟨hne, heq | hid⟩
    · exact absurd heq hne
    · exact hid

theorem erase (h : Flights s slots phase) (hi : slots[i]? = some x) (hbalanced : s'.Balanced)
    (hflying : phase = .running → ∀ id, s'.Flying id ↔ id ≠ x.key ∧ s.Flying id) :
    Flights s' (slots.eraseIdx i) phase where
  balanced := hbalanced
  distinct := h.distinct.sublist ((List.eraseIdx_sublist slots i).map Slot.key)
  flying := by
    intro hrun id
    rw [hflying hrun, h.mem_erase hi, h.flying hrun]
  named := fun y hy => h.named y ((List.eraseIdx_sublist slots i).subset hy)

/-- A picked task flies with its job. -/
theorem push (h : Flights s slots .running) {t : Task} {order : List Entry} {now : Time}
    (horder : order.Perm s.tasks.entries) (hpick : s.pick order now = some (t, s')) {y : Slot}
    (hkey : y.key = t.key) (hstage : y.stage = .queued) : Flights s' (slots ++ [y]) .running := by
  obtain ⟨hrest, -, -, hflying⟩ := Scheduler.pick_flying horder hpick
  -- the picked task rested, so its identity is not among those of the live jobs
  refine ⟨h.balanced.pick horder hpick, ?_, ?_, ?_⟩
  · rw [List.map_append, List.map_singleton, List.nodup_append]
    refine ⟨h.distinct, List.nodup_singleton _, ?_⟩
    intro id hid id' hid' heq
    rw [List.mem_singleton.1 hid', hkey] at heq
    rw [heq] at hid
    exact hrest ((h.flying rfl t.key).2 hid)
  · intro _ id
    rw [hflying, h.flying rfl, List.map_append, List.mem_append, List.map_singleton, List.mem_singleton, hkey]
    exact Or.comm
  · intro z hz
    rcases List.mem_append.1 hz with hz | hz
    · exact h.named z hz
    · rw [List.mem_singleton.1 hz, hstage]
      exact False.elim

end Flights

namespace Scheduler

theorem flying_touch {s : Scheduler} {t u : Task} (hold : s.tasks.lookup t.key = some u)
    (hsame : t.inflight = u.inflight) (id : Identity) : (s.put t).Flying id ↔ s.Flying id := by
  rw [flying_put]
  by_cases hid : id = t.key
  · subst hid
    constructor
    · rintro (⟨-, hflight⟩ | ⟨hne, -⟩)
      · exact ⟨u, hold, hsame.symm.trans hflight⟩
      · exact absurd rfl hne
    · rintro ⟨v, hv, hflight⟩
      rw [hold] at hv
      refine .inl ⟨rfl, ?_⟩
      rw [hsame, Option.some.inj hv]
      exact hflight
  · constructor
    · rintro (⟨heq, -⟩ | ⟨-, h⟩)
      · exact absurd heq hid
      · exact h
    · exact fun h => .inr ⟨hid, h⟩

end Scheduler

namespace Engine

variable {e e' : Engine} {i : Nat} {x : Slot}

structure Inv (e : Engine) : Prop where
  budgeted : Budgeted e
  flights : Flights e.s e.slots e.phase

theorem inv_initial (cfg : Config) : Inv (initial cfg) := ⟨budgeted_initial cfg, Flights.initial⟩

/-! ## The steps -/

theorem Budgeted.scheduler (h : Budgeted e) (s : Scheduler) (phase : Phase) (inflight : Int) :
    Budgeted { e with s := s, phase := phase, inflight := inflight } :=
  ⟨h.used, h.limit, h.within, h.positive, h.sound, h.owners⟩

theorem Inv.stopped (h : Inv e) {phase : Phase} (hphase : phase ≠ .running) : Inv { e with phase := phase } :=
  ⟨h.budgeted.scheduler e.s phase e.inflight, h.flights.ended phase hphase⟩

theorem Inv.merge (h : Inv e) (c : Candidate) (isRedis : Bool) (now : Time) : Inv (e.merge c isRedis now) := by
  unfold Engine.merge
  split
  · exact h.stopped (by decide)
  · rcases hlookup : e.s.tasks.lookup (identity c.header) with _ | t
    · dsimp only
      split
      · exact h.stopped (by decide)
      · -- a task that is seen for the first time does not fly
        have hnew : ¬ e.s.Flying (seenIn (newTask c now) c isRedis).key := by
          rintro ⟨t, ht, -⟩
          change e.s.tasks.lookup (identity c.header) = some t at ht
          rw [hlookup] at ht
          cases ht
        refine ⟨h.budgeted.scheduler _ e.phase e.inflight,
          h.flights.scheduler (h.flights.balanced.put hnew rfl) ?_⟩
        intro id
        rw [Scheduler.flying_put]
        constructor
        · rintro (⟨-, hflight⟩ | ⟨-, hold⟩)
          · cases hflight
          · exact hold
        · intro hold
          refine .inr ⟨?_, hold⟩
          rintro rfl
          exact hnew hold
    · have hkey : t.key = identity c.header := e.s.keyed _ _ hlookup
      have hold : e.s.tasks.lookup t.key = some t := by rw [hkey, hlookup]
      -- one that is known keeps its flight and its estimate
      have htouch : ∀ u : Task, u.key = t.key →
          (u.inflight = t.inflight ∧ u.group = t.group ∧ u.estimate = t.estimate) →
            Inv { e with s := e.s.put u } := by
        intro u hu hsame
        rw [← hu] at hold
        exact ⟨h.budgeted.scheduler _ e.phase e.inflight,
          h.flights.scheduler (h.flights.balanced.touch hold hsame)
          (Scheduler.flying_touch hold hsame.1)⟩
      dsimp only
      split
      · exact htouch _ rfl ⟨rfl, rfl, rfl⟩
      · exact htouch _ rfl ⟨rfl, rfl, rfl⟩

theorem reserve_pos (cfg : Config) (c : Candidate) : 0 < reserve cfg c := by
  have hbytes := cfg.bounded.2.2.2.2
  unfold reserve
  refine lt_min (lt_of_lt_of_le (by norm_num) (le_max_left _ _)) ?_
  omega

theorem Inv.dispatch (h : Inv e) (hrun : e.phase = .running) {order : List Entry}
    (horder : order.Perm e.s.tasks.entries) (now : Time) (probed : Option Time) :
    Inv (e.dispatch order now probed) := by
  unfold Engine.dispatch
  rcases hpick : e.s.pick order now with _ | ⟨t, s⟩
  · exact h
  · have hdeferred : ∀ cause, Flights (s.defer t cause) e.slots e.phase := fun cause =>
      have hboth := Scheduler.deferred_flying h.flights.balanced horder hpick cause
      h.flights.scheduler hboth.1 hboth.2
    dsimp only
    rcases probed with _ | p
    · dsimp only
      rcases hacquired : e.budget.TryAcquire (reserve e.cfg t.candidate) with _ | b
      · exact ⟨h.budgeted.scheduler _ e.phase e.inflight, hdeferred .budgetBusy⟩
      · dsimp only
        have hpushed := h.budgeted.push
          (y := ⟨⟨e.owners, t, t.candidate.header, reserve e.cfg t.candidate⟩, .queued⟩) hacquired rfl
          (reserve_pos _ _)
        split
        · refine ⟨hpushed.scheduler s e.phase (e.inflight + 1), ?_⟩
          have hflights := h.flights
          rw [hrun] at hflights
          show Flights s (e.slots ++ [_]) e.phase
          rw [hrun]
          exact hflights.push horder hpick rfl rfl
        · -- the job that finds the channel full is released at once
          have hlast : (e.slots ++
              [(⟨⟨e.owners, t, t.candidate.header, reserve e.cfg t.candidate⟩, .queued⟩ : Slot)])[e.slots.length]? =
              some ⟨⟨e.owners, t, t.candidate.header, reserve e.cfg t.candidate⟩, .queued⟩ := by
            rw [List.getElem?_append_right le_rfl, Nat.sub_self]
            rfl
          have hreleased := hpushed.release hlast
          dsimp only at hreleased
          rw [List.eraseIdx_append_of_length_le le_rfl, Nat.sub_self, List.eraseIdx_cons_zero,
            List.append_nil] at hreleased
          refine ⟨hreleased.scheduler (s.defer t .queueFull) _ _, ?_⟩
          dsimp only
          rw [release_slots, release_phase]
          exact hdeferred .queueFull
    · exact ⟨h.budgeted.scheduler _ e.phase e.inflight, hdeferred (.unconfirmed p)⟩

theorem Inv.result (h : Inv e) (hrun : e.phase = .running) {j : Job} {err : Option Failure}
    (hi : e.slots[i]? = some ⟨j, .done err⟩) (work : Int) (now : Time) : Inv (e.result i j err work now) := by
  have hreleased := h.budgeted.release hi
  have hmem : j.task.key ∈ e.slots.map Slot.key := List.mem_map_of_mem (List.mem_of_getElem? hi)
  obtain ⟨t, hlookup, hflight⟩ := (h.flights.flying hrun j.task.key).2 hmem
  have hkey : t.key = j.task.key := e.s.keyed _ _ hlookup
  have hself : e.s.tasks.lookup t.key = some t := by rw [hkey, hlookup]
  have hfinished := h.flights.balanced.finish hself hflight work
  have hidle : ¬ (e.s.finish t work).Flying t.key := by
    rw [Scheduler.flying_finish]
    exact fun hboth => hboth.1 rfl
  -- a task that is finished is deleted, or rests until its next attempt
  have hrest : ∀ s', s'.Balanced → (∀ id, s'.Flying id ↔ id ≠ t.key ∧ e.s.Flying id) →
      Flights s' (e.slots.eraseIdx i) e.phase := by
    intro s' hbalanced hflying
    refine h.flights.erase hi hbalanced fun _ id => ?_
    show s'.Flying id ↔ id ≠ j.task.key ∧ e.s.Flying id
    rw [hflying, hkey]
  have hflights : Flights (settle (e.s.finish t work) t j.d now err) (e.slots.eraseIdx i) e.phase := by
    rcases err with _ | err
    · -- the stages kept the identity, so the task that is deleted is the one of the job
      have hnamed : identity j.d = t.key := by
        rw [hkey]
        exact h.flights.named _ (List.mem_of_getElem? hi) trivial
      unfold settle
      dsimp only
      rw [hnamed]
      refine hrest _ (hfinished.delete hidle) fun id => ?_
      rw [Scheduler.flying_delete, Scheduler.flying_finish]
      exact ⟨fun hboth => hboth.2, fun hboth => ⟨hboth.1, hboth⟩⟩
    · refine hrest _ (hfinished.put hidle rfl) fun id => ?_
      unfold settle
      dsimp only
      rw [Scheduler.flying_put, Scheduler.flying_finish]
      constructor
      · rintro (⟨-, hnot⟩ | ⟨-, hboth⟩)
        · cases hnot
        · exact hboth
      · exact fun hboth => .inr ⟨hboth.1, hboth⟩
  unfold Engine.result
  dsimp only
  rw [hlookup]
  dsimp only
  split
  · refine ⟨hreleased.scheduler _ .stopping _, ?_⟩
    dsimp only
    rw [release_slots]
    exact hflights.ended .stopping (by decide)
  · refine ⟨hreleased.scheduler _ _ _, ?_⟩
    dsimp only
    rw [release_slots, release_phase]
    exact hflights

theorem Inv.setSlot (h : Inv e) (hi : e.slots[i]? = some x) {j : Job} {stage : Stage}
    (howner : j.owner = x.job.owner) (hreserved : j.reserved = x.job.reserved) (htask : j.task = x.job.task)
    (hnamed : stage.Proven → identity j.d = j.task.key) : Inv (e.setSlot i j stage) := by
  refine ⟨h.budgeted.setSlot hi howner hreserved, h.flights.set hi ?_ hnamed⟩
  show j.task.key = x.job.task.key
  rw [htask]

theorem identity_of_sameHeader {d d' : Delivery} (h : d.SameHeader d') : identity d = identity d' := by
  unfold identity
  rw [h.1, h.2.1, h.2.2.1]

theorem Inv.forward (h : Inv e) (hi : e.slots[i]? = some x) {j : Job} {sent : Bool}
    (hstep : e.forward i j sent = some e') (howner : j.owner = x.job.owner)
    (hreserved : j.reserved = x.job.reserved) (htask : j.task = x.job.task)
    (hnamed : identity j.d = j.task.key) : Inv e' := by
  unfold Engine.forward at hstep
  split at hstep
  · split at hstep
    · rw [← Option.some.inj hstep]
      exact h.setSlot hi howner hreserved htask fun _ => hnamed
    · cases hstep
  · split at hstep
    · cases hstep
    · rw [← Option.some.inj hstep]
      exact h.setSlot hi howner hreserved htask fun _ => hnamed

theorem Inv.prepare (h : Inv e) {j : Job} {stage : Stage} (hi : e.slots[i]? = some ⟨j, stage⟩) {sent : Bool}
    {found : Preparation} (hstep : e.prepare i j sent found = some e') : Inv e' := by
  have hfails : ∀ d err, Inv (e.setSlot i { j with d := d } (.done (some err))) := fun d err =>
    h.setSlot hi rfl rfl rfl False.elim
  unfold Engine.prepare at hstep
  -- a call failed, the header is committed, a loaded delivery is, or one was prepared in memory
  rcases found with ⟨d, err⟩ | _ | d | ⟨d, actual⟩
  · rw [← Option.some.inj hstep]
    exact hfails d err
  · dsimp only at hstep
    exact h.forward hi hstep rfl rfl rfl rfl
  · dsimp only at hstep
    split at hstep
    · rw [← Option.some.inj hstep]
      exact hfails d .conflict
    · rename_i hsame
      exact h.forward hi hstep rfl rfl rfl (identity_of_sameHeader (not_not.1 hsame))
  · dsimp only at hstep
    split at hstep
    · rw [← Option.some.inj hstep]
      exact hfails d .conflict
    · rename_i hsame
      have hnamed : identity d = j.task.key := identity_of_sameHeader (not_not.1 hsame)
      split at hstep
      · rw [← Option.some.inj hstep]
        exact hfails d .other
      · split at hstep
        · rename_i hmore
          rcases hacquired : e.budget.TryAcquire (actual - j.reserved) with _ | b
          · rw [hacquired] at hstep
            rw [← Option.some.inj hstep]
            exact hfails d .budget
          · rw [hacquired] at hstep
            dsimp only at hstep
            obtain ⟨-, hroom, rfl⟩ := ByteBudget.tryAcquire_eq_some.1 hacquired
            have hpositive : 0 < j.reserved := h.budgeted.positive _ (List.mem_of_getElem? hi)
            -- the budget grows by what the job holds more
            have hmoved : ∀ stage', (stage'.Proven → identity d = j.task.key) →
                Inv (({ e with budget :=
                  { e.budget with used := e.budget.used + (actual - j.reserved) } }).setSlot i
                  { j with d := d, reserved := actual } stage') := by
              intro stage' hproven
              refine ⟨h.budgeted.move hi rfl ?_ rfl ?_ hroom, h.flights.set hi rfl hproven⟩
              · show 0 < actual
                omega
              · show e.budget.used + (actual - j.reserved) = e.budget.used - j.reserved + actual
                omega
            unfold Engine.forward at hstep
            split at hstep
            · split at hstep
              · rw [← Option.some.inj hstep]
                exact hmoved .ready fun _ => hnamed
              · cases hstep
            · split at hstep
              · cases hstep
              · rw [← Option.some.inj hstep]
                exact hmoved (.done (some .other)) False.elim
        · exact h.forward hi hstep rfl rfl rfl hnamed

/-- A step of the program: the map is visited in some order. -/
def Steps (e : Engine) (a : Act) (e' : Engine) : Prop :=
  e.panicked = false ∧ (∀ order now probed, a = .dispatch order now probed → order.Perm e.s.tasks.entries) ∧
    e.step a = some e'

theorem inv_step {a : Act} (hstep : Steps e a e') (h : Inv e) : Inv e' := by
  obtain ⟨-, horder, hstep⟩ := hstep
  cases a with
  | merge c isRedis now =>
      dsimp only [step] at hstep
      split at hstep
      · rw [← Option.some.inj hstep]
        exact h.merge c isRedis now
      · cases hstep
  | dispatch order now probed =>
      dsimp only [step] at hstep
      split at hstep
      · rename_i hguard
        rw [← Option.some.inj hstep]
        exact h.dispatch hguard.1 (horder order now probed rfl) now probed
      · cases hstep
  | take i =>
      dsimp only [step] at hstep
      split at hstep
      · rename_i j hi
        split at hstep
        · rw [← Option.some.inj hstep]
          exact h.setSlot hi rfl rfl rfl False.elim
        · cases hstep
      · cases hstep
  | prepare i found sent =>
      dsimp only [step] at hstep
      split at hstep
      · rename_i j hi
        split at hstep
        · exact h.prepare hi hstep
        · cases hstep
      · cases hstep
  | commit i =>
      dsimp only [step] at hstep
      split at hstep
      · rename_i j hi
        split at hstep
        · rw [← Option.some.inj hstep]
          exact h.setSlot hi rfl rfl rfl fun _ => h.flights.named _ (List.mem_of_getElem? hi) trivial
        · cases hstep
      · cases hstep
  | commits i err =>
      dsimp only [step] at hstep
      split at hstep
      · rename_i j hi
        split at hstep
        · rw [← Option.some.inj hstep]
          exact h.setSlot hi rfl rfl rfl fun _ => h.flights.named _ (List.mem_of_getElem? hi) trivial
        · cases hstep
      · cases hstep
  | result i work now =>
      dsimp only [step] at hstep
      split at hstep
      · rename_i j err hi
        split at hstep
        · rename_i hrun
          rw [← Option.some.inj hstep]
          exact h.result hrun hi work now
        · cases hstep
      · cases hstep
  | stop =>
      dsimp only [step] at hstep
      split at hstep
      · rw [← Option.some.inj hstep]
        exact h.stopped (by decide)
      · cases hstep
  | wait =>
      dsimp only [step] at hstep
      split at hstep
      · rw [← Option.some.inj hstep]
        exact h.stopped (by decide)
      · cases hstep
  | drain i =>
      dsimp only [step] at hstep
      split at hstep
      · rename_i j stage hi
        split at hstep
        · -- no result is taken back anymore, so the tasks in flight stay as they are
          rename_i hdraining
          rw [← Option.some.inj hstep]
          refine ⟨h.budgeted.release hi, ?_⟩
          rw [release_s, release_slots, release_phase]
          exact h.flights.erase hi h.flights.balanced fun hrun => by
            rw [hdraining] at hrun
            cases hrun
        · cases hstep
      · cases hstep

/-- In every run the groups reserve what their tasks in flight were estimated at, the budget has in
use what the live jobs hold, within its limit, no release underflows, and every job that was
dispatched is either live or gave its bytes back, once. The task that is picked is the oldest ready
one of its group and kind, in whatever order the map is visited. -/
theorem writer_accounting {cfg : Config} {as : List Act} (h : Run Steps (initial cfg) as e) :
    (∀ g, e.s.reserved g = Ledger.total (reservedFor g) e.s.tasks) ∧ e.budget.used = e.held ∧
      e.budget.limit = e.cfg.prepareBytes ∧ e.budget.used ≤ e.budget.limit ∧ e.panicked = false ∧
      (e.released ++ e.slots.map fun x => x.job.owner).Perm (List.range e.owners) ∧
      ∀ (now : Time) (order order' : List Entry), order.Perm e.s.tasks.entries →
        order'.Perm e.s.tasks.entries → e.s.pick order now = e.s.pick order' now ∧
          ∀ t s', e.s.pick order now = some (t, s') →
            ∃ (entry : Entry) (g k : Fin 2), e.s.Oldest now (g, k) (some entry) ∧ t = e.s.picked entry g := by
  have hinv : Inv e := h.invariant Inv (inv_initial cfg) fun _ _ _ hstep hinv => inv_step hstep hinv
  have hbudgeted := hinv.budgeted
  refine ⟨hinv.flights.balanced, hbudgeted.used, hbudgeted.limit, hbudgeted.within, hbudgeted.sound,
    hbudgeted.owners, ?_⟩
  intro now order order' horder horder'
  refine ⟨Scheduler.pick_order horder horder' now, ?_⟩
  intro t s' hpick
  obtain ⟨entry, g, k, holdest, ht, -⟩ := Scheduler.pick_cases horder hpick
  exact ⟨entry, g, k, holdest, ht⟩

/-- One worker and one preparer. -/
def smallConfig : Config := ⟨[100], 1, 1, 8 * 2 ^ 20, false, by norm_num⟩

/-- The engine that has seen one task. -/
def oneTaskSeen : Engine := (initial smallConfig).merge Scheduler.oldTask.candidate true ⟨0, 0⟩

theorem writer_accounting_oneTask : ∃ e : Engine,
    Run Steps (initial smallConfig) [.merge Scheduler.oldTask.candidate true ⟨0, 0⟩,
      .dispatch oneTaskSeen.s.tasks.entries ⟨0, 0⟩ none] e ∧ e.budget.used = e.held ∧ e.panicked = false := by
  have hmerge : Steps (initial smallConfig) (.merge Scheduler.oldTask.candidate true ⟨0, 0⟩) oneTaskSeen :=
    ⟨rfl, nofun, rfl⟩
  have hdispatch : Steps oneTaskSeen (.dispatch oneTaskSeen.s.tasks.entries ⟨0, 0⟩ none)
      (oneTaskSeen.dispatch oneTaskSeen.s.tasks.entries ⟨0, 0⟩ none) := by
    refine ⟨rfl, ?_, rfl⟩
    intro order now probed hact
    cases hact
    exact List.Perm.refl _
  have hrun := Run.cons hmerge (Run.cons hdispatch (Run.nil _))
  have haccounts := writer_accounting hrun
  exact ⟨_, hrun, haccounts.2.1, haccounts.2.2.2.2.1⟩

end Engine

end MarketInfo.Writer
