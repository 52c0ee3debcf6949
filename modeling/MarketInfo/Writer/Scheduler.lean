import MarketInfo.Lib.Leader
import MarketInfo.Lib.Ledger
import MarketInfo.Spool.Disk

/-! # The writer's scheduler

Which sealed minute the writer takes next. A task belongs to an age group and a kind; the
oldest ready task of each is a candidate, groups share the time 7 to 3, and the kinds of a
group take turns. A picked task reserves its estimated time until it is finished. Costs and
times are exact rationals here, nanoseconds as in the source.
-/

namespace MarketInfo.Writer

open Spool (Candidate Delivery)

abbrev Identity := List UInt8

/-- `Identity`. -/
def identity (d : Delivery) : Identity := d.database ++ 0 :: d.kind ++ 0 :: d.id

structure Task where
  candidate : Candidate
  redis : Bool
  disk : Bool
  inflight : Bool
  retryAt : Time
  failures : Nat
  blocked : Bool
  seen : Time
  group : Fin 2
  estimate : Int

def Task.key (t : Task) : Identity := identity t.candidate.header

/-- An entry of `s.tasks`. -/
abbrev Entry := Sigma fun _ : Identity => Task

structure Scheduler where
  tasks : AList fun _ : Identity => Task
  spent : Fin 2 → ℚ
  reserved : Fin 2 → ℚ
  worked : Fin 2 → ℚ
  nextKind : Fin 2 → Fin 2
  costPerMember : List UInt8 → Option ℚ
  costPerByte : List UInt8 → Option ℚ
  /-- A task is filed under its identity. -/
  keyed : ∀ id t, tasks.lookup id = some t → t.key = id

/-- `newScheduler`. -/
def newScheduler : Scheduler where
  tasks := ∅
  spent := fun _ => 0
  reserved := fun _ => 0
  worked := fun _ => 0
  nextKind := fun _ => 0
  costPerMember := fun _ => none
  costPerByte := fun _ => none
  keyed := by
    intro id t h
    rw [AList.lookup_empty] at h
    cases h

namespace Scheduler

/-- What is written through a `*task` of the map. -/
def put (s : Scheduler) (t : Task) : Scheduler where
  tasks := s.tasks.insert t.key t
  spent := s.spent
  reserved := s.reserved
  worked := s.worked
  nextKind := s.nextKind
  costPerMember := s.costPerMember
  costPerByte := s.costPerByte
  keyed := by
    intro id u hu
    by_cases hid : id = t.key
    · subst hid
      rw [AList.lookup_insert] at hu
      rw [← Option.some.inj hu]
    · rw [AList.lookup_insert_ne hid] at hu
      exact s.keyed id u hu

/-- `delete(s.tasks, id)`. -/
def delete (s : Scheduler) (id : Identity) : Scheduler where
  tasks := s.tasks.erase id
  spent := s.spent
  reserved := s.reserved
  worked := s.worked
  nextKind := s.nextKind
  costPerMember := s.costPerMember
  costPerByte := s.costPerByte
  keyed := by
    intro id' u hu
    by_cases hid : id' = id
    · subst hid
      rw [AList.lookup_erase] at hu
      cases hu
    · rw [AList.lookup_erase_ne hid] at hu
      exact s.keyed id' u hu

end Scheduler

/-! ## Picking -/

def groupOf (t : Task) (now : Time) : Fin 2 :=
  if t.candidate.header.minute.Before ((now.utc.truncate Time.minute).add (-2 * Time.minute)) then 1 else 0

/-- `cex`. -/
def cexKind : List UInt8 := [99, 101, 120]

def kindOf (t : Task) : Fin 2 := if t.candidate.header.kind ≠ cexKind then 1 else 0

/-- `time.Duration(f)`. -/
def duration (f : ℚ) : Int := f.num.tdiv f.den

namespace Scheduler

def estimate (s : Scheduler) (t : Task) : Int :=
  let d := t.candidate.header
  let member := (s.costPerMember d.kind).getD Time.millisecond
  let bytes := (s.costPerByte d.kind).getD (Time.second / (10 * 2 ^ 20 : ℚ))
  max Time.millisecond (duration (member * d.members.toNat + bytes * t.candidate.bytes))

end Scheduler

@[reducible] def Skipped (t : Task) (now : Time) : Prop :=
  t.inflight = true ∨ t.blocked = true ∨ now.Before t.retryAt ∨ (t.redis = false ∧ t.disk = false)

/-- The age group and the kind of a ready task. -/
def classOf (now : Time) (e : Entry) : Option (Fin 2 × Fin 2) :=
  if Skipped e.2 now then none else some (groupOf e.2 now, kindOf e.2)

/-- An earlier minute, and the lesser identity within one. -/
@[reducible] def Older (a b : Entry) : Prop :=
  a.2.candidate.header.minute.Before b.2.candidate.header.minute ∨
    (a.2.candidate.header.minute.Equal b.2.candidate.header.minute ∧ a.2.key < b.2.key)

/-- What `pick` finds in each age group and kind, visiting the tasks in some order. -/
def best (now : Time) (order : List Entry) : Fin 2 × Fin 2 → Option Entry :=
  Leader.leaders (classOf now) Older order

def share (g : Fin 2) : ℚ := if g = 0 then 7 / 10 else 3 / 10

namespace Scheduler

/-- What a group has used of its share. -/
def used (s : Scheduler) (g : Fin 2) : ℚ := (s.spent g + s.reserved g) / share g

/-- The other group borrows: it is put level with the one that is served. -/
def borrow (s : Scheduler) (g : Fin 2) : Fin 2 → ℚ :=
  Function.update s.spent (1 - g) (s.used g * share (1 - g) - s.reserved (1 - g))

def pick (s : Scheduler) (order : List Entry) (now : Time) : Option (Task × Scheduler) :=
  let best := best now order
  let has := fun g : Fin 2 => (best (g, 0)).isSome || (best (g, 1)).isSome
  if !has 0 && !has 1 then none
  else
    -- of two groups with ready tasks the one that is behind in its share goes
    let g : Fin 2 := if !has 0 then 1 else if has 1 && decide (s.used 1 < s.used 0) then 1 else 0
    -- `borrow idle capacity without accumulating an unlimited future debt`
    let spent := if !has (1 - g) then s.borrow g else s.spent
    -- the kinds take turns where both are ready
    let k := if (best (g, s.nextKind g)).isNone then 1 - s.nextKind g else s.nextKind g
    match best (g, k) with
    | none => none
    | some e =>
        let t := { e.2 with group := g, estimate := s.estimate e.2, inflight := true }
        some (t, { s.put t with
          spent := spent
          nextKind := Function.update s.nextKind g (1 - k)
          reserved := Function.update s.reserved g (s.reserved g + t.estimate) })

/-- The average keeps four fifths of what it was. -/
def learn (costs : List UInt8 → Option ℚ) (kind : List UInt8) (v : ℚ) : List UInt8 → Option ℚ :=
  let old := (costs kind).getD 0
  let old := if old = 0 then v else old
  Function.update costs kind (some (8 / 10 * old + 2 / 10 * v))

def finish (s : Scheduler) (t : Task) (elapsed : Int) : Scheduler :=
  let d := t.candidate.header
  let members := d.members.toNat
  let bytes := t.candidate.bytes
  { s.put { t with inflight := false } with
    reserved := Function.update s.reserved t.group (s.reserved t.group - t.estimate)
    spent := Function.update s.spent t.group (s.spent t.group + elapsed)
    worked := Function.update s.worked t.group (s.worked t.group + elapsed)
    costPerMember := if 0 < members then learn s.costPerMember d.kind (elapsed / 2 / members)
      else s.costPerMember
    costPerByte := if 0 < bytes then learn s.costPerByte d.kind (elapsed / 2 / bytes) else s.costPerByte }

/-! ## What a step changes -/

variable {s s' : Scheduler} {t : Task} {order : List Entry} {now : Time}

@[simp] theorem put_tasks (s : Scheduler) (t : Task) : (s.put t).tasks = s.tasks.insert t.key t := rfl
@[simp] theorem put_spent (s : Scheduler) (t : Task) : (s.put t).spent = s.spent := rfl
@[simp] theorem put_reserved (s : Scheduler) (t : Task) : (s.put t).reserved = s.reserved := rfl
@[simp] theorem put_worked (s : Scheduler) (t : Task) : (s.put t).worked = s.worked := rfl
@[simp] theorem delete_tasks (s : Scheduler) (id : Identity) : (s.delete id).tasks = s.tasks.erase id := rfl
@[simp] theorem delete_reserved (s : Scheduler) (id : Identity) : (s.delete id).reserved = s.reserved := rfl

end Scheduler

theorem older_trans (a b c : Entry) (hab : Older a b) (hbc : Older b c) : Older a c := by
  rcases hab with hab | ⟨hab, hkey⟩
  · rcases hbc with hbc | ⟨hbc, -⟩
    · exact .inl (lt_trans hab hbc)
    · exact .inl (lt_of_lt_of_eq hab hbc)
  · rcases hbc with hbc | ⟨hbc, hkey'⟩
    · exact .inl (lt_of_eq_of_lt hab hbc)
    · exact .inr ⟨hab.trans hbc, List.lt_trans hkey hkey'⟩

theorem older_asymm (a b : Entry) (hab : Older a b) : ¬ Older b a := by
  rintro (hba | ⟨hba, hkey'⟩)
  · rcases hab with hab | ⟨hab, -⟩
    · exact absurd hba (lt_asymm hab)
    · exact absurd hab hba.ne'
  · rcases hab with hab | ⟨-, hkey⟩
    · exact absurd hba hab.ne'
    · exact List.lt_asymm hkey hkey'

namespace Scheduler

variable {s s' : Scheduler} {t : Task} {order : List Entry} {now : Time}

theorem mem_entries {e : Entry} : e ∈ s.tasks.entries ↔ s.tasks.lookup e.1 = some e.2 := by
  obtain ⟨id, t⟩ := e
  exact AList.mem_lookup_iff.symm

/-- Two tasks of one identity are one task. -/
theorem older_total (a : Entry) (ha : a ∈ s.tasks.entries) (b : Entry) (hb : b ∈ s.tasks.entries) :
    a = b ∨ Older a b ∨ Older b a := by
  rw [mem_entries] at ha hb
  rcases lt_trichotomy a.2.candidate.header.minute.unixNano b.2.candidate.header.minute.unixNano with
    hlt | heq | hgt
  · exact .inr (.inl (.inl hlt))
  · rcases Std.lt_trichotomy a.2.key b.2.key with hkey | hkey | hkey
    · exact .inr (.inl (.inr ⟨heq, hkey⟩))
    · have hid : a.1 = b.1 := by rw [← s.keyed _ _ ha, ← s.keyed _ _ hb, hkey]
      obtain ⟨id, t⟩ := a
      obtain ⟨id', t'⟩ := b
      obtain rfl : id = id' := hid
      rw [ha] at hb
      obtain rfl : t = t' := Option.some.inj hb
      exact .inl rfl
    · exact .inr (.inr (.inr ⟨heq.symm, hkey⟩))
  · exact .inr (.inr (.inl hgt))

/-- The candidate of a class, by the tasks alone. -/
@[reducible] def Oldest (s : Scheduler) (now : Time) (c : Fin 2 × Fin 2) (o : Option Entry) : Prop :=
  Leader.Leads (classOf now) Older s.tasks.entries c o

/-- Whatever the order in which the map is visited, the oldest ready task of a class is found. -/
theorem best_oldest (now : Time) (horder : order.Perm s.tasks.entries) (c : Fin 2 × Fin 2) :
    s.Oldest now c (best now order c) := by
  have hmem : ∀ e, e ∈ order ↔ e ∈ s.tasks.entries := fun e => horder.mem_iff
  have hleads : Leader.Leads (classOf now) Older order c (best now order c) :=
    Leader.leads_leaders older_trans
      (fun a ha b hb => older_total a ((hmem a).1 ha) b ((hmem b).1 hb)) c
  rcases hbest : best now order c with _ | e
  · rw [hbest] at hleads
    exact fun a ha => hleads a ((hmem a).2 ha)
  · rw [hbest] at hleads
    exact ⟨(hmem e).1 hleads.1, hleads.2.1, fun b hb => hleads.2.2 b ((hmem b).2 hb)⟩

theorem Oldest.unique {c : Fin 2 × Fin 2} {o o' : Option Entry} (h : s.Oldest now c o)
    (h' : s.Oldest now c o') : o = o' :=
  Leader.Leads.unique older_asymm h h' fun _ _ => Iff.rfl

/-- A ready task is there for a group. -/
def Has (s : Scheduler) (now : Time) (g : Fin 2) : Prop :=
  ∃ e ∈ s.tasks.entries, ∃ k, classOf now e = some (g, k)

/-- The task that a pick returns. -/
def picked (s : Scheduler) (e : Entry) (g : Fin 2) : Task :=
  { e.2 with group := g, estimate := s.estimate e.2, inflight := true }

theorem has_iff (now : Time) (horder : order.Perm s.tasks.entries) (g : Fin 2) :
    ((best now order (g, 0)).isSome || (best now order (g, 1)).isSome) = true ↔ s.Has now g := by
  have hkind : ∀ k, (best now order (g, k)).isSome = true ↔
      ∃ e ∈ s.tasks.entries, classOf now e = some (g, k) := by
    intro k
    have hleads := best_oldest now horder (g, k)
    rcases hbest : best now order (g, k) with _ | e
    · rw [hbest] at hleads
      simp only [Option.isSome_none, Bool.false_eq_true, false_iff, not_exists, not_and]
      exact hleads
    · rw [hbest] at hleads
      exact ⟨fun _ => ⟨e, hleads.1, hleads.2.1⟩, fun _ => rfl⟩
  rw [Bool.or_eq_true, hkind, hkind]
  constructor
  · rintro (⟨e, he, hc⟩ | ⟨e, he, hc⟩)
    · exact ⟨e, he, 0, hc⟩
    · exact ⟨e, he, 1, hc⟩
  · rintro ⟨e, he, k, hc⟩
    rcases Fin.exists_fin_two.1 ⟨k, rfl⟩ with rfl | rfl
    · exact .inl ⟨e, he, hc⟩
    · exact .inr ⟨e, he, hc⟩

/-- Where a task is ready, one is picked. -/
theorem pick_isSome (horder : order.Perm s.tasks.entries) {g : Fin 2} (h : s.Has now g) :
    ∃ t s', s.pick order now = some (t, s') := by
  have hready := (has_iff now horder g).2 h
  unfold pick
  dsimp only
  split
  · rename_i hnone
    rw [Bool.and_eq_true, Bool.not_eq_true', Bool.not_eq_true'] at hnone
    rcases Fin.exists_fin_two.1 ⟨g, rfl⟩ with rfl | rfl
    · rw [hnone.1] at hready
      cases hready
    · rw [hnone.2] at hready
      cases hready
  · rename_i hsome
    -- the group that is served has a ready task
    generalize hg : (if (!((best now order (0, 0)).isSome || (best now order (0, 1)).isSome)) = true
      then (1 : Fin 2)
      else if (((best now order (1, 0)).isSome || (best now order (1, 1)).isSome) &&
        decide (s.used 1 < s.used 0)) = true then 1 else 0) = served
    have hserved : ((best now order (served, 0)).isSome || (best now order (served, 1)).isSome) = true := by
      rw [Bool.and_eq_true, Bool.not_eq_true', Bool.not_eq_true', not_and, Bool.not_eq_false] at hsome
      split at hg
      · rename_i hold
        rw [← hg]
        exact hsome (by simpa using hold)
      · rename_i hrecent
        split at hg
        · rename_i hboth
          rw [← hg]
          exact (Bool.and_eq_true _ _ ▸ hboth).1
        · rw [← hg]
          rwa [Bool.not_eq_true', Bool.not_eq_false] at hrecent
    -- and so has the kind whose turn it is, or else the other one
    generalize hk : (if (best now order (served, s.nextKind served)).isNone = true then 1 - s.nextKind served
      else s.nextKind served) = k
    have hkind : (best now order (served, k)).isSome = true := by
      rw [Bool.or_eq_true] at hserved
      rcases Fin.exists_fin_two.1 ⟨s.nextKind served, rfl⟩ with hnext | hnext
      · rw [hnext] at hk
        split at hk
        · rename_i hempty
          rw [← hk]
          exact hserved.resolve_left (by simpa using hempty)
        · rename_i hfull
          rw [← hk]
          simpa [Option.isSome_iff_ne_none] using hfull
      · rw [hnext] at hk
        split at hk
        · rename_i hempty
          rw [← hk]
          exact hserved.resolve_right (by simpa using hempty)
        · rename_i hfull
          rw [← hk]
          simpa [Option.isSome_iff_ne_none] using hfull
    rcases hbest : best now order (served, k) with _ | e
    · rw [hbest] at hkind
      cases hkind
    · exact ⟨_, _, rfl⟩

/-- All that a pick does: the oldest ready task of some class is taken, its estimate is
reserved, and a group without ready tasks is put level. -/
theorem pick_cases (horder : order.Perm s.tasks.entries) (h : s.pick order now = some (t, s')) :
    ∃ (e : Entry) (g k : Fin 2), s.Oldest now (g, k) (some e) ∧ t = s.picked e g ∧
      s'.tasks = s.tasks.insert t.key t ∧
      s'.reserved = Function.update s.reserved g (s.reserved g + t.estimate) ∧ s'.worked = s.worked ∧
      s'.costPerMember = s.costPerMember ∧ s'.costPerByte = s.costPerByte ∧
      ((s.Has now (1 - g) ∧ s'.spent = s.spent) ∨ (¬ s.Has now (1 - g) ∧ s'.spent = s.borrow g)) := by
  unfold pick at h
  dsimp only at h
  split at h
  · cases h
  · generalize hg : (if (!((best now order (0, 0)).isSome || (best now order (0, 1)).isSome)) = true
      then (1 : Fin 2)
      else if (((best now order (1, 0)).isSome || (best now order (1, 1)).isSome) &&
        decide (s.used 1 < s.used 0)) = true then 1 else 0) = g at h
    generalize hk : (if (best now order (g, s.nextKind g)).isNone = true then 1 - s.nextKind g
      else s.nextKind g) = k at h
    rcases hbest : best now order (g, k) with _ | e
    · rw [hbest] at h
      cases h
    · rw [hbest] at h
      obtain ⟨rfl, rfl⟩ := Prod.mk.inj (Option.some.inj h)
      have holdest := best_oldest now horder (g, k)
      rw [hbest] at holdest
      refine ⟨e, g, k, holdest, rfl, rfl, rfl, rfl, rfl, rfl, ?_⟩
      have hhas := has_iff now horder (1 - g)
      by_cases hother : ((best now order (1 - g, 0)).isSome || (best now order (1 - g, 1)).isSome) = true
      · refine .inl ⟨hhas.1 hother, ?_⟩
        simp only [hother, Bool.not_true, Bool.false_eq_true, if_false]
      · refine .inr ⟨fun hyes => hother (hhas.2 hyes), ?_⟩
        rw [Bool.not_eq_true] at hother
        simp only [hother, Bool.not_false, if_true]

/-- The order in which the map is visited decides nothing. -/
theorem pick_order {order' : List Entry} (horder : order.Perm s.tasks.entries)
    (horder' : order'.Perm s.tasks.entries) (now : Time) : s.pick order now = s.pick order' now := by
  have hbest : best now order = best now order' :=
    funext fun c => (best_oldest now horder c).unique (best_oldest now horder' c)
  unfold pick
  rw [hbest]

end Scheduler

end MarketInfo.Writer
