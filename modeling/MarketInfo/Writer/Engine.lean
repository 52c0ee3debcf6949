import MarketInfo.Writer.Deferral

/-! # The writer's engine

The loop that picks tasks, the preparers and workers that carry their jobs through two
bounded channels, and the results they send back. Every job holds bytes of one budget from
its dispatch until it is released. A step takes the answers of the stores as arguments; which
job of a channel is received first is left open.
-/

namespace MarketInfo.Writer

open Spool (Candidate Delivery)

/-! ## The byte budget -/

structure ByteBudget where
  limit : Int
  used : Int
deriving DecidableEq, Repr

namespace ByteBudget

def TryAcquire (b : ByteBudget) (n : Int) : Option ByteBudget :=
  if n < 0 ∨ b.limit < b.used + n then none else some { b with used := b.used + n }

/-- The program panics where a release gives back more than is in use. -/
def Release (b : ByteBudget) (n : Int) : Option ByteBudget :=
  if n < 0 ∨ b.used < n then none else some { b with used := b.used - n }

theorem tryAcquire_eq_some {b b' : ByteBudget} {n : Int} :
    b.TryAcquire n = some b' ↔ 0 ≤ n ∧ b.used + n ≤ b.limit ∧ b' = { b with used := b.used + n } := by
  unfold TryAcquire
  split
  · rename_i hrefused
    refine ⟨(by rintro ⟨⟩), ?_⟩
    rintro ⟨hn, hroom, -⟩
    omega
  · rename_i hroom
    constructor
    · intro h
      exact ⟨by omega, by omega, (Option.some.inj h).symm⟩
    · rintro ⟨-, -, rfl⟩
      rfl

theorem release_eq {b : ByteBudget} {n : Int} (hn : 0 ≤ n) (hused : n ≤ b.used) :
    b.Release n = some { b with used := b.used - n } := by
  unfold Release
  rw [if_neg (by omega)]

end ByteBudget

/-! ## Jobs -/

/-- The errors that the loop tells apart. -/
inductive Failure
  | leased
  | budget
  | conflict
  | fenced
  | other
deriving DecidableEq, Repr

/-- Where a job is. -/
inductive Stage
  /-- In `prepareJobs`. -/
  | queued
  | preparing
  /-- In `commitJobs`. -/
  | ready
  | committing
  /-- In `results`. -/
  | done (err : Option Failure)
deriving DecidableEq, Repr

structure Job where
  owner : Nat
  task : Task
  d : Delivery
  reserved : Int

structure Slot where
  job : Job
  stage : Stage

def Slot.key (x : Slot) : Identity := x.job.task.key

/-- What a preparer finds. -/
inductive Preparation
  /-- A call failed, with the delivery that was loaded or the header. -/
  | failed (d : Delivery) (err : Failure)
  /-- The header is committed already. -/
  | proven
  /-- A loaded delivery that is committed already. -/
  | loaded (d : Delivery)
  /-- A loaded delivery, prepared in some bytes of memory. -/
  | sized (d : Delivery) (actual : Int)

structure Config where
  database : List UInt8
  workers : Nat
  preparers : Nat
  prepareBytes : Int
  once : Bool
  bounded : 1 ≤ workers ∧ workers ≤ 2 ∧ 1 ≤ preparers ∧ preparers ≤ 2 ∧ 8 * 2 ^ 20 ≤ prepareBytes

/-- The loop runs, it returned and the others finish, all have finished. -/
inductive Phase
  | running
  | stopping
  | draining
deriving DecidableEq, Repr

structure Engine where
  cfg : Config
  s : Scheduler
  budget : ByteBudget
  slots : List Slot
  inflight : Int
  phase : Phase
  /-- How many jobs there were. -/
  owners : Nat
  /-- The jobs whose bytes were given back, one entry for each time. -/
  released : List Nat
  panicked : Bool

namespace Engine

def initial (cfg : Config) : Engine where
  cfg := cfg
  s := newScheduler
  budget := ⟨cfg.prepareBytes, 0⟩
  slots := []
  inflight := 0
  phase := .running
  owners := 0
  released := []
  panicked := false

/-- `release`, as far as the budget goes. -/
def release (e : Engine) (j : Job) : Engine :=
  if 0 < j.reserved then
    match e.budget.Release j.reserved with
    | none => { e with panicked := true }
    | some b => { e with budget := b, released := e.released ++ [j.owner] }
  else e

def inStage (e : Engine) (stage : Stage) : Nat := e.slots.countP fun x => x.stage = stage

/-! ## The loop -/

/-- A new task of `merge`. -/
def newTask (c : Candidate) (now : Time) : Task where
  candidate := c
  redis := false
  disk := false
  inflight := false
  retryAt := Time.zero
  failures := 0
  blocked := false
  seen := now
  group := ⟨0, Nat.zero_lt_two⟩
  estimate := 0

/-- The end of `merge`. -/
def seenIn (t : Task) (c : Candidate) (isRedis : Bool) : Task :=
  { t with
    candidate := { t.candidate with bytes := if t.candidate.bytes < c.bytes then c.bytes else t.candidate.bytes }
    redis := t.redis || isRedis
    disk := t.disk || !isRedis }

def merge (e : Engine) (c : Candidate) (isRedis : Bool) (now : Time) : Engine :=
  if c.header.database ≠ e.cfg.database then { e with phase := .stopping }
  else
    match e.s.tasks.lookup (identity c.header) with
    | none =>
        if 40000 ≤ e.s.tasks.keys.length then { e with phase := .stopping }
        else { e with s := e.s.put (seenIn (newTask c now) c isRedis) }
    | some t =>
        if ¬ t.candidate.header.SameHeader c.header then { e with s := e.s.put { t with blocked := true } }
        else { e with s := e.s.put (seenIn t c isRedis) }

/-- The bytes that a task is dispatched with. -/
def reserve (cfg : Config) (c : Candidate) : Int :=
  min (max (2 * 2 ^ 20) (c.bytes * 8 + c.header.members.toNat * (128 * 2 ^ 10))) cfg.prepareBytes

/-- The end of a tick, from `pick` on. -/
def dispatch (e : Engine) (order : List Entry) (now : Time) (probed : Option Time) : Engine :=
  match e.s.pick order now with
  | none => e
  | some (t, s) =>
      match probed with
      | some p => { e with s := s.defer t (.unconfirmed p) }
      | none =>
          match e.budget.TryAcquire (reserve e.cfg t.candidate) with
          | none => { e with s := s.defer t .budgetBusy }
          | some b =>
              let j : Job := ⟨e.owners, t, t.candidate.header, reserve e.cfg t.candidate⟩
              let e := { e with budget := b, owners := e.owners + 1 }
              if e.inStage .queued < e.cfg.preparers then
                { e with s := s, slots := e.slots ++ [⟨j, .queued⟩], inflight := e.inflight + 1 }
              else { e.release j with s := s.defer t .queueFull }

/-- The pause before the next attempt. -/
def delay (failures : Nat) (err : Failure) : Int :=
  if err = .leased then Time.second else min (Time.second * 2 ^ min (failures - 1) 6) Time.minute

/-- The task after a failed attempt. -/
def failed (t : Task) (err : Failure) (now : Time) : Task :=
  { t with
    inflight := false
    failures := t.failures + 1
    retryAt := now.add (delay (t.failures + 1) err)
    blocked := t.blocked || err = .conflict || err = .fenced }

/-- A committed task is deleted, another one is kept for its next attempt. -/
def settle (s : Scheduler) (t : Task) (d : Delivery) (now : Time) : Option Failure → Scheduler
  | none => s.delete (identity d)
  | some err => s.put (failed t err now)

/-- What the loop makes of a result, after some work. -/
def result (e : Engine) (i : Nat) (j : Job) (err : Option Failure) (work : Int) (now : Time) : Engine :=
  let e := { e with slots := e.slots.eraseIdx i }
  match e.s.tasks.lookup j.task.key with
  | none => { e.release j with phase := .stopping }
  | some t =>
      let s := settle (e.s.finish t work) t j.d now err
      let e := { e.release j with s := s, inflight := e.inflight - 1 }
      if e.cfg.once then { e with phase := .stopping } else e

/-! ## The preparers and the workers -/

def setSlot (e : Engine) (i : Nat) (j : Job) (stage : Stage) : Engine :=
  { e with slots := e.slots.set i ⟨j, stage⟩ }

/-- The send of a prepared job, or the end of the run instead. -/
def forward (e : Engine) (i : Nat) (j : Job) (sent : Bool) : Option Engine :=
  if sent then
    if e.inStage .ready < e.cfg.workers then some (e.setSlot i j .ready) else none
  else if e.phase = .running then none
  else some (e.setSlot i j (.done (some .other)))

def prepare (e : Engine) (i : Nat) (j : Job) (sent : Bool) : Preparation → Option Engine
  | .failed d err => some (e.setSlot i { j with d := d } (.done (some err)))
  | .proven => e.forward i { j with d := j.task.candidate.header } sent
  | .loaded d =>
      if ¬ d.SameHeader j.task.candidate.header then
        some (e.setSlot i { j with d := d } (.done (some .conflict)))
      else e.forward i { j with d := d } sent
  | .sized d actual =>
      if ¬ d.SameHeader j.task.candidate.header then
        some (e.setSlot i { j with d := d } (.done (some .conflict)))
      else if e.cfg.prepareBytes < actual then some (e.setSlot i { j with d := d } (.done (some .other)))
      else if j.reserved < actual then
        match e.budget.TryAcquire (actual - j.reserved) with
        | none => some (e.setSlot i { j with d := d } (.done (some .budget)))
        | some b => { e with budget := b }.forward i { j with d := d, reserved := actual } sent
      else e.forward i { j with d := d } sent

inductive Act
  | merge (c : Candidate) (isRedis : Bool) (now : Time)
  | dispatch (order : List Entry) (now : Time) (probed : Option Time)
  /-- A preparer receives a job. -/
  | take (i : Nat)
  | prepare (i : Nat) (found : Preparation) (sent : Bool)
  /-- A worker receives a job. -/
  | commit (i : Nat)
  | commits (i : Nat) (err : Option Failure)
  | result (i : Nat) (work : Int) (now : Time)
  /-- The context ends, or a call of the loop fails. -/
  | stop
  /-- `workers.Wait` returns. -/
  | wait
  /-- A job is released at the end. -/
  | drain (i : Nat)

/-- One step: `none` where it is not possible. -/
def step (e : Engine) : Act → Option Engine
  | .merge c isRedis now => if e.phase = .running then some (e.merge c isRedis now) else none
  | .dispatch order now probed =>
      if e.phase = .running ∧ e.inflight < e.cfg.preparers + e.cfg.workers ∧
          ¬ (e.cfg.once = true ∧ 0 < e.inflight) then some (e.dispatch order now probed) else none
  | .take i =>
      match e.slots[i]? with
      | some ⟨j, .queued⟩ =>
          if e.phase ≠ .draining ∧ e.inStage .preparing < e.cfg.preparers then some (e.setSlot i j .preparing)
          else none
      | _ => none
  | .prepare i found sent =>
      match e.slots[i]? with
      | some ⟨j, .preparing⟩ => if e.phase ≠ .draining then e.prepare i j sent found else none
      | _ => none
  | .commit i =>
      match e.slots[i]? with
      | some ⟨j, .ready⟩ =>
          if e.phase ≠ .draining ∧ e.inStage .committing < e.cfg.workers then some (e.setSlot i j .committing)
          else none
      | _ => none
  | .commits i err =>
      match e.slots[i]? with
      | some ⟨j, .committing⟩ => if e.phase ≠ .draining then some (e.setSlot i j (.done err)) else none
      | _ => none
  | .result i work now =>
      match e.slots[i]? with
      | some ⟨j, .done err⟩ => if e.phase = .running then some (e.result i j err work now) else none
      | _ => none
  | .stop => if e.phase = .running then some { e with phase := .stopping } else none
  | .wait =>
      if e.phase = .stopping ∧ e.inStage .preparing = 0 ∧ e.inStage .committing = 0 then
        some { e with phase := .draining }
      else none
  | .drain i =>
      match e.slots[i]? with
      | some ⟨j, _⟩ =>
          if e.phase = .draining then some ({ e with slots := e.slots.eraseIdx i }.release j) else none
      | _ => none

end Engine

end MarketInfo.Writer
