import MarketInfo.Lib.BinaryHeap
import MarketInfo.Lib.Transition

/-! # The confirmation worker

Goroutines schedule settlement targets, and one worker asks for the actual rate of each,
again after growing delays until it is found. What other goroutines do between two
locked sections or channel operations is left to the order of the steps. Times are
nanoseconds.
-/

namespace MarketInfo.Confirmation

def millisecond : Int := 1000000

def hour : Int := 3600000000000

/-- The zero `time.Time`. -/
def zeroTime : Int := -62135596800000000000

inductive MarketType where
  | spot
  | perpetual
  | delivery
  | option
  | optionCombo
deriving DecidableEq

structure Instrument where
  ID : UInt32
  marketType : MarketType
deriving DecidableEq

structure Key where
  instrumentID : UInt32
  fundingMS : Int
deriving DecidableEq

/-- A task, with the number of its activation. -/
structure Task where
  instrument : Instrument
  target : Int
  attempt : Nat
  due : Int
  activation : Nat
deriving DecidableEq

instance : Inhabited Task := ⟨⟨⟨0, .spot⟩, 0, 0, 0, 0⟩⟩

def Task.key (t : Task) : Key := ⟨t.instrument.ID, t.target / millisecond⟩

/-- `Less`. -/
def earlier (a b : Task) : Bool := decide (a.due < b.due)

/-- The settings as `defaults` leaves and accepts them. -/
structure Config where
  minInterval : Int
  retryDelays : List Int
  capacity : Nat
  minInterval_pos : 0 < minInterval
  capacity_pos : 0 < capacity
  retryDelays_ne : retryDelays ≠ []
  retryDelays_nonneg : ∀ d ∈ retryDelays, 0 ≤ d
  retryDelays_increasing : retryDelays.Pairwise (· < ·)

/-- The turns of `initialConfirmationAttempt` from delay `index` on. -/
def initialFrom (target now : Int) : List Int → Nat → Nat × Int → Nat × Int
  | [], _, found => found
  | delay :: delays, index, found =>
      if target + delay > now then found else initialFrom target now delays (index + 1) (index, now)

def initialConfirmationAttempt (target now : Int) (delays : List Int) : Nat × Int :=
  initialFrom target now delays 0 (0, target + delays.headD 0)

/-- Where `Run` is: in its select, with a task that has left the queue, asking for its rate, or
over. -/
inductive Phase where
  | select
  | popped (t : Task)
  | asking (t : Task)
  | over
deriving DecidableEq

/-- A request for the rate of a task. -/
structure Request where
  task : Task
  At : Int
deriving DecidableEq

structure System where
  clock : Int
  known : Key → Option Int
  senders : List Task
  channel : List Task
  phase : Phase
  queue : Array Task
  active : Key → Bool
  finished : Key → Option Int
  lastRequest : Option Int
  activations : Nat
  requests : List Request
  succeeded : List (Key × Int)

inductive Act where
  | wait (d : Nat)
  | schedule (i : Instrument) (fundingTime : Int)
  | send (n : Nat)
  | giveUp (n : Nat)
  | receive
  | fire
  | request
  | answer (found failed : Bool)
  | cancel

/-- `Schedule`, up to its send. -/
def System.schedule (s : System) (i : Instrument) (fundingTime : Int) : System :=
  let task : Task := ⟨i, fundingTime, 0, 0, 0⟩
  if i.ID = 0 ∨ i.marketType ≠ .perpetual then s
  else if fundingTime = zeroTime ∨ fundingTime % millisecond ≠ 0 then s
  else if (s.known task.key).isSome then s
  else
    let known : Key → Option Int := fun k =>
      match s.known k with
      | some previous => if previous < task.target - 48 * hour then none else some previous
      | none => none
    { s with
      known := fun k => if k = task.key then some task.target else known k
      senders := s.senders ++ [task] }

def pruneFinished (finished : Key → Option Int) (now : Int) : Key → Option Int := fun k =>
  match finished k with
  | some completedAt => if completedAt < now - 48 * hour then none else some completedAt
  | none => none

/-- A scheduled task comes to the worker. -/
def System.activate (cfg : Config) (s : System) (incoming : Task) : System :=
  if s.active incoming.key then s
  else if (s.finished incoming.key).isSome then s
  else
    let first := initialConfirmationAttempt incoming.target s.clock cfg.retryDelays
    let task : Task := { incoming with attempt := first.1, due := first.2, activation := s.activations }
    { s with
      activations := s.activations + 1
      active := fun k => if k = task.key then true else s.active k
      queue := BinaryHeap.push earlier s.queue task
      finished := pruneFinished s.finished s.clock }

/-- The target is done with. -/
def System.finish (s : System) (k : Key) : System :=
  { s with
    active := fun k' => if k' = k then false else s.active k'
    finished := fun k' => if k' = k then some s.clock else s.finished k'
    phase := .select }

/-- After the answer to a request. -/
def System.settle (cfg : Config) (s : System) (task : Task) (confirmed : Bool) : System :=
  if confirmed then { s.finish task.key with succeeded := s.succeeded ++ [(task.key, s.clock)] }
  else
    let task : Task := { task with attempt := task.attempt + 1 }
    if cfg.retryDelays.length ≤ task.attempt then s.finish task.key
    else
      let task : Task := { task with due := task.target + cfg.retryDelays[task.attempt]?.getD 0 }
      { s with queue := BinaryHeap.push earlier s.queue task, phase := .select }

def System.step (cfg : Config) (s : System) : Act → Option System
  | .wait d => some { s with clock := s.clock + d }
  | .schedule i fundingTime => some (s.schedule i fundingTime)
  | .send n =>
      match s.senders[n]? with
      | some task =>
          if s.channel.length < cfg.capacity then
            some { s with senders := s.senders.eraseIdx n, channel := s.channel ++ [task] }
          else none
      | none => none
  | .giveUp n =>
      -- the context of the caller is done before its task is in the channel
      match s.senders[n]? with
      | some task =>
          some { s with
            senders := s.senders.eraseIdx n
            known := fun k => if k = task.key then none else s.known k }
      | none => none
  | .receive =>
      match s.phase, s.channel with
      | .select, incoming :: channel => some ({ s with channel }.activate cfg incoming)
      | _, _ => none
  | .fire =>
      -- the timer was set for the root of the queue
      if s.phase = .select ∧ 0 < s.queue.size ∧ (BinaryHeap.elem s.queue 0).due ≤ s.clock then
        some { s with
          phase := .popped (BinaryHeap.elem s.queue 0), queue := BinaryHeap.pop earlier s.queue }
      else none
  | .request =>
      match s.phase with
      | .popped task =>
          if s.lastRequest.all (fun last => decide (cfg.minInterval ≤ s.clock - last)) then
            some { s with
              phase := .asking task
              lastRequest := some s.clock
              requests := s.requests ++ [⟨task, s.clock⟩] }
          else none
      | _ => none
  | .answer found failed =>
      match s.phase with
      | .asking task => some (s.settle cfg task (found && !failed))
      | _ => none
  | .cancel => some { s with phase := .over }

def System.Step (cfg : Config) (s : System) (a : Act) (s' : System) : Prop := s.step cfg a = some s'

def System.initial (clock : Int) : System :=
  ⟨clock, fun _ => none, [], [], .select, #[], fun _ => false, fun _ => none, none, 0, [], []⟩

/-- The task that the worker has in hand. -/
def Phase.task : Phase → Option Task
  | .popped t => some t
  | .asking t => some t
  | _ => none

/-- The tasks of the worker: in its queue, or in hand. -/
def System.tasks (s : System) : List Task := s.phase.task.toList ++ s.queue.toList

/-! ## The first attempt -/

/-- An attempt of the table is not due before its delay is over. -/
def Planned (cfg : Config) (target : Int) (attempt : Nat) (at_ : Int) : Prop :=
  ∃ d, cfg.retryDelays[attempt]? = some d ∧ target + d ≤ at_

theorem initialFrom_planned (cfg : Config) (target now : Int) {past delays : List Int}
    (hsplit : past ++ delays = cfg.retryDelays) {found : Nat × Int}
    (h : Planned cfg target found.1 found.2) :
    Planned cfg target (initialFrom target now delays past.length found).1
      (initialFrom target now delays past.length found).2 := by
  induction delays generalizing past found with
  | nil => exact h
  | cons delay delays ih =>
      unfold initialFrom
      split_ifs with hlater
      · exact h
      · have hnext : (past ++ [delay]).length = past.length + 1 := List.length_append
        rw [← hnext]
        refine ih (by rw [← hsplit, List.append_assoc]; rfl) ⟨delay, ?_, not_lt.1 hlater⟩
        rw [← hsplit, List.getElem?_append_right (le_refl _), Nat.sub_self]
        rfl

theorem initial_planned (cfg : Config) (target now : Int) :
    Planned cfg target (initialConfirmationAttempt target now cfg.retryDelays).1
      (initialConfirmationAttempt target now cfg.retryDelays).2 := by
  refine initialFrom_planned cfg target now (show [] ++ cfg.retryDelays = cfg.retryDelays from rfl) ?_
  cases hdelays : cfg.retryDelays with
  | nil => exact absurd hdelays cfg.retryDelays_ne
  | cons d delays =>
      refine ⟨d, by rw [hdelays]; rfl, ?_⟩
      exact le_refl _

/-! ## The invariant -/

structure Inv (cfg : Config) (s : System) : Prop where
  unique : (s.tasks.map Task.key).Nodup
  active : s.phase ≠ .over → ∀ k, s.active k = true ↔ k ∈ s.tasks.map Task.key
  unfinished : ∀ t ∈ s.tasks, s.finished t.key = none
  planned : ∀ t ∈ s.tasks, Planned cfg t.target t.attempt t.due
  due : ∀ t, s.phase.task = some t → t.due ≤ s.clock
  activations : ∀ t ∈ s.tasks, t.activation < s.activations
  distinct : (s.tasks.map Task.activation).Nodup
  requested : ∀ r ∈ s.requests, r.task.activation < s.activations ∧
    Planned cfg r.task.target r.task.attempt r.At
  -- a task in the hand of the worker may be the one of the last request
  before : ∀ r ∈ s.requests, ∀ t ∈ s.tasks, r.task.activation = t.activation →
    r.task.attempt < t.attempt ∨ s.phase = .asking t ∧ r.task.attempt = t.attempt
  increasing : s.requests.Pairwise fun a b =>
    a.task.activation = b.task.activation → a.task.attempt < b.task.attempt
  remembered : ∀ e ∈ s.succeeded, (∃ at_, e.2 ≤ at_ ∧ s.finished e.1 = some at_) ∨
    e.2 + 48 * hour < s.clock
  past : ∀ e ∈ s.succeeded, e.2 ≤ s.clock

theorem inv_initial (cfg : Config) (clock : Int) : Inv cfg (System.initial clock) where
  unique := List.nodup_nil
  active := fun _ k => by simp [System.initial, System.tasks, Phase.task]
  unfinished := by rintro t ⟨⟩
  planned := by rintro t ⟨⟩
  due := by rintro t ⟨⟩
  activations := by rintro t ⟨⟩
  distinct := List.nodup_nil
  requested := by rintro r ⟨⟩
  before := by rintro r ⟨⟩
  increasing := List.Pairwise.nil
  remembered := by rintro e ⟨⟩
  past := by rintro e ⟨⟩

theorem Planned.mono {cfg : Config} {target at_ at' : Int} {attempt : Nat} (h : Planned cfg target attempt at_)
    (hle : at_ ≤ at') : Planned cfg target attempt at' := by
  rcases h with ⟨d, hd, hplanned⟩
  exact ⟨d, hd, hplanned.trans hle⟩

/-- A step that leaves the tasks and what was done for them as they are. -/
theorem Inv.frame {cfg : Config} {s s' : System} (h : Inv cfg s) (hclock : s.clock ≤ s'.clock)
    (hphase : s'.phase = s.phase) (hqueue : s'.queue = s.queue) (hactive : s'.active = s.active)
    (hfinished : s'.finished = s.finished) (hactivations : s'.activations = s.activations)
    (hrequests : s'.requests = s.requests) (hsucceeded : s'.succeeded = s.succeeded) : Inv cfg s' := by
  have htasks : s'.tasks = s.tasks := by
    unfold System.tasks
    rw [hphase, hqueue]
  constructor
  · rw [htasks]
    exact h.unique
  · rw [hphase, hactive, htasks]
    exact h.active
  · rw [htasks, hfinished]
    exact h.unfinished
  · rw [htasks]
    exact h.planned
  · rw [hphase]
    exact fun t ht => (h.due t ht).trans hclock
  · rw [htasks, hactivations]
    exact h.activations
  · rw [htasks]
    exact h.distinct
  · rw [hrequests, hactivations]
    exact h.requested
  · rw [hrequests, htasks, hphase]
    exact h.before
  · rw [hrequests]
    exact h.increasing
  · rw [hsucceeded, hfinished]
    exact fun e he => (h.remembered e he).imp id fun hold => hold.trans_le hclock
  · rw [hsucceeded]
    exact fun e he => (h.past e he).trans hclock

theorem schedule_frame (s : System) (i : Instrument) (fundingTime : Int) :
    (s.schedule i fundingTime).clock = s.clock ∧ (s.schedule i fundingTime).phase = s.phase ∧
      (s.schedule i fundingTime).queue = s.queue ∧ (s.schedule i fundingTime).active = s.active ∧
      (s.schedule i fundingTime).finished = s.finished ∧
      (s.schedule i fundingTime).activations = s.activations ∧
      (s.schedule i fundingTime).requests = s.requests ∧
      (s.schedule i fundingTime).succeeded = s.succeeded := by
  unfold System.schedule
  simp only
  split_ifs <;> exact ⟨rfl, rfl, rfl, rfl, rfl, rfl, rfl, rfl⟩

theorem pruned {finished : Key → Option Int} {now : Int} {k : Key} (h : finished k = none) :
    pruneFinished finished now k = none := by
  unfold pruneFinished
  rw [h]

/-- A completion that is pruned is more than two days old. -/
theorem kept_or_old {finished : Key → Option Int} (now : Int) {at_ : Int} {k : Key} (h : finished k = some at_) :
    pruneFinished finished now k = some at_ ∨ at_ + 48 * hour < now := by
  unfold pruneFinished
  simp only [h]
  split_ifs with hold
  · right
    omega
  · exact .inl rfl

theorem Inv.activate {cfg : Config} {s : System} (h : Inv cfg s) (hphase : s.phase = .select)
    (incoming : Task) : Inv cfg (s.activate cfg incoming) := by
  unfold System.activate
  by_cases hactive : s.active incoming.key = true
  · rw [if_pos hactive]
    exact h
  rw [if_neg hactive]
  by_cases hfinished : (s.finished incoming.key).isSome = true
  · rw [if_pos hfinished]
    exact h
  rw [if_neg hfinished]
  have hnone : s.finished incoming.key = none := by simpa using hfinished
  -- the target is neither active nor finished: it gets an activation of its own
  set task : Task := { incoming with
    attempt := (initialConfirmationAttempt incoming.target s.clock cfg.retryDelays).1
    due := (initialConfirmationAttempt incoming.target s.clock cfg.retryDelays).2
    activation := s.activations } with htask
  have htasks : s.tasks = s.queue.toList := by
    unfold System.tasks
    rw [hphase]
    rfl
  have hperm : (BinaryHeap.push earlier s.queue task).toList.Perm (task :: s.queue.toList) :=
    BinaryHeap.push_perm _ _ _
  have hnew : task.key ∉ s.tasks.map Task.key := by
    rw [← h.active (by simp [hphase])]
    exact hactive
  have hfresh : s.activations ∉ s.tasks.map Task.activation := by
    intro hmem
    rcases List.mem_map.1 hmem with ⟨t, ht, heq⟩
    exact absurd heq (h.activations t ht).ne
  rw [htasks] at hnew hfresh
  have hmem : ∀ t, t ∈ (BinaryHeap.push earlier s.queue task).toList ↔ t = task ∨ t ∈ s.tasks := by
    intro t
    rw [hperm.mem_iff, List.mem_cons, htasks]
  simp only
  constructor
  · show ((s.phase.task.toList ++ (BinaryHeap.push earlier s.queue task).toList).map Task.key).Nodup
    rw [hphase]
    refine (hperm.map Task.key).nodup_iff.2 (List.nodup_cons.2 ⟨hnew, ?_⟩)
    rw [← htasks]
    exact h.unique
  · intro _ k
    show (if k = incoming.key then true else s.active k) = true ↔
      k ∈ (s.phase.task.toList ++ (BinaryHeap.push earlier s.queue task).toList).map Task.key
    rw [hphase, show Phase.select.task.toList = [] from rfl, List.nil_append,
      (hperm.map Task.key).mem_iff, List.map_cons, List.mem_cons, ← htasks]
    split_ifs with hk
    · exact ⟨fun _ => .inl hk, fun _ => rfl⟩
    · rw [h.active (by simp [hphase])]
      exact ⟨.inr, fun hk' => hk'.resolve_left hk⟩
  · intro t ht
    unfold System.tasks at ht
    rw [hphase] at ht
    rcases (hmem t).1 ht with rfl | ht
    · exact pruned hnone
    · exact pruned (h.unfinished t ht)
  · intro t ht
    unfold System.tasks at ht
    rw [hphase] at ht
    rcases (hmem t).1 ht with rfl | ht
    · exact initial_planned cfg incoming.target s.clock
    · exact h.planned t ht
  · intro t ht
    rw [hphase] at ht
    cases ht
  · intro t ht
    unfold System.tasks at ht
    rw [hphase] at ht
    rcases (hmem t).1 ht with rfl | ht
    · exact Nat.lt_succ_self _
    · exact (h.activations t ht).trans (Nat.lt_succ_self _)
  · show ((s.phase.task.toList ++ (BinaryHeap.push earlier s.queue task).toList).map
      Task.activation).Nodup
    rw [hphase]
    refine (hperm.map Task.activation).nodup_iff.2 (List.nodup_cons.2 ⟨hfresh, ?_⟩)
    rw [← htasks]
    exact h.distinct
  · intro r hr
    exact ⟨(h.requested r hr).1.trans (Nat.lt_succ_self _), (h.requested r hr).2⟩
  · intro r hr t ht hsame
    unfold System.tasks at ht
    rw [hphase] at ht
    rcases (hmem t).1 ht with rfl | ht
    · exact absurd hsame (h.requested r hr).1.ne
    · rcases h.before r hr t ht hsame with hlt | ⟨hasking, -⟩
      · exact .inl hlt
      · rw [hphase] at hasking
        cases hasking
  · exact h.increasing
  · intro e he
    rcases h.remembered e he with ⟨at_, hle, hat⟩ | hold
    -- what is forgotten is more than two days old
    · rcases kept_or_old s.clock hat with hkept | hold
      · exact .inl ⟨at_, hle, hkept⟩
      · exact .inr (by show e.2 + 48 * hour < s.clock; omega)
    · exact .inr hold
  · exact h.past

/-- The root of the queue comes into the hand of the worker. -/
theorem Inv.fire {cfg : Config} {s : System} (h : Inv cfg s) (hphase : s.phase = .select)
    (hsize : 0 < s.queue.size) (hdue : (BinaryHeap.elem s.queue 0).due ≤ s.clock) :
    Inv cfg { s with
      phase := .popped (BinaryHeap.elem s.queue 0), queue := BinaryHeap.pop earlier s.queue } := by
  -- the same tasks, one of them in the hand of the worker
  have hperm : (System.tasks { s with
      phase := .popped (BinaryHeap.elem s.queue 0), queue := BinaryHeap.pop earlier s.queue }).Perm
      s.tasks := by
    have hold : s.tasks = s.queue.toList := by
      unfold System.tasks
      rw [hphase]
      rfl
    rw [hold]
    exact (BinaryHeap.pop_perm earlier hsize).symm
  constructor
  · exact (hperm.map Task.key).nodup_iff.2 h.unique
  · intro _ k
    rw [(hperm.map Task.key).mem_iff]
    exact h.active (by simp [hphase]) k
  · exact fun t ht => h.unfinished t (hperm.subset ht)
  · exact fun t ht => h.planned t (hperm.subset ht)
  · rintro t ⟨⟩
    exact hdue
  · exact fun t ht => h.activations t (hperm.subset ht)
  · exact (hperm.map Task.activation).nodup_iff.2 h.distinct
  · exact h.requested
  · intro r hr t ht hsame
    rcases h.before r hr t (hperm.subset ht) hsame with hlt | ⟨hasking, -⟩
    · exact .inl hlt
    · rw [hphase] at hasking
      cases hasking
  · exact h.increasing
  · exact h.remembered
  · exact h.past

/-- Tasks with one activation are one task. -/
theorem Inv.same_task {cfg : Config} {s : System} (h : Inv cfg s) {t u : Task} (ht : t ∈ s.tasks)
    (hu : u ∈ s.tasks) (hsame : t.activation = u.activation) : t = u :=
  List.inj_on_of_nodup_map h.distinct ht hu hsame

theorem Inv.request {cfg : Config} {s : System} (h : Inv cfg s) {task : Task}
    (hphase : s.phase = .popped task) :
    Inv cfg { s with
      phase := .asking task
      lastRequest := some s.clock
      requests := s.requests ++ [⟨task, s.clock⟩] } := by
  have htasks : System.tasks { s with
      phase := .asking task
      lastRequest := some s.clock
      requests := s.requests ++ [⟨task, s.clock⟩] } = s.tasks := by
    unfold System.tasks
    rw [hphase]
    rfl
  have htask : task ∈ s.tasks := by
    unfold System.tasks
    rw [hphase]
    exact List.mem_append_left _ (List.mem_singleton_self task)
  -- the task in hand was asked for at earlier attempts only
  have hearlier : ∀ r ∈ s.requests, ∀ t ∈ s.tasks, r.task.activation = t.activation →
      r.task.attempt < t.attempt := by
    intro r hr t ht hsame
    rcases h.before r hr t ht hsame with hlt | ⟨hasking, -⟩
    · exact hlt
    · rw [hphase] at hasking
      cases hasking
  constructor
  · rw [htasks]
    exact h.unique
  · intro _ k
    rw [htasks]
    exact h.active (by simp [hphase]) k
  · rw [htasks]
    exact h.unfinished
  · rw [htasks]
    exact h.planned
  · rintro t ⟨⟩
    exact h.due task (by rw [hphase]; rfl)
  · rw [htasks]
    exact h.activations
  · rw [htasks]
    exact h.distinct
  · intro r hr
    rcases List.mem_append.1 hr with hr | hr
    · exact h.requested r hr
    · rw [List.mem_singleton.1 hr]
      refine ⟨h.activations task htask, (h.planned task htask).mono ?_⟩
      exact h.due task (by rw [hphase]; rfl)
  · intro r hr t ht hsame
    rw [htasks] at ht
    rcases List.mem_append.1 hr with hr | hr
    · exact .inl (hearlier r hr t ht hsame)
    · rw [List.mem_singleton.1 hr] at hsame ⊢
      have heq := h.same_task htask ht hsame
      subst heq
      exact .inr ⟨rfl, rfl⟩
  · show (s.requests ++ [(⟨task, s.clock⟩ : Request)]).Pairwise _
    rw [List.pairwise_append]
    refine ⟨h.increasing, List.pairwise_singleton _ _, fun a ha b hb => ?_⟩
    rw [List.mem_singleton.1 hb]
    exact hearlier a ha task htask
  · exact h.remembered
  · exact h.past

/-- The worker is done with the target in its hand, and remembers when. -/
theorem Inv.finish {cfg : Config} {s : System} (h : Inv cfg s) {task : Task}
    (hphase : s.phase = .asking task) : Inv cfg (s.finish task.key) := by
  have hold : s.tasks = task :: s.queue.toList := by
    unfold System.tasks
    rw [hphase]
    rfl
  have hnew : (s.finish task.key).tasks = s.queue.toList := rfl
  have hsub : ∀ t ∈ (s.finish task.key).tasks, t ∈ s.tasks := by
    rw [hnew, hold]
    exact fun t ht => List.mem_cons_of_mem task ht
  have hunique := h.unique
  have hdistinct := h.distinct
  rw [hold, List.map_cons, List.nodup_cons] at hunique hdistinct
  constructor
  · exact hunique.2
  · intro _ k
    rw [hnew]
    show (if k = task.key then false else s.active k) = true ↔ _
    have hactive := h.active (by simp [hphase]) k
    rw [hold, List.map_cons, List.mem_cons] at hactive
    split_ifs with hk
    · rw [hk]
      exact ⟨by rintro ⟨⟩, fun hmem => absurd hmem hunique.1⟩
    · rw [hactive]
      exact ⟨fun hmem => hmem.resolve_left hk, .inr⟩
  · intro t ht
    show (if t.key = task.key then some s.clock else s.finished t.key) = none
    -- no other task has the key
    have hne : t.key ≠ task.key := by
      intro heq
      exact hunique.1 (heq ▸ List.mem_map_of_mem ht)
    rw [if_neg hne]
    exact h.unfinished t (hsub t ht)
  · exact fun t ht => h.planned t (hsub t ht)
  · rintro t ⟨⟩
  · exact fun t ht => h.activations t (hsub t ht)
  · exact hdistinct.2
  · exact h.requested
  · intro r hr t ht hsame
    rcases h.before r hr t (hsub t ht) hsame with hlt | ⟨hasking, -⟩
    · exact .inl hlt
    · rw [hphase] at hasking
      cases hasking
      exact absurd (List.mem_map_of_mem ht) hdistinct.1
  · exact h.increasing
  · intro e he
    show (∃ at_, e.2 ≤ at_ ∧ (if e.1 = task.key then some s.clock else s.finished e.1) = some at_) ∨ _
    split_ifs with hk
    · exact .inl ⟨s.clock, h.past e he, rfl⟩
    · exact h.remembered e he
  · exact h.past

theorem Inv.answer {cfg : Config} {s : System} (h : Inv cfg s) {task : Task}
    (hphase : s.phase = .asking task) (confirmed : Bool) : Inv cfg (s.settle cfg task confirmed) := by
  have hdone := h.finish hphase
  unfold System.settle
  by_cases hconfirmed : confirmed = true
  · rw [if_pos hconfirmed]
    exact { hdone with
      remembered := fun e he => by
        rcases List.mem_append.1 he with he | he
        · exact hdone.remembered e he
        · rw [List.mem_singleton.1 he]
          exact .inl ⟨s.clock, le_refl _, if_pos rfl⟩
      past := fun e he => by
        rcases List.mem_append.1 he with he | he
        · exact h.past e he
        · rw [List.mem_singleton.1 he]
          exact le_refl s.clock }
  rw [if_neg hconfirmed]
  by_cases hlast : cfg.retryDelays.length ≤ task.attempt + 1
  · simp only [hlast, if_true]
    exact hdone
  · simp only [hlast, if_false]
    have hlt : task.attempt + 1 < cfg.retryDelays.length := not_le.1 hlast
    -- the next attempt has the key and the activation of this one
    set again : Task := { task with
      attempt := task.attempt + 1
      due := task.target + cfg.retryDelays[task.attempt + 1]?.getD 0 } with hagain
    have hold : s.tasks = task :: s.queue.toList := by
      unfold System.tasks
      rw [hphase]
      rfl
    have hperm : (System.tasks { s with
        queue := BinaryHeap.push earlier s.queue again, phase := .select }).Perm
        (again :: s.queue.toList) := BinaryHeap.push_perm _ _ _
    have hmem : ∀ t, t ∈ System.tasks { s with
        queue := BinaryHeap.push earlier s.queue again, phase := .select } →
        t = again ∨ t ∈ s.queue.toList := fun t ht => List.mem_cons.1 (hperm.subset ht)
    have hkept : ∀ t ∈ s.queue.toList, t ∈ s.tasks := by
      rw [hold]
      exact fun t ht => List.mem_cons_of_mem task ht
    have htask : task ∈ s.tasks := by
      rw [hold]
      exact List.mem_cons_self
    have hkeys : ((again :: s.queue.toList).map Task.key) = s.tasks.map Task.key := by
      rw [hold]
      rfl
    have hactivations : ((again :: s.queue.toList).map Task.activation) = s.tasks.map Task.activation := by
      rw [hold]
      rfl
    constructor
    · rw [(hperm.map Task.key).nodup_iff, hkeys]
      exact h.unique
    · intro _ k
      rw [(hperm.map Task.key).mem_iff, hkeys]
      exact h.active (by simp [hphase]) k
    · intro t ht
      rcases hmem t ht with rfl | ht
      · exact h.unfinished task htask
      · exact h.unfinished t (hkept t ht)
    · intro t ht
      rcases hmem t ht with rfl | ht
      · refine ⟨cfg.retryDelays[task.attempt + 1], List.getElem?_eq_getElem hlt, ?_⟩
        show task.target + _ ≤ task.target + cfg.retryDelays[task.attempt + 1]?.getD 0
        rw [List.getElem?_eq_getElem hlt]
        exact le_refl _
      · exact h.planned t (hkept t ht)
    · rintro t ⟨⟩
    · intro t ht
      rcases hmem t ht with rfl | ht
      · exact h.activations task htask
      · exact h.activations t (hkept t ht)
    · rw [(hperm.map Task.activation).nodup_iff, hactivations]
      exact h.distinct
    · exact h.requested
    · intro r hr t ht hsame
      rcases hmem t ht with rfl | ht
      · rcases h.before r hr task htask hsame with hlt | ⟨-, heq⟩
        · exact .inl (hlt.trans (Nat.lt_succ_self _))
        · exact .inl (heq ▸ Nat.lt_succ_self _)
      · rcases h.before r hr t (hkept t ht) hsame with hlt | ⟨hasking, -⟩
        · exact .inl hlt
        · rw [hphase] at hasking
          cases hasking
          have hdistinct := h.distinct
          rw [hold, List.map_cons, List.nodup_cons] at hdistinct
          exact absurd (List.mem_map_of_mem ht) hdistinct.1
    · exact h.increasing
    · exact h.remembered
    · exact h.past

/-- The worker stops: what it had in hand is dropped. -/
theorem Inv.cancel {cfg : Config} {s : System} (h : Inv cfg s) : Inv cfg { s with phase := .over } := by
  have hsub : (System.tasks { s with phase := .over }).Sublist s.tasks := List.sublist_append_right _ _
  exact {
    unique := h.unique.sublist (hsub.map Task.key)
    active := fun hne => absurd rfl hne
    unfinished := fun t ht => h.unfinished t (hsub.subset ht)
    planned := fun t ht => h.planned t (hsub.subset ht)
    due := by rintro t ⟨⟩
    activations := fun t ht => h.activations t (hsub.subset ht)
    distinct := h.distinct.sublist (hsub.map Task.activation)
    requested := h.requested
    before := fun r hr t ht hsame => by
      rcases h.before r hr t (hsub.subset ht) hsame with hlt | ⟨hasking, -⟩
      · exact .inl hlt
      · -- the task in hand is not in the queue
        have hdistinct := h.distinct
        unfold System.tasks at hdistinct
        rw [hasking] at hdistinct
        exact absurd (List.mem_map_of_mem ht) (List.nodup_cons.1 hdistinct).1
    increasing := h.increasing
    remembered := h.remembered
    past := h.past }

theorem Inv.step {cfg : Config} {s s' : System} {a : Act} (hstep : s.Step cfg a s') (h : Inv cfg s) :
    Inv cfg s' := by
  unfold System.Step System.step at hstep
  cases a with
  | wait d =>
      cases hstep
      exact h.frame (by show s.clock ≤ s.clock + d; omega) rfl rfl rfl rfl rfl rfl rfl
  | schedule i fundingTime =>
      cases hstep
      rcases schedule_frame s i fundingTime with ⟨h1, h2, h3, h4, h5, h6, h7, h8⟩
      exact h.frame h1.ge h2 h3 h4 h5 h6 h7 h8
  | send n =>
      simp only at hstep
      split at hstep
      · simp only [Option.ite_none_right_eq_some] at hstep
        rcases hstep with ⟨-, ⟨⟩⟩
        exact h.frame (le_refl _) rfl rfl rfl rfl rfl rfl rfl
      · cases hstep
  | giveUp n =>
      simp only at hstep
      split at hstep
      · cases hstep
        exact h.frame (le_refl _) rfl rfl rfl rfl rfl rfl rfl
      · cases hstep
  | receive =>
      simp only at hstep
      split at hstep
      · rename_i incoming channel hphase hchannel
        cases hstep
        have hframe : Inv cfg { s with channel } := h.frame (le_refl _) rfl rfl rfl rfl rfl rfl rfl
        exact hframe.activate hphase incoming
      · cases hstep
  | fire =>
      simp only [Option.ite_none_right_eq_some] at hstep
      rcases hstep with ⟨⟨hphase, hsize, hdue⟩, ⟨⟩⟩
      exact h.fire hphase hsize hdue
  | request =>
      cases hphase : s.phase with
      | popped task =>
          simp only [hphase, Option.ite_none_right_eq_some] at hstep
          rcases hstep with ⟨-, ⟨⟩⟩
          exact h.request hphase
      | _ => simp [hphase] at hstep
  | answer found failed =>
      cases hphase : s.phase with
      | asking task =>
          simp only [hphase] at hstep
          cases hstep
          exact h.answer hphase _
      | _ => simp [hphase] at hstep
  | cancel =>
      cases hstep
      exact h.cancel

/-! ## What the worker promises -/

/-- What a step that asks for a rate does. -/
theorem request_new {cfg : Config} {s s' : System} {a : Act} (hstep : s.Step cfg a s') {r : Request}
    (hnew : s'.requests = s.requests ++ [r]) : s.phase = .popped r.task ∧ r.At = s.clock := by
  have hsame : ∀ {l : List Request}, l ≠ l ++ [r] := by
    intro l heq
    have hlength := congrArg List.length heq
    simp at hlength
  have hsettle : ∀ task confirmed, (s.settle cfg task confirmed).requests = s.requests := by
    intro task confirmed
    unfold System.settle
    simp only
    split_ifs <;> rfl
  have hactivate : ∀ (t : System) incoming, (t.activate cfg incoming).requests = t.requests := by
    intro t incoming
    unfold System.activate
    simp only
    split_ifs <;> rfl
  unfold System.Step System.step at hstep
  cases a with
  | request =>
      cases hphase : s.phase with
      | popped task =>
          simp only [hphase, Option.ite_none_right_eq_some] at hstep
          rcases hstep with ⟨-, ⟨⟩⟩
          have hr := List.append_cancel_left hnew
          cases hr
          exact ⟨rfl, rfl⟩
      | _ => simp [hphase] at hstep
  | schedule i fundingTime =>
      cases hstep
      rw [(schedule_frame s i fundingTime).2.2.2.2.2.2.1] at hnew
      exact absurd hnew hsame
  | answer found failed =>
      simp only at hstep
      split at hstep
      · cases hstep
        rw [hsettle] at hnew
        exact absurd hnew hsame
      · cases hstep
  | receive =>
      simp only at hstep
      split at hstep
      · cases hstep
        rw [hactivate] at hnew
        exact absurd hnew hsame
      · cases hstep
  | fire =>
      simp only [Option.ite_none_right_eq_some] at hstep
      rcases hstep with ⟨-, ⟨⟩⟩
      exact absurd hnew hsame
  | send n =>
      simp only at hstep
      split at hstep
      · simp only [Option.ite_none_right_eq_some] at hstep
        rcases hstep with ⟨-, ⟨⟩⟩
        exact absurd hnew hsame
      · cases hstep
  | giveUp n =>
      simp only at hstep
      split at hstep
      · cases hstep
        exact absurd hnew hsame
      · cases hstep
  | wait d =>
      cases hstep
      exact absurd hnew hsame
  | cancel =>
      cases hstep
      exact absurd hnew hsame

theorem inv_run {cfg : Config} {clock : Int} {as : List Act} {s : System}
    (hrun : Transition.Run (System.Step cfg) (System.initial clock) as s) : Inv cfg s :=
  hrun.invariant (Inv cfg) (inv_initial cfg clock) fun _ _ _ hstep hinv => hinv.step hstep

/-- However schedules and steps of the worker follow each other: a target has at most one task; the
attempts of one activation increase, are of the table, and none is requested before its delay; and a
request is for a target whose completion is not remembered, so not within two days of a success. -/
theorem confirmations_ordered {cfg : Config} {clock : Int} {as : List Act} {s : System}
    (hrun : Transition.Run (System.Step cfg) (System.initial clock) as s) :
    (s.tasks.map Task.key).Nodup ∧
      (s.requests.Pairwise fun a b =>
        a.task.activation = b.task.activation → a.task.attempt < b.task.attempt) ∧
      (∀ r ∈ s.requests, ∃ d, cfg.retryDelays[r.task.attempt]? = some d ∧ r.task.target + d ≤ r.At) ∧
      ∀ a s' r, s.Step cfg a s' → s'.requests = s.requests ++ [r] →
        s.finished r.task.key = none ∧
          ∀ e ∈ s.succeeded, e.1 = r.task.key → e.2 + 48 * hour < r.At := by
  have h := inv_run hrun
  refine ⟨h.unique, h.increasing, fun r hr => (h.requested r hr).2, fun a s' r hstep hnew => ?_⟩
  rcases request_new hstep hnew with ⟨hphase, hat⟩
  have hmem : r.task ∈ s.tasks := by
    unfold System.tasks
    rw [hphase]
    exact List.mem_append_left _ (List.mem_singleton_self _)
  have hnone := h.unfinished r.task hmem
  refine ⟨hnone, fun e he hkey => ?_⟩
  rcases h.remembered e he with ⟨at_, -, hsome⟩ | hold
  · rw [hkey, hnone] at hsome
    cases hsome
  · rw [hat]
    exact hold

/-- Two delays, and one target that is found at its second attempt. -/
def twoDelays : Config := ⟨1000000000, [120000000000, 300000000000], 1, by decide, by decide, by decide,
  by decide, by decide⟩

def secondAttempt : List Act :=
  [.schedule ⟨7, .perpetual⟩ 0, .send 0, .receive, .wait 120000000000, .fire, .request,
    .answer false false, .wait 180000000000, .fire, .request, .answer true false]

theorem confirmations_ordered_secondAttempt :
    ∃ s, Transition.Run (System.Step twoDelays) (System.initial 0) secondAttempt s ∧
      s.requests.map (fun r => (r.task.attempt, r.At)) = [(0, 120000000000), (1, 300000000000)] ∧
      (s.tasks.map Task.key).Nodup := by
  have hrun : ∃ s, Transition.Run (System.Step twoDelays) (System.initial 0) secondAttempt s ∧
      s.requests.map (fun r => (r.task.attempt, r.At)) = [(0, 120000000000), (1, 300000000000)] :=
    ⟨_, .cons rfl (.cons rfl (.cons rfl (.cons rfl (.cons rfl (.cons rfl (.cons rfl (.cons rfl
      (.cons rfl (.cons rfl (.cons rfl (.nil _))))))))))), rfl⟩
  rcases hrun with ⟨s, hrun, hrequests⟩
  exact ⟨s, hrun, hrequests, (confirmations_ordered hrun).1⟩

end MarketInfo.Confirmation
