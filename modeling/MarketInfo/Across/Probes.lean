import MarketInfo.Lib.OrderedMap
import MarketInfo.Lib.Transition
import MarketInfo.Lib.Json

/-! # Probes of the bridge watcher

A watched order is probed when it is found, at fixed delays while it is open, and again and
again until it ends. The owner hands out one task at a time under a lease and applies its
outcome when that is committed. Digests stand for what they digest: a task is its own
identity, and times are nanoseconds of Unix time.
-/

namespace MarketInfo.Across.Probes

open Json (Text)

abbrev Bytes := List UInt8

def second : Int := 1000000000

def millisecond : Int := 1000000

/-! ## Orders and tasks -/

structure ChainConfig where
  ChainID : UInt64
  SpokePool : Bytes
  USDC : Bytes

structure Manifest where
  Chains : List ChainConfig
  MaxPending : UInt32
  FreshMillis : UInt32

def Manifest.Chain (m : Manifest) (id : UInt64) : Option ChainConfig :=
  m.Chains.find? fun c => c.ChainID = id

/-- The columns of a deposit that the watcher reads. -/
structure Deposit where
  CaptureId : Bytes
  ChainId : UInt64
  SpokePool : Bytes
  BlockHash : Bytes
  DestinationChainId : UInt64
  ExclusiveRelayer : Bytes
  InputToken : Bytes
  OutputToken : Bytes
  FillDeadline : UInt32
  ExclusivityDeadline : UInt32
  Message : Bytes
  RelayHash : Bytes
  LiveReceivedAt : Option Int
  AvailableAt : Int
deriving DecidableEq

inductive Origin | live | catchup | restart
deriving DecidableEq

structure PendingOrder where
  Deposit : Probes.Deposit
  Origin : Probes.Origin
  Terminal : Bool := false
  Followups : Bool := false
deriving DecidableEq

inductive Kind | baseline | followup | openCheck | skippedBudget
deriving DecidableEq

structure ProbeTask (κ : Type) where
  Key : κ
  Planned : Int
  Delay : Option UInt32
  Kind : Probes.Kind
deriving DecidableEq

inductive ProbeStatus | ok | late | rpcError | staleHead | cancelledTerminal | skippedBudget
deriving DecidableEq

/-- The columns of an observation that decide what follows from it. -/
structure OrderProbe where
  ProbeStatus : Probes.ProbeStatus
  Reason : Text := []
  FillStatus : Option UInt8 := none
  PausedFills : Option Bool := none
  ContractTime : Option UInt64 := none
  AvailableAt : Int

def WordAddress (a : Bytes) : Bytes := List.replicate 12 0 ++ a

def route (d : Deposit) (m : Manifest) : Bool :=
  match m.Chain d.ChainId, m.Chain d.DestinationChainId with
  | some a, some z =>
      a.ChainID ≠ z.ChainID && d.SpokePool = a.SpokePool && d.InputToken = WordAddress a.USDC &&
        d.OutputToken = WordAddress z.USDC && d.Message = []
  | _, _ => false

def exclusive (d : Deposit) : Bool :=
  d.ExclusiveRelayer ≠ List.replicate 32 0 && d.ExclusivityDeadline ≠ 0

def ProbeOpen (d : Deposit) (p : OrderProbe) : Bool :=
  p.ProbeStatus = .ok && p.FillStatus.any (· < 2) && p.PausedFills = some false &&
    p.ContractTime.any fun t =>
      t.toNat ≤ d.FillDeadline.toNat && (!exclusive d || d.ExclusivityDeadline.toNat < t.toNat)

def terminalProbe (d : Deposit) (p : OrderProbe) : Bool :=
  (p.ProbeStatus = .ok || p.ProbeStatus = .late) &&
    (p.FillStatus = some 2 || p.ContractTime.any fun t => d.FillDeadline.toNat < t.toNat)

/-! ## The watcher -/

section

variable {κ : Type} [LinearOrder κ]

structure Watcher (κ : Type) [LinearOrder κ] where
  Orders : OrderedMap κ PendingOrder := .empty
  Tasks : List (ProbeTask κ) := []

/-- `follow`: the three tasks at fixed delays. -/
def followups (k : κ) (base : Int) : List (ProbeTask κ) :=
  [2000, 5000, 10000].map fun d => ⟨k, base + d.toNat * millisecond, some d, .followup⟩

def Watcher.follow (w : Watcher κ) (k : κ) (base : Int) : Watcher κ :=
  { w with Tasks := w.Tasks ++ followups k base }

/-- `addAt`, and whether the deposit was not refused. -/
def Watcher.addAt (orderKey : Deposit → κ) (w : Watcher κ) (d : Deposit) (origin : Origin) (m : Manifest)
    (time : Int) : Watcher κ × Bool :=
  if route d m = false ∨ (d.FillDeadline.toNat : Int) < time / second then (w, true)
  else
    let k := orderKey d
    if (w.Orders.get k).isSome then (w, true)
    else if m.MaxPending.toNat ≤ w.Orders.len then (w, false)
    else
      let followed : Bool := origin = .live && !exclusive d
      let p : PendingOrder := { Deposit := d, Origin := origin, Followups := followed }
      let w : Watcher κ :=
        { Orders := w.Orders.set k p, Tasks := w.Tasks ++ [⟨k, time, none, .baseline⟩] }
      (if followed then w.follow k d.AvailableAt else w, true)

/-- What the owner knows of orders and probes. -/
structure RuntimeState (κ : Type) [LinearOrder κ] where
  Watch : Watcher κ := {}
  Skipped : OrderedMap κ PendingOrder := .empty
  ProbeAdmission : OrderedMap κ Int := .empty

/-- The origin of a deposit of a batch. -/
def Deposit.origin (d : Deposit) (restoring : Bool) : Origin :=
  if restoring then .restart else if d.LiveReceivedAt.isSome then .live else .catchup

/-- One deposit of a committed batch. A refused one is recorded as skipped. -/
def RuntimeState.deposit (orderKey : Deposit → κ) (s : RuntimeState κ) (d : Deposit) (finalized restoring : Bool)
    (m : Manifest) (time : Int) : RuntimeState κ :=
  if finalized then s
  else
    let (w, accepted) := s.Watch.addAt orderKey d (d.origin restoring) m time
    if accepted then { s with Watch := w }
    else { s with Watch := w, Skipped := s.Skipped.set (orderKey d) { Deposit := d, Origin := d.origin restoring } }

/-- The orders of a capture that `revise` finds orphaned. -/
def RuntimeState.orphan (s : RuntimeState κ) (capture : Bytes) : RuntimeState κ :=
  { s with Watch := { s.Watch with
      Orders := s.Watch.Orders.entries.foldl
        (fun orders e => if e.2.Deposit.CaptureId = capture then orders.set e.1 { e.2 with Terminal := true }
          else orders) s.Watch.Orders } }

/-! ## Selecting a probe -/

/-- `runtimeProbeTransition`. -/
structure ProbeTransition (κ : Type) where
  Task : ProbeTask κ
  Terminal : Bool := false
  Skipped : Bool := false
deriving DecidableEq

/-- `runtimeProbeWork`, whose lease is the identity of the task. -/
structure Work (κ : Type) where
  Order : PendingOrder
  Transition : ProbeTransition κ
  Forced : Option ProbeStatus := none
  Live : Bool := false
  Budget : Int := 0
deriving DecidableEq

def Work.lease (w : Work κ) : ProbeTask κ := w.Transition.Task

inductive Selection (κ : Type)
  | idle (wait : Int)
  | work (w : Work κ)

def priorityProbe (o : Option PendingOrder) (task : ProbeTask κ) (time : Int) (m : Manifest) : Bool :=
  match o with
  | none => false
  | some o =>
      if o.Origin ≠ .live ∨ time < task.Planned then false
      else if task.Delay.isSome then time ≤ task.Planned + second
      else task.Kind = .baseline && time - task.Planned ≤ m.FreshMillis.toNat * millisecond

def nextLiveProbe (w : Watcher κ) (tasks : List (ProbeTask κ)) (now : Int) : Option Int :=
  tasks.foldl (fun next task =>
    match w.Orders.get task.Key with
    | some order =>
        if order.Terminal = false ∧ order.Origin = .live ∧ (task.Kind = .baseline ∨ task.Delay.isSome) ∧
            now ≤ task.Planned + second ∧ next.all (task.Planned < ·) then some task.Planned else next
    | none => next) none

def rank (w : Watcher κ) (m : Manifest) (time : Int) (t : ProbeTask κ) : Nat :=
  if time < t.Planned then 4
  else if priorityProbe (w.Orders.get t.Key) t time m then 0
  else if (w.Orders.get t.Key).any fun o => o.Origin = .live && t.Kind ≠ .openCheck then 2
  else 3

def deadline (m : Manifest) (t : ProbeTask κ) : Int :=
  if t.Delay.isSome then t.Planned + second else t.Planned + m.FreshMillis.toNat * millisecond

/-- The order in which tasks are looked at. -/
def before (w : Watcher κ) (m : Manifest) (time : Int) (a b : ProbeTask κ) : Bool :=
  if rank w m time a ≠ rank w m time b then rank w m time a < rank w m time b
  else if rank w m time a = 0 ∧ deadline m a ≠ deadline m b then deadline m a < deadline m b
  else a.Planned < b.Planned

/-- The loop over the ordered tasks, with the wait so far. -/
def selectTask (s : RuntimeState κ) (m : Manifest) (time now : Int) (leased : ProbeTask κ → Bool)
    (tasks : List (ProbeTask κ)) : List (ProbeTask κ) → Int → Selection κ
  | [], wait => .idle (max wait millisecond)
  | task :: rest, wait =>
      match s.Watch.Orders.get task.Key with
      | none => selectTask s m time now leased tasks rest wait
      | some o =>
          if leased task then selectTask s m time now leased tasks rest wait
          else
            let terminal : Bool := o.Terminal || (o.Deposit.FillDeadline.toNat : Int) + 2 < time / second
            let admission := (s.ProbeAdmission.get task.Key).getD 0
            if terminal = false ∧ task.Delay = none ∧ task.Kind = .openCheck ∧ time < admission then
              selectTask s m time now leased tasks rest (min wait (admission - time))
            else if terminal = false ∧ time < task.Planned then
              selectTask s m time now leased tasks rest (min wait (task.Planned - time))
            else
              let work : Work κ :=
                { Order := o, Transition := { Task := task, Terminal := terminal }, Budget := 12 * second }
              if terminal then .work { work with Forced := some .cancelledTerminal }
              else if priorityProbe (some o) task time m then .work { work with Live := true, Budget := 5 * second }
              else
                match nextLiveProbe s.Watch tasks now with
                | some live =>
                    if time < live ∧ live - time < work.Budget then
                      selectTask s m time now leased tasks rest (min wait (live - time))
                    else .work work
                | none => .work work

/-- The task of a skipped order. -/
def skippedTask (k : κ) (o : PendingOrder) : ProbeTask κ := ⟨k, o.Deposit.AvailableAt, none, .skippedBudget⟩

/-- `selectProbe`. Skipped orders come first, in the order of their pages; `now` is the clock
that the look for the next live probe reads. -/
def RuntimeState.selectProbe (s : RuntimeState κ) (m : Manifest) (invalidating : Bool) (time now : Int)
    (leased : ProbeTask κ → Bool) : Selection κ :=
  if invalidating then .idle second
  else
    match s.Skipped.entries.find? fun e => !leased (skippedTask e.1 e.2) with
    | some e =>
        .work { Order := e.2, Transition := { Task := skippedTask e.1 e.2, Skipped := true },
                Forced := some .skippedBudget }
    | none =>
        let tasks := s.Watch.Tasks.mergeSort fun a b => !before s.Watch m time b a
        selectTask s m time now leased tasks tasks (3600 * second)

/-! ## Committing its outcome -/

/-- The delay until the next check of an order that goes on. -/
def nextDelay (o : PendingOrder) (p : OrderProbe) : Int :=
  let delay := if p.ProbeStatus = .rpcError ∨ p.ProbeStatus = .staleHead then 10 * second
    else if o.Origin ≠ .live then 5 * second else second
  match p.ContractTime with
  | some t =>
      if exclusive o.Deposit ∧ t.toNat ≤ o.Deposit.ExclusivityDeadline.toNat then
        (o.Deposit.ExclusivityDeadline.toNat - t.toNat + 1 : Nat) * second
      else delay
  | none => delay

def contains (s part : Text) : Bool := s.tails.any part.isPrefixOf

/-- Whether the outcome ends the order. -/
def ends (tr : ProbeTransition κ) (o : PendingOrder) (p : OrderProbe) : Bool :=
  tr.Terminal || terminalProbe o.Deposit p ||
    p.ProbeStatus = .cancelledTerminal &&
      (contains p.Reason "source_orphaned".toList || contains p.Reason "local_deadline_elapsed".toList)

def RuntimeState.probeCommitted (s : RuntimeState κ) (tr : ProbeTransition κ) (p : OrderProbe) (now : Int) :
    Except String (RuntimeState κ) :=
  let key := tr.Task.Key
  if tr.Skipped then
    if p.ProbeStatus ≠ .skippedBudget then .error "runtime_skipped_probe_content"
    else .ok { s with Skipped := s.Skipped.delete key }
  else
    match s.Watch.Orders.get key with
    | none => .error "runtime_probe_missing_parent"
    | some o =>
        if tr.Task ∉ s.Watch.Tasks then .error "runtime_probe_missing_task"
        else
          let tasks := s.Watch.Tasks.erase tr.Task
          let o := if ends tr o p then { o with Terminal := true } else o
          if o.Terminal = false then
            let follows : Bool := o.Origin = .live && !o.Followups && ProbeOpen o.Deposit p
            let tasks := if follows then tasks ++ followups key p.AvailableAt else tasks
            let o := if follows then { o with Followups := true } else o
            let delay := nextDelay o p
            let again := tr.Task.Delay = none
            .ok { s with
              Watch := {
                Orders := s.Watch.Orders.set key o
                Tasks := if again then tasks ++ [⟨key, p.AvailableAt + delay, none, .openCheck⟩] else tasks }
              ProbeAdmission := if again then s.ProbeAdmission.set key (now + delay) else s.ProbeAdmission }
          else if tasks.any fun t => t.Key = key then
            .ok { s with Watch := { Orders := s.Watch.Orders.set key o, Tasks := tasks } }
          else
            .ok { s with
              Watch := { Orders := s.Watch.Orders.delete key, Tasks := tasks }
              ProbeAdmission := s.ProbeAdmission.delete key }

/-! ## Runs -/

/-- The owner with the works it has handed out, each with whether its outcome is committed. A
work keeps its lease until it is released. -/
structure System (κ : Type) [LinearOrder κ] where
  state : RuntimeState κ := {}
  held : List (Work κ × Bool) := []

def System.leased (s : System κ) (t : ProbeTask κ) : Bool := s.held.any fun h => h.1.lease = t

inductive Event (κ : Type)
  | deposit (d : Deposit) (finalized restoring : Bool) (time : Int)
  | orphan (capture : Bytes)
  | select (invalidating : Bool) (time now : Int)
  | commit (w : Work κ) (p : OrderProbe) (now : Int)
  | release (w : Work κ) (committed : Bool)

/-- One step of the owner. A work that fails, or that a restart loses before its outcome is
frozen, is released without a commit; a frozen one is committed first. -/
inductive Step (orderKey : Deposit → κ) (m : Manifest) : System κ → Event κ → System κ → Prop
  | deposit (s : System κ) (d : Deposit) (finalized restoring : Bool) (time : Int) :
      Step orderKey m s (.deposit d finalized restoring time)
        { s with state := s.state.deposit orderKey d finalized restoring m time }
  | orphan (s : System κ) (capture : Bytes) :
      Step orderKey m s (.orphan capture) { s with state := s.state.orphan capture }
  | select (s : System κ) (invalidating : Bool) (time now : Int) (w : Work κ)
      (h : s.state.selectProbe m invalidating time now s.leased = .work w) :
      Step orderKey m s (.select invalidating time now) { s with held := (w, false) :: s.held }
  | commit (s : System κ) (w : Work κ) (p : OrderProbe) (now : Int) (state : RuntimeState κ)
      (held : (w, false) ∈ s.held) (h : s.state.probeCommitted w.Transition p now = .ok state) :
      Step orderKey m s (.commit w p now)
        { state := state, held := (w, true) :: s.held.erase (w, false) }
  | release (s : System κ) (w : Work κ) (committed : Bool) (held : (w, committed) ∈ s.held) :
      Step orderKey m s (.release w committed) { s with held := s.held.erase (w, committed) }

end

end MarketInfo.Across.Probes
