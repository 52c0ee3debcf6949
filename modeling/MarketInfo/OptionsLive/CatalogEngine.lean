import MarketInfo.Lib.Transition
import MarketInfo.Lib.Ledger
import MarketInfo.Exchange.Budget
import MarketInfo.Orderbook.LevelCount

/-! # The catalog engine and its level budget

`catalogEngine` in a worker for each shard, as far as books and levels go. All
shards share one budget of levels, and every call to it is a step of its own:
while an update is between `Reserve` and `Release`, other shards go on. What an
engine samples and records is left out, and so are the calls to `recover`.
-/

namespace MarketInfo

namespace OptionsLive

/-! ## Data -/

/-- `options.ContractSpec`. -/
structure ContractSpec where
  id : UInt32
  indexID : String
  expiryTime : Time
deriving DecidableEq, Repr

/-- `catalogState`. -/
structure CatalogState where
  instrumentID : UInt32
  known : Bool
  opened : Bool
deriving DecidableEq, Repr

/-- `catalogGate`. -/
structure CatalogGate where
  known : Bool := false
  maintenance : Bool := false
  lockMode : String := ""
  lockedIndexes : List String := []
  locks : List String := []
deriving DecidableEq, Repr

/-- `catalogSwap`: a new membership, or the end of the shard. -/
structure CatalogSwap where
  time : Time
  members : List UInt32
  specs : List ContractSpec
  retire : Bool
deriving DecidableEq, Repr

/-- `connection`. -/
structure Connection where
  epoch : UUID := 0
  ready : Bool := false
  confirmed : Time := Time.zero
deriving DecidableEq, Repr

/-- Every kind of stream event but a connection and a message. -/
inductive StreamKind
  | ready | subscribed | disconnected | unsubscribed | heartbeat
deriving DecidableEq, Repr

/-- `engine` and its `catalogEngine`. -/
structure Engine where
  maxLevels : Nat
  next : Time
  specs : AList fun _ : UInt32 => ContractSpec := ∅
  books : AList fun _ : UInt32 => DerivativeBook := ∅
  states : AList fun _ : UInt32 => CatalogState := ∅
  connections : AList fun _ : UInt32 => Connection := ∅
  gate : CatalogGate := {}
  warm : List UInt32 := []
  swaps : List CatalogSwap := []
  members : List UInt32 := []
  levels : AList fun _ : UInt32 => Int := ∅

/-- What became of an event: an error stops the worker. -/
abbrev Handled := Engine × Except String Unit

namespace Engine

def connectionOf (e : Engine) (id : UInt32) : Connection := (e.connections.lookup id).getD {}

/-- `c.levels[id]`. -/
def levelsOf (e : Engine) (id : UInt32) : Int := (e.levels.lookup id).getD 0

/-- `e.books[id].Invalidate(reason)`. -/
def invalidate (e : Engine) (reason : DerivativeReason) (id : UInt32) : Engine :=
  match e.books.lookup id with
  | none => e
  | some b => { e with books := e.books.insert id (b.invalidate reason) }

/-- A book for the contract, unless the engine has it. -/
def addSpec (e : Engine) (spec : ContractSpec) : Handled :=
  match e.specs.lookup spec.id with
  | some _ => (e, .ok ())
  | none =>
      match DerivativeBook.new spec.id false e.maxLevels with
      | .error err => (e, .error err)
      | .ok b =>
          ({ e with specs := e.specs.insert spec.id spec, books := e.books.insert spec.id b }, .ok ())

def addSpecs (e : Engine) : List ContractSpec → Handled
  | [] => (e, .ok ())
  | spec :: rest =>
      match e.addSpec spec with
      | (e, .error err) => (e, .error err)
      | (e, .ok ()) => e.addSpecs rest

/-! ## Events without a call to the budget -/

/-- `v.Spec != nil`. -/
def handleSpec (e : Engine) (spec : ContractSpec) : Handled :=
  { e with warm := spec.id :: e.warm }.addSpec spec

/-- `v.State != nil`. -/
def handleState (e : Engine) (s : CatalogState) : Engine :=
  match e.specs.lookup s.instrumentID with
  | none => e
  | some _ =>
      let previous := (e.states.lookup s.instrumentID).getD ⟨0, false, false⟩
      let e := if s.known = false ∨ s.opened = false then
          e.invalidate DerivativeReason.metadataUncertain s.instrumentID else e
      let e := if s.known = true ∧ s.opened = true ∧ (previous.known = false ∨ previous.opened = false) then
          e.invalidate DerivativeReason.metadataUncertain s.instrumentID else e
      { e with states := e.states.insert s.instrumentID s }

/-- The gate stops the index. -/
@[reducible] def Blocks (g : CatalogGate) (index : String) : Prop :=
  g.known = false ∨ g.maintenance = true ∨ g.lockMode = "true" ∨ index ∈ g.locks ∨ index ∈ g.lockedIndexes

/-- One turn of the loop of `v.Gate != nil`. -/
def regate (old : CatalogGate) (e : Engine) (s : Sigma fun _ : UInt32 => CatalogState) : Engine :=
  let index := ((e.specs.lookup s.1).map ContractSpec.indexID).getD ""
  if Blocks e.gate index then e.invalidate DerivativeReason.metadataUncertain s.1
  else if Blocks old index ∧ s.2.known = true ∧ s.2.opened = true then
    e.invalidate DerivativeReason.metadataUncertain s.1
  else e

/-- `v.Gate != nil`. -/
def handleGate (e : Engine) (g : CatalogGate) : Engine :=
  e.states.entries.foldl (regate e.gate) { e with gate := g }

/-- `v.Swap != nil`. -/
def handleSwap (e : Engine) (s : CatalogSwap) : Handled :=
  if ∃ last ∈ e.swaps.getLast?, ¬ s.time.After last.time then (e, .error "unsorted shard switch")
  else
    match e.addSpecs s.specs with
    | (e, .error err) => (e, .error err)
    | (e, .ok ()) => ({ e with swaps := e.swaps ++ [s] }, .ok ())

/-- The connection after an event of its epoch. -/
def confirm (e : Engine) (id : UInt32) (received : Time) : Engine :=
  { e with connections := e.connections.insert id { e.connectionOf id with confirmed := received } }

/-- A stream event of the connection's epoch that is neither. -/
def handleStream (e : Engine) (id : UInt32) (kind : StreamKind) (received : Time) : Engine :=
  let e := e.confirm id received
  match kind with
  | .ready | .subscribed =>
      { e with connections := e.connections.insert id { e.connectionOf id with ready := true } }
  | .disconnected | .unsubscribed =>
      { e with connections := e.connections.insert id { e.connectionOf id with ready := false } }.invalidate
        DerivativeReason.disconnected id
  | .heartbeat => e

/-! ## Seconds -/

/-- The loop over the swaps that are due, and whether it ends in an error. -/
def switchMembers (time : Time) (e : Engine) : List CatalogSwap → Handled
  | [] => ({ e with swaps := [] }, .ok ())
  | s :: rest =>
      if s.time.After time then ({ e with swaps := s :: rest }, .ok ())
      else if s.retire = true then ({ e with swaps := rest }, .error "catalog shard retired")
      else if time.secondOf ≠ 0 then ({ e with swaps := rest }, .error "late membership switch")
      else
        switchMembers time
          { e with members := s.members, warm := e.warm.filter fun id => id ∉ s.members } rest

/-- The contract has not expired. -/
@[reducible] def Unexpired (e : Engine) (time : Time) (id : UInt32) : Prop :=
  ∃ spec ∈ e.specs.lookup id, spec.expiryTime.After time

/-- `sample` of a second that is due, up to the pruning of `catalogBoundary`. -/
def boundary (e : Engine) (time : Time) : Handled :=
  if ¬ time.Equal e.next then (e, .error "missing options second boundary")
  else
    match switchMembers time { e with next := e.next.add Time.second } e.swaps with
    | (e, .error err) => (e, .error err)
    | (e, .ok ()) =>
        if time.secondOf = 0 then ({ e with warm := e.warm.filter fun id => e.Unexpired time id }, .ok ())
        else (e, .ok ())

/-- `keep[id]`. -/
@[reducible] def Keeps (e : Engine) (id : UInt32) : Prop :=
  id ∈ e.warm ∨ id ∈ e.members ∨ ∃ s ∈ e.swaps, ∃ spec ∈ s.specs, spec.id = id

/-- An instrument that is not kept goes. -/
def drop (e : Engine) (id : UInt32) : Engine :=
  { e with
    levels := e.levels.erase id
    books := e.books.erase id
    specs := e.specs.erase id
    states := e.states.erase id
    connections := e.connections.erase id }

/-- `catalogQuality` of a member: a connection that was quiet too long. -/
def checkLiveness (time : Time) (e : Engine) (id : UInt32) : Engine :=
  let c := e.connectionOf id
  if c.ready = true ∧ 30 * Time.second < time.unixNano - c.confirmed.unixNano then
    { e with connections := e.connections.insert id { c with ready := false } }.invalidate
      DerivativeReason.disconnected id
  else e

/-- `sample` after `catalogBoundary`: a late one looks at no member. -/
def sampleMembers (e : Engine) (time : Time) (late : Bool) : Engine :=
  if late then e else e.members.foldl (checkLiveness time) e

/-! ## Events with a call to the budget -/

/-- `f.Kind == "connected"`, after the release. -/
def connected (e : Engine) (id : UInt32) (epoch : UUID) (received : Time) : Handled :=
  let e := { e with
    levels := e.levels.erase id
    connections := e.connections.insert id { epoch, confirmed := received } }
  match e.books.lookup id with
  | none => (e, .ok ())
  | some b => ({ e with books := e.books.insert id (b.reset epoch).1 }, (b.reset epoch).2)

/-- What an update wants to reserve. -/
def extraLevels (old : Int) (u : DerivativeUpdate) : Int := max 0 (DerivativeBook.estimate old u - old)

/-- The update is applied and what it holds is recorded; the rest of the reservation is
returned. -/
def settle (sha256 : List UInt64 → BitVec 256) (e : Engine) (id : UInt32) (u : DerivativeUpdate)
    (extra : Int) : Engine × Int :=
  match e.books.lookup id with
  | none => (e, extra)
  | some b =>
      let b := (b.apply sha256 u).1
      ({ e with books := e.books.insert id b, levels := e.levels.insert id b.levelCount },
        e.levelsOf id + extra - b.levelCount)

end Engine

/-! ## Workers -/

/-- Where the goroutine of a worker is. -/
inductive Phase
  | idle
  /-- Between `Reserve` and `Release` of an update. -/
  | applying (id : UInt32) (u : DerivativeUpdate) (extra : Int)
  /-- In the pruning loop of a second. -/
  | pruning (time : Time)
  /-- In the deferred function. -/
  | exiting
  | exited
deriving DecidableEq

structure Worker where
  engine : Engine
  phase : Phase

/-- The catalog workers that were started, and the budget they share. -/
structure Workers where
  budget : BufferBudget
  workers : List Worker := []

/-- After an event. -/
def Handled.worker (r : Handled) : Worker :=
  match r.2 with
  | .ok () => ⟨r.1, .idle⟩
  | .error _ => ⟨r.1, .exiting⟩

/-- One step of a worker with the budget. -/
inductive WorkerStep (sha256 : List UInt64 → BitVec 256) :
    BufferBudget × Worker → BufferBudget × Worker → Prop
  | spec (budget : BufferBudget) (e : Engine) (spec : ContractSpec) :
      WorkerStep sha256 (budget, ⟨e, .idle⟩) (budget, (e.handleSpec spec).worker)
  | state (budget : BufferBudget) (e : Engine) (s : CatalogState) :
      WorkerStep sha256 (budget, ⟨e, .idle⟩) (budget, ⟨e.handleState s, .idle⟩)
  | gate (budget : BufferBudget) (e : Engine) (g : CatalogGate) :
      WorkerStep sha256 (budget, ⟨e, .idle⟩) (budget, ⟨e.handleGate g, .idle⟩)
  | swap (budget : BufferBudget) (e : Engine) (s : CatalogSwap) :
      WorkerStep sha256 (budget, ⟨e, .idle⟩) (budget, (e.handleSwap s).worker)
  | stream (budget : BufferBudget) (e : Engine) (id : UInt32) (kind : StreamKind) (received : Time) :
      e.specs.lookup id ≠ none →
        WorkerStep sha256 (budget, ⟨e, .idle⟩) (budget, ⟨e.handleStream id kind received, .idle⟩)
  | connected (budget : BufferBudget) (e : Engine) (id : UInt32) (epoch : UUID) (received : Time) :
      e.specs.lookup id ≠ none →
        WorkerStep sha256 (budget, ⟨e, .idle⟩)
          (budget.release (e.levelsOf id), (e.connected id epoch received).worker)
  -- a message that cannot be decoded
  | malformed (budget : BufferBudget) (e : Engine) (id : UInt32) (received : Time) :
      e.specs.lookup id ≠ none →
        WorkerStep sha256 (budget, ⟨e, .idle⟩)
          (budget, ⟨(e.confirm id received).invalidate DerivativeReason.parseError id, .idle⟩)
  -- a message whose levels fit
  | reserve (budget budget' : BufferBudget) (e : Engine) (id : UInt32) (u : DerivativeUpdate)
      (received : Time) : e.specs.lookup id ≠ none →
        budget.reserve (Engine.extraLevels (e.levelsOf id) u) = some budget' →
          WorkerStep sha256 (budget, ⟨e, .idle⟩)
            (budget', ⟨e.confirm id received, .applying id u (Engine.extraLevels (e.levelsOf id) u)⟩)
  | refuse (budget : BufferBudget) (e : Engine) (id : UInt32) (u : DerivativeUpdate) (received : Time) :
      e.specs.lookup id ≠ none → budget.reserve (Engine.extraLevels (e.levelsOf id) u) = none →
        WorkerStep sha256 (budget, ⟨e, .idle⟩)
          (budget, ⟨(e.confirm id received).invalidate DerivativeReason.resourceLimit id, .idle⟩)
  | settle (budget : BufferBudget) (e : Engine) (id : UInt32) (u : DerivativeUpdate) (extra : Int) :
      WorkerStep sha256 (budget, ⟨e, .applying id u extra⟩)
        (budget.release (e.settle sha256 id u extra).2, ⟨(e.settle sha256 id u extra).1, .idle⟩)
  -- a boundary before its time does nothing
  | boundary (budget : BufferBudget) (e : Engine) (time : Time) : ¬ time.Before e.next →
      WorkerStep sha256 (budget, ⟨e, .idle⟩)
        (budget, match e.boundary time with
          | (e, .error _) => ⟨e, .exiting⟩
          | (e, .ok ()) => ⟨e, .pruning time⟩)
  | prune (budget : BufferBudget) (e : Engine) (time : Time) (id : UInt32) :
      time.secondOf = 0 → e.books.lookup id ≠ none → ¬ e.Keeps id →
        WorkerStep sha256 (budget, ⟨e, .pruning time⟩)
          (budget.release (e.levelsOf id), ⟨e.drop id, .pruning time⟩)
  -- the loop is over; the rest of a second may fail
  | sampled (budget : BufferBudget) (e : Engine) (time : Time) (late failed : Bool) :
      (time.secondOf = 0 → ∀ id, e.books.lookup id ≠ none → e.Keeps id) →
        WorkerStep sha256 (budget, ⟨e, .pruning time⟩)
          (budget, ⟨e.sampleMembers time late, if failed then .exiting else .idle⟩)
  -- cancelled, or stopped by its ingress or by a plan that does not follow the last
  | stop (budget : BufferBudget) (e : Engine) :
      WorkerStep sha256 (budget, ⟨e, .idle⟩) (budget, ⟨e, .exiting⟩)
  -- a count that was released is not looked at again
  | release (budget : BufferBudget) (e : Engine) (id : UInt32) (n : Int) :
      e.levels.lookup id = some n →
        WorkerStep sha256 (budget, ⟨e, .exiting⟩)
          (budget.release n, ⟨{ e with levels := e.levels.erase id }, .exiting⟩)
  | exit (budget : BufferBudget) (e : Engine) : e.levels = ∅ →
      WorkerStep sha256 (budget, ⟨e, .exiting⟩) (budget, ⟨e, .exited⟩)

/-- `newCatalogEngine`: a book for each contract. -/
def newCatalogEngine (maxLevels : Nat) (next : Time) (members : List UInt32) (specs : List ContractSpec) :
    Handled := Engine.addSpecs { maxLevels, next, members } specs

inductive Step (sha256 : List UInt64 → BitVec 256) : Workers → Unit → Workers → Prop
  | start (s : Workers) (maxLevels : Nat) (next : Time) (members : List UInt32)
      (specs : List ContractSpec) (e : Engine) : newCatalogEngine maxLevels next members specs = (e, .ok ()) →
        Step sha256 s () { s with workers := s.workers ++ [⟨e, .idle⟩] }
  | work (s : Workers) (i : Nat) (w w' : Worker) (budget : BufferBudget) : s.workers[i]? = some w →
      WorkerStep sha256 (s.budget, w) (budget, w') →
        Step sha256 s () { budget, workers := s.workers.set i w' }

end OptionsLive

end MarketInfo
