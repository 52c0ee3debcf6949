import MarketInfo.Exchange.Budget
import MarketInfo.Lib.Ledger
import MarketInfo.Lib.Transition

/-! # Pending minutes of the catalog workers

A worker's engine completes minutes; each is charged to the cache that the workers
share and put into a queue of two. The worker's writer takes them one after
another, compresses each, offers it to the sink until the sink takes it, and
releases it. The goroutines of all workers are interleaved; a step is one of their
operations on the budget, the queue or the sink. What a minute is charged changes
in the step that changes the budget: only the goroutine that has the minute reads
its `cost`.
-/

namespace MarketInfo.OptionsLive.Pending

/-! ## Charging a minute -/

def maxCatalogPendingBytes : Int := 32 * 2 ^ 20

/-- The array lengths of a delta. -/
structure DeltaSize where
  bidChangePrice : Nat
  bidChangeQty : Nat
  askChangePrice : Nat
  askChangeQty : Nat
deriving DecidableEq, Repr

/-- The array lengths of a book: of its minute, when it has one, and of its deltas. -/
structure BookSize where
  minute : Option (Nat × Nat)
  deltas : List DeltaSize
deriving DecidableEq, Repr

/-- What a finished minute's reservation depends on. -/
structure Envelope where
  books : List BookSize
  indexes : Nat
deriving DecidableEq, Repr

def minuteCost (b : BookSize) : Int :=
  match b.minute with
  | some (bids, asks) => 128 + 16 * (bids + asks)
  | none => 0

def deltaCost (d : DeltaSize) : Int :=
  128 + 8 * (d.bidChangePrice + d.bidChangeQty + d.askChangePrice + d.askChangeQty)

/-- `cost` of `captureCatalogMinute`. -/
def captureCost (v : Envelope) : Int :=
  1024 + v.books.length * 60 * 512 + v.indexes * 60 * 128 +
    (v.books.map fun b => minuteCost b + (b.deltas.map deltaCost).sum).sum

/-- A pending minute: which of the worker's minutes it is, and what it is charged. -/
structure Minute where
  id : Nat
  cost : Int
deriving DecidableEq, Repr

/-- The budget of a `catalogMinuteCache` and the encoders under way. -/
structure Cache where
  budget : BufferBudget
  encoders : Nat
deriving DecidableEq, Repr

/-- The capacity of `encoders`. -/
def maxEncoders : Nat := 4

/-- The capacity of `batches`. -/
def maxBatches : Nat := 2

def newCatalogMinuteCache (limit : Int) : Cache := ⟨⟨limit, 0⟩, 0⟩

/-- The charge of `captureCatalogMinute`. -/
def Cache.charge (c : Cache) (v : Envelope) : Option Cache :=
  if maxCatalogPendingBytes < captureCost v then none
  else (c.budget.reserve (captureCost v)).map fun b => { c with budget := b }

/-- The charge of `compress` once the size is known: it may grow or shrink. -/
def Cache.recharge (c : Cache) (p : Minute) (cost : Int) : Option Cache :=
  if p.cost < cost then (c.budget.reserve (cost - p.cost)).map fun b => { c with budget := b }
  else some { c with budget := c.budget.release (p.cost - cost) }

def Cache.release (c : Cache) (p : Minute) : Cache := { c with budget := c.budget.release p.cost }

/-! ## A worker -/

/-- Where the worker's own goroutine is. -/
inductive Owner where
  | running
  /-- Charged, in front of the `select` that sends it. -/
  | captured (p : Minute)
  /-- The queue was full: about to be released. -/
  | refused (p : Minute)
  /-- The loop has ended, the queue is not closed yet. -/
  | closing
  /-- Waits for `written`. -/
  | waiting
  /-- `for pending := range batches`. -/
  | emptying
  | emptied (p : Minute)
  | done
deriving DecidableEq, Repr

/-- Where `writeCatalogMinutes` is. -/
inductive Writer where
  /-- `for p := range batches`. -/
  | idle
  /-- In `compress`, waiting for an encoder. -/
  | compressing (p : Minute)
  | encoding (p : Minute)
  /-- At the head of the loop over attempts. -/
  | trying (p : Minute)
  /-- Inside the call of the sink. -/
  | offering (p : Minute)
  | waiting (p : Minute)
  /-- About to release: `again` after the sink took it, else before a return. -/
  | releasing (p : Minute) (again : Bool)
  /-- The deferred loop. -/
  | draining
  | drained (p : Minute)
  | returned
deriving DecidableEq, Repr

/-- What the sink sees. -/
inductive SinkEvent where
  | offered (id : Nat)
  | accepted (id : Nat)
deriving DecidableEq, Repr

structure Worker where
  owner : Owner
  writer : Writer
  queue : List Minute
  closed : Bool
  /-- `writerCtx` is cancelled. -/
  cancelled : Bool
  /-- The number of minutes that were charged. -/
  next : Nat
  /-- Of every minute charged, sent and released: which one, in this order. -/
  captured : List Nat
  queued : List Nat
  released : List Nat
  sink : List SinkEvent
deriving DecidableEq, Repr

def Worker.start : Worker := ⟨.running, .idle, [], false, false, 0, [], [], [], []⟩

/-- One step of a worker and the cache. -/
inductive WorkerStep : Cache × Worker → Cache × Worker → Prop
  -- the engine completes a minute that is not queued: the queue is full, or the budget
  | skip (c : Cache) (w : Worker) (v : Envelope) : w.owner = .running →
      maxBatches ≤ w.queue.length ∨ c.charge v = none → WorkerStep (c, w) (c, w)
  | capture (c c' : Cache) (w : Worker) (v : Envelope) : w.owner = .running →
      w.queue.length < maxBatches → c.charge v = some c' →
      WorkerStep (c, w) (c', { w with
        owner := .captured ⟨w.next, captureCost v⟩, next := w.next + 1,
        captured := w.captured ++ [w.next] })
  | send (c : Cache) (w : Worker) (p : Minute) : w.owner = .captured p →
      w.queue.length < maxBatches →
      WorkerStep (c, w) (c, { w with
        owner := .running, queue := w.queue ++ [p], queued := w.queued ++ [p.id] })
  | refuse (c : Cache) (w : Worker) (p : Minute) : w.owner = .captured p →
      maxBatches ≤ w.queue.length → WorkerStep (c, w) (c, { w with owner := .refused p })
  | drop (c : Cache) (w : Worker) (p : Minute) : w.owner = .refused p →
      WorkerStep (c, w) (c.release p, { w with owner := .running, released := w.released ++ [p.id] })
  -- shutdown: cancellation, a failed writer or stream, a retired shard
  | stop (c : Cache) (w : Worker) : w.owner = .running →
      WorkerStep (c, w) (c, { w with owner := .closing })
  | close (c : Cache) (w : Worker) : w.owner = .closing →
      WorkerStep (c, w) (c, { w with owner := .waiting, closed := true })
  | timeout (c : Cache) (w : Worker) : w.owner = .waiting →
      WorkerStep (c, w) (c, { w with cancelled := true })
  | written (c : Cache) (w : Worker) : w.owner = .waiting → w.writer = .returned →
      WorkerStep (c, w) (c, { w with owner := .emptying, cancelled := true })
  | empty (c : Cache) (w : Worker) (p : Minute) (rest : List Minute) : w.owner = .emptying →
      w.queue = p :: rest → WorkerStep (c, w) (c, { w with owner := .emptied p, queue := rest })
  | emptied (c : Cache) (w : Worker) (p : Minute) : w.owner = .emptied p →
      WorkerStep (c, w) (c.release p, { w with owner := .emptying, released := w.released ++ [p.id] })
  | finish (c : Cache) (w : Worker) : w.owner = .emptying → w.queue = [] →
      WorkerStep (c, w) (c, { w with owner := .done })
  -- the writer
  | take (c : Cache) (w : Worker) (p : Minute) (rest : List Minute) : w.writer = .idle →
      w.queue = p :: rest →
      WorkerStep (c, w) (c, { w with writer := .compressing p, queue := rest })
  | ended (c : Cache) (w : Worker) : w.writer = .idle → w.queue = [] → w.closed = true →
      WorkerStep (c, w) (c, { w with writer := .draining })
  | acquire (c : Cache) (w : Worker) (p : Minute) : w.writer = .compressing p →
      c.encoders < maxEncoders →
      WorkerStep (c, w) ({ c with encoders := c.encoders + 1 }, { w with writer := .encoding p })
  | abandon (c : Cache) (w : Worker) (p : Minute) : w.writer = .compressing p →
      w.cancelled = true → WorkerStep (c, w) (c, { w with writer := .releasing p false })
  -- the encoder fails, or finds the minute too long
  | encodeError (c : Cache) (w : Worker) (p : Minute) : w.writer = .encoding p →
      WorkerStep (c, w) ({ c with encoders := c.encoders - 1 }, { w with writer := .releasing p false })
  | encoded (c c' : Cache) (w : Worker) (p : Minute) (size : Nat) : w.writer = .encoding p →
      c.recharge p (size + 256) = some c' →
      WorkerStep (c, w) ({ c' with encoders := c'.encoders - 1 },
        { w with writer := .trying { p with cost := size + 256 } })
  | tooLong (c : Cache) (w : Worker) (p : Minute) (size : Nat) : w.writer = .encoding p →
      c.recharge p (size + 256) = none →
      WorkerStep (c, w) ({ c with encoders := c.encoders - 1 }, { w with writer := .releasing p false })
  | giveUp (c : Cache) (w : Worker) (p : Minute) : w.writer = .trying p → w.cancelled = true →
      WorkerStep (c, w) (c, { w with writer := .releasing p false })
  | offer (c : Cache) (w : Worker) (p : Minute) : w.writer = .trying p → w.cancelled = false →
      WorkerStep (c, w) (c, { w with
        writer := .offering p, sink := w.sink ++ [.offered p.id] })
  -- without a lazy sink the minute is read before the call
  | unreadable (c : Cache) (w : Worker) (p : Minute) : w.writer = .trying p ∨ w.writer = .offering p →
      WorkerStep (c, w) (c, { w with writer := .releasing p false })
  | accept (c : Cache) (w : Worker) (p : Minute) : w.writer = .offering p →
      WorkerStep (c, w) (c, { w with
        writer := .releasing p true, sink := w.sink ++ [.accepted p.id] })
  | refusedCancelled (c : Cache) (w : Worker) (p : Minute) : w.writer = .offering p →
      w.cancelled = true → WorkerStep (c, w) (c, { w with writer := .releasing p false })
  | retry (c : Cache) (w : Worker) (p : Minute) : w.writer = .offering p → w.cancelled = false →
      WorkerStep (c, w) (c, { w with writer := .waiting p })
  | waited (c : Cache) (w : Worker) (p : Minute) : w.writer = .waiting p →
      WorkerStep (c, w) (c, { w with writer := .trying p })
  | interrupted (c : Cache) (w : Worker) (p : Minute) : w.writer = .waiting p →
      w.cancelled = true → WorkerStep (c, w) (c, { w with writer := .releasing p false })
  | release (c : Cache) (w : Worker) (p : Minute) (again : Bool) : w.writer = .releasing p again →
      WorkerStep (c, w) (c.release p, { w with
        writer := if again then .idle else .draining, released := w.released ++ [p.id] })
  | drain (c : Cache) (w : Worker) (p : Minute) (rest : List Minute) : w.writer = .draining →
      w.queue = p :: rest → WorkerStep (c, w) (c, { w with writer := .drained p, queue := rest })
  | drained (c : Cache) (w : Worker) (p : Minute) : w.writer = .drained p →
      WorkerStep (c, w) (c.release p, { w with writer := .draining, released := w.released ++ [p.id] })
  | returned (c : Cache) (w : Worker) : w.writer = .draining → w.queue = [] →
      WorkerStep (c, w) (c, { w with writer := .returned })

/-! ## All workers -/

structure Workers where
  cache : Cache
  workers : List Worker
deriving DecidableEq, Repr

/-- A worker starts on the shared cache, or one of them takes a step. -/
inductive Step : Workers → Unit → Workers → Prop
  | start (s : Workers) : Step s () { s with workers := s.workers ++ [.start] }
  | work (s : Workers) (i : Nat) (w w' : Worker) (c : Cache) : s.workers[i]? = some w →
      WorkerStep (s.cache, w) (c, w') → Step s () ⟨c, s.workers.set i w'⟩

/-! ## The minutes that exist -/

def Owner.held : Owner → List Minute
  | .captured p | .refused p | .emptied p => [p]
  | _ => []

def Writer.held : Writer → List Minute
  | .compressing p | .encoding p | .trying p | .offering p | .waiting p | .releasing p _ |
    .drained p => [p]
  | _ => []

/-- The pending minutes of a worker: in its hand, in the writer's and in the queue. -/
def Worker.pending (w : Worker) : List Minute := w.owner.held ++ w.writer.held ++ w.queue

/-- What they are charged together. -/
def Worker.holds (w : Worker) : Int := (w.pending.map Minute.cost).sum

end MarketInfo.OptionsLive.Pending
