import MarketInfo.Lib.Transition
import MarketInfo.Stream.Invariant

/-! # One connection of a shard

The reader stamps messages with the generation of their target and queues them,
the writer reports what it has sent, the loop handles the queue, and any of them
may fail. The first failure is terminal: it invalidates every target, and the
loop does nothing more to them but invalidate them once again when it returns.
-/

namespace MarketInfo

namespace Stream

variable {τ π : Type}

/-! ## The connection -/

/-- The reader between two messages, before and after it read the generation. -/
inductive Reader (π : Type) where
  | idle
  | stamping (ev : Received π)
  | pushing (ev : Received π)
  | stopped

inductive Status where
  | running
  | failing (err : String)
  | returned
  | stopped
deriving DecidableEq

structure Connection (τ π : Type) where
  loop : Loop τ π
  queue : List (StreamEvent π)
  reader : Reader π
  /-- `receiveOrder` of the reader. -/
  order : Nat
  waiting : Option WriteCommand
  /-- `terminal.err`. -/
  err : Option String
  status : Status

def invalidateTargets (cfg : Config τ π) (reason : String) (targets : String → Target τ) :
    String → Target τ := fun topic =>
  if topic ∈ cfg.topics then
    { targets topic with state := cfg.adapter.invalidate topic (targets topic).state reason }
  else targets topic

def invalidateAll (cfg : Config τ π) (reason : String) (l : Loop τ π) : Loop τ π :=
  { l with targets := invalidateTargets cfg reason l.targets,
           log := cfg.topics.map .invalidate ++ l.log }

/-- `terminal.fail`. -/
def fail (cfg : Config τ π) (c : Connection τ π) (err : String) : Connection τ π :=
  if c.err = none then { c with err := some err, loop := invalidateAll cfg err c.loop } else c

/-- The first subscriptions. -/
def enqueueAll (cfg : Config τ π) (l : Loop τ π) : List (List String) → Result τ π
  | [] => (l, .ok ())
  | topics :: rest =>
      match enqueue cfg l "subscribe" topics with
      | (l, .error e) => (l, .error e)
      | (l, .ok ()) => enqueueAll cfg l rest

/-- The status after a step of the loop. -/
def statusOf : Except String Unit → Status
  | .ok () => .running
  | .error e => .failing e

/-- `RunConnection` up to its loop, on targets in some state. -/
def start (cfg : Config τ π) (generations : String → Nat) (states : String → τ) : Connection τ π :=
  let l : Loop τ π :=
    { targets := fun topic =>
        { generation := generations topic + 1, phase := .awaitingSubscribe, lastMessage := none,
          state := cfg.adapter.reset topic (states topic) "connecting websocket shard" }
      pending := [], nextID := 0, commands := [], preAck := fun _ => [], preAckCount := 0, log := [] }
  let r := enqueueAll cfg l cfg.batches
  { loop := r.1, queue := [], reader := .idle, order := 0, waiting := none, err := none,
    status := statusOf r.2 }

/-! ## Steps -/

inductive Label (π : Type) where
  | receive (payload : π) (message : Message)
  | stamp
  | push
  | readerFails (err : String)
  | readerStops
  | writerTakes
  | writerSends
  | writerFails (err : String)
  | handle (now : Int)
  | tick (now : Int)
  | fails
  | failure
  | cancelled
  | returns

/-- What the reader lets through: a known topic, and for data one at all. -/
structure Decodes (cfg : Config τ π) (message : Message) : Prop where
  known : message.topic = "" ∨ message.topic ∈ cfg.topics
  data : message.pong = false → message.acknowledgement = false → message.topic ≠ ""

inductive Step (cfg : Config τ π) : Connection τ π → Label π → Connection τ π → Prop where
  | receive {c : Connection τ π} (payload : π) (message : Message) : c.reader = .idle →
      Decodes cfg message →
      Step cfg c (.receive payload message)
        { c with order := c.order + 1,
                 reader := .stamping { payload, message, generation := 0,
                                       receiveOrder := c.order + 1 } }
  | stamp {c : Connection τ π} {ev : Received π} : c.reader = .stamping ev →
      Step cfg c .stamp
        { c with reader := .pushing { ev with generation :=
            if ev.message.topic = "" then 0 else (c.loop.targets ev.message.topic).generation } }
  | push {c : Connection τ π} {ev : Received π} : c.reader = .pushing ev →
      c.queue.length < cfg.queueCapacity →
      Step cfg c .push { c with queue := c.queue ++ [.received ev], reader := .idle }
  -- read and decode errors, unexpected topics, full queues
  | readerFails {c : Connection τ π} (err : String) :
      Step cfg c (.readerFails err) { fail cfg c err with reader := .stopped }
  | readerStops {c : Connection τ π} : Step cfg c .readerStops { c with reader := .stopped }
  | writerTakes {c : Connection τ π} {command : WriteCommand} {rest : List WriteCommand} :
      c.waiting = none → c.loop.commands = command :: rest →
      Step cfg c .writerTakes
        { c with waiting := some command, loop := { c.loop with commands := rest } }
  | writerSends {c : Connection τ π} {command : WriteCommand} : c.waiting = some command →
      c.queue.length < cfg.queueCapacity →
      Step cfg c .writerSends { c with waiting := none, queue := c.queue ++ [.sent command.id] }
  | writerFails {c : Connection τ π} (err : String) : Step cfg c (.writerFails err) (fail cfg c err)
  | handle {c : Connection τ π} (now : Int) {event : StreamEvent π} {rest : List (StreamEvent π)} :
      c.status = .running → c.queue = event :: rest → c.err = none →
      Step cfg c (.handle now)
        { c with queue := rest, loop := (Stream.handle cfg now c.loop event).1,
                 status := statusOf (Stream.handle cfg now c.loop event).2 }
  | handleFailed {c : Connection τ π} (now : Int) {event : StreamEvent π}
      {rest : List (StreamEvent π)} {err : String} :
      c.status = .running → c.queue = event :: rest → c.err = some err →
      Step cfg c (.handle now) { c with queue := rest, status := .failing err }
  | tick {c : Connection τ π} (now : Int) : c.status = .running → c.err = none →
      Step cfg c (.tick now)
        { c with loop := (Stream.tick cfg now c.loop).1,
                 status := statusOf (Stream.tick cfg now c.loop).2 }
  | tickFailed {c : Connection τ π} (now : Int) {err : String} : c.status = .running →
      c.err = some err → Step cfg c (.tick now) { c with status := .failing err }
  | fails {c : Connection τ π} {err : String} : c.status = .failing err →
      Step cfg c .fails { fail cfg c err with status := .returned }
  | failure {c : Connection τ π} {err : String} : c.status = .running → c.err = some err →
      Step cfg c .failure { c with status := .returned }
  | cancelled {c : Connection τ π} : c.status = .running →
      Step cfg c .cancelled { c with status := .returned }
  -- the deferred invalidation of every target
  | returns {c : Connection τ π} : c.status = .returned →
      Step cfg c .returns
        { c with status := .stopped,
                 loop := invalidateAll cfg "websocket shard stopped" c.loop }

/-! ## The invariant -/

def receivedOf : StreamEvent π → Option (Received π)
  | .sent _ => none
  | .received ev => some ev

def Reader.held : Reader π → List (Received π)
  | .stamping ev => [ev]
  | .pushing ev => [ev]
  | _ => []

/-- The messages that were received and not yet handled, in order. -/
def Connection.inFlight (c : Connection τ π) : List (Received π) :=
  c.queue.filterMap receivedOf ++ c.reader.held

/-- A message between the reader and the loop. -/
structure Pending (cfg : Config τ π) (n m : Nat) (ev : Received π) : Prop where
  after : n < ev.receiveOrder
  bound : ev.receiveOrder ≤ m
  topic : ev.message.pong = false → ev.message.acknowledgement = false →
    ev.message.topic ∈ cfg.topics

structure Inv (cfg : Config τ π) (n : Nat) (c : Connection τ π) : Prop where
  loop : LoopInv cfg n c.loop
  le : n ≤ c.order
  pending : ∀ ev ∈ c.inFlight, Pending cfg n c.order ev
  ordered : c.inFlight.Pairwise fun a b => a.receiveOrder < b.receiveOrder

variable {cfg : Config τ π} {n : Nat}

theorem phaseFrom_invalidate (topic : String) (start : Phase) (topics : List String)
    (log : List (Effect π)) :
    phaseFrom topic start (topics.map .invalidate ++ log) = phaseFrom topic start log := by
  induction topics with
  | nil => rfl
  | cons t rest ih =>
      rw [List.map_cons, List.cons_append, phaseFrom, ih]
      cases phaseFrom topic start log with
      | none => rfl
      | some phase => rfl

theorem timely_invalidate (topics : List String) {log : List (Effect π)} (h : Timely log) :
    Timely (topics.map .invalidate ++ log) := by
  induction topics with
  | nil => exact h
  | cons t rest ih => exact ih

theorem mem_invalidate {topics : List String} {log : List (Effect π)} {topic : String} {order : Nat}
    (h : .unsubscribed topic order ∈ topics.map Effect.invalidate ++ log) :
    .unsubscribed topic order ∈ log := by
  rcases List.mem_append.1 h with h | h
  · obtain ⟨t, -, ht⟩ := List.mem_map.1 h
    cases ht
  · exact h

theorem inv_invalidateAll {l : Loop τ π} (h : LoopInv cfg n l) (reason : String) :
    LoopInv cfg n (invalidateAll cfg reason l) := by
  have hphase : ∀ topic, (invalidateTargets cfg reason l.targets topic).phase =
      (l.targets topic).phase := by
    intro topic
    unfold invalidateTargets
    split
    · rfl
    · rfl
  refine ⟨h.count, ?_, timely_invalidate _ h.timely, ?_, ?_, ?_⟩
  · intro topic
    change phaseFrom topic _ (cfg.topics.map .invalidate ++ l.log) = some _
    rw [phaseFrom_invalidate]
    change _ = some (invalidateTargets cfg reason l.targets topic).phase
    rw [hphase]
    exact h.phase topic
  · intro topic order hmem
    exact h.acked topic order (mem_invalidate hmem)
  · intro topic ev hev
    obtain ⟨h1, h2, h3, h4⟩ := h.buffered topic ev hev
    exact ⟨h1, h2, h3, fun order hmem => h4 order (mem_invalidate hmem)⟩
  · intro topic hne
    change (invalidateTargets cfg reason l.targets topic).phase = _
    rw [hphase]
    exact h.quiet topic hne

theorem inv_fail {c : Connection τ π} (h : Inv cfg n c) (err : String) : Inv cfg n (fail cfg c err) := by
  unfold fail
  split
  · exact ⟨inv_invalidateAll h.loop err, h.le, h.pending, h.ordered⟩
  · exact h

theorem inv_start (cfg : Config τ π) (generations : String → Nat) (states : String → τ) :
    Inv cfg 0 (start cfg generations states) := by
  have henqueue : ∀ (batches : List (List String)) (l : Loop τ π), LoopInv cfg 0 l →
      LoopInv cfg 0 (enqueueAll cfg l batches).1 := by
    intro batches
    induction batches with
    | nil =>
        intro l h
        exact h
    | cons topics rest ih =>
        intro l h
        have hinv := inv_enqueue h "subscribe" topics
        rw [enqueueAll]
        rcases henq : enqueue cfg l "subscribe" topics with ⟨l', e | ⟨⟩⟩
        · rw [henq] at hinv
          exact hinv
        · rw [henq] at hinv
          exact ih l' hinv
  refine ⟨henqueue cfg.batches _ ⟨?_, fun _ => rfl, trivial, ?_, ?_, ?_⟩, le_refl _, ?_, ?_⟩
  · simp
  · intro topic order hmem
    cases hmem
  · intro topic ev hev
    cases hev
  · intro topic hne
    exact absurd rfl hne
  · intro ev hev
    cases hev
  · exact List.Pairwise.nil

end Stream

end MarketInfo
