import MarketInfo.Lib.Listing

/-! # The owner loop of a websocket shard

One goroutine owns the targets of a `wsstream` connection: it applies messages,
answers acknowledgements and resynchronizes targets. Each of these runs under the
lock of the terminal state, so it is one function of the loop. The loop carries a
record of what was done to the targets, newest first.
-/

namespace MarketInfo

namespace Stream

/-! ## Data -/

structure Message where
  topic : String
  operation : String
  requestID : String
  acknowledgement : Bool
  pong : Bool
deriving DecidableEq, Repr

inductive Phase where
  | awaitingSubscribe
  | awaitingSnapshot
  | active
  | awaitingUnsubscribe
deriving DecidableEq, Repr

/-- A message as the reader hands it to the loop. -/
structure Received (π : Type) where
  payload : π
  message : Message
  generation : Nat
  receiveOrder : Nat

/-- `streamEvent`: a control the writer has sent, or a message. -/
inductive StreamEvent (π : Type) where
  | sent (id : String)
  | received (ev : Received π)

/-- What a venue adapter gives a target: its own state, and the three callbacks.
`apply` returns whether the target has established its own snapshot. -/
structure Adapter (τ π : Type) where
  apply : String → τ → π → Bool → τ × Except String Bool
  reset : String → τ → String → τ
  invalidate : String → τ → String → τ

structure Target (τ : Type) where
  generation : Nat
  phase : Phase
  lastMessage : Option Int
  state : τ

structure Config (τ π : Type) where
  adapter : Adapter τ π
  /-- The topics of `Targets`, distinct. -/
  topics : List String
  batches : List (List String)
  queueCapacity : Nat
  preAckCapacity : Nat
  commandCapacity : Nat
  ackPerTopic : Bool
  requireAckID : Bool
  resync : Bool
  staleTargetOnly : Bool
  allowQuietActive : Bool
  silenceTimeout : Int
  subscribeTimeout : Int

structure PendingRequest where
  operation : String
  topics : List String
  deadline : Option Int

structure WriteCommand where
  id : String
  operation : String
  topics : List String

/-- What was done to a target. -/
inductive Effect (π : Type) where
  | apply (ev : Received π) (awaiting ready : Bool)
  | resync (topic : String)
  /-- The unsubscribe was acknowledged by the message received in this order. -/
  | unsubscribed (topic : String) (order : Nat)
  | subscribed (topic : String) (order : Nat)
  | invalidate (topic : String)

/-- The state of the owner loop. -/
structure Loop (τ π : Type) where
  targets : String → Target τ
  /-- `map[string]*pendingRequest`. -/
  pending : List (String × PendingRequest)
  nextID : Nat
  commands : List WriteCommand
  preAck : String → List (Received π)
  preAckCount : Int
  /-- Newest first. -/
  log : List (Effect π)

variable {τ π : Type}

namespace Loop

def setTarget (l : Loop τ π) (topic : String) (t : Target τ) : Loop τ π :=
  { l with targets := Function.update l.targets topic t }

def record (l : Loop τ π) (e : Effect π) : Loop τ π := { l with log := e :: l.log }

/-- `preAckCount -= len(preAck[topic]); delete(preAck, topic)`. -/
def dropBuffer (l : Loop τ π) (topic : String) : Loop τ π :=
  { l with preAckCount := l.preAckCount - (l.preAck topic).length,
           preAck := Function.update l.preAck topic [] }

def buffer (l : Loop τ π) (topic : String) (ev : Received π) : Loop τ π :=
  { l with preAckCount := l.preAckCount + 1,
           preAck := Function.update l.preAck topic (l.preAck topic ++ [ev]) }

end Loop

/-- What a step of the loop returns. -/
abbrev Result (τ π : Type) := Loop τ π × Except String Unit

/-! ## Commands -/

def enqueue (cfg : Config τ π) (l : Loop τ π) (operation : String) (topics : List String) :
    Result τ π :=
  let id := s!"r{l.nextID + 1}"
  let l := { l with nextID := l.nextID + 1,
                    pending := l.pending ++ [(id, { operation, topics, deadline := none })] }
  if l.commands.length < cfg.commandCapacity then
    ({ l with commands := l.commands ++ [{ id, operation, topics }] }, .ok ())
  else (l, .error "websocket control queue overflow")

/-- The target after a resync. -/
def Target.resynced (cfg : Config τ π) (topic cause : String) (t : Target τ) : Target τ :=
  { generation := t.generation + 1, phase := .awaitingUnsubscribe, lastMessage := none,
    state := cfg.adapter.reset topic t.state cause }

def resync (cfg : Config τ π) (l : Loop τ π) (topic cause : String) : Result τ π :=
  if cfg.resync = false then (l, .error cause)
  else
    enqueue cfg (((l.setTarget topic ((l.targets topic).resynced cfg topic cause)).record
      (.resync topic)).dropBuffer topic) "unsubscribe" [topic]

/-! ## Messages -/

/-- `target.Apply` and what follows it. -/
def applyTarget (cfg : Config τ π) (now : Int) (l : Loop τ π) (ev : Received π) : Result τ π :=
  let topic := ev.message.topic
  let t := l.targets topic
  let awaiting := decide (t.phase = .awaitingSnapshot)
  match cfg.adapter.apply topic t.state ev.payload awaiting with
  | (state, .error cause) =>
      resync cfg ((l.setTarget topic { t with state }).record (.apply ev awaiting false)) topic cause
  | (state, .ok false) =>
      ((l.setTarget topic { t with state }).record (.apply ev awaiting false), .ok ())
  | (state, .ok true) =>
      ((l.setTarget topic { t with state, phase := .active, lastMessage := some now }).record
        (.apply ev awaiting true), .ok ())

def apply (cfg : Config τ π) (now : Int) (l : Loop τ π) (ev : Received π) : Result τ π :=
  let topic := ev.message.topic
  let t := l.targets topic
  if ev.generation ≠ t.generation ∨ t.phase = .awaitingUnsubscribe then (l, .ok ())
  else if t.phase = .awaitingSubscribe then
    if cfg.preAckCapacity ≤ l.preAckCount then (l, .error "websocket shard pre-ack buffer overflow")
    else (l.buffer topic ev, .ok ())
  else applyTarget cfg now l ev

/-- Apply the buffered messages, up to the first failure. -/
def replay (cfg : Config τ π) (now : Int) (l : Loop τ π) : List (Received π) → Result τ π
  | [] => (l, .ok ())
  | ev :: rest =>
      match apply cfg now l ev with
      | (l, .error e) => (l, .error e)
      | (l, .ok ()) => replay cfg now l rest

/-! ## Acknowledgements -/

/-- The request id of an acknowledgement, looked up when the venue leaves it out. -/
def ackID (cfg : Config τ π) (l : Loop τ π) (msg : Message) : Except String String :=
  if cfg.ackPerTopic = true ∧ msg.requestID = "" ∧ cfg.requireAckID = false then
    match l.pending.filter fun p => p.2.operation = msg.operation ∧ msg.topic ∈ p.2.topics with
    | [] => .ok msg.requestID
    | [p] => .ok p.1
    | _ => .error "ambiguous websocket acknowledgement"
  else .ok msg.requestID

/-- The target after its unsubscribe was acknowledged. -/
def Target.unsubscribed (t : Target τ) : Target τ :=
  { t with generation := t.generation + 1, phase := .awaitingSubscribe }

/-- The target after its subscribe was acknowledged. -/
def Target.subscribed (now : Int) (t : Target τ) : Target τ :=
  { t with phase := .awaitingSnapshot, lastMessage := some now }

/-- The loop over the acknowledged topics; it returns the messages to replay. -/
def ackTopics (cfg : Config τ π) (now : Int) (operation : String) (order : Nat) (l : Loop τ π) :
    List String → Loop τ π × Except String (List (Received π))
  | [] => (l, .ok [])
  | topic :: rest =>
      let t := l.targets topic
      if operation = "unsubscribe" then
        if t.phase ≠ .awaitingUnsubscribe then (l, .error "unexpected unsubscribe state")
        else
          match enqueue cfg ((l.setTarget topic t.unsubscribed).record (.unsubscribed topic order))
            "subscribe" [topic] with
          | (l, .error e) => (l, .error e)
          | (l, .ok ()) => ackTopics cfg now operation order l rest
      else if t.phase ≠ .awaitingSubscribe then (l, .error "unexpected subscribe state")
      else
        match ackTopics cfg now operation order
          (((l.setTarget topic (t.subscribed now)).record (.subscribed topic order)).dropBuffer topic)
          rest with
        | (l', .error e) => (l', .error e)
        | (l', .ok events) => (l', .ok (l.preAck topic ++ events))

/-- The topics an acknowledgement covers, and what is left of its request. -/
def ackedTopics (cfg : Config τ π) (msg : Message) (request : PendingRequest) :
    Except String (List String × List String) :=
  if cfg.ackPerTopic = true then
    if msg.topic ∉ request.topics then
      .error s!"unexpected websocket acknowledgement topic {msg.topic}"
    else .ok ([msg.topic], request.topics.filter fun topic => topic ≠ msg.topic)
  else .ok (Listing.sortBy (fun a b => decide (a < b)) request.topics, [])

/-- `delete(pending, id)` when no topic is left. -/
def settle (l : Loop τ π) (id : String) (left : List String) : Loop τ π :=
  { l with pending := if left = [] then l.pending.filter (fun p => p.1 ≠ id) else
      l.pending.map fun p => if p.1 = id then (p.1, { p.2 with topics := left }) else p }

def acknowledge (cfg : Config τ π) (now : Int) (l : Loop τ π) (msg : Message) (order : Nat) :
    Result τ π :=
  match ackID cfg l msg with
  | .error e => (l, .error e)
  | .ok id =>
      match l.pending.lookup id with
      | none => (l, .error s!"unexpected or duplicate websocket {msg.operation} acknowledgement")
      | some request =>
          if request.operation ≠ msg.operation then
            (l, .error s!"unexpected or duplicate websocket {msg.operation} acknowledgement")
          else
            match ackedTopics cfg msg request with
            | .error e => (l, .error e)
            | .ok (topics, left) =>
                match ackTopics cfg now msg.operation order (settle l id left) topics with
                | (l, .error e) => (l, .error e)
                | (l, .ok events) =>
                    replay cfg now l
                      (Listing.sortBy (fun a b => decide (a.receiveOrder < b.receiveOrder)) events)

/-- One event of the queue. -/
def handle (cfg : Config τ π) (now : Int) (l : Loop τ π) : StreamEvent π → Result τ π
  | .sent id =>
      ({ l with pending := l.pending.map fun p =>
          if p.1 = id then (p.1, { p.2 with deadline := some (now + cfg.subscribeTimeout) }) else p },
        .ok ())
  | .received ev =>
      if ev.message.pong = true then (l, .ok ())
      else if ev.message.acknowledgement = false then apply cfg now l ev
      else acknowledge cfg now l ev.message ev.receiveOrder

/-! ## The ticker -/

/-- A target that was silent for too long. -/
def Stale (cfg : Config τ π) (now : Int) (t : Target τ) : Prop :=
  ¬ (cfg.allowQuietActive = true ∧ t.phase = .active) ∧
    (t.phase = .active ∨ t.phase = .awaitingSnapshot) ∧
      ∃ last ∈ t.lastMessage, cfg.silenceTimeout < now - last

instance (cfg : Config τ π) (now : Int) (t : Target τ) : Decidable (Stale cfg now t) := by
  unfold Stale
  infer_instance

def tickTargets (cfg : Config τ π) (now : Int) (l : Loop τ π) : List String → Result τ π
  | [] => (l, .ok ())
  | topic :: rest =>
      let t := l.targets topic
      if ¬ Stale cfg now t then tickTargets cfg now l rest
      else if cfg.staleTargetOnly = true then
        let state := cfg.adapter.invalidate topic t.state "topic stale or missing initial snapshot"
        tickTargets cfg now
          ((l.setTarget topic { t with state, lastMessage := none }).record (.invalidate topic)) rest
      else
        match resync cfg l topic s!"websocket target {topic} stale or missing snapshot" with
        | (l, .error e) => (l, .error e)
        | (l, .ok ()) => tickTargets cfg now l rest

def tick (cfg : Config τ π) (now : Int) (l : Loop τ π) : Result τ π :=
  match l.pending.find? fun p => ∃ deadline ∈ p.2.deadline, deadline ≤ now with
  | some p => (l, .error s!"websocket {p.2.operation} acknowledgements timed out id={p.1}")
  | none => tickTargets cfg now l cfg.topics

end Stream

end MarketInfo
