import MarketInfo.DexRuntime.Coverage
import MarketInfo.Lib.Transition

/-! # The owner of the runtime state

Workers publish blocks: a worker takes a lease on the block's key, notes the
publication as a durable operation, writes the row, reads the row back and gives it
to the owner, which applies it to the state. The state is saved at a checkpoint;
after a crash the operations that no checkpoint covers are executed again before
anything else.
-/

namespace MarketInfo.DexRuntime

inductive Kind where
  | batch
  | block
  | logs
deriving DecidableEq

/-- A publication; `content` stands for its batch or its logs. -/
structure FrozenWrite where
  kind : Kind
  block : Block
  batch : Hash
  content : Hash
  expected : UInt64
deriving DecidableEq

abbrev Identity := Kind × BlockKey × UInt64 × Hash

def FrozenWrite.key (f : FrozenWrite) : BlockKey := DexRuntime.key f.block

def FrozenWrite.identity (f : FrozenWrite) : Identity :=
  (f.kind, f.key, f.block.revision, f.batch)

/-- An operation that `Begin` has made durable. -/
structure Operation where
  sequence : Nat
  id : Identity
  payload : FrozenWrite
deriving DecidableEq

/-- A retained operation: applied to the state, and covered by the last checkpoint. -/
structure Entry where
  op : Operation
  applied : Bool
  covered : Bool
deriving DecidableEq

/-- The rows of the database by key. -/
abbrev Rows := BlockKey → Option Block

/-- A row that the database takes: its anchor is complete and it is committed. -/
def Block.Complete (b : Block) : Prop :=
  b.chainID = 1 ∧ b.number ≠ 0 ∧ b.hash ≠ hashOf 0 ∧ b.revision ≠ 0 ∧ b.committed = true

instance (b : Block) : Decidable b.Complete :=
  inferInstanceAs (Decidable (b.chainID = 1 ∧ b.number ≠ 0 ∧ b.hash ≠ hashOf 0 ∧ b.revision ≠ 0 ∧
    b.committed = true))

/-- `putDEXBlock`, where it does not refuse: only a newer revision replaces a row, and none takes
back that a row is final. -/
def put (rows : Rows) (b : Block) : Option Rows :=
  -- the checks of the block's other columns are calls that fail before they take effect
  if b.Complete ∧ b.manifest ≠ hashOf 0 then
    match rows (key b) with
    | none => some (Function.update rows (key b) (some b))
    | some prev =>
        if b.revision < prev.revision then some rows
        else if b.revision = prev.revision then if b = prev then some rows else none
        else if prev.finality = "finalized" ∧ ¬ b.Final then none
        else if prev.manifest ≠ b.manifest then none
        else some (Function.update rows (key b) (some b))
  else none

/-- Where a worker is in `execute`, with the publication that it was called for. -/
inductive Phase where
  | idle
  | admission (f : FrozenWrite)
  | inspect (f : FrozenWrite)
  | begin (f : FrozenWrite) (selected : FrozenWrite)
  | release (f : FrozenWrite)
  | write (f : FrozenWrite) (op : Operation)
  | reread (f : FrozenWrite) (op : Operation)
  | settle (f : FrozenWrite) (op : Operation) (actual : Option Block)
deriving DecidableEq

/-- The key on which the worker holds the lease. -/
def Phase.lease : Phase → Option BlockKey
  | .inspect f => some f.key
  | .begin f _ => some f.key
  | .release f => some f.key
  | .write f _ => some f.key
  | .reread f _ => some f.key
  | .settle f _ _ => some f.key
  | _ => none

/-- A poisoned owner answers every request with its error. One that is down has crashed, or is
being opened again. -/
inductive Mode where
  | running
  | poisoned
  | down
deriving DecidableEq

structure Runtime where
  rows : Rows
  mode : Mode
  state : State
  saved : State
  inflight : BlockKey → Bool
  pending : BlockKey → Option Identity
  entries : List Entry
  issued : Nat
  workers : Nat → Phase

def Runtime.goTo (r : Runtime) (w : Nat) (p : Phase) : Runtime :=
  { r with workers := Function.update r.workers w p }

def Runtime.poison (r : Runtime) : Runtime := { r with mode := .poisoned }

def Runtime.hold (r : Runtime) (k : BlockKey) (held : Bool) : Runtime :=
  { r with inflight := Function.update r.inflight k held }

/-- `Find`. -/
def Runtime.find (r : Runtime) (id : Identity) : Option Entry :=
  r.entries.find? fun e => e.op.id = id

/-- A step of a worker, of the owner, or of the process. -/
inductive Act where
  | propose (w : Nat) (f : FrozenWrite)
  | admission (w : Nat)
  | inspect (w : Nat) (ok : Bool)
  | begin (w : Nat) (fault : Option Bool)
  | release (w : Nat)
  | cancel (w : Nat)
  | write (w : Nat) (effect ok : Bool)
  | reread (w : Nat) (ok : Bool)
  | settle (w : Nat)
  | late (i : Nat)
  | checkpoint
  | poison
  | crash
  | replay (effect ok : Bool)
  | opened
deriving DecidableEq

/-- The admission under the owner: a publication of unknown outcome comes before the worker's
own. -/
def Runtime.admission (r : Runtime) (w : Nat) : Option Runtime :=
  match r.workers w with
  | .admission f =>
      if f.block.manifest ≠ r.state.manifest ∨ f.block.chainID ≠ 1 then
        some (r.poison.goTo w .idle)
      else if r.inflight f.key = true then some (r.goTo w .idle)
      else
        match r.find ((r.pending f.key).getD f.identity) with
        | none => some ((r.hold f.key true).goTo w (.inspect f))
        | some e =>
            if e.op.id = f.identity ∧
                e.op.payload ≠ { f with expected := e.op.payload.expected } then
              some (r.poison.goTo w .idle)
            else some ((r.hold f.key true).goTo w (.write f e.op))
  | _ => none

/-- The exact read before an operation is begun; `ok` when the database answers. -/
def Runtime.inspect (r : Runtime) (w : Nat) (ok : Bool) : Option Runtime :=
  match r.workers w with
  | .inspect f =>
      if ok = false then some (r.goTo w (.release f))
      else if f.kind = .batch then some (r.goTo w (.begin f f))
      else
        match r.rows f.key with
        | none => some (r.goTo w (.release f))
        | some current =>
            if f.expected = 0 then
              some (r.goTo w (.begin f { f with expected := current.revision }))
            else if current.revision ≠ f.expected ∧ current.revision < f.block.revision then
              some (r.goTo w (.release f))
            else some (r.goTo w (.begin f f))
  | _ => none

/-- `Begin`. A fault poisons the owner; it may come before or after the operation is durable. -/
def Runtime.begin (r : Runtime) (w : Nat) (fault : Option Bool) : Option Runtime :=
  match r.workers w with
  | .begin f selected =>
      match r.find f.identity with
      | some e =>
          if fault = none ∧ e.op.payload = selected then
            some ({ r with pending := Function.update r.pending f.key (some f.identity) }.goTo w
              (.write f e.op))
          else some (r.poison.goTo w (.release f))
      | none =>
          let op : Operation := ⟨r.issued + 1, f.identity, selected⟩
          let entry : Entry := ⟨op, false, false⟩
          let noted := { r with issued := r.issued + 1, entries := r.entries ++ [entry] }
          match fault with
          | none =>
              some ({ noted with
                pending := Function.update r.pending f.key (some f.identity) }.goTo w (.write f op))
          | some true => some (noted.poison.goTo w (.release f))
          | some false => some (r.poison.goTo w (.release f))
  | _ => none

/-- The original transaction. It may fail before or after it took effect. -/
def Runtime.write (r : Runtime) (w : Nat) (effect ok : Bool) : Option Runtime :=
  match r.workers w with
  | .write f op =>
      match put r.rows op.payload.block with
      | none => some (r.goTo w (.settle f op none))
      | some rows =>
          if ok = true then some ({ r with rows }.goTo w (.reread f op))
          else if effect = true then some ({ r with rows }.goTo w (.settle f op none))
          else some (r.goTo w (.settle f op none))
  | _ => none

/-- A transaction that was given up takes effect after all: one of an operation that failed, or of
a process that is gone. -/
def Runtime.late (r : Runtime) (i : Nat) : Option Runtime :=
  match r.entries[i]? with
  | none => none
  | some e => (put r.rows e.op.payload.block).map fun rows => { r with rows }

/-- The actual row, or nothing when it cannot be read. -/
def Runtime.reread (r : Runtime) (w : Nat) (ok : Bool) : Option Runtime :=
  match r.workers w with
  | .reread f op =>
      some (r.goTo w (.settle f op (if ok then r.rows op.payload.key else none)))
  | _ => none

/-- `Applied` on the entry of an operation. -/
def mark (op : Operation) (e : Entry) : Entry := if e.op = op then { e with applied := true } else e

/-- The worker's result under the owner. -/
def Runtime.settle (r : Runtime) (w : Nat) : Option Runtime :=
  match r.workers w with
  | .settle f op none =>
      some ({ r.hold f.key false with
        pending := Function.update r.pending f.key (some op.id) }.goTo w .idle)
  | .settle f op (some actual) =>
      match r.state.apply actual with
      | .error _ => some (((r.hold f.key false).poison).goTo w .idle)
      | .ok state =>
          if (r.entries.any fun e => e.op = op) = true then
            some ({ r.hold f.key false with
              state
              entries := r.entries.map (mark op)
              pending := Function.update r.pending f.key none }.goTo w
                (if op.id = f.identity then .idle else .admission f))
          else some (({ r.hold f.key false with state }.poison).goTo w .idle)
  | _ => none

/-- The state becomes the checkpoint. The entries that the checkpoint before it covered go. -/
def Runtime.checkpoint (r : Runtime) : Runtime :=
  { r with
    saved := r.state
    entries := (r.entries.filter fun e => ¬ e.covered).map fun e =>
      { e with covered := e.applied } }

/-- What is left of the process: the database and the files. -/
def Runtime.crash (r : Runtime) : Runtime :=
  { r with
    mode := .down
    state := r.saved
    inflight := fun _ => false
    pending := fun _ => none
    entries := r.entries.map fun e => { e with applied := e.covered }
    workers := fun _ => .idle }

/-- `Open` executes the next operation that is not applied; where that fails it gives up. -/
def Runtime.replay (r : Runtime) (effect ok : Bool) : Option Runtime :=
  match r.entries.find? fun e => ¬ e.applied with
  | none => none
  | some e =>
      match put r.rows e.op.payload.block with
      | none => some r.crash
      | some rows =>
          if ok = true then
            match rows e.op.payload.key with
            | none => some { r with rows }.crash
            | some actual =>
                match r.state.apply actual with
                | .error _ => some { r with rows }.crash
                | .ok state => some { r with rows, state, entries := r.entries.map (mark e.op) }
          else if effect = true then some { r with rows }.crash
          else some r.crash

def Runtime.step (r : Runtime) : Act → Option Runtime
  | .propose w f =>
      if r.workers w = .idle ∧ f.block.revision ≠ 0 then some (r.goTo w (.admission f)) else none
  | .admission w => if r.mode = .running then r.admission w else none
  | .inspect w ok => r.inspect w ok
  | .begin w fault => if r.mode = .running then r.begin w fault else none
  | .release w =>
      match r.workers w with
      | .release f =>
          if r.mode = .running then some ((r.hold f.key false).goTo w .idle) else none
      | _ => none
  | .cancel w =>
      -- the owner does not take the request, or answers it with its poison
      match r.workers w with
      | .admission _ => some (r.goTo w .idle)
      | .begin f _ => some (r.goTo w (.release f))
      | .release _ => if r.mode = .poisoned then some (r.goTo w .idle) else none
      | .settle _ _ _ => if r.mode = .poisoned then some (r.goTo w .idle) else none
      | _ => none
  | .write w effect ok => r.write w effect ok
  | .reread w ok => r.reread w ok
  | .settle w => if r.mode = .running then r.settle w else none
  | .late i => r.late i
  | .checkpoint => if r.mode = .poisoned then none else some r.checkpoint
  | .poison => if r.mode = .running then some r.poison else none
  | .crash => some r.crash
  | .replay effect ok => if r.mode = .down then r.replay effect ok else none
  | .opened =>
      if r.mode = .down ∧ (r.entries.all fun e => e.applied) = true then
        some { r with mode := .running }
      else none

/-- A step that can be taken. -/
def Runtime.Step (r : Runtime) (a : Act) (r' : Runtime) : Prop := r.step a = some r'

/-- A converted state with its database, ready to be opened. -/
def Runtime.initial (rows : Rows) (state : State) : Runtime :=
  ⟨rows, .down, state, state, fun _ => false, fun _ => none, [], 0, fun _ => .idle⟩

end MarketInfo.DexRuntime
