import MarketInfo.DexRuntime.Intervals
import MarketInfo.Lib.Check
import MarketInfo.Lib.OrderedMap
import MarketInfo.Model.Time

/-! # The state of the block runtime

The records of the canonical blocks that are not final yet, how many of them each
height has, and the intervals of the heights that are covered or final. A block
that the database returned is applied to all of them at once.
-/

namespace MarketInfo.DexRuntime

/-- Thirty-two bytes, as the number that they spell. -/
abbrev Hash := Fin (2 ^ 256)

def hashOf (n : Nat) : Hash := Fin.ofNat (2 ^ 256) n

structure Binding where
  service : String
  database : String
  serverUUID : String
  scopeHash : String
  schemaHash : String
  producer : String
  holder : String
  recoveryEpoch : String
  producerGeneration : UInt64
  stateVersion : UInt32
deriving DecidableEq

structure Block where
  chainID : UInt64
  number : UInt64
  hash : Hash
  manifest : Hash
  availableAt : Time
  canonical : Bool
  finality : String
  revision : UInt64
  committed : Bool
deriving DecidableEq

structure BlockState where
  number : UInt64
  revision : UInt64
  hash : Hash
  availableAt : Time
deriving DecidableEq

/-- The height in twenty digits and the hash in hexadecimal ones: as such texts, the
pairs are ordered by the height and then by the hash. -/
abbrev BlockKey := Nat ×ₗ Hash

def key (b : Block) : BlockKey := toLex (b.number.toNat, b.hash)

def heightKey (n : UInt64) : Nat := n.toNat

/-- `runtimecheckpoint.ErrConflict`. -/
def errConflict : String := "runtime operation content conflict"

/-- `runtimecheckpoint.ErrRecovery`. -/
def errRecovery : String := "runtime state requires explicit recovery"

/-- A height has fewer than `2 ^ 64` records, so its count is a plain number. -/
structure State where
  version : UInt32
  binding : Binding
  manifest : Hash
  verified : Bool
  coverage : List Interval
  finalized : List Interval
  active : OrderedMap BlockKey BlockState
  heights : OrderedMap Nat Nat

/-- The state that a conversion starts from. -/
def State.fresh (binding : Binding) (manifest : Hash) : State :=
  ⟨1, binding, manifest, false, [], [], OrderedMap.empty, OrderedMap.empty⟩

/-- A block whose record is kept among the active ones. -/
def Block.Active (b : Block) : Prop := b.canonical = true ∧ b.finality ≠ "finalized"

instance (b : Block) : Decidable b.Active :=
  inferInstanceAs (Decidable (b.canonical = true ∧ b.finality ≠ "finalized"))

/-- A block that makes its height final. -/
def Block.Final (b : Block) : Prop := b.canonical = true ∧ b.finality = "finalized"

instance (b : Block) : Decidable b.Final :=
  inferInstanceAs (Decidable (b.canonical = true ∧ b.finality = "finalized"))

def Block.state (b : Block) : BlockState := ⟨b.number, b.revision, b.hash, b.availableAt⟩

/-- `apply` on the records: the new ones, and how many of them the height has. -/
def State.record (s : State) (b : Block) (n : Nat) : Except String (State × Nat) :=
  let exist := (s.active.get (key b)).isSome
  if b.Active then
    let active := s.active.set (key b) b.state
    if exist then .ok ({ s with active }, n)
    else .ok ({ s with active, heights := s.heights.set (heightKey b.number) (n + 1) }, n + 1)
  else if exist then
    let active := s.active.delete (key b)
    if n = 0 then .error errRecovery
    else if n - 1 = 0 then
      .ok ({ s with active, heights := s.heights.delete (heightKey b.number) }, n - 1)
    else .ok ({ s with active, heights := s.heights.set (heightKey b.number) (n - 1) }, n - 1)
  else .ok (s, n)

/-- `apply` on the intervals, once the height has `n` records. -/
def State.cover (s : State) (b : Block) (n : Nat) : State :=
  let finalized := if b.Final then add s.finalized b.number else s.finalized
  let coverage :=
    if b.canonical = true ∨ n > 0 ∨ contains finalized b.number = true then
      add s.coverage b.number
    else remove s.coverage b.number
  { s with finalized, coverage }

def State.apply (s : State) (b : Block) : Except String State := do
  Check.failIf (b.manifest ≠ s.manifest ∨ b.chainID ≠ 1 ∨ b.committed = false ∨ b.number = 0 ∨
    b.revision = 0 ∨ b.hash = 0) errConflict
  Check.failIf ((s.active.get (key b)).any (fun old => b.revision < old.revision) = true)
    "dex_runtime_actual_revision_regressed"
  let count := s.heights.get (heightKey b.number)
  Check.failIf ((s.active.get (key b)).isSome = true ∧ count = none) errRecovery
  let (s, n) ← s.record b (count.getD 0)
  return s.cover b n

def State.gap (s : State) : UInt64 :=
  match s.coverage with
  | r :: _ :: _ => r.To + 1
  | _ => 0

/-- The first interval of the coverage that reaches the end of `r` also starts by its start. -/
def State.holds (s : State) (r : Interval) : Bool :=
  match s.coverage[search s.coverage fun c => c.To ≥ r.To]? with
  | some c => c.From ≤ r.From
  | none => false

def State.validate (s : State) (b : Binding) (m : Hash) : Except String Unit := do
  Check.failIf (s.version ≠ 1 ∨ s.verified = false ∨ s.binding ≠ b ∨ s.manifest ≠ m ∨
    validIntervals s.coverage = false ∨ validIntervals s.finalized = false) errRecovery
  Check.failIf (s.finalized.all s.holds = false) errRecovery

/-- From one state to another by blocks that are accepted, with the mark that a conversion
leaves when it has compared the state with the database. -/
inductive Steps : State → List Block → State → Prop
  | refl (s : State) : Steps s [] s
  | apply {s t u : State} {bs : List Block} {b : Block} :
      Steps s bs t → t.apply b = .ok u → Steps s (bs ++ [b]) u
  | verify {s t : State} {bs : List Block} :
      Steps s bs t → Steps s bs { t with verified := true }

end MarketInfo.DexRuntime
