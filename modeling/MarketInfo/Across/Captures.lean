import MarketInfo.Lib.Json
import MarketInfo.Lib.Spans
import MarketInfo.Model.Time

/-! # Captures of the bridge watcher's runtime state

What a runtime state without pages knows of its captures: the active canonical
ones, the partial ones whose logs are still to be decoded, the finalized ranges
of each chain and the invalidations under way. The watcher's orders and the
receipts change no coverage and are left out. Block numbers are unbounded; the
source's tests on the greatest one keep `To+1` from wrapping around.
-/

namespace MarketInfo.Across

open Json (Text)

inductive CaptureKind | logs | receipts | receiptTransfers | other
deriving DecidableEq

inductive CaptureStatus | complete | part | error
deriving DecidableEq

inductive CaptureFinality | head | finalized | orphaned | other
deriving DecidableEq

/-- `rest` stands for the fields that only tell two contents apart, and
`abandoned` for whether the reason holds the marker of an abandoned repair. -/
structure Capture where
  manifestHash : Text
  captureId : Text
  chainId : Nat
  captureKind : CaptureKind
  startedAt : Time
  fromBlock : Option Nat
  toBlock : Option Nat
  fromHash : Option Text
  toHash : Option Text
  completedTasks : Nat
  unknownEventCount : Nat
  status : CaptureStatus
  abandoned : Bool
  canonical : Bool
  committed : Bool
  finality : CaptureFinality
  revision : Nat
  rest : Text
deriving DecidableEq

def anchored (c : Capture) : Bool :=
  c.fromBlock.isSome && c.toBlock.isSome && c.fromHash.isSome && c.toHash.isSome

/-- The range of an anchored capture. -/
def Capture.range (c : Capture) : Span := ⟨c.fromBlock.getD 0, c.toBlock.getD 0⟩

def runtimeRaw (c : Capture) : Bool :=
  c.canonical && c.committed && c.captureKind = .logs && c.completedTasks = 1 && anchored c

def runtimeDecoded (c : Capture) : Bool :=
  runtimeRaw c && c.status = .complete && c.unknownEventCount = 0

structure RuntimeChain where
  started : Bool
  first : Nat
  last : Nat
  raw : List Span
  decoded : List Span
  anchor : Option Capture

def RuntimeChain.zero : RuntimeChain := ⟨false, 0, 0, [], [], none⟩

/-- `runtimeInvalidation`. -/
structure Invalidation where
  chain : Nat
  bad : List Nat
  reason : Text
deriving DecidableEq

structure RuntimeState where
  manifest : Text
  chains : Nat → Option RuntimeChain
  active : List Capture
  partials : List Capture
  retired : List Capture
  invalidations : List Invalidation
  cursors : Nat → Nat

inductive RuntimeError
  | captureScopeOrCommit
  | finalizedHashConflict
  | captureRevisionConflict
  | revisionIdentityRequiresVerification
  | revisionContentConflict
  | revisionPredecessorMissing
  | revisionChangedImmutableAnchor
  | batchScope
  | reorgChain
deriving DecidableEq

/-! ## Captures by id -/

def captureGet (captures : List Capture) (id : Text) : Option Capture :=
  captures.find? fun c => c.captureId = id

def captureDelete (captures : List Capture) (id : Text) : List Capture :=
  captures.filter fun c => c.captureId ≠ id

def captureSet (captures : List Capture) (c : Capture) : List Capture :=
  captureDelete captures c.captureId ++ [c]

@[simp] theorem mem_captureDelete {captures : List Capture} {id : Text} {x : Capture} :
    x ∈ captureDelete captures id ↔ x ∈ captures ∧ x.captureId ≠ id := by
  simp [captureDelete]

@[simp] theorem mem_captureSet {captures : List Capture} {c x : Capture} :
    x ∈ captureSet captures c ↔ x ∈ captures ∧ x.captureId ≠ c.captureId ∨ x = c := by
  simp [captureSet]

/-! ## Coverage -/

def RuntimeState.invalidated (s : RuntimeState) (c : Capture) : Bool :=
  anchored c && s.invalidations.any fun job =>
    job.chain = c.chainId && job.bad.any fun n => c.range.Holds n

/-- The active captures that count for the coverage of a chain. -/
def RuntimeState.counts (s : RuntimeState) (chain : Nat) (decoded : Bool) (c : Capture) : Bool :=
  c.chainId = chain && runtimeRaw c && (!decoded || runtimeDecoded c) && !s.invalidated c

def RuntimeState.coverage (s : RuntimeState) (chain : Nat) (decoded : Bool) : List Span :=
  match s.chains chain with
  | none => []
  | some ch => Span.merge ((if decoded then ch.decoded else ch.raw) ++
      (s.active.filter (s.counts chain decoded)).map Capture.range)

/-- `firstUncovered` over the range of a capture goes past its end. -/
def decodedWhole (coverage : List Span) (c : Capture) : Bool :=
  c.range.hi < Span.firstUncovered c.range.lo c.range.hi coverage

/-! ## Applying a capture -/

/-- The ends of what a chain has read. -/
def RuntimeChain.extend (ch : RuntimeChain) (c : Capture) : RuntimeChain :=
  if runtimeRaw c then
    (if ch.started then
      { ch with first := min ch.first c.range.lo, last := max ch.last c.range.hi }
    else { ch with started := true, first := c.range.lo, last := c.range.hi })
  else ch

/-- The finalized ranges and the last anchor. -/
def RuntimeChain.settle (ch : RuntimeChain) (c : Capture) : RuntimeChain where
  started := ch.started
  first := ch.first
  last := ch.last
  raw := if runtimeRaw c then Span.merge (ch.raw ++ [c.range]) else ch.raw
  decoded := if runtimeDecoded c then Span.merge (ch.decoded ++ [c.range]) else ch.decoded
  anchor := match ch.anchor with
    | none => some c
    | some a =>
        if a.range.hi < c.range.hi ∨ c.range.hi = a.range.hi ∧
            (c.startedAt.Before a.startedAt ∨
              c.startedAt.Equal a.startedAt ∧ c.captureId < a.captureId) then some c
        else some a

def RuntimeChain.read (ch : RuntimeChain) (c : Capture) : RuntimeChain :=
  if c.canonical && c.finality = .finalized && anchored c then (ch.extend c).settle c
  else ch.extend c

/-- Finalized captures leave the active ones. -/
def activeAfter (active : List Capture) (c : Capture) : List Capture :=
  if c.canonical && c.finality = .finalized && anchored c then captureDelete active c.captureId
  else if c.canonical && anchored c then captureSet active c
  else captureDelete active c.captureId

/-- A partial capture is kept while its range is not decoded. -/
def partialsHeld (partials : List Capture) (coverage : List Span) (c : Capture) :
    List Capture :=
  if runtimeRaw c && c.status = .part && !c.abandoned then
    (if decodedWhole coverage c then partials else captureSet partials c)
  else captureDelete partials c.captureId

/-- A decoded capture covers the work of partial attempts. -/
def partialsAfter (partials : List Capture) (coverage : List Span) (c : Capture) :
    List Capture :=
  if runtimeDecoded c then
    (partialsHeld partials coverage c).filter fun p =>
      !(p.chainId = c.chainId && decodedWhole coverage p)
  else partialsHeld partials coverage c

def cursorOf (next : Nat) : Nat := if 0 < next then next - 1 else 0

/-- What `capture` does once its checks have passed. -/
def RuntimeState.applied (s : RuntimeState) (ch : RuntimeChain) (c : Capture) : RuntimeState :=
  let s := { s with
    chains := Function.update s.chains c.chainId (some (ch.read c))
    active := activeAfter s.active c }
  -- the coverage is read with the new active captures
  let s := { s with partials := partialsAfter s.partials (s.coverage c.chainId true) c }
  if (ch.read c).started then
    { s with cursors := Function.update s.cursors c.chainId (cursorOf
        (Span.firstUncovered (ch.read c).first (ch.read c).last (s.coverage c.chainId false))) }
  else s

/-- `runtimeState.capture`. -/
def RuntimeState.capture (s : RuntimeState) (c : Capture) : Except RuntimeError RuntimeState :=
  match s.chains c.chainId with
  | none => .error .captureScopeOrCommit
  | some ch =>
      if c.manifestHash ≠ s.manifest ∨ c.committed = false ∨ c.revision = 0 ∨
          anchored c ∧ (c.range.hi < c.range.lo ∨ c.range.hi = 2 ^ 64 - 1) then
        .error .captureScopeOrCommit
      else if c.canonical ∧ c.finality = .finalized ∧ s.invalidated c then
        .error .finalizedHashConflict
      else match captureGet s.active c.captureId with
        | some old =>
            if c.revision < old.revision then .ok s
            else if c.revision = old.revision ∧ old ≠ c then .error .captureRevisionConflict
            else .ok (s.applied ch c)
        | none => .ok (s.applied ch c)

/-- The capture held under an id: active, partial, retired or the chain's anchor. -/
def RuntimeState.held (s : RuntimeState) (c : Capture) : Option Capture :=
  (captureGet s.active c.captureId).or
    ((captureGet s.partials c.captureId).or
      ((captureGet s.retired c.captureId).or
        (((s.chains c.chainId).bind RuntimeChain.anchor).filter fun a =>
          a.captureId = c.captureId)))

/-- An orphaned capture takes the cursor back before what it alone had read. -/
def RuntimeState.rewound (s : RuntimeState) (old c : Capture) : RuntimeState :=
  let next := Span.firstUncovered old.range.lo old.range.hi (s.coverage c.chainId false)
  if c.canonical = false ∧ runtimeRaw old ∧ next ≤ old.range.hi ∧ 0 < next ∧
      next ≤ s.cursors c.chainId then
    { s with cursors := Function.update s.cursors c.chainId (next - 1) }
  else s

/-- `runtimeState.revise`. -/
def RuntimeState.revise (s : RuntimeState) (expected : Nat) (c : Capture) :
    Except RuntimeError RuntimeState :=
  match s.held c with
  | none => .error .revisionIdentityRequiresVerification
  | some old =>
      if c.revision < old.revision then .ok s
      else if c.revision = old.revision then
        (if c ≠ old then .error .revisionContentConflict else .ok s)
      else if old.revision < expected then .error .revisionPredecessorMissing
      else if old.finality = .finalized ∧ (c.canonical = false ∨ c.finality ≠ .finalized) then
        .error .finalizedHashConflict
      else if old.fromHash.isSome ∧ (c.fromHash.isNone ∨ old.fromHash ≠ c.fromHash ∨
          old.toHash ≠ c.toHash) then
        .error .revisionChangedImmutableAnchor
      else do
        let s ← s.capture c
        return s.rewound old c

/-! ## Runs -/

inductive Item
  | batch (c : Capture)
  | revision (expected : Nat) (c : Capture)
  | mark (job : Invalidation)
  | finish (job : Invalidation)
deriving DecidableEq

def RuntimeState.retire (s : RuntimeState) (c : Capture) : RuntimeState :=
  { s with retired := captureSet s.retired c }

/-- `runtimeMarkInvalidation`, its change of the state. -/
def RuntimeState.mark (s : RuntimeState) (job : Invalidation) :
    Except RuntimeError RuntimeState :=
  match s.chains job.chain with
  | none => .error .reorgChain
  | some ch =>
      if job.bad.any fun n => ch.anchor.any fun a => n ≤ a.range.hi then
        .error .finalizedHashConflict
      else if job ∈ s.invalidations then .ok s
      else .ok { s with invalidations := s.invalidations ++ [job] }

/-- The active captures that an invalidation still has to revise. -/
def RuntimeState.affectedCaptures (s : RuntimeState) (job : Invalidation) : List Capture :=
  s.active.filter fun c => c.chainId = job.chain && job.bad.any fun n => c.range.Holds n

/-- One committed item. An invalidation is finished once it affects no capture. -/
def RuntimeState.step (s : RuntimeState) : Item → Except RuntimeError RuntimeState
  | .batch c =>
      if c.manifestHash ≠ s.manifest then .error .batchScope else (s.retire c).capture c
  | .revision expected c => do
      let s ← s.revise expected c
      return s.retire c
  | .mark job => s.mark job
  | .finish job =>
      .ok (if s.affectedCaptures job = [] then
        { s with invalidations := s.invalidations.filter (· ≠ job) } else s)

/-- The capture that an item applies to the state it meets. -/
def Item.taken (s : RuntimeState) : Item → Option Capture
  | .batch c =>
      if (captureGet s.active c.captureId).all fun old => old.revision ≤ c.revision then some c
      else none
  | .revision _ c =>
      if (s.held c).all fun old => old.revision < c.revision then some c else none
  | .mark _ => none
  | .finish _ => none

/-- Items one after the other, with the captures they applied. -/
def RuntimeState.run (s : RuntimeState) (past : List Capture) :
    List Item → Except RuntimeError (RuntimeState × List Capture)
  | [] => .ok (s, past)
  | i :: rest => do
      let s' ← s.step i
      s'.run (past ++ (i.taken s).toList) rest

def newRuntimeState (manifest : Text) (chains : List Nat) : RuntimeState where
  manifest := manifest
  chains := fun chain => if chain ∈ chains then some .zero else none
  active := []
  partials := []
  retired := []
  invalidations := []
  cursors := fun _ => 0

end MarketInfo.Across
