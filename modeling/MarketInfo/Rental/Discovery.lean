import MarketInfo.Lib.Json
import MarketInfo.Model.Time

/-! # Discovery of rental orders

The rental events of one renter and receiver, as the dynamic work folds them
into the pair's order: indexed rows first, then the receipt-verified ones. Rows
of other pairs touch other orders. A raw event is given by the fields that
`EventRow` reads back from it.
-/

namespace MarketInfo.Rental

open Json (Text)

inductive EventKind | rent | giveBack | liquidate
deriving DecidableEq

structure RawEvent where
  blockNumber : Nat
  blockTime : Time
  index : Nat
  transaction : Text
  kind : EventKind
  amountSun : Option Nat
  securityDepositSun : Option Nat
  available : Time
deriving DecidableEq

/-- Transaction and event index, by which rows of one event are recognized. -/
def RawEvent.source (r : RawEvent) : Text × Nat := (r.transaction, r.index)

/-- `raw.Transaction+fmt.Sprint(raw.Index)`. -/
def RawEvent.sourceText (r : RawEvent) : Text := r.transaction ++ Nat.toDigits 10 r.index

def RawEvent.closing (r : RawEvent) : Bool :=
  r.kind = .liquidate || r.kind = .giveBack && r.amountSun = some 0

/-- A typed event row; `raw` is what `RawFromRow` makes of it. -/
structure RentalEvent where
  raw : RawEvent
  captureId : Text
  transactionIndex : Option Nat
  receiptLogIndex : Option Nat
  energy : Bool
  receiptVerified : Bool
  solid : Bool
deriving DecidableEq

def verifiedResearchEvent (r : RentalEvent) : Bool :=
  r.energy && r.receiptVerified && r.solid && r.transactionIndex.isSome && r.receiptLogIndex.isSome

structure Candidate where
  ambiguous : Bool
  lastNumber : Nat
  lastTx : Nat
  lastLog : Nat
  lastActivity : Time
  origin : RawEvent
  closed : Bool
  verified : Bool
  lifecycle : Text

/-- `dynamicOrder`. -/
structure Order where
  candidate : Candidate
  amount : Option Nat
  deposit : Option Nat
  baseAt : Time
  firstSeen : Time
  sourceCapture : Text
  sourceOrdinal : Nat
  closurePending : Bool
  conflicts : List RawEvent

def appendDynamicConflict (rows : List RawEvent) (r : RawEvent) : List RawEvent :=
  if rows.any (fun old => old.source = r.source) then rows else rows ++ [r]

/-- An earlier availability moves the first sighting, and nothing else. -/
def Order.see (o : Order) (available : Time) : Order :=
  if ¬ available.IsZero ∧ (o.firstSeen.IsZero ∨ available.Before o.firstSeen) then
    { o with firstSeen := available }
  else o

/-- What becomes of a row from another source than the order's origin. -/
inductive Verdict
  | drop
  | note
  | place (ambiguous : Bool)

def Order.judge (old : Order) (raw : RawEvent) (verified : Option RentalEvent) : Verdict :=
  if raw.blockNumber < old.candidate.origin.blockNumber then .drop
  else if raw.blockNumber = old.candidate.origin.blockNumber then
    match verified, old.candidate.verified with
    | some v, true =>
        match v.transactionIndex, v.receiptLogIndex with
        | some tx, some log =>
            if tx < old.candidate.lastTx ∨
                tx = old.candidate.lastTx ∧ log ≤ old.candidate.lastLog then
              .drop
            else .place false
        | _, _ => .drop
    | _, _ =>
        -- Source indexes do not establish an order across transactions.
        if raw.sourceText < old.candidate.origin.sourceText then .note else .place true
  else .place false

/-- The candidate a row makes, over the one it replaces or repeats. -/
def candidateOf (old : Option Candidate) (same : Bool) (raw : RawEvent)
    (verified : Option RentalEvent) (ambiguous : Bool) : Candidate :=
  let fresh : Candidate := ⟨ambiguous, 0, 0, 0, raw.blockTime, raw, false, false, []⟩
  let lifecycle := (old.map Candidate.lifecycle).getD []
  let base : Candidate := { (if same then old.getD fresh else fresh) with
    origin := raw
    lastActivity := raw.blockTime
    lifecycle := lifecycle }
  match verified.filter verifiedResearchEvent with
  | some v =>
      { base with
        verified := true
        ambiguous := false
        lastNumber := v.raw.blockNumber
        lastTx := v.transactionIndex.getD 0
        lastLog := v.receiptLogIndex.getD 0
        closed := raw.closing
        lifecycle := if raw.kind = .rent ∧ ((old.map Candidate.closed).getD false ∨ lifecycle = [])
          then v.raw.transaction ++ ':' :: Nat.toDigits 10 (v.receiptLogIndex.getD 0)
          else lifecycle }
  | none => if same then base else { base with verified := false, closed := false }

def firstSeenOf (now : Time) (old : Option Order) (raw : RawEvent) : Time :=
  let first := (old.map Order.firstSeen).getD Time.zero
  if first.IsZero then (if raw.available.IsZero then now.utc else raw.available) else first

/-- The order a row leaves when it is placed. -/
def placed (now : Time) (old : Option Order) (same : Bool) (raw : RawEvent) (capture : Text)
    (ordinal : Nat) (verified : Option RentalEvent) (ambiguous : Bool) : Order :=
  let can := candidateOf (old.map Order.candidate) same raw verified ambiguous
  let o : Order := ⟨can, raw.amountSun, raw.securityDepositSun, raw.blockTime,
    firstSeenOf now old raw, capture, ordinal, raw.closing && !can.verified, []⟩
  match old with
  | none => o
  | some old =>
      if raw.blockNumber = old.candidate.origin.blockNumber ∧
          (same = false ∨ old.conflicts ≠ []) then
        { o with
          conflicts := appendDynamicConflict
            (appendDynamicConflict old.conflicts old.candidate.origin) raw
          candidate := { can with ambiguous := true, verified := false } }
      else o

/-- `dynamicApplyRaw`, on the pair's order. The checks it also keeps are not read
back into the order. -/
def dynamicApplyRaw (now : Time) (st : Option Order) (raw : RawEvent) (capture : Text)
    (ordinal : Nat) (verified : Option RentalEvent) : Option Order :=
  match st with
  | none => some (placed now none false raw capture ordinal verified false)
  | some before =>
      let old := before.see raw.available
      if old.candidate.origin.source = raw.source then
        if old.candidate.verified && verified.isNone then some old
        else some (placed now (some old) true raw capture ordinal verified false)
      else match old.judge raw verified with
        | .drop => some old
        | .note => some { old with
            candidate := { old.candidate with ambiguous := true }
            conflicts := appendDynamicConflict
              (appendDynamicConflict old.conflicts old.candidate.origin) raw }
        | .place ambiguous =>
            some (placed now (some old) false raw capture ordinal verified ambiguous)

/-! ## Batches -/

/-- The chain position of an event: block, transaction, log. -/
def RentalEvent.position (r : RentalEvent) : Nat ×ₗ Nat ×ₗ Nat :=
  toLex (r.raw.blockNumber, toLex (r.transactionIndex.getD 0, r.receiptLogIndex.getD 0))

/-- The later of the newest event so far and another one. -/
def newer (newest : Option RentalEvent) (r : RentalEvent) : RentalEvent :=
  match newest with
  | none => r
  | some n => if n.position < r.position then r else n

/-- The newest of the verified events behind the conflicts, if all of them are there. -/
def newestOf (events : List RentalEvent) :
    List RawEvent → Option RentalEvent → Option (Option RentalEvent)
  | [], newest => some newest
  | raw :: rest, newest =>
      match events.find? fun r => verifiedResearchEvent r && r.raw.source = raw.source with
      | none => none
      | some r => newestOf events rest (some (newer newest r))

def dynamicResolveConflicts (now : Time) (st : Option Order) (events : List RentalEvent) :
    Option Order :=
  match st with
  | none => none
  | some old =>
      if events = [] ∨ old.conflicts = [] then some old
      else match newestOf events old.conflicts none with
        | some (some newest) =>
            dynamicApplyRaw now (some { old with
              conflicts := []
              candidate := { old.candidate with
                ambiguous := false
                verified := false
                origin := newest.raw } })
              newest.raw newest.captureId newest.raw.index (some newest)
        | _ => some old

structure IndexedRow where
  raw : RawEvent
  captureId : Text
  ordinal : Nat

structure Batch where
  indexedEvents : List IndexedRow
  events : List RentalEvent

def applyIndexed (now : Time) (st : Option Order) (rows : List IndexedRow) : Option Order :=
  rows.foldl (fun st r => dynamicApplyRaw now st r.raw r.captureId r.ordinal none) st

def applyEvent (now : Time) (st : Option Order) (r : RentalEvent) : Option Order :=
  dynamicApplyRaw now st r.raw r.captureId r.raw.index (some r)

def applyEvents (now : Time) (st : Option Order) (events : List RentalEvent) : Option Order :=
  (events.filter verifiedResearchEvent).foldl (applyEvent now) st

def dynamicApplyBatch (now : Time) (st : Option Order) (b : Batch) : Option Order :=
  applyEvents now (dynamicResolveConflicts now (applyIndexed now st b.indexedEvents) b.events)
    b.events

def discover (now : Time) (batches : List Batch) : Option Order :=
  batches.foldl (dynamicApplyBatch now) none

end MarketInfo.Rental
