import MarketInfo.Keeper.Events
import MarketInfo.Lib.OrderedMap
import MarketInfo.Lib.Transition
import MarketInfo.Lib.Leader

/-! # Selection of rental orders

Rental orders are discovered from events and admitted one at a time, slot by slot, into the
focus or the explore lane of a round. Instants are nanoseconds of Unix time, and what is
only reported of an admission is left out.
-/

namespace MarketInfo.Keeper.Dynamic

open Json (Text)
open Discovery (hexText)
open Events (Bytes RawEvent RentalEvent EventRow RawFromRow seedRevision)

def zeroTime : Int := Time.zero.unixNano

def second : Int := 1000000000

def minute : Int := 60 * second

/-- `UTC`, to a microsecond. -/
def UTC (t : Int) : Int := t - t % 1000

/-! ## Orders and checks -/

structure Candidate where
  Ambiguous : Bool := false
  LastNumber : UInt64 := 0
  LastTx : UInt32 := 0
  LastLog : UInt32 := 0
  Renter : Bytes
  Receiver : Bytes
  LastActivity : Int
  Origin : RawEvent
  Closed : Bool := false
  Verified : Bool := false
  Lifecycle : Text := []

structure DynamicOrder where
  Candidate : Dynamic.Candidate
  Amount : Option Int
  Deposit : Option Int
  BaseAt : Int
  FirstSeen : Int
  ClosurePending : Bool
  Conflicts : List RawEvent := []

structure DynamicCheck where
  Generation : Bytes
  Verified : Bool
  Attempts : UInt8 := 0
  Failures : UInt8 := 0
  Revision : String := seedRevision
  NextSeed : Int := zeroTime
  NextCheck : Int := zeroTime
  FairSince : Int
  LastAttempt : Int
  LastSuccess : Int := zeroTime
  LatestStatus : String := ""
  Liquidatable : Option Bool := none
  Deposit : Option Int := none
  ObservedAt : Int := zeroTime

inductive Lane | focus | explore
deriving DecidableEq

structure SelectionMember where
  SlotNo : UInt8
  Renter : Bytes
  Receiver : Bytes
  Generation : Bytes
  RequestedLane : Lane
  ActualLane : Lane
  SelectedAt : Int
  Reason : String
  Outcome : String := ""

structure DynamicRound where
  ID : Nat
  Started : Int
  Slots : UInt8 := 0
  Selected : List Text := []
  Members : List SelectionMember := []
  Active : Option SelectionMember := none
  Continue : Bool := false
  Closing : String := ""

structure DynamicWork where
  Ready : Bool := true
  NextRate : Int := zeroTime
  NextRound : Int := zeroTime
  Round : Option DynamicRound := none
  Orders : OrderedMap Text DynamicOrder := .empty
  Checks : OrderedMap Text DynamicCheck := .empty

def dynamicPair (renter receiver : Bytes) : Text := hexText renter ++ hexText receiver

def Candidate.pair (can : Candidate) : Text := dynamicPair can.Renter can.Receiver

section

-- the digest of what the origin of a candidate is
variable (generationBytes : Candidate → Bytes)

def DynamicWork.getCheck (w : DynamicWork) (key : Text) (o : DynamicOrder) : DynamicCheck :=
  let gen := generationBytes o.Candidate
  match w.Checks.get key with
  | none =>
      { Generation := gen, Verified := o.Candidate.Verified, FairSince := zeroTime, LastAttempt := zeroTime }
  | some v =>
      if v.Generation ≠ gen then
        { Generation := gen, Verified := o.Candidate.Verified, FairSince := v.FairSince, LastAttempt := v.LastAttempt }
      else if v.Revision ≠ seedRevision then
        { v with Attempts := 0, Revision := seedRevision, NextSeed := zeroTime }
      else v

def DynamicWork.setOrder (w : DynamicWork) (key : Text) (o : DynamicOrder) : DynamicWork :=
  { w with Orders := w.Orders.set key o }

def DynamicWork.setCheck (w : DynamicWork) (key : Text) (e : DynamicCheck) : DynamicWork :=
  { w with Checks := w.Checks.set key e }

/-! ## Discovery -/

/-- An event with its positions in the receipt. -/
structure Receipt where
  Row : RentalEvent
  TransactionIndex : Option UInt32
  ReceiptLogIndex : Option UInt32

def verifiedResearchEvent (r : Receipt) : Bool :=
  r.Row.ResourceType = 1 && r.Row.PositionStatus = "receipt_verified" && r.Row.Finality = "solid" &&
    r.TransactionIndex.isSome && r.ReceiptLogIndex.isSome

def sameOrigin (a b : RawEvent) : Bool := a.Transaction = b.Transaction && a.Index = b.Index

def appendDynamicConflict (rows : List RawEvent) (r : RawEvent) : List RawEvent :=
  if rows.any fun old => sameOrigin old r then rows else rows ++ [r]

/-- A source record that is older than the discovery of its order makes it earlier. -/
def DynamicWork.seenEarlier (w : DynamicWork) (key : Text) (old : DynamicOrder) (available : Int) :
    DynamicWork × DynamicOrder :=
  if available ≠ zeroTime ∧ (old.FirstSeen = zeroTime ∨ available < old.FirstSeen) then
    let old := { old with FirstSeen := available }
    let w := w.setOrder key old
    let e := w.getCheck generationBytes key old
    if e.LastAttempt = zeroTime ∧ (e.FairSince = zeroTime ∨ available < e.FairSince) then
      (w.setCheck key { e with FairSince := available }, old)
    else (w, old)
  else (w, old)

/-- Where an event that is not the origin of its order stands to it. -/
inductive Placement
  | stale
  | conflicting
  | current (ambiguous : Bool)

def originText (r : RawEvent) : Text := r.Transaction ++ Nat.toDigits 10 r.Index.toNat

def place (old : DynamicOrder) (raw : RawEvent) (verified : Option Receipt) : Placement :=
  let can := old.Candidate
  if raw.BlockNumber < can.Origin.BlockNumber then .stale
  else if raw.BlockNumber = can.Origin.BlockNumber then
    if verified.isNone || !can.Verified then
      if originText raw < originText can.Origin then .conflicting else .current true
    else
      match verified.bind (·.TransactionIndex), verified.bind (·.ReceiptLogIndex) with
      | some tx, some log =>
          if tx < can.LastTx ∨ tx = can.LastTx ∧ log ≤ can.LastLog then .stale else .current false
      | _, _ => .stale
  else .current false

/-- The candidate of the order that an event makes, from the one it continues. -/
def nextCandidate (old : Option Candidate) (same : Bool) (raw : RawEvent) (r : RentalEvent)
    (verified : Option Receipt) (ambiguous closing : Bool) : Candidate :=
  let fresh : Candidate :=
    { Renter := r.Renter, Receiver := r.Receiver, LastActivity := r.BlockTime.unixNano, Origin := raw,
      Ambiguous := ambiguous }
  let can := if same then old.getD fresh else fresh
  let can := { can with
    Origin := raw, LastActivity := r.BlockTime.unixNano, Lifecycle := old.elim [] (·.Lifecycle) }
  match verified.filter verifiedResearchEvent with
  | some v =>
      let renewed : Bool := r.EventKind = "rent" && (old.any (·.Closed) || can.Lifecycle = [])
      { can with
        Verified := true, Ambiguous := false, LastNumber := v.Row.BlockNumber,
        LastTx := v.TransactionIndex.getD 0, LastLog := v.ReceiptLogIndex.getD 0, Closed := closing,
        Lifecycle := if renewed then
            hexText v.Row.TxId ++ ':' :: Nat.toDigits 10 (v.ReceiptLogIndex.getD 0).toNat
          else can.Lifecycle }
  | none => if same then can else { can with Verified := false, Closed := false }

/-- An event that becomes the origin of its order. -/
def DynamicWork.record (w : DynamicWork) (key : Text) (old : Option DynamicOrder) (same : Bool) (raw : RawEvent)
    (r : RentalEvent) (verified : Option Receipt) (ambiguous : Bool) (now : Int) : DynamicWork :=
  let available := r.AvailableAt.unixNano
  let seen := old.elim zeroTime (·.FirstSeen)
  let first := if seen ≠ zeroTime then seen else if available ≠ zeroTime then available else UTC now
  let closing : Bool := r.EventKind = "liquidate" || r.EventKind = "return" && r.AmountSun = some 0
  let can := nextCandidate (old.map (·.Candidate)) same raw r verified ambiguous closing
  let o : DynamicOrder :=
    { Candidate := can, Amount := r.AmountSun, Deposit := r.SecurityDepositSun, BaseAt := r.BlockTime.unixNano,
      FirstSeen := first, ClosurePending := closing && !can.Verified }
  let o := old.elim o fun old =>
    if raw.BlockNumber = old.Candidate.Origin.BlockNumber ∧ (same = false ∨ old.Conflicts ≠ []) then
      { o with
        Conflicts := appendDynamicConflict (appendDynamicConflict old.Conflicts old.Candidate.Origin) raw
        Candidate := { can with Ambiguous := true, Verified := false } }
    else o
  let w := w.setOrder key o
  let check := { w.getCheck generationBytes key o with Verified := can.Verified }
  w.setCheck key (if check.FairSince = zeroTime then { check with FairSince := first } else check)

/-- `dynamicApplyRaw`, once the event is read. -/
def DynamicWork.applyRow (w : DynamicWork) (raw : RawEvent) (r : RentalEvent) (verified :
    Option Receipt) (now : Int) :
    DynamicWork :=
  let key := dynamicPair r.Renter r.Receiver
  match w.Orders.get key with
  | none => w.record generationBytes key none false raw r verified false now
  | some old =>
      let (w, old) := w.seenEarlier generationBytes key old r.AvailableAt.unixNano
      if sameOrigin old.Candidate.Origin raw then
        if old.Candidate.Verified && verified.isNone then w
        else w.record generationBytes key (some old) true raw r verified false now
      else
        match place old raw verified with
        | .stale => w
        | .conflicting =>
            w.setOrder key { old with
              Candidate := { old.Candidate with Ambiguous := true }
              Conflicts := appendDynamicConflict (appendDynamicConflict old.Conflicts old.Candidate.Origin) raw }
        | .current ambiguous => w.record generationBytes key (some old) false raw r verified ambiguous now

def DynamicWork.dynamicApplyRaw (w : DynamicWork) (raw : RawEvent) (verified : Option Receipt) (now : Int) :
    Except String DynamicWork :=
  (EventRow raw).map fun r => w.applyRow generationBytes raw r verified now

def laterReceipt (a b : Receipt) : Bool :=
  b.Row.BlockNumber < a.Row.BlockNumber || a.Row.BlockNumber = b.Row.BlockNumber &&
    (b.TransactionIndex.getD 0 < a.TransactionIndex.getD 0 || a.TransactionIndex.getD 0 = b.TransactionIndex.getD 0 &&
      b.ReceiptLogIndex.getD 0 < a.ReceiptLogIndex.getD 0)

/-- The newest of the events that the conflicts came from, if all of them are there. -/
def newestOf (events : List Receipt) (ev : Receipt) : List RawEvent → Option Receipt → Option Receipt
  | [], newest => newest
  | raw :: rest, newest =>
      match events.find? fun r => verifiedResearchEvent r && r.Row.Renter = ev.Row.Renter &&
          r.Row.Receiver = ev.Row.Receiver && hexText r.Row.TxId = raw.Transaction &&
          r.Row.ProviderEventIndex = raw.Index with
      | none => none
      | some r => newestOf events ev rest (if newest.all (laterReceipt r) then some r else newest)

/-- `dynamicResolveConflicts`, for the order of one event of the batch. -/
def DynamicWork.resolveConflict (w : DynamicWork) (events : List Receipt) (ev : Receipt) (now : Int) :
    Except String DynamicWork :=
  let key := dynamicPair ev.Row.Renter ev.Row.Receiver
  match w.Orders.get key with
  | none => .ok w
  | some old =>
      match newestOf events ev old.Conflicts none with
      | none => .ok w
      | some newest =>
          match RawFromRow newest.Row with
          | none => .error "rental_event_content"
          | some raw =>
              (w.setOrder key { old with
                Conflicts := []
                Candidate := { old.Candidate with Ambiguous := false, Verified := false, Origin := raw }
              }).dynamicApplyRaw generationBytes raw (some newest) now

/-! ## Choosing an order -/

structure RentalRate where
  Usable : Bool
  Rate : Int
  AvailableAt : Int

/-- What the scheduler reads besides its own work. `Usable` of a rate is that it is a valid
observation of the current implementation. -/
structure Environment where
  Opportunities : Bool
  Active : Bool
  Started : Int
  Coverage : Int
  IdentityStatus : String
  CallersValid : List Bytes
  Blocked : Bool
  Exhausted : Bool
  Rate : Option RentalRate

def researchCaller (callers : List Bytes) (can : Candidate) : Option Bytes :=
  callers.find? fun caller => caller.length = 21 && caller ≠ can.Renter && caller ≠ can.Receiver

structure Pressure where
  numerator : Int
  denominator : Int

def pressureFor (rate : Option RentalRate) (o : DynamicOrder) (e : DynamicCheck) (now : Int) :
    Option Pressure := do
  let r ← rate
  if r.Usable = false ∨ r.Rate ≤ 0 ∨ now < r.AvailableAt ∨ 5 * minute < now - r.AvailableAt then none
  else if e.Deposit = some 0 ∧ e.Liquidatable = some false then none
  else
    let (deposit, at') :=
      if e.Deposit.isSome ∧ e.ObservedAt ≠ zeroTime then (e.Deposit, e.ObservedAt) else (o.Deposit, o.BaseAt)
    let a ← o.Amount
    let d ← deposit
    if a ≤ 0 ∨ d < 0 ∨ at' = zeroTime ∨ now < at' ∨ 24 * 60 * minute < now - at' then none
    else
      let denominator := a * r.Rate
      return ⟨max 0 (d * 1000000000000000000 - denominator * ((now - at') / second)), denominator⟩

def lessPressure (a b : Pressure) : Bool := a.numerator * b.denominator < b.numerator * a.denominator

def equalPressure (a b : Pressure) : Bool := a.numerator * b.denominator = b.numerator * a.denominator

structure DynamicChoice where
  key : Text
  order : DynamicOrder
  check : DynamicCheck
  lane : Lane
  reason : String
  rank : Nat
  pressure : Option Pressure := none

def DynamicWork.selected (w : DynamicWork) : List Text := w.Round.elim [] (·.Selected)

/-- Whether an order may be admitted into the explore lane. -/
def DynamicWork.eligible (w : DynamicWork) (callers : List Bytes) (now : Int) (key : Text) (o : DynamicOrder) :
    Bool :=
  let e := w.getCheck generationBytes key o
  !(32 < o.Conflicts.length || w.selected.any (· = key) || o.Candidate.Closed || now < e.NextCheck ||
      !e.Verified && (3 ≤ e.Attempts || now < e.NextSeed) || (researchCaller callers o.Candidate).isNone) &&
    (EventRow o.Candidate.Origin).toOption.any fun row => row.ResourceType = 1

def fresh (e : DynamicCheck) (now : Int) : Bool :=
  e.LatestStatus = "ok" && e.Liquidatable = some true && e.ObservedAt ≠ zeroTime && e.ObservedAt ≤ now &&
    now - e.ObservedAt ≤ 5 * minute && e.Verified

def DynamicWork.choiceOf (w : DynamicWork) (env : Environment) (lane : Lane) (now : Int) (key : Text)
    (o : DynamicOrder) : Option DynamicChoice :=
  let e := w.getCheck generationBytes key o
  let ch : DynamicChoice := { key := key, order := o, check := e, lane := lane, reason := "oldest_waiting", rank := 3 }
  if w.eligible generationBytes env.CallersValid now key o = false then none
  else if lane = .explore then some ch
  else if o.Candidate.Ambiguous || o.ClosurePending then none
  else if fresh e now then some { ch with rank := 0, reason := "fresh_liquidatable" }
  else (pressureFor env.Rate o e now).map fun p =>
    if e.Verified then { ch with pressure := some p, rank := 1, reason := "pressure_verified" }
    else { ch with pressure := some p, rank := 2, reason := "pressure_indexed" }

/-- The one that has waited longest, and of those the first key. -/
def fairer (since since' : Int) (key key' : Text) : Bool := since < since' || since = since' && key < key'

def DynamicChoice.less (lane : Lane) (a b : DynamicChoice) : Bool :=
  if lane = .explore then fairer a.check.FairSince b.check.FairSince a.key b.key
  else if a.rank ≠ b.rank then a.rank < b.rank
  else
    let last := fairer a.check.LastAttempt b.check.LastAttempt a.key b.key
    (a.pressure.bind fun p => b.pressure.map fun q => if equalPressure p q then last else lessPressure p q).getD last

/-- `chooseDynamic` over the orders in the order of a scan. -/
def DynamicWork.chooseFrom (w : DynamicWork) (env : Environment) (lane : Lane) (now : Int)
    (entries : List (Text × DynamicOrder)) : Option DynamicChoice :=
  (entries.filterMap fun e => w.choiceOf generationBytes env lane now e.1 e.2).foldl
    (fun best ch => if best.all (ch.less lane) then some ch else best) none

def DynamicWork.chooseDynamic (w : DynamicWork) (env : Environment) (lane : Lane) (now : Int) :
    Option DynamicChoice :=
  w.chooseFrom generationBytes env lane now w.Orders.entries

/-! ## Rounds -/

/-- The work with the operation in flight and the pause after it. -/
structure State where
  Work : DynamicWork := {}
  InFlightCapture : Option Nat := none
  NextCheck : Int := zeroTime

def DynamicWork.finishDynamicMember (w : DynamicWork) (outcome : String) : DynamicWork :=
  { w with Round := w.Round.map fun r =>
      match r.Active with
      | none => r
      | some m =>
          { r with Members := r.Members ++ [{ m with Outcome := outcome }], Active := none, Continue := false } }

/-- The round is closed at the clock of its proof. -/
def DynamicWork.closeDynamicRound (w : DynamicWork) (clock : Int) : DynamicWork :=
  if w.Round.any fun r => r.Active.isNone then
    { w with Round := none, NextRound := UTC (clock + 30 * second) }
  else w

/-- A round whose source is not current, or whose budget is used. -/
def DynamicWork.suspend (w : DynamicWork) (outcome : String) (clock : Int) : DynamicWork :=
  let w := if w.Round.any fun r => r.Active.isSome && r.Continue then w.finishDynamicMember outcome else w
  w.closeDynamicRound clock

def State.startDynamicOperation (s : State) (o : DynamicOrder) (e : DynamicCheck) (capture : Nat)
    (now : Int) : State :=
  let w := s.Work
  if e.Verified = false ∨ o.Candidate.Ambiguous ∨ o.ClosurePending then
    { s with
      Work := w.setCheck o.Candidate.pair
        { e with Attempts := e.Attempts + 1, NextSeed := UTC (now + 30 * minute) }
      InFlightCapture := some capture }
  else { s with InFlightCapture := some capture }

def State.continueDynamicSlot (s : State) (r : DynamicRound) (m : SelectionMember) (capture : Nat)
    (now : Int) : State :=
  let w := s.Work
  let key := dynamicPair m.Renter m.Receiver
  match (w.Orders.get key).filter fun o => !(o.Candidate.Closed || o.Candidate.Ambiguous || o.ClosurePending ||
      generationBytes o.Candidate ≠ m.Generation) with
  | none => { s with Work := w.finishDynamicMember "superseded_or_closed" }
  | some o =>
      let e := w.getCheck generationBytes key o
      if e.Verified = false then { s with Work := w.finishDynamicMember "seed_unverified" }
      else
        { s with Work := { w with Round := some { r with Continue := false } } }.startDynamicOperation o e capture now

structure Admission where
  key : Text
  lane : Lane
deriving DecidableEq

/-- `scheduleDynamic` once it has chosen. -/
def State.admitChoice (s : State) (lane : Lane) (choice : DynamicChoice) (slot : UInt8) (round capture : Nat)
    (now : Int) : State :=
  let w := s.Work
  let r := w.Round.getD { ID := round, Started := UTC now }
  let can := choice.order.Candidate
  let m : SelectionMember :=
    { SlotNo := slot, Renter := can.Renter, Receiver := can.Receiver, Generation := generationBytes can,
      RequestedLane := lane, ActualLane := choice.lane, SelectedAt := UTC now, Reason := choice.reason }
  let e := { choice.check with LastAttempt := UTC now, FairSince := UTC now }
  let w := { w with
    Round := some { r with Slots := slot, Selected := r.Selected ++ [choice.key], Active := some m } }
  { s with Work := w.setCheck choice.key e }.startDynamicOperation choice.order e capture now

def Lane.other : Lane → Lane
  | .focus => .explore
  | .explore => .focus

def Lane.text : Lane → String
  | .focus => "focus"
  | .explore => "explore"

/-- The lane of the slot, or the other one where the lane is empty. -/
def DynamicWork.chooseEither (w : DynamicWork) (env : Environment) (lane : Lane) (now : Int) :
    Option DynamicChoice :=
  (w.chooseDynamic generationBytes env lane now).or
    ((w.chooseDynamic generationBytes env lane.other now).map fun ch =>
      { ch with reason := lane.text ++ "_empty_" ++ ch.reason })

/-- `scheduleDynamic`, and what it admits. A round is closed at `clock`, read after `now`. -/
def State.scheduleDynamic (s : State) (env : Environment) (now clock : Int) (round capture : Nat) :
    State × Option Admission :=
  let w := s.Work
  if w.Ready = false ∨ env.Opportunities = false then (s, none)
  else if s.InFlightCapture.isSome ∨ env.Active then (s, none)
  else if now < s.NextCheck ∨ now < w.NextRound ∨ now < env.Started + 5 * minute then (s, none)
  else if w.Round.any fun r => r.Active.isNone &&
      (50 ≤ r.Slots || 120 * minute ≤ now - r.Started || r.Closing ≠ "") then
    ({ s with Work := w.closeDynamicRound clock }, none)
  else if env.Coverage = zeroTime ∨ 5 * minute < now - env.Coverage ∨ now < env.Coverage ∨
      env.IdentityStatus ≠ "verified_manifest" ∨ env.CallersValid = [] ∨ env.Blocked then
    ({ s with Work := w.suspend "source_not_current" clock }, none)
  else if env.Exhausted then ({ s with Work := w.suspend "daily_budget" clock }, none)
  else
    match w.Round.bind fun r => r.Active.map fun m => (r, m) with
    | some (r, m) =>
        (if r.Continue then s.continueDynamicSlot generationBytes r m capture now else s, none)
    | none =>
        if w.NextRate ≤ now then
          ({ s with Work := { w with NextRate := UTC (now + 5 * minute) }, InFlightCapture := some capture }, none)
        else
          let slot : UInt8 := w.Round.elim 1 fun r => r.Slots + 1
          let lane : Lane := if slot % 5 = 0 then .explore else .focus
          match w.chooseEither generationBytes env lane now with
          | none =>
              let w := w.closeDynamicRound clock
              ({ s with Work := { w with NextRound := UTC (now + 30 * second) } }, none)
          | some choice =>
              (s.admitChoice generationBytes lane choice slot round capture now, some ⟨choice.key, choice.lane⟩)

/-! ## Completing an operation -/

structure RentalState where
  Status : String
  Liquidatable : Option Bool
  /-- `rentalStateIdentityVerified`. -/
  Verified : Bool
  AvailableAt : Int
  SecurityDepositSun : Option Int
  HeadAfterTime : Int

structure Operation where
  Kind : String
  Capture : Nat
  DynamicSlot : UInt8
  DynamicRound : Nat
  Failed : Bool
  Candidate : Dynamic.Candidate
  RentalStates : List RentalState
  /-- A probe of the batch proves the reward. -/
  Certified : Bool

def dynamicFailureDelay (n : UInt8) : Int :=
  min (5 * minute * 2 ^ (min n.toNat 4 - 1)) (30 * minute)

/-- The check after one observed state of its order. -/
def observed (rate : Option RentalRate) (op : Operation) (current : DynamicOrder) (clock : Int) (e :
    DynamicCheck)
    (r : RentalState) : DynamicCheck :=
  if op.Failed ∨ r.Status ≠ "ok" ∨ r.Verified = false then e
  else
    match r.Liquidatable with
    | none => e
    | some liquidatable =>
        let e := { e with
          LatestStatus := "ok", LastSuccess := r.AvailableAt, Deposit := r.SecurityDepositSun,
          Liquidatable := some liquidatable, ObservedAt := r.HeadAfterTime }
        if liquidatable = false then
          let near := (pressureFor rate current { e with Failures := 0 } clock).any fun p =>
            p.numerator ≤ p.denominator * 1800
          { e with Failures := 0, NextCheck := UTC (clock + if near then 5 * minute else 30 * minute) }
        else if op.Certified then { e with Failures := 0, NextCheck := UTC (clock + minute) }
        else { e with LatestStatus := "simulation_unconfirmed" }

/-- `completeDynamic`, of a seed or of a state. -/
def State.completeDynamic (s : State) (rate : Option RentalRate) (op : Operation) (clock : Int) :
    State :=
  let w := s.Work
  match w.Round.bind fun r => r.Active.map fun m => (r, m) with
  | none => s
  | some (r, m) =>
      if op.DynamicSlot = 0 ∨ op.DynamicRound ≠ r.ID ∨ op.DynamicSlot ≠ m.SlotNo then s
      else
        let s := { s with
          InFlightCapture := if s.InFlightCapture = some op.Capture then none else s.InFlightCapture
          NextCheck := UTC (clock + 30 * second) }
        let key := op.Candidate.pair
        match (w.Orders.get key).filter fun o => generationBytes o.Candidate = m.Generation && !o.Candidate.Closed with
        | none => { s with Work := w.finishDynamicMember "superseded_or_closed" }
        | some current =>
            let e := w.getCheck generationBytes key current
            if op.Kind = "seed" then
              if op.Failed = false ∧ current.Candidate.Verified ∧ current.Candidate.Ambiguous = false ∧
                  current.ClosurePending = false then
                let w := w.setCheck key { e with Verified := true }
                { s with Work := { w with Round := some { r with Continue := true } } }
              else
                let e := { e with LatestStatus := "seed_failed", NextCheck := UTC (clock + 30 * minute) }
                { s with Work := (w.setCheck key e).finishDynamicMember "seed_failed" }
            else
              let failures := e.Failures + 1
              let e := { e with
                LatestStatus := "unknown", Failures := failures
                NextCheck := UTC (clock + dynamicFailureDelay failures) }
              let e := op.RentalStates.foldl (observed rate op current clock) e
              { s with Work := (w.setCheck key e).finishDynamicMember e.LatestStatus }

/-- `completeRentalRate`, without the rate it found. -/
def State.completeRentalRate (s : State) (capture : Nat) (clock : Int) : State :=
  { s with
    InFlightCapture := if s.InFlightCapture = some capture then none else s.InFlightCapture
    NextCheck := UTC (clock + 30 * second) }

/-! ## Runs -/

structure System where
  state : State := {}
  clock : Int := 0

inductive Event
  | apply (raw : RawEvent) (verified : Option Receipt) (now : Int)
  | resolve (events : List Receipt) (ev : Receipt) (now : Int)
  | retry (key : Text) (attempts : UInt8) (next : Int)
  | schedule (env : Environment) (admitted : Option Admission) (now : Int)
  | complete (op : Operation) (now : Int)
  | rate (capture : Nat) (now : Int)

def Event.admits (key : Text) : Event → Prop
  | .schedule _ (some a) _ => a.key = key
  | _ => False

/-- One step under a clock that does not go back. An event that cannot be read stops the
scheduler, so it is no step. -/
inductive Step : System → Event → System → Prop
  | apply (s : System) (raw : RawEvent) (verified : Option Receipt) (now : Int) (w : DynamicWork)
      (hclock : s.clock ≤ now) (h : s.state.Work.dynamicApplyRaw generationBytes raw verified now = .ok w) :
      Step s (.apply raw verified now) ⟨{ s.state with Work := w }, now⟩
  | resolve (s : System) (events : List Receipt) (ev : Receipt) (now : Int) (w : DynamicWork)
      (hclock : s.clock ≤ now) (h : s.state.Work.resolveConflict generationBytes events ev now = .ok w) :
      Step s (.resolve events ev now) ⟨{ s.state with Work := w }, now⟩
  | retry (s : System) (key : Text) (o : DynamicOrder) (attempts : UInt8) (next : Int)
      (ho : s.state.Work.Orders.get key = some o) :
      Step s (.retry key attempts next)
        { s with state := { s.state with
          Work := s.state.Work.setCheck key
            { s.state.Work.getCheck generationBytes key o with Attempts := attempts, NextSeed := next } } }
  | schedule (s : System) (env : Environment) (now clock : Int) (round capture : Nat) (hclock : s.clock ≤ now)
      (hclock' : now ≤ clock) :
      Step s (.schedule env (s.state.scheduleDynamic generationBytes env now clock round capture).2 now)
        ⟨(s.state.scheduleDynamic generationBytes env now clock round capture).1, clock⟩
  | complete (s : System) (rate : Option RentalRate) (op : Operation) (now : Int) (hclock : s.clock ≤ now) :
      Step s (.complete op now) ⟨s.state.completeDynamic generationBytes rate op now, now⟩
  | rate (s : System) (capture : Nat) (now : Int) (hclock : s.clock ≤ now) :
      Step s (.rate capture now) ⟨s.state.completeRentalRate capture now, now⟩

end

end MarketInfo.Keeper.Dynamic
