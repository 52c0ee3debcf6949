import MarketInfo.Lib.OrderedMap
import MarketInfo.Lib.Json
import MarketInfo.Model.Time

/-! # Receipt tasks of the bridge watcher

Every fill and refund asks for the receipt of its transaction. A task lives in
the receipt pages as long as a capture depends on it; a schedule orders the
pending ones, and an index finds the tasks a capture contributed to. The pages
are ordered maps whose own storage does not fail, and which blocks are covered
by finalized decoded captures is a parameter of each step.
-/

namespace MarketInfo.Across

open Json (Text)

/-! ## Tasks -/

/-- A capture id, a string of 32 bytes. -/
structure CaptureID where
  text : Text
  size : text.length = 32

theorem CaptureID.text_ne (id : CaptureID) : id.text ≠ [] := by
  intro h
  have hsize := id.size
  rw [h] at hsize
  cases hsize

structure ReceiptTask where
  chainID : Nat
  blockHash : Text
  txHash : Text
deriving DecidableEq

/-- `runtimeReceipt`. -/
structure Receipt where
  task : ReceiptTask
  block : Nat
  refund : Bool
  known : Bool
  feeComplete : Bool
  transfers : Bool
  pending : Bool
  retryUnknown : Bool
  parents : OrderedMap Text UInt8
  firstObserved : Time
  lastAttempt : Time

/-- `runtimeReceipt{}`. -/
def Receipt.zero : Receipt :=
  ⟨⟨0, [], []⟩, 0, false, false, false, false, false, false, .empty, Time.zero, Time.zero⟩

def runtimeReceiptEvent : UInt8 := 1
def runtimeReceiptRefund : UInt8 := 2
def runtimeReceiptKnown : UInt8 := 4
def runtimeReceiptFee : UInt8 := 8
def runtimeReceiptTransfers : UInt8 := 16

/-- The bits all parents contributed. -/
def orAll (parents : OrderedMap Text UInt8) : UInt8 :=
  parents.entries.foldr (fun e bits => e.2 ||| bits) 0

/-- The flags and the pending rule, for given bits. -/
def Receipt.flagged (r : Receipt) (bits : UInt8) : Receipt :=
  let refund := bits &&& runtimeReceiptRefund != 0
  let known := bits &&& runtimeReceiptKnown != 0
  let transfers := bits &&& runtimeReceiptTransfers != 0
  { r with
    refund := refund
    known := known
    feeComplete := bits &&& runtimeReceiptFee != 0
    transfers := transfers
    pending := bits &&& runtimeReceiptEvent != 0 && !known || refund && !transfers ||
      r.retryUnknown }

def Receipt.recompute (r : Receipt) : Receipt := r.flagged (orAll r.parents)

/-! ## Schedule keys -/

/-- The last `width` decimal digits. -/
def fixedDigits : Nat → Nat → Text
  | 0, _ => []
  | width + 1, n => fixedDigits width (n / 10) ++ [Nat.digitChar (n % 10)]

/-- `%020d` of a 64-bit number. -/
def stampText (n : Int) : Text :=
  if n < 0 then '-' :: fixedDigits 19 n.natAbs else fixedDigits 20 n.toNat

/-- `LastAttempt.UnixNano()`, zero for the zero time. -/
def Receipt.stamp (r : Receipt) : Int :=
  if r.lastAttempt.IsZero then 0 else r.lastAttempt.unixNano

def Receipt.urgent (r : Receipt) : Char := if r.refund && !r.transfers then '0' else '1'

def receiptScheduleKey (id : Text) (r : Receipt) : Text :=
  r.urgent :: '/' :: (stampText r.stamp ++ '/' :: id)

/-! ## The parent index -/

/-- From a capture id to the set of receipt ids it contributed to. -/
abbrev ParentIndex := OrderedMap Text (OrderedMap Text Unit)

def ParentIndex.add (index : ParentIndex) (id parent : Text) : ParentIndex :=
  if parent = [] then index else index.set parent (((index.get parent).getD .empty).set id ())

/-- Deleting from a set, and the set with its last member. -/
def ParentIndex.remove (index : ParentIndex) (id parent : Text) : ParentIndex :=
  match index.get parent with
  | none => index
  | some ids =>
      if (ids.delete id).entries = [] then index.delete parent
      else index.set parent (ids.delete id)

def parentKeys (parents : OrderedMap Text UInt8) : List Text := parents.entries.map Prod.fst

/-! ## The state -/

/-- The receipt part of `runtimeState`, with its pages enabled. -/
structure ReceiptState where
  receiptPages : OrderedMap Text Receipt
  receiptSchedule : OrderedMap Text Text
  receiptParents : ParentIndex
  receiptCleanupAfter : Text

def ReceiptState.empty : ReceiptState := ⟨.empty, .empty, .empty, []⟩

inductive ReceiptError
  | errRecovery
deriving DecidableEq

/-- The schedule without the row an old task has there. -/
def unschedule (schedule : OrderedMap Text Text) (id : Text) (old : Receipt) :
    OrderedMap Text Text :=
  if old.pending then schedule.delete (receiptScheduleKey id old) else schedule

def ReceiptState.receiptSet (s : ReceiptState) (id : Text) (r : Receipt) : ReceiptState :=
  let old := (s.receiptPages.get id).getD Receipt.zero
  let schedule := unschedule s.receiptSchedule id old
  { s with
    receiptSchedule := if r.pending then schedule.set (receiptScheduleKey id r) id else schedule
    receiptPages := s.receiptPages.set id r
    receiptParents := (parentKeys r.parents).foldl (fun index parent => index.add id parent)
      ((parentKeys old.parents).foldl (fun index parent => index.remove id parent)
        s.receiptParents) }

def ReceiptState.receiptDelete (s : ReceiptState) (id : Text) : ReceiptState :=
  match s.receiptPages.get id with
  | none => s
  | some old =>
      { s with
        receiptSchedule := unschedule s.receiptSchedule id old
        receiptPages := s.receiptPages.delete id
        receiptParents := (parentKeys old.parents).foldl
          (fun index parent => index.remove id parent) s.receiptParents }

def ReceiptState.parentReceipts (s : ReceiptState) (parent : Text) : List Text :=
  ((s.receiptParents.get parent).getD .empty).entries.map Prod.fst

/-! ## Facts -/

section facts

variable (ID : ReceiptTask → Text)

/-- The task after one more fact. -/
def Receipt.withFact (r : Receipt) (task : ReceiptTask) (block : Nat) (parent : Text)
    (bits : UInt8) (observed : Time) : Receipt :=
  Receipt.recompute { r with
    firstObserved := if r.firstObserved.IsZero then observed else r.firstObserved
    task := task
    block := block
    retryUnknown := if bits &&& runtimeReceiptKnown != 0 then false else r.retryUnknown
    parents := r.parents.set parent ((r.parents.get parent).getD 0 ||| bits) }

def ReceiptState.receiptFact (s : ReceiptState) (task : ReceiptTask) (block : Nat) (parent : Text)
    (bits : UInt8) (observed : Time) : ReceiptState :=
  s.receiptSet (ID task)
    (((s.receiptPages.get (ID task)).getD Receipt.zero).withFact task block parent bits observed)

/-- The fields of a capture the receipts depend on. -/
structure ReceiptCapture where
  captureId : CaptureID
  canonical : Bool
  committed : Bool
  finalized : Bool
  receipts : Bool
  completedTasks : Nat
  availableAt : Time

/-- A row of a batch that names a transaction: a fill with its output token, a
refund with its token, a transfer, or a receipt with its fee status. -/
structure TxRow where
  task : ReceiptTask
  blockNumber : Nat
  token : Text
  feeComplete : Bool

structure ReceiptBatch where
  capture : ReceiptCapture
  fills : List TxRow
  refunds : List TxRow
  transfers : List TxRow
  receipts : List TxRow

def WordAddress (a : Text) : Text := List.replicate 12 (Char.ofNat 0) ++ a

/-- The facts of a batch, in order: task, block and bits. -/
def ReceiptBatch.facts (b : ReceiptBatch) (USDC : Nat → Option Text)
    (finalizedDecodedBlock : Nat → Nat → Bool) : List (ReceiptTask × Nat × UInt8) :=
  let fresh := fun row : TxRow => !finalizedDecodedBlock row.task.chainID row.blockNumber
  if b.capture.canonical && b.capture.committed then
    ((b.fills.filter fun f => (USDC f.task.chainID).map WordAddress = some f.token && fresh f).map
        fun f => (f.task, f.blockNumber, runtimeReceiptEvent)) ++
      ((b.refunds.filter fun r => USDC r.task.chainID = some r.token && fresh r).map
        fun r => (r.task, r.blockNumber, runtimeReceiptEvent ||| runtimeReceiptRefund)) ++
      (b.transfers.map fun tr => (tr.task, tr.blockNumber, runtimeReceiptTransfers)) ++
      (if b.capture.receipts && b.capture.completedTasks = 1 then
        b.receipts.map fun rec => (rec.task, rec.blockNumber,
          if rec.feeComplete then runtimeReceiptKnown ||| runtimeReceiptFee
          else runtimeReceiptKnown)
      else [])
  else []

end facts

/-- The task of a sealed capture: its bits move to the unnamed parent. -/
def Receipt.sealed (r : Receipt) (parent : Text) : Receipt :=
  match r.parents.get parent with
  | none => r
  | some bits =>
      { r with parents :=
          (r.parents.set [] ((r.parents.get []).getD 0 ||| bits)).delete parent }

def ReceiptState.sealOne (s : ReceiptState) (parent id : Text) : ReceiptState :=
  match s.receiptPages.get id with
  | none => s
  | some r => if (r.parents.get parent).isSome then s.receiptSet id (r.sealed parent) else s

def ReceiptState.sealReceiptParents (s : ReceiptState) (c : ReceiptCapture) : ReceiptState :=
  if c.canonical && c.finalized then
    (s.parentReceipts c.captureId.text).foldl (fun s id => s.sealOne c.captureId.text id) s
  else s

/-- The task without the contribution of one capture. -/
def Receipt.orphaned (r : Receipt) (parent : Text) : Receipt :=
  Receipt.recompute { r with parents := r.parents.delete parent }

def ReceiptState.orphanOne (s : ReceiptState) (parent id : Text) : ReceiptState :=
  let r := (s.receiptPages.get id).getD Receipt.zero
  if (r.orphaned parent).parents.entries = [] then s.receiptDelete id
  else s.receiptSet id (r.orphaned parent)

/-- What `revise` does to the receipts once the capture itself is revised. -/
def ReceiptState.revise (s : ReceiptState) (c : ReceiptCapture) : ReceiptState :=
  if c.canonical then s.sealReceiptParents c
  else (s.parentReceipts c.captureId.text).foldl (fun s id => s.orphanOne c.captureId.text id) s

/-- One bounded pass over tasks whose receipt is complete. -/
def ReceiptState.pruneReceipts (s : ReceiptState) (finalizedDecodedBlock : Nat → Nat → Bool) :
    ReceiptState :=
  let eligible := (s.receiptPages.past s.receiptCleanupAfter).filter
    fun e => e.2.pending || e.2.feeComplete
  let page := eligible.take 128
  match page.getLast? with
  | none => { s with receiptCleanupAfter := [] }
  | some last =>
      { page.foldl (fun s e =>
          if !e.2.pending && e.2.feeComplete &&
              finalizedDecodedBlock e.2.task.chainID e.2.block then s.receiptDelete e.1 else s) s with
        receiptCleanupAfter := last.1 }

/-- `batch`: facts, sealing, pruning. The blocks decoded and finalized before
and after the capture itself is applied are the two predicates. -/
def ReceiptState.batch (ID : ReceiptTask → Text) (USDC : Nat → Option Text) (s : ReceiptState)
    (b : ReceiptBatch) (before after : Nat → Nat → Bool) : ReceiptState :=
  let s := (b.facts USDC before).foldl (fun s fact =>
    s.receiptFact ID fact.1 fact.2.1 b.capture.captureId.text fact.2.2 b.capture.availableAt) s
  (s.sealReceiptParents b.capture).pruneReceipts after

/-- A reading of the wall clock, whose Unix time in nanoseconds is a positive
64-bit number. -/
structure Clock where
  time : Time
  positive : 0 < time.unixNano
  bounded : time.unixNano < 2 ^ 63

/-- The time of the last attempt: a clock reading, or the zero time. -/
def attemptTime : Option Clock → Time
  | none => Time.zero
  | some clock => clock.time

/-- A fetch of the receipt was attempted. -/
def ReceiptState.attempt (s : ReceiptState) (id : Text) (clock : Option Clock) : ReceiptState :=
  match s.receiptPages.get id with
  | none => s
  | some r =>
      if r.pending && !decide (r.lastAttempt.Equal (attemptTime clock)) then
        s.receiptSet id { r with lastAttempt := attemptTime clock }
      else s

/-- The startup rule: a fetched receipt with an unknown fee is tried once more. -/
def ReceiptState.startup (s : ReceiptState) : ReceiptState :=
  s.receiptPages.entries.foldl (fun s e =>
    if e.2.known && !e.2.feeComplete && !e.2.pending then
      s.receiptSet e.1 { e.2 with pending := true, retryUnknown := true }
    else s) s

/-- `enableReceiptPages` on stored pages: the index is rebuilt from the tasks and
the schedule checked against them. -/
def ReceiptState.reopen (s : ReceiptState) : Except ReceiptError ReceiptState :=
  if s.receiptPages.entries.any (fun e => e.2.pending &&
      !decide (s.receiptSchedule.get (receiptScheduleKey e.1 e.2) = some e.1)) ||
      !decide (s.receiptSchedule.len = s.receiptPages.count Receipt.pending) then
    .error .errRecovery
  else .ok { s with receiptParents := s.receiptPages.entries.foldl (fun index e =>
    (parentKeys e.2.parents).foldl (fun index parent => index.add e.1 parent) index) .empty }

/-! ## Selection -/

/-- Attempted within the last minute. -/
def Receipt.recent (r : Receipt) (now : Time) : Bool :=
  !decide r.lastAttempt.IsZero && now.unixNano - r.lastAttempt.unixNano < Time.minute

/-- The plain scan, in whatever order the tasks are visited. -/
def selectPlain (readers : Nat → Bool) (now : Time) :
    List (Text × Receipt) → Option (Text × Receipt) → Option (Text × Receipt)
  | [], chosen => chosen
  | e :: rest, chosen =>
      if !e.2.pending || !readers e.2.task.chainID || e.2.recent now then
        selectPlain readers now rest chosen
      else match chosen with
        | none => selectPlain readers now rest (some e)
        | some best =>
            if receiptScheduleKey e.1 e.2 < receiptScheduleKey best.1 best.2 then
              selectPlain readers now rest (some e)
            else selectPlain readers now rest (some best)

/-- The schedule rows under one prefix. -/
def ReceiptState.selectRows (s : ReceiptState) (readers : Nat → Bool) (now : Time) (pre : Text) :
    List (Text × Text) → Except ReceiptError (Option (Text × Receipt))
  | [] => .ok none
  | (key, id) :: rest =>
      if pre.isPrefixOf key = false then .ok none
      else match s.receiptPages.get id with
        | none => .error .errRecovery
        | some r =>
            if r.pending = false ∨ receiptScheduleKey id r ≠ key then .error .errRecovery
            else if r.recent now then .ok none
            else if readers r.task.chainID then .ok (some (id, r))
            else s.selectRows readers now pre rest

def ReceiptState.selectReceipt (s : ReceiptState) (readers : Nat → Bool) (now : Time) :
    Except ReceiptError (Option (Text × Receipt)) :=
  match s.selectRows readers now ['0', '/']
      (s.receiptSchedule.visit 1 s.receiptSchedule.len ['0', '/']) with
  | .error e => .error e
  | .ok (some e) => .ok (some e)
  | .ok none => s.selectRows readers now ['1', '/']
      (s.receiptSchedule.visit 1 s.receiptSchedule.len ['1', '/'])

/-! ## Runs -/

inductive ReceiptStep
  | batch (b : ReceiptBatch) (before after : Nat → Nat → Bool)
  | revise (c : ReceiptCapture)
  | attempt (id : Text) (clock : Option Clock)
  | startup
  | prune (finalizedDecodedBlock : Nat → Nat → Bool)
  | reopen

def ReceiptState.step (ID : ReceiptTask → Text) (USDC : Nat → Option Text) (s : ReceiptState) :
    ReceiptStep → Except ReceiptError ReceiptState
  | .batch b before after => .ok (s.batch ID USDC b before after)
  | .revise c => .ok (s.revise c)
  | .attempt id clock => .ok (s.attempt id clock)
  | .startup => .ok s.startup
  | .prune finalizedDecodedBlock => .ok (s.pruneReceipts finalizedDecodedBlock)
  | .reopen => s.reopen

def ReceiptState.run (ID : ReceiptTask → Text) (USDC : Nat → Option Text) :
    ReceiptState → List ReceiptStep → Except ReceiptError ReceiptState
  | s, [] => .ok s
  | s, a :: steps => do
      let s ← s.step ID USDC a
      s.run ID USDC steps

end MarketInfo.Across
