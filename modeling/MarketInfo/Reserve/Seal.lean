import MarketInfo.Discovery.Capital
import MarketInfo.Lib.Check
import MarketInfo.Lib.Listing
import MarketInfo.Model.Time
import MarketInfo.Reserve.Rows

/-! # Sealing and checking a batch

`Seal` puts into the capture how many rows of each kind there are and a digest of each list,
sorted by a key of its own. `Validate` makes the digests again and compares.
-/

namespace MarketInfo.Reserve

open Preimage
open Listing (sortBy)

/-- What is captured. -/
structure Batch where
  capture : Capture
  states : List State
  quotes : List Quote
  logs : List Log
  receipts : List Receipt
  receiptData : List ReceiptData

/-! ## Digests -/

variable (sha256 : Bytes → Hash)

/-- `ID`. What no machine can hold has none. -/
def ID (s : Shape) (v : s.Val) : Option Bytes := (reserveEncoding s v).map fun b => (sha256 b).toList

def listShape (elem : Shape) : Shape := .list slice elem

/-- The order of Go strings. -/
def strLess (a b : Bytes) : Bool := decide (a.map UInt8.toNat < b.map UInt8.toNat)

/-- `dex.Hash.String`. -/
def Hash.string (h : Hash) : Json.Text := "0x".toList ++ Discovery.hexText h.toList

def stateRow (states : List State) : (listShape stateShape).Val :=
  some ((sortBy (fun a b => strLess a.folio b.folio) states).map State.val)

def quoteRow (quotes : List Quote) : (listShape quoteShape).Val :=
  some ((sortBy (fun a b => strLess a.quoteId b.quoteId) quotes).map Quote.val)

def logLess (a b : Log) : Bool :=
  if a.anchor.number ≠ b.anchor.number then decide (a.anchor.number < b.anchor.number)
  else decide (a.index < b.index)

def logRow (logs : List Log) : (listShape logShape).Val := some ((sortBy logLess logs).map Log.val)

def memberLess (a b : Member) : Bool :=
  if a.block ≠ b.block then decide (Hash.string a.block < Hash.string b.block)
  else decide (Hash.string a.tx < Hash.string b.tx)

def memberRow (receipts : List Receipt) : (listShape memberShape).Val :=
  some ((sortBy memberLess (receipts.map Receipt.member)).map Member.val)

def StateMembers (states : List State) : Option Bytes := ID sha256 _ (stateRow states)
def QuoteMembers (quotes : List Quote) : Option Bytes := ID sha256 _ (quoteRow quotes)
def LogMembers (logs : List Log) : Option Bytes := ID sha256 _ (logRow logs)
def ReceiptMembers (receipts : List Receipt) : Option Bytes := ID sha256 _ (memberRow receipts)

def Receipt.ref (r : Receipt) : ReceiptRef :=
  ⟨r.anchor.hash.toList, r.txHash.toList, r.receiptHash.toList, r.calldataHash.toList⟩

def refLess (a b : ReceiptRef) : Bool :=
  if a.blockHash ≠ b.blockHash then strLess a.blockHash b.blockHash else strLess a.txHash b.txHash

/-- The references of the receipts, in order. -/
def receiptRefs (receipts : List Receipt) : List ReceiptRef := sortBy refLess (receipts.map Receipt.ref)

/-- `Seal`, at an instant. -/
def Seal (now : Int) (b : Batch) : Option Batch := do
  let stateMembers ← StateMembers sha256 b.states
  let quoteMembers ← QuoteMembers sha256 b.quotes
  let logMembers ← LogMembers sha256 b.logs
  let receiptMembers ← ReceiptMembers sha256 b.receipts
  return { b with capture := { b.capture with
    receiptRefs := receiptRefs b.receipts
    actualStates := UInt32.ofNat b.states.length
    actualQuotes := UInt32.ofNat b.quotes.length
    logCount := UInt32.ofNat b.logs.length
    actualReceipts := UInt32.ofNat b.receipts.length
    stateMembers := stateMembers
    quoteMembers := quoteMembers
    logMembers := logMembers
    receiptMembers := receiptMembers
    availableAt := now
    revision := UInt64.ofInt (unixMicro now)
    committed := true } }

/-! ## Receipt data -/

/-- `time.Time.IsZero`. -/
@[reducible] def IsZero (t : Int) : Prop := t = Time.zero.unixNano

def ReceiptDataHash (d : ReceiptData) : Option Bytes :=
  ID sha256 receiptDataShape { d with dataHash := [], materializedAt := Time.zero.unixNano }.val

/-- The loop over the logs, with the index of the one before. -/
def checkLogs (before : Option UInt32) : List ReceiptLog → Except String Unit
  | [] => .ok ()
  | l :: rest => do
      Check.failIf (l.emitter.length ≠ 20 ∨ 4 < l.topics.length ∨ ∃ i ∈ before, l.logIndex ≤ i)
        "receipt_data_log_identity"
      Check.checkAll (fun t => Check.failIf (t.length ≠ 32) "receipt_data_log_topic") l.topics
      checkLogs (some l.logIndex) rest

def ValidateReceiptData (d : ReceiptData) (r : Receipt) : Except String Unit := do
  Check.failIf (d.blockHash.length ≠ 32 ∨ d.txHash.length ≠ 32 ∨ d.receiptHash.length ≠ 32 ∨
    d.calldataHash.length ≠ 32 ∨ d.dataHash.length ≠ 32 ∨ IsZero d.blockTime)
    "receipt_data_invalid_hash_or_time"
  Check.failIf (d.chainId ≠ 1 ∨ r.anchor.chainId ≠ 1 ∨ d.blockNumber ≠ r.anchor.number ∨
    d.blockHash ≠ r.anchor.hash.toList ∨ d.txHash ≠ r.txHash.toList ∨ d.txIndex ≠ r.txIndex ∨
    d.blockTime ≠ r.anchor.time ∨ d.receiptHash ≠ r.receiptHash.toList ∨
    d.calldataHash ≠ r.calldataHash.toList ∨ d.logCount ≠ r.logCount ∨ IsZero d.materializedAt)
    "receipt_data_anchor_mismatch"
  Check.failIf (d.logs.length ≠ d.logCount.toNat ∨ some d.dataHash ≠ ReceiptDataHash sha256 d ∨
    sha256 d.calldata ≠ r.calldataHash) "receipt_data_digest_or_count_mismatch"
  Check.failIf (if 4 ≤ d.calldata.length then r.selector ≠ d.calldata.take 4 else r.selector.length ≠ 0)
    "receipt_data_selector_mismatch"
  checkLogs none d.logs

def logFactShape : Shape := row ""
  [("Chain", .uint u64), ("Number", .uint u64), ("Block", arrayShape), ("Tx", arrayShape),
    ("Index", .uint u32), ("TxIndex", .uint u32), ("Emitter", arrayShape),
    ("Topics", .list slice arrayShape), ("Data", .list slice (.uint u8)), ("Removed", .bool)]

def LogFact (l : Log) : Option Bytes :=
  ID sha256 logFactShape
    (l.anchor.chainId, l.anchor.number, arrayVal l.anchor.hash, arrayVal l.txHash, l.index.toUInt64,
      l.txIndex.toUInt64, arrayVal l.emitter, some (l.topics.map arrayVal),
      some (l.data.map UInt8.toUInt64), l.removed, ())

/-- `copy` into an array of zeros. -/
def copyInto (n : Nat) (s : Bytes) : Vector UInt8 n := Vector.ofFn fun i => s.getD i 0

/-- A log of the record, as the chain gives it. -/
def ReceiptLog.log (v : ReceiptLog) (r : Receipt) : Log where
  anchor := r.anchor
  txHash := r.txHash
  txIndex := r.txIndex
  index := v.logIndex
  emitter := copyInto 20 v.emitter
  topics := v.topics.map (copyInto 32)
  data := v.data
  event := []
  removed := false

/-- What the record knows under an index: the last log there, or an empty text. -/
def factAt (d : ReceiptData) (r : Receipt) (index : UInt32) : Option Bytes :=
  match d.logs.reverse.find? fun v => v.logIndex = index with
  | some v => LogFact sha256 (v.log r)
  | none => some []

def ReceiptDataContains (d : ReceiptData) (r : Receipt) (wanted : List Log) : Except String Unit := do
  ValidateReceiptData sha256 d r
  Check.checkAll (fun l => Check.failIf (l.anchor.hash ≠ r.anchor.hash ∨ l.txHash ≠ r.txHash ∨
    factAt sha256 d r l.index ≠ LogFact sha256 l) "receipt_selected_log_conflict") wanted

/-! ## `Validate` -/

/-- `Uint256`. -/
def uint256 (n : Int) : Bool := decide (0 ≤ n ∧ n < 2 ^ 256)

/-- The walk over a row: every integer there is fits 256 bits. -/
def uint256Fits : (s : Shape) → s.Val → Bool
  | .pointer .integer, none => true
  | .pointer .integer, some n => uint256 n
  | .pointer _, none => true
  | .pointer elem, some v => uint256Fits elem v
  | .list _ elem, vs => (vs.getD []).all (uint256Fits elem)
  | .struct _ fields, v => uint256Fits fields v
  | .field _ first rest, v => uint256Fits first v.1 && uint256Fits rest v.2
  | _, _ => true

def checkCapture (c : Capture) : Except String Unit := do
  Check.failIf (c.chainId ≠ 1 ∨ c.manifestHash.length ≠ 32 ∨ c.captureId.length ≠ 32 ∨
    c.batchId.length ≠ 32 ∨ c.payloadHash.length ≠ 32 ∨ c.planHash.length ≠ 32 ∨
    c.fromHash.length ≠ 32 ∨ c.toHash.length ≠ 32 ∨ c.committed = false ∨ c.toBlock < c.fromBlock ∨
    IsZero c.availableAt ∨ IsZero c.fromTime ∨ IsZero c.toTime) "invalid_capture"
  Check.failIf (c.expectedStates < c.actualStates ∨ c.expectedQuotes < c.actualQuotes ∨
    c.expectedReceipts < c.actualReceipts) "invalid_expected_member_count"

def checkMembers (b : Batch) : Except String Unit :=
  let c := b.capture
  Check.failIf (c.actualStates ≠ UInt32.ofNat b.states.length ∨
    c.actualQuotes ≠ UInt32.ofNat b.quotes.length ∨ c.logCount ≠ UInt32.ofNat b.logs.length ∨
    c.actualReceipts ≠ UInt32.ofNat b.receipts.length ∨
    some c.stateMembers ≠ StateMembers sha256 b.states ∨ some c.quoteMembers ≠ QuoteMembers sha256 b.quotes ∨
    some c.logMembers ≠ LogMembers sha256 b.logs ∨
    some c.receiptMembers ≠ ReceiptMembers sha256 b.receipts) "member_digest_mismatch"

def checkState (c : Capture) (s : State) : Except String Unit := do
  Check.failIf (s.folio.length ≠ 20 ∨ s.payloadHash.length ≠ 32 ∨ IsZero s.availableAt)
    "invalid_state_identity"
  Check.failIf (s.captureId ≠ c.captureId ∨ s.batchId ≠ c.batchId ∨ s.manifestHash ≠ c.manifestHash ∨
    s.blockHash ≠ c.toHash ∨ s.blockNumber ≠ c.toBlock ∨ s.chainId ≠ 1) "state_anchor_mismatch"
  Check.failIf (uint256Fits _ s.val = false) "uint256_overflow"
  Check.failIf (s.stateComplete = true ∧ (s.identityOk = false ∨ s.basket.length = 0 ∨
    s.totalSupplyRaw = none ∨ s.mintFeeD18 = none ∨ s.daoFeeDenominator = none))
    "complete_state_missing_fields"
  Check.checkAll (fun a => Check.failIf (a.token.length ≠ 20) "invalid_basket_token") s.basket

def checkLeg (l : Leg) : Except String Unit := do
  Check.failIf (l.tokenIn.length ≠ 20 ∨ l.tokenOut.length ≠ 20 ∨ l.payloadHash.length ≠ 32 ∨
    l.requestedRaw = none ∨ IsZero l.availableAt) "invalid_leg_identity"
  Check.failIf (0 < l.pathTokens.length ∧ (l.pathTokens.length ≠ l.pathPools.length + 1 ∨
    l.poolFees.length ≠ l.pathPools.length)) "invalid_leg_path"

def checkQuote (c : Capture) (q : Quote) : Except String Unit := do
  Check.failIf (q.folio.length ≠ 20 ∨ q.tokenIn.length ≠ 20 ∨ q.tokenOut.length ≠ 20 ∨
    q.budgetToken.length ≠ 20 ∨ q.routeId.length ≠ 32 ∨ q.quoteId.length ≠ 32 ∨
    q.payloadHash.length ≠ 32 ∨ q.requestedBudgetRaw = none ∨ IsZero q.availableAt)
    "invalid_quote_identity"
  Check.failIf (q.captureId ≠ c.captureId ∨ q.batchId ≠ c.batchId ∨ q.manifestHash ≠ c.manifestHash ∨
    q.blockHash ≠ c.toHash ∨ q.blockNumber ≠ c.toBlock ∨ q.chainId ≠ 1) "quote_anchor_mismatch"
  Check.failIf (uint256Fits _ q.val = false) "uint256_overflow"
  Check.failIf (q.quality ≠ ascii "incomplete".toList ∧ (q.amountInRaw = none ∨ q.amountOutRaw = none ∨
    q.expectedLegs ≠ q.successfulLegs ∨ q.withinBudget ≠ some true)) "invalid_complete_quote"
  Check.failIf (q.quality = ascii "quoted_complete".toList ∧ 0 < q.sharedPools.length) "shared_pool_quote"
  Check.checkAll checkLeg q.dexLegs

/-- The logs of the transaction of a receipt. -/
def logsOf (logs : List Log) (r : Receipt) : List Log :=
  logs.filter fun l => l.anchor.hash = r.anchor.hash ∧ l.txHash = r.txHash

def checkReceiptData (b : Batch) : Except String Unit := do
  Check.failIf (b.receiptData.length ≠ b.receipts.length) "receipt_data_members_missing"
  Check.checkAll (fun p => ReceiptDataContains sha256 p.1 p.2 (logsOf b.logs p.2))
    (b.receiptData.zip b.receipts)

def checkLog (c : Capture) (l : Log) : Except String Unit :=
  Check.failIf (Hash.string l.anchor.manifest ≠ "0x".toList ++ Discovery.hexText c.manifestHash ∨
    l.anchor.batch.toList ≠ c.batchId ∨ l.anchor.number < c.fromBlock ∨ c.toBlock < l.anchor.number ∨
    l.removed = true) "log_anchor_mismatch"

def refRow (refs : List ReceiptRef) : (listShape receiptRefShape).Val := some (refs.map ReceiptRef.val)

def Validate (b : Batch) : Except String Unit := do
  checkCapture b.capture
  checkMembers sha256 b
  Check.checkAll (checkState b.capture) b.states
  Check.checkAll (checkQuote b.capture) b.quotes
  Check.failIf (ID sha256 _ (refRow (receiptRefs b.receipts)) ≠ ID sha256 _ (refRow b.capture.receiptRefs))
    "receipt_reference_members_mismatch"
  if 0 < b.receiptData.length then checkReceiptData sha256 b
  Check.checkAll (checkLog b.capture) b.logs

end MarketInfo.Reserve
