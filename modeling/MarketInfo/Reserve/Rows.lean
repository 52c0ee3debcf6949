import MarketInfo.Preimage.Laws

/-! # Rows of the reserves

What a batch of the reserve capture holds, and what reflection shows of each row that is hashed.
Instants are nanoseconds of Unix time, a `*big.Int` is an integer that may be nil, and a nil slice
counts as an empty one, as it does to `Encoding` and to every check.
-/

namespace MarketInfo.Reserve

open Preimage

/-- `dex.Hash` and `dex.Address`. -/
abbrev Hash := Vector UInt8 32
abbrev Address := Vector UInt8 20

/-! ## Types of rows -/

def u8 : Json.Text := "uint8".toList
def u16 : Json.Text := "uint16".toList
def u32 : Json.Text := "uint32".toList
def u64 : Json.Text := "uint64".toList
def slice : Json.Text := "slice".toList

/-- A struct of named fields. -/
def row (name : String) (fields : List (String × Shape)) : Shape :=
  .struct (ascii name.toList) (fields.foldr (fun f rest => .field (ascii f.1.toList) f.2 rest) .none)

/-- An array of bytes. -/
def arrayShape : Shape := .list "array".toList (.uint u8)

def arrayVal {n : Nat} (h : Vector UInt8 n) : arrayShape.Val := some (h.toList.map UInt8.toUInt64)

/-! ## States and quotes -/

structure Asset where
  token : Bytes
  decimals : Option UInt8
  amountRaw : Option Int
  inRebalance : Option Bool
  weightLowD27 : Option Int
  weightSpotD27 : Option Int
  weightHighD27 : Option Int
  initialPriceLowD27 : Option Int
  initialPriceHighD27 : Option Int
  maxAuctionSizeRaw : Option Int
  auctionPriceLowD27 : Option Int
  auctionPriceHighD27 : Option Int

def assetShape : Shape := row "Asset"
  [("Token", .text), ("Decimals", .pointer (.uint u8)), ("AmountRaw", .pointer .integer),
    ("InRebalance", .pointer .bool), ("WeightLowD27", .pointer .integer),
    ("WeightSpotD27", .pointer .integer), ("WeightHighD27", .pointer .integer),
    ("InitialPriceLowD27", .pointer .integer), ("InitialPriceHighD27", .pointer .integer),
    ("MaxAuctionSizeRaw", .pointer .integer), ("AuctionPriceLowD27", .pointer .integer),
    ("AuctionPriceHighD27", .pointer .integer)]

def Asset.val (a : Asset) : assetShape.Val :=
  (a.token, a.decimals.map UInt8.toUInt64, a.amountRaw, a.inRebalance, a.weightLowD27,
    a.weightSpotD27, a.weightHighD27, a.initialPriceLowD27, a.initialPriceHighD27,
    a.maxAuctionSizeRaw, a.auctionPriceLowD27, a.auctionPriceHighD27, ())

structure State where
  chainId : UInt64
  manifestHash : Bytes
  captureId : Bytes
  batchId : Bytes
  blockNumber : UInt64
  blockHash : Bytes
  blockTime : Int
  availableAt : Int
  payloadHash : Bytes
  folio : Bytes
  implementation : Option Bytes
  implementationCodeHash : Option Bytes
  protocolVersion : Bytes
  identityOk : Bool
  stateComplete : Bool
  reason : Bytes
  baseFeeWei : Option Int
  totalSupplyRaw : Option Int
  pendingFeeSharesRaw : Option Int
  shareDecimals : Option UInt8
  mintFeeD18 : Option Int
  tvlFeePerSecondD18 : Option Int
  daoFeeRegistry : Option Bytes
  daoFeeNumerator : Option Int
  daoFeeDenominator : Option Int
  daoFeeFloorD18 : Option Int
  minimumMintFeeD18 : Option Int
  deprecated : Option Bool
  syncStateChangeActive : Option Bool
  asyncStateChangeActive : Option Bool
  trustedFillerRegistry : Option Bytes
  trustedFillerEnabled : Option Bool
  globalBidsEnabled : Option Bool
  rebalanceBidsEnabled : Option Bool
  rebalanceNonce : Option Int
  priceControl : Option UInt8
  rebalanceStartedAt : Option UInt64
  rebalanceRestrictedUntil : Option UInt64
  rebalanceAvailableUntil : Option UInt64
  rebalanceLimitLowD18 : Option Int
  rebalanceLimitSpotD18 : Option Int
  rebalanceLimitHighD18 : Option Int
  nextAuctionId : Option Int
  auctionId : Option Int
  auctionRebalanceNonce : Option Int
  auctionStartTime : Option UInt64
  auctionEndTime : Option UInt64
  basket : List Asset
deriving Inhabited

def stateShape : Shape := row "State"
  [("ChainId", .uint u64), ("ManifestHash", .text), ("CaptureId", .text), ("BatchId", .text),
    ("BlockNumber", .uint u64), ("BlockHash", .text), ("BlockTime", .time),
    ("AvailableAt", .time), ("PayloadHash", .text), ("Folio", .text),
    ("Implementation", .pointer .text), ("ImplementationCodeHash", .pointer .text),
    ("ProtocolVersion", .text), ("IdentityOk", .bool), ("StateComplete", .bool),
    ("Reason", .text), ("BaseFeeWei", .pointer .integer), ("TotalSupplyRaw", .pointer .integer),
    ("PendingFeeSharesRaw", .pointer .integer), ("ShareDecimals", .pointer (.uint u8)),
    ("MintFeeD18", .pointer .integer), ("TvlFeePerSecondD18", .pointer .integer),
    ("DaoFeeRegistry", .pointer .text), ("DaoFeeNumerator", .pointer .integer),
    ("DaoFeeDenominator", .pointer .integer), ("DaoFeeFloorD18", .pointer .integer),
    ("MinimumMintFeeD18", .pointer .integer), ("Deprecated", .pointer .bool),
    ("SyncStateChangeActive", .pointer .bool), ("AsyncStateChangeActive", .pointer .bool),
    ("TrustedFillerRegistry", .pointer .text), ("TrustedFillerEnabled", .pointer .bool),
    ("GlobalBidsEnabled", .pointer .bool), ("RebalanceBidsEnabled", .pointer .bool),
    ("RebalanceNonce", .pointer .integer), ("PriceControl", .pointer (.uint u8)),
    ("RebalanceStartedAt", .pointer (.uint u64)),
    ("RebalanceRestrictedUntil", .pointer (.uint u64)),
    ("RebalanceAvailableUntil", .pointer (.uint u64)),
    ("RebalanceLimitLowD18", .pointer .integer), ("RebalanceLimitSpotD18", .pointer .integer),
    ("RebalanceLimitHighD18", .pointer .integer), ("NextAuctionId", .pointer .integer),
    ("AuctionId", .pointer .integer), ("AuctionRebalanceNonce", .pointer .integer),
    ("AuctionStartTime", .pointer (.uint u64)), ("AuctionEndTime", .pointer (.uint u64)),
    ("Basket", .list slice assetShape)]

def State.val (s : State) : stateShape.Val :=
  (s.chainId, s.manifestHash, s.captureId, s.batchId, s.blockNumber, s.blockHash, s.blockTime,
    s.availableAt, s.payloadHash, s.folio, s.implementation, s.implementationCodeHash,
    s.protocolVersion, s.identityOk, s.stateComplete, s.reason, s.baseFeeWei, s.totalSupplyRaw,
    s.pendingFeeSharesRaw, s.shareDecimals.map UInt8.toUInt64, s.mintFeeD18,
    s.tvlFeePerSecondD18, s.daoFeeRegistry, s.daoFeeNumerator, s.daoFeeDenominator,
    s.daoFeeFloorD18, s.minimumMintFeeD18, s.deprecated, s.syncStateChangeActive,
    s.asyncStateChangeActive, s.trustedFillerRegistry, s.trustedFillerEnabled,
    s.globalBidsEnabled, s.rebalanceBidsEnabled, s.rebalanceNonce,
    s.priceControl.map UInt8.toUInt64, s.rebalanceStartedAt, s.rebalanceRestrictedUntil,
    s.rebalanceAvailableUntil, s.rebalanceLimitLowD18, s.rebalanceLimitSpotD18,
    s.rebalanceLimitHighD18, s.nextAuctionId, s.auctionId, s.auctionRebalanceNonce,
    s.auctionStartTime, s.auctionEndTime, some (s.basket.map Asset.val), ())

structure Amount where
  token : Bytes
  amountRaw : Option Int

def amountShape : Shape := row "Amount"
  [("Token", .text), ("AmountRaw", .pointer .integer)]

def Amount.val (a : Amount) : amountShape.Val :=
  (a.token, a.amountRaw, ())

structure Leg where
  legIndex : UInt16
  side : Bytes
  quoteMode : Bytes
  tokenIn : Bytes
  tokenOut : Bytes
  requestedRaw : Option Int
  amountInRaw : Option Int
  amountOutRaw : Option Int
  pathTokens : List Bytes
  pathPools : List Bytes
  poolFees : List UInt32
  quoterGasEstimate : Option Int
  availableAt : Int
  payloadHash : Bytes
  status : Bytes

def legShape : Shape := row "Leg"
  [("LegIndex", .uint u16), ("Side", .text), ("QuoteMode", .text), ("TokenIn", .text),
    ("TokenOut", .text), ("RequestedRaw", .pointer .integer),
    ("AmountInRaw", .pointer .integer), ("AmountOutRaw", .pointer .integer),
    ("PathTokens", .list slice .text), ("PathPools", .list slice .text),
    ("PoolFees", .list slice (.uint u32)), ("QuoterGasEstimate", .pointer .integer),
    ("AvailableAt", .time), ("PayloadHash", .text), ("Status", .text)]

def Leg.val (l : Leg) : legShape.Val :=
  (l.legIndex.toUInt64, l.side, l.quoteMode, l.tokenIn, l.tokenOut, l.requestedRaw,
    l.amountInRaw, l.amountOutRaw, some l.pathTokens, some l.pathPools,
    some (l.poolFees.map UInt32.toUInt64), l.quoterGasEstimate, l.availableAt, l.payloadHash,
    l.status, ())

structure Quote where
  chainId : UInt64
  manifestHash : Bytes
  captureId : Bytes
  batchId : Bytes
  blockNumber : UInt64
  blockHash : Bytes
  blockTime : Int
  availableAt : Int
  payloadHash : Bytes
  folio : Bytes
  routeId : Bytes
  quoteId : Bytes
  routeKind : Bytes
  budgetToken : Bytes
  requestedBudgetRaw : Option Int
  tokenIn : Bytes
  tokenOut : Bytes
  amountInRaw : Option Int
  amountOutRaw : Option Int
  auctionId : Option Int
  sellToken : Option Bytes
  buyToken : Option Bytes
  requestedMaxSellRaw : Option Int
  auctionSellRaw : Option Int
  auctionBuyRaw : Option Int
  auctionPriceD27 : Option Int
  grossSharesRaw : Option Int
  feeSharesRaw : Option Int
  netSharesRaw : Option Int
  basketAmounts : List Amount
  dexLegs : List Leg
  sharedPools : List Bytes
  expectedLegs : UInt16
  successfulLegs : UInt16
  withinBudget : Option Bool
  quality : Bytes
  status : Bytes
  reason : Bytes
deriving Inhabited

def quoteShape : Shape := row "Quote"
  [("ChainId", .uint u64), ("ManifestHash", .text), ("CaptureId", .text), ("BatchId", .text),
    ("BlockNumber", .uint u64), ("BlockHash", .text), ("BlockTime", .time),
    ("AvailableAt", .time), ("PayloadHash", .text), ("Folio", .text), ("RouteId", .text),
    ("QuoteId", .text), ("RouteKind", .text), ("BudgetToken", .text),
    ("RequestedBudgetRaw", .pointer .integer), ("TokenIn", .text), ("TokenOut", .text),
    ("AmountInRaw", .pointer .integer), ("AmountOutRaw", .pointer .integer),
    ("AuctionId", .pointer .integer), ("SellToken", .pointer .text),
    ("BuyToken", .pointer .text), ("RequestedMaxSellRaw", .pointer .integer),
    ("AuctionSellRaw", .pointer .integer), ("AuctionBuyRaw", .pointer .integer),
    ("AuctionPriceD27", .pointer .integer), ("GrossSharesRaw", .pointer .integer),
    ("FeeSharesRaw", .pointer .integer), ("NetSharesRaw", .pointer .integer),
    ("BasketAmounts", .list slice amountShape), ("DexLegs", .list slice legShape),
    ("SharedPools", .list slice .text), ("ExpectedLegs", .uint u16),
    ("SuccessfulLegs", .uint u16), ("WithinBudget", .pointer .bool), ("Quality", .text),
    ("Status", .text), ("Reason", .text)]

def Quote.val (q : Quote) : quoteShape.Val :=
  (q.chainId, q.manifestHash, q.captureId, q.batchId, q.blockNumber, q.blockHash, q.blockTime,
    q.availableAt, q.payloadHash, q.folio, q.routeId, q.quoteId, q.routeKind, q.budgetToken,
    q.requestedBudgetRaw, q.tokenIn, q.tokenOut, q.amountInRaw, q.amountOutRaw, q.auctionId,
    q.sellToken, q.buyToken, q.requestedMaxSellRaw, q.auctionSellRaw, q.auctionBuyRaw,
    q.auctionPriceD27, q.grossSharesRaw, q.feeSharesRaw, q.netSharesRaw,
    some (q.basketAmounts.map Amount.val), some (q.dexLegs.map Leg.val), some q.sharedPools,
    q.expectedLegs.toUInt64, q.successfulLegs.toUInt64, q.withinBudget, q.quality, q.status,
    q.reason, ())

structure ReceiptRef where
  blockHash : Bytes
  txHash : Bytes
  receiptHash : Bytes
  calldataHash : Bytes

def receiptRefShape : Shape := row "ReceiptRef"
  [("BlockHash", .text), ("TxHash", .text), ("ReceiptHash", .text), ("CalldataHash", .text)]

def ReceiptRef.val (r : ReceiptRef) : receiptRefShape.Val :=
  (r.blockHash, r.txHash, r.receiptHash, r.calldataHash, ())

structure ReceiptLog where
  logIndex : UInt32
  emitter : Bytes
  topics : List Bytes
  data : Bytes

def receiptLogShape : Shape := row "ReceiptLog"
  [("LogIndex", .uint u32), ("Emitter", .text), ("Topics", .list slice .text), ("Data", .text)]

def ReceiptLog.val (r : ReceiptLog) : receiptLogShape.Val :=
  (r.logIndex.toUInt64, r.emitter, some r.topics, r.data, ())

structure ReceiptData where
  chainId : UInt64
  blockNumber : UInt64
  blockHash : Bytes
  blockTime : Int
  txHash : Bytes
  txIndex : UInt32
  receiptHash : Bytes
  calldataHash : Bytes
  calldata : Bytes
  logCount : UInt32
  logs : List ReceiptLog
  dataHash : Bytes
  materializedAt : Int

def receiptDataShape : Shape := row "ReceiptData"
  [("ChainId", .uint u64), ("BlockNumber", .uint u64), ("BlockHash", .text),
    ("BlockTime", .time), ("TxHash", .text), ("TxIndex", .uint u32), ("ReceiptHash", .text),
    ("CalldataHash", .text), ("Calldata", .text), ("LogCount", .uint u32),
    ("Logs", .list slice receiptLogShape), ("DataHash", .text), ("MaterializedAt", .time)]

def ReceiptData.val (r : ReceiptData) : receiptDataShape.Val :=
  (r.chainId, r.blockNumber, r.blockHash, r.blockTime, r.txHash, r.txIndex.toUInt64,
    r.receiptHash, r.calldataHash, r.calldata, r.logCount.toUInt64,
    some (r.logs.map ReceiptLog.val), r.dataHash, r.materializedAt, ())

/-! ## Logs and receipts of the chain -/

structure Anchor where
  chainId : UInt64
  number : UInt64
  hash : Hash
  manifest : Hash
  batch : Hash
  payload : Hash
  time : Int

def anchorShape : Shape := row "Anchor"
  [("ChainID", .uint u64), ("Number", .uint u64), ("Hash", arrayShape), ("Manifest", arrayShape),
    ("Batch", arrayShape), ("Payload", arrayShape), ("Time", .time)]

def Anchor.val (a : Anchor) : anchorShape.Val :=
  (a.chainId, a.number, arrayVal a.hash, arrayVal a.manifest, arrayVal a.batch,
    arrayVal a.payload, a.time, ())

/-- `dex.Log`. -/
structure Log where
  anchor : Anchor
  txHash : Hash
  txIndex : UInt32
  index : UInt32
  emitter : Address
  topics : List Hash
  data : Bytes
  event : Bytes
  removed : Bool

def logShape : Shape := row "Log"
  [("Anchor", anchorShape), ("TxHash", arrayShape), ("TxIndex", .uint u32), ("Index", .uint u32),
    ("Emitter", arrayShape), ("Topics", .list slice arrayShape), ("Data", .list slice (.uint u8)),
    ("Event", .text), ("Removed", .bool)]

def Log.val (l : Log) : logShape.Val :=
  (l.anchor.val, arrayVal l.txHash, l.txIndex.toUInt64, l.index.toUInt64, arrayVal l.emitter,
    some (l.topics.map arrayVal), some (l.data.map UInt8.toUInt64), l.event, l.removed, ())

/-- `dex.Receipt`, without what neither a digest nor a check reads: the sender, the receiver, the
amounts, the gas and the status. -/
structure Receipt where
  anchor : Anchor
  txHash : Hash
  txIndex : UInt32
  selector : Bytes
  calldataHash : Hash
  logCount : UInt32
  receiptHash : Hash

/-- What the digest of the receipts holds of each. -/
structure Member where
  chain : UInt64
  block : Hash
  tx : Hash
  receipt : Hash
  calldata : Hash

def Receipt.member (r : Receipt) : Member :=
  ⟨r.anchor.chainId, r.anchor.hash, r.txHash, r.receiptHash, r.calldataHash⟩

def memberShape : Shape := row "member"
  [("Chain", .uint u64), ("Block", arrayShape), ("Tx", arrayShape), ("Receipt", arrayShape),
    ("Calldata", arrayShape)]

def Member.val (m : Member) : memberShape.Val :=
  (m.chain, arrayVal m.block, arrayVal m.tx, arrayVal m.receipt, arrayVal m.calldata, ())

/-! ## Captures -/

/-- The capture of a batch, as far as it is checked or sealed. -/
structure Capture where
  chainId : UInt64
  manifestHash : Bytes
  captureId : Bytes
  batchId : Bytes
  fromBlock : UInt64
  fromHash : Bytes
  toBlock : UInt64
  toHash : Bytes
  fromTime : Int
  toTime : Int
  availableAt : Int
  revision : UInt64
  committed : Bool
  expectedStates : UInt32
  actualStates : UInt32
  expectedQuotes : UInt32
  actualQuotes : UInt32
  logCount : UInt32
  expectedReceipts : UInt32
  actualReceipts : UInt32
  stateMembers : Bytes
  quoteMembers : Bytes
  logMembers : Bytes
  receiptMembers : Bytes
  planHash : Bytes
  payloadHash : Bytes
  receiptRefs : List ReceiptRef
deriving Inhabited

end MarketInfo.Reserve
