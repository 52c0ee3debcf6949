import MarketInfo.Lib.Tree
import MarketInfo.Model.Minute
import MarketInfo.Discovery.Capital

/-! # Discovery documents

The documents that discovery commits to by a hash, as the values their bodies are, and the
bytes that `DiscoveryHash` digests of such a value.
-/

namespace MarketInfo.Discovery.Documents

open Json (Text Tree)

/-- A value as `hashJSONValue` tells it apart: a decimal, a list of decimals, a map, or
anything else, which is encoded as it is. -/
inductive Doc
  | json (t : Tree)
  | decimal (v : Decimal)
  | decimals (vs : List Decimal)
  | map (es : List (Text × Doc))

mutual

def hashJSONValue : Doc → Tree
  | .json t => t
  | .decimal v => .text (PythonStoredDecimal v)
  | .decimals vs => .list (vs.map fun v => .text (PythonStoredDecimal v))
  | .map es => .map (hashJSONEntries es)

def hashJSONEntries : List (Text × Doc) → List (Text × Tree)
  | [] => []
  | (k, d) :: es => (k, hashJSONValue d) :: hashJSONEntries es

end

/-- What `DiscoveryHash` digests. -/
def formatted (d : Doc) : Text := Json.spaced (hashJSONValue d).encode

/-- `DiscoveryHash`. -/
def hash (sha256 : Text → Vector UInt8 32) (d : Doc) : Text := hexText (sha256 (formatted d)).toList

def str (s : Text) : Doc := .json (.text s)

def num (n : Int) : Doc := .json (.int n)

/-! ## Decimals -/

/-- `Abs`. -/
def abs (v : Decimal) : Decimal := ⟨v.coefficient.natAbs, v.exponent⟩

/-- `a.DivRound(b, places)` for a positive quotient: half a unit is rounded up. -/
def DivRound (a b : Decimal) (places : Nat) : Decimal :=
  ⟨⌊a.value / b.value * 10 ^ places + 1 / 2⌋, -places⟩

/-- `v.RoundCeil(places)`. -/
def RoundCeil (v : Decimal) (places : Nat) : Decimal :=
  if -(places : Int) ≤ v.exponent then v else ⟨⌈v.value * 10 ^ places⌉, -places⟩

/-! ## Facts -/

structure FundingPrediction where
  id : Text
  instrumentID : UInt32
  observedMS : Int
  sourceMS : Int
  fundingMS : Int
  rate : Decimal
  mark : Decimal
  baseIndex : Decimal
  baseUSDIndex : Decimal
  quoteUSDIndex : Decimal
  markMS : Int
  baseIndexMS : Int
  quoteIndexMS : Int
  sources : List PublicSource

def FundingPrediction.body (f : FundingPrediction) : Doc :=
  .map [(text "observation_id", str f.id), (text "instrument_id", num f.instrumentID.toNat),
    (text "observed_ms", num f.observedMS), (text "source_ms", num f.sourceMS),
    (text "funding_ms", num f.fundingMS), (text "rate", .decimal f.rate), (text "mark", .decimal f.mark),
    (text "mark_ms", num f.markMS), (text "base_index", .decimal f.baseIndex),
    (text "base_index_ms", num f.baseIndexMS), (text "base_usd_index", .decimal f.baseUSDIndex),
    (text "quote_usd_index", .decimal f.quoteUSDIndex), (text "quote_index_ms", num f.quoteIndexMS)]

def FundingPrediction.validate (f : FundingPrediction) : Except String Unit := do
  Check.failIf (f.id = [] ∨ f.instrumentID = 0 ∨ f.sourceMS ≤ 0 ∨ f.observedMS < f.sourceMS ∨
    f.fundingMS ≤ f.sourceMS ∨ f.markMS ≤ 0 ∨ f.observedMS < f.markMS ∨ ¬ f.mark.IsPositive ∨
    ¬ ReferenceDecimal (abs f.rate) ∨ ¬ ReferenceDecimal f.mark ∨ ¬ f.baseIndex.IsPositive ∨
    ¬ ReferenceDecimal f.baseIndex ∨ f.baseIndexMS ≤ 0 ∨ f.observedMS < f.baseIndexMS ∨
    ¬ f.baseUSDIndex.IsPositive ∨ ¬ f.quoteUSDIndex.IsPositive ∨ f.quoteIndexMS ≤ 0 ∨
    f.observedMS < f.quoteIndexMS ∨
    ¬ f.baseIndex.Equal (RoundCeil (DivRound f.baseUSDIndex f.quoteUSDIndex 36) 18))
    "invalid independent next funding prediction"
  validatePublicSources f.sources

structure TradeBar where
  id : Text
  instrumentID : UInt32
  observedMS : Int
  sourceMS : Int
  minuteMS : Int
  baseVolume : Decimal
  final : Bool
  conversionHash : Text

def TradeBar.body (f : TradeBar) : Doc :=
  .map [(text "observation_id", str f.id), (text "instrument_id", num f.instrumentID.toNat),
    (text "observed_ms", num f.observedMS), (text "source_ms", num f.sourceMS),
    (text "minute_ms", num f.minuteMS), (text "base_volume", .decimal f.baseVolume),
    (text "is_final", num (if f.final then 1 else 0)), (text "conversion_hash", str f.conversionHash)]

structure ReferenceFee where
  id : Text
  instrumentID : UInt32
  observedMS : Int
  sourceMS : Int
  effectiveMS : Int
  validUntilMS : Int
  perpMaker : Decimal
  perpTaker : Decimal
  spotTaker : Decimal
  buyFeeCurrency : Text
  sellFeeCurrency : Text
  spotMaximum : Decimal
  perpMaximum : Decimal
  positionLimit : Decimal
  profile : Text
  interestVersion : Text

def ReferenceFee.body (f : ReferenceFee) : Doc :=
  .map [(text "observation_id", str f.id), (text "instrument_id", num f.instrumentID.toNat),
    (text "observed_ms", num f.observedMS), (text "source_ms", num f.sourceMS),
    (text "effective_ms", num f.effectiveMS), (text "valid_until_ms", num f.validUntilMS),
    (text "perp_maker", .decimal f.perpMaker), (text "perp_taker", .decimal f.perpTaker),
    (text "spot_taker", .decimal f.spotTaker), (text "buy_fee_currency", str f.buyFeeCurrency),
    (text "sell_fee_currency", str f.sellFeeCurrency), (text "spot_maximum", .decimal f.spotMaximum),
    (text "perp_maximum", .decimal f.perpMaximum), (text "position_limit", .decimal f.positionLimit),
    (text "reference_profile", str f.profile), (text "interest_rule_version", str f.interestVersion)]

def fieldDoc : Field → Doc
  | .text s => str s
  | .int n => num n
  | .decimal v => .decimal v
  | .decimals vs => .decimals vs

/-- A flat body as a map. -/
def ofBody (b : Body) : Doc := .map (b.map fun f => (f.1, fieldDoc f.2))

def OKXCapitalVersion : Text := text "okx-multicurrency-cross-v1"

def OKXReferenceProfile : Text := text "okx-multicurrency-usdt-reference-v1"

structure CapitalReference where
  parameters : CapitalParameters

def CapitalReference.body (f : CapitalReference) : Doc :=
  let p := f.parameters
  .map [(text "observation_id", str p.id), (text "instrument_id", num p.instrumentID.toNat),
    (text "observed_ms", num p.observedMS), (text "source_ms", num p.sourceMS),
    (text "effective_ms", num p.effectiveMS), (text "valid_until_ms", num p.validUntilMS),
    (text "model_version", str OKXCapitalVersion), (text "reference_profile", str OKXReferenceProfile),
    (text "model_hash", str p.modelHash)]

/-! ## Minutes and sources -/

def pair (price qty : Int) : Tree := .list [.int price, .int qty]

/-- A side of the book. -/
def sides (levels : List Level) : Tree :=
  .list (levels.map fun l => pair l.priceTick.toInt l.qtyLot.toNat)

/-- The changes of a side, each price with its quantity. -/
def changes (prices : List Int64) (qtys : List UInt64) : Tree :=
  .list ((prices.zip qtys).map fun c => pair c.1.toInt c.2.toNat)

def deltaTree (d : BookDelta) : Tree :=
  .map [(text "second", .int d.secondOffset.toNat), (text "bids", changes d.bidChangePrice d.bidChangeQty),
    (text "asks", changes d.askChangePrice d.askChangeQty)]

def TradingMinuteBody (batch : MinuteBatch) : Doc :=
  let m := batch.minute
  .map [(text "id", str (Json.intText m.id.toNat)), (text "instrument_id", num m.instrumentID.toNat),
    (text "minute_ms", num m.minuteTime.unixMilli), (text "stored_depth", num m.storedDepth.toNat),
    (text "valid_bitmap", num m.validBitmap.toNat), (text "bids", .json (sides m.bids.toList)),
    (text "asks", .json (sides m.asks.toList)), (text "deltas", .json (.list (batch.deltas.map deltaTree)))]

def sourceTree (n : Nat) (s : PublicSource) : Tree :=
  .map [(text "source_order", .int n), (text "source_url", .text s.url),
    (text "payload_hash", .text s.payloadHash), (text "time_basis", .text s.timeBasis),
    (text "source_ms", .int s.sourceMS), (text "observed_ms", .int s.observedMS)]

/-- The rows of `DiscoverySourcesHash`. -/
def sourceRows (sources : List PublicSource) : Doc :=
  .json (.list (sources.mapIdx sourceTree))

/-! ## Documents -/

inductive Document
  | funding (f : FundingPrediction)
  | bar (f : TradeBar)
  | fee (f : ReferenceFee)
  | capital (f : CapitalParameters)
  | reference (f : CapitalReference)
  | discount (v : DiscountRuleVersion)
  | risk (v : RiskRuleVersion)
  | minute (batch : MinuteBatch)
  | sources (ss : List PublicSource)

/-- The value that is hashed. -/
def Document.value : Document → Doc
  | .funding f => f.body
  | .bar f => f.body
  | .fee f => f.body
  | .capital f => ofBody f.body
  | .reference f => f.body
  | .discount v => ofBody v.body
  | .risk v => ofBody v.body
  | .minute batch => TradingMinuteBody batch
  | .sources ss => sourceRows ss

end MarketInfo.Discovery.Documents
