import MarketInfo.Lib.Check
import MarketInfo.Discovery.Decimal

/-! # Capital parameters and their versions

`model.CapitalParameters`, the hash of a discovery body, and the split of one observation
into rule versions and references to them.
-/

namespace MarketInfo

open Json (Text)

namespace Discovery

/-! ## Hashes -/

/-- A value of a body. -/
inductive Field
  | text (s : Text)
  | int (n : Int)
  | decimal (v : Decimal)
  | decimals (vs : List Decimal)

/-- A map, with its keys in the order in which they are encoded. -/
abbrev Body := List (Text × Field)

/-- `hashJSONValue`. -/
def hashJSONValue : Field → Json.Value
  | .text s => .text s
  | .int n => .int n
  | .decimal v => .text (PythonStoredDecimal v)
  | .decimals vs => .texts (vs.map PythonStoredDecimal)

def hashJSON (body : Body) : Json.Object := body.map fun f => (f.1, hashJSONValue f.2)

/-- What `DiscoveryHash` hashes. -/
def bodyText (body : Body) : Text := Json.spaced (hashJSON body).write

/-- `hex.EncodeToString`. -/
def hexText (a : List UInt8) : Text :=
  a.flatMap fun b => [Nat.digitChar (b.toNat / 16), Nat.digitChar (b.toNat % 16)]

/-- `ValidDigest`. -/
def ValidDigest (s : Text) : Bool :=
  s.length = 64 && s.all fun c => (48 ≤ c.toNat && c.toNat ≤ 57) || (97 ≤ c.toNat && c.toNat ≤ 102)

variable (sha256 : Text → Vector UInt8 32)

/-- `DiscoveryHash`. -/
def DiscoveryHash (body : Body) : Text := hexText (sha256 (bodyText body)).toList

/-! ## Parameters -/

/-- `PublicSource`. -/
structure PublicSource where
  url : Text
  payloadHash : Text
  timeBasis : Text
  sourceMS : Int
  observedMS : Int
deriving DecidableEq

/-- `DiscountTier`. -/
structure DiscountTier where
  minimum : Decimal
  maximum : Decimal
  rate : Decimal
  penalty : Decimal
deriving DecidableEq

/-- `RiskTier`. -/
structure RiskTier where
  minimum : Decimal
  maximum : Decimal
  initial : Decimal
  maintenance : Decimal
  maximumLeverage : Decimal
deriving DecidableEq

/-- `CapitalParameters`. -/
structure CapitalParameters where
  id : Text
  instrumentID : UInt32
  observedMS : Int
  sourceMS : Int
  effectiveMS : Int
  validUntilMS : Int
  base : Text
  quoteDiscount : List DiscountTier
  baseDiscount : List DiscountTier
  perpTiers : List RiskTier
  borrowTiers : List RiskTier
  borrowLeverage : Decimal
  modelHash : Text
  sources : List PublicSource
deriving DecidableEq

def text (s : String) : Text := s.toList

/-- `PublicSource.Validate`. -/
def PublicSource.validate (s : PublicSource) : Except String Unit := do
  Check.failIf (¬ text "https://" <+: s.url ∨ ValidDigest s.payloadHash = false ∨ s.sourceMS ≤ 0 ∨
    s.observedMS < s.sourceMS) "invalid public source identity/time"
  Check.failIf (s.timeBasis ≠ text "exchange_ts" ∧ s.timeBasis ≠ text "request_without_source_clock" ∧
    s.timeBasis ≠ text "reviewed_static_rule") "unsupported source time basis"

/-- `validatePublicSources`. -/
def validatePublicSources (sources : List PublicSource) : Except String Unit := do
  Check.failIf (sources.length = 0) "public provenance missing"
  Check.checkAll PublicSource.validate sources

/-- The loop over discount tiers, with its message for tiers that do not follow. -/
def checkDiscountTiers (message : String) : Decimal → Decimal → List DiscountTier → Except String Unit
  | _, _, [] => .ok ()
  | last, previous, t :: rest => do
      Check.failIf (¬ ReferenceDecimal t.minimum ∨ ¬ ReferenceDecimal t.maximum ∨ ¬ ReferenceDecimal t.rate ∨
        ¬ ReferenceDecimal t.penalty) "discount tier outside Decimal(38,18)"
      Check.failIf (¬ t.minimum.Equal last ∨ ¬ t.maximum.GreaterThan last ∨ t.rate.IsNegative ∨
        t.rate.GreaterThan previous ∨ t.penalty.IsNegative ∨ t.penalty.GreaterThan (.ofInt 1)) message
      checkDiscountTiers message t.maximum t.rate rest

/-- The loop over risk tiers. -/
def checkRiskTiers (message : String) : Decimal → List RiskTier → Except String Unit
  | _, [] => .ok ()
  | last, t :: rest => do
      Check.failIf (¬ ReferenceDecimal t.minimum ∨ ¬ ReferenceDecimal t.maximum ∨ ¬ ReferenceDecimal t.initial ∨
        ¬ ReferenceDecimal t.maintenance ∨ ¬ ReferenceDecimal t.maximumLeverage) "risk tier outside Decimal(38,18)"
      Check.failIf (t.minimum.LessThan last ∨ ¬ t.maximum.GreaterThan last ∨ ¬ t.initial.IsPositive ∨
        t.maintenance.IsNegative ∨ t.maintenance.GreaterThan t.initial ∨ ¬ t.maximumLeverage.IsPositive) message
      checkRiskTiers message t.maximum rest

namespace CapitalParameters

/-- `CapitalParameters.Validate`. -/
def validate (f : CapitalParameters) : Except String Unit := do
  Check.failIf (f.id = [] ∨ f.instrumentID = 0 ∨ f.base = [] ∨ ¬ f.borrowLeverage.IsPositive ∨
    ValidDigest f.modelHash = false ∨ f.sourceMS ≤ 0 ∨ f.observedMS < f.sourceMS ∨ f.observedMS < f.effectiveMS ∨
    f.validUntilMS ≤ f.observedMS) "invalid public capital parameter identity/time"
  Check.failIf (¬ ReferenceDecimal f.borrowLeverage) "capital leverage outside Decimal(38,18)"
  Check.checkAll (fun tiers => do
    Check.failIf (tiers.length = 0) "discount tiers missing"
    checkDiscountTiers "invalid discount tier coverage" .zero (.ofInt 1) tiers) [f.quoteDiscount, f.baseDiscount]
  Check.checkAll (fun tiers => do
    Check.failIf (tiers.length = 0) "risk tiers missing"
    checkRiskTiers "invalid risk tier coverage" .zero tiers) [f.perpTiers, f.borrowTiers]
  validatePublicSources f.sources

/-- `CapitalParameters.Body`. -/
def body (f : CapitalParameters) : Body :=
  [(text "base", .text f.base),
    (text "base_discount_liquidation_penalty", .decimals (f.baseDiscount.map DiscountTier.penalty)),
    (text "base_discount_maximum", .decimals (f.baseDiscount.map DiscountTier.maximum)),
    (text "base_discount_minimum", .decimals (f.baseDiscount.map DiscountTier.minimum)),
    (text "base_discount_rate", .decimals (f.baseDiscount.map DiscountTier.rate)),
    (text "borrow_imr", .decimals (f.borrowTiers.map RiskTier.initial)),
    (text "borrow_leverage", .decimal f.borrowLeverage),
    (text "borrow_maximum", .decimals (f.borrowTiers.map RiskTier.maximum)),
    (text "borrow_maximum_leverage", .decimals (f.borrowTiers.map RiskTier.maximumLeverage)),
    (text "borrow_minimum", .decimals (f.borrowTiers.map RiskTier.minimum)),
    (text "borrow_mmr", .decimals (f.borrowTiers.map RiskTier.maintenance)),
    (text "effective_ms", .int f.effectiveMS),
    (text "instrument_id", .int f.instrumentID.toNat),
    (text "model_hash", .text f.modelHash),
    (text "observation_id", .text f.id),
    (text "observed_ms", .int f.observedMS),
    (text "perp_imr", .decimals (f.perpTiers.map RiskTier.initial)),
    (text "perp_maximum", .decimals (f.perpTiers.map RiskTier.maximum)),
    (text "perp_maximum_leverage", .decimals (f.perpTiers.map RiskTier.maximumLeverage)),
    (text "perp_minimum", .decimals (f.perpTiers.map RiskTier.minimum)),
    (text "perp_mmr", .decimals (f.perpTiers.map RiskTier.maintenance)),
    (text "quote_discount_liquidation_penalty", .decimals (f.quoteDiscount.map DiscountTier.penalty)),
    (text "quote_discount_maximum", .decimals (f.quoteDiscount.map DiscountTier.maximum)),
    (text "quote_discount_minimum", .decimals (f.quoteDiscount.map DiscountTier.minimum)),
    (text "quote_discount_rate", .decimals (f.quoteDiscount.map DiscountTier.rate)),
    (text "source_ms", .int f.sourceMS),
    (text "valid_until_ms", .int f.validUntilMS)]

end CapitalParameters

/-! ## Versions -/

def capitalRuleSemantics : Text := text "okx-cross-base-quantity-v1"

/-- `DiscountRuleVersion`. -/
structure DiscountRuleVersion where
  id : Text
  currency : Text
  tiers : List DiscountTier
deriving DecidableEq

/-- `RiskRuleVersion`. -/
structure RiskRuleVersion where
  id : Text
  instrumentID : UInt32
  base : Text
  role : Text
  tiers : List RiskTier
deriving DecidableEq

/-- `CapitalVersionObservation`. -/
structure CapitalVersionObservation where
  parameters : CapitalParameters
  quoteVersion : Text
  baseVersion : Text
  perpVersion : Text
  borrowVersion : Text
  hash : Text
deriving DecidableEq

/-- `CapitalVersions`. -/
structure CapitalVersions where
  quote : DiscountRuleVersion
  base : DiscountRuleVersion
  perp : RiskRuleVersion
  borrow : RiskRuleVersion
  observation : CapitalVersionObservation
deriving DecidableEq

/-- `DiscountRuleVersion.Body`. -/
def DiscountRuleVersion.body (v : DiscountRuleVersion) : Body :=
  [(text "amount_unit", .text v.currency),
    (text "currency", .text v.currency),
    (text "exchange", .text (text "OKX")),
    (text "maximum", .decimals (v.tiers.map DiscountTier.maximum)),
    (text "minimum", .decimals (v.tiers.map DiscountTier.minimum)),
    (text "penalty", .decimals (v.tiers.map DiscountTier.penalty)),
    (text "rate", .decimals (v.tiers.map DiscountTier.rate)),
    (text "semantics", .text capitalRuleSemantics)]

/-- `RiskRuleVersion.Body`. -/
def RiskRuleVersion.body (v : RiskRuleVersion) : Body :=
  [(text "amount_unit", .text v.base),
    (text "base", .text v.base),
    (text "exchange", .text (text "OKX")),
    (text "initial", .decimals (v.tiers.map RiskTier.initial)),
    (text "instrument_id", .int v.instrumentID.toNat),
    (text "maintenance", .decimals (v.tiers.map RiskTier.maintenance)),
    (text "maximum", .decimals (v.tiers.map RiskTier.maximum)),
    (text "maximum_leverage", .decimals (v.tiers.map RiskTier.maximumLeverage)),
    (text "minimum", .decimals (v.tiers.map RiskTier.minimum)),
    (text "mode", .text (text "cross")),
    (text "role", .text v.role),
    (text "semantics", .text capitalRuleSemantics)]

/-- `DiscountRuleVersion.Validate`. -/
def DiscountRuleVersion.validate (v : DiscountRuleVersion) : Except String Unit := do
  Check.failIf (v.currency = [] ∨ ValidDigest v.id = false ∨ v.tiers.length = 0)
    "invalid discount version identity"
  checkDiscountTiers "invalid discount version tiers" .zero (.ofInt 1) v.tiers
  Check.failIf (DiscoveryHash sha256 v.body ≠ v.id) "discount version content mismatch"

/-- `RiskRuleVersion.Validate`. -/
def RiskRuleVersion.validate (v : RiskRuleVersion) : Except String Unit := do
  Check.failIf (v.instrumentID = 0 ∨ v.base = [] ∨ (v.role ≠ text "SWAP" ∧ v.role ≠ text "MARGIN") ∨
    ValidDigest v.id = false ∨ v.tiers.length = 0) "invalid risk version identity"
  checkRiskTiers "invalid risk version tiers" .zero v.tiers
  Check.failIf (DiscoveryHash sha256 v.body ≠ v.id) "risk version content mismatch"

/-- A discount version with the id of its content. -/
def discountVersion (currency : Text) (tiers : List DiscountTier) : DiscountRuleVersion :=
  { id := DiscoveryHash sha256 (DiscountRuleVersion.body ⟨[], currency, tiers⟩), currency, tiers }

/-- A risk version with the id of its content. -/
def riskVersion (instrumentID : UInt32) (base role : Text) (tiers : List RiskTier) : RiskRuleVersion :=
  { id := DiscoveryHash sha256 (RiskRuleVersion.body ⟨[], instrumentID, base, role, tiers⟩),
    instrumentID, base, role, tiers }

/-- The four versions, checked in their order. -/
def CapitalVersions.check (v : CapitalVersions) : Except String Unit := do
  v.quote.validate sha256
  v.base.validate sha256
  v.perp.validate sha256
  v.borrow.validate sha256

/-- The versions of an observation, which keeps neither arrays nor sources. -/
def CapitalParameters.versions (p : CapitalParameters) : CapitalVersions :=
  let quote := discountVersion sha256 (text "USDT") p.quoteDiscount
  let base := discountVersion sha256 p.base p.baseDiscount
  let perp := riskVersion sha256 p.instrumentID p.base (text "SWAP") p.perpTiers
  let borrow := riskVersion sha256 p.instrumentID p.base (text "MARGIN") p.borrowTiers
  { quote, base, perp, borrow
    observation := {
      parameters := { p with quoteDiscount := [], baseDiscount := [], perpTiers := [], borrowTiers := [], sources := [] }
      quoteVersion := quote.id, baseVersion := base.id, perpVersion := perp.id, borrowVersion := borrow.id
      hash := DiscoveryHash sha256 p.body } }

/-- `SplitCapitalVersions`. -/
def SplitCapitalVersions (p : CapitalParameters) : Except String CapitalVersions := do
  p.validate
  Check.failIf (¬ ReferenceDecimal p.borrowLeverage) "capital leverage outside Decimal(38,18)"
  let v := p.versions sha256
  v.check sha256
  return v

/-- `Rebuild`. -/
def CapitalVersions.Rebuild (v : CapitalVersions) (sources : List PublicSource) :
    Except String CapitalParameters := do
  let o := v.observation
  let p := o.parameters
  v.check sha256
  Check.failIf (v.quote.id ≠ o.quoteVersion ∨ v.base.id ≠ o.baseVersion ∨ v.perp.id ≠ o.perpVersion ∨
    v.borrow.id ≠ o.borrowVersion ∨ v.quote.currency ≠ text "USDT" ∨ v.base.currency ≠ p.base ∨
    v.perp.base ≠ p.base ∨ v.borrow.base ≠ p.base ∨ v.perp.instrumentID ≠ p.instrumentID ∨
    v.borrow.instrumentID ≠ p.instrumentID ∨ v.perp.role ≠ text "SWAP" ∨ v.borrow.role ≠ text "MARGIN")
    "capital version reference/scope mismatch"
  let p := { p with
    quoteDiscount := v.quote.tiers, baseDiscount := v.base.tiers, perpTiers := v.perp.tiers
    borrowTiers := v.borrow.tiers, sources }
  p.validate
  Check.failIf (¬ ReferenceDecimal p.borrowLeverage ∨ DiscoveryHash sha256 p.body ≠ o.hash)
    "capital observation content mismatch"
  return p

end Discovery

end MarketInfo
