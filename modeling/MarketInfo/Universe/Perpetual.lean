import MarketInfo.Lib.Check
import MarketInfo.Lib.Listing
import MarketInfo.Lib.Grouping
import MarketInfo.Codec.Type
import MarketInfo.Discovery.Capital

/-! # The common perpetual universe

`universe.BuildCommonPerpetualUniverse` and `universe.SelectionRevision`: the catalogs of the
enabled venues, grouped under canonical market keys by the alias dictionary, and the groups
that at least two venues share.
-/

namespace MarketInfo

open Json (Text)
open Check (failIf checkAll)

namespace Universe

def text (s : String) : Text := s.toList

/-- `%q`, for texts whose characters above ASCII are all printable. -/
def quoted (s : Text) : Text :=
  let escape (c : Char) : Text :=
    if c = Json.quoteMark ∨ c = Json.backslash then [Json.backslash, c]
    else if c.toNat = 7 then [Json.backslash, 'a']
    else if c.toNat = 8 then [Json.backslash, 'b']
    else if c.toNat = 9 then [Json.backslash, 't']
    else if c.toNat = 10 then [Json.backslash, 'n']
    else if c.toNat = 11 then [Json.backslash, 'v']
    else if c.toNat = 12 then [Json.backslash, 'f']
    else if c.toNat = 13 then [Json.backslash, 'r']
    else if c.toNat < 32 ∨ c.toNat = 127 then
      [Json.backslash, 'x', Nat.digitChar (c.toNat / 16), Nat.digitChar (c.toNat % 16)]
    else [c]
  Json.quoteMark :: (s.flatMap escape ++ [Json.quoteMark])

/-- `strings.TrimSpace(value) == value`, and the value is not empty. -/
@[reducible] def Exact (value : Text) : Prop := value ≠ [] ∧ Codec.trimSpace value = value

/-! ## Instruments -/

abbrev MarketType := Text

def MarketSpot : MarketType := text "spot"
def MarketPerpetual : MarketType := text "perpetual"
def MarketDelivery : MarketType := text "delivery"
def MarketOption : MarketType := text "option"
def MarketOptionCombo : MarketType := text "option_combo"

structure Instrument where
  id : Nat
  exchange : Text
  marketType : MarketType
  exchangeSymbol : Text
  venueContractVersion : Text
  baseAsset : Text
  quoteAsset : Text
  settleAsset : Option Text
  contractMultiplier : Decimal
  priceTickSize : Decimal
  quantityStepSize : Decimal
  /-- Nanoseconds since the zero time. -/
  expiryTime : Option Int
deriving DecidableEq

/-- `Instrument.ValidateDefinition`. Of several fields that fail a check over a map, the
source names any; here it is the first. -/
def Instrument.ValidateDefinition (i : Instrument) : Except Text Unit := do
  checkAll (fun (f : String × Text) => failIf (¬ Exact f.2) (text f.1 ++ text " must be an exact non-empty string"))
    [("exchange", i.exchange), ("exchange_symbol", i.exchangeSymbol), ("base_asset", i.baseAsset),
      ("quote_asset", i.quoteAsset)]
  failIf (i.venueContractVersion ≠ [] ∧ Codec.trimSpace i.venueContractVersion ≠ i.venueContractVersion)
    (text "venue_contract_version must be an exact string")
  failIf (i.marketType ∉ [MarketSpot, MarketPerpetual, MarketDelivery, MarketOption, MarketOptionCombo])
    (text "unsupported market_type " ++ quoted i.marketType)
  if i.marketType = MarketSpot then
    failIf (i.settleAsset ≠ none ∨ i.expiryTime ≠ none ∨ ¬ i.contractMultiplier.Equal (Decimal.ofInt 1))
      (text "spot instrument must have no settle/expiry and multiplier 1")
  else
    failIf (∀ settle ∈ i.settleAsset, ¬ Exact settle) (text "derivative instrument requires an exact settle_asset")
  failIf (i.marketType ≠ MarketDelivery ∧ i.marketType ≠ MarketOption ∧ i.expiryTime ≠ none)
    (text "only delivery and option instruments may have expiry_time")
  failIf (i.marketType = MarketOption ∧
      (i.expiryTime = none ∨ i.expiryTime = some 0 ∨ i.venueContractVersion = []))
    (text "option requires expiry and contract version")
  failIf (i.marketType = MarketOptionCombo ∧ i.venueContractVersion = [])
    (text "option combo requires contract version")
  checkAll (fun (f : String × Decimal) => do
      failIf (¬ f.2.IsPositive) (text f.1 ++ text " must be positive")
      failIf (f.2.exponent < -18) (text f.1 ++ text " exceeds Decimal(38,18) scale"))
    [("contract_multiplier", i.contractMultiplier), ("price_tick_size", i.priceTickSize),
      ("quantity_step_size", i.quantityStepSize)]

/-- `Eligible`. -/
@[reducible] def Eligible (i : Instrument) : Prop :=
  i.marketType = MarketPerpetual ∧ i.quoteAsset = text "USDT" ∧ i.settleAsset = some (text "USDT") ∧
    i.expiryTime = none

/-! ## Market keys -/

structure PerpetualMarketKey where
  baseAsset : Text
  quoteAsset : Text
  settleAsset : Text
  marketType : MarketType
deriving DecidableEq

def keySuffix : Text := text "-USDT-PERP"

/-- `strings.CutSuffix`. -/
def cutSuffix (s suffix : Text) : Option Text :=
  if suffix <:+ s then some (s.take (s.length - suffix.length)) else none

/-- `[A-Z0-9]`. -/
def isBaseStart (c : Char) : Bool := (65 ≤ c.toNat && c.toNat ≤ 90) || (48 ≤ c.toNat && c.toNat ≤ 57)

/-- `basePattern`: a letter or digit, then at most 31 letters, digits, dots or underscores. -/
def basePattern : Text → Bool
  | [] => false
  | c :: rest => isBaseStart c && decide (rest.length ≤ 31) &&
      rest.all fun c => isBaseStart c || c == '.' || c == '_'

/-- `ParsePerpetualMarketKey`. -/
def ParsePerpetualMarketKey (raw : Text) : Except Text PerpetualMarketKey :=
  match cutSuffix raw keySuffix with
  | none => .error (text "invalid canonical perpetual key " ++ quoted raw)
  | some base =>
      if basePattern base then .ok ⟨base, text "USDT", text "USDT", MarketPerpetual⟩
      else .error (text "invalid canonical perpetual key " ++ quoted raw)

/-- `PerpetualMarketKey.String`. -/
def PerpetualMarketKey.String (k : PerpetualMarketKey) : Text := k.baseAsset ++ keySuffix

/-! ## Aliases -/

structure AliasKey where
  exchange : Text
  market : MarketType
  symbol : Text
  version : Text
deriving DecidableEq

/-- What `Resolve` reads of an alias. `ParseAliases` has parsed its factor once already. -/
structure Alias where
  expectedBaseAsset : Text
  expectedQuoteAsset : Text
  expectedSettleAsset : Text
  canonicalBaseAsset : Text
  canonicalBaseUnitsPerVenueBaseUnit : Decimal
deriving DecidableEq

/-- The alias dictionary: a map, so no key stands in it twice. -/
structure Aliases where
  revision : Text
  entries : List (AliasKey × Alias)
  distinct : (entries.map Prod.fst).Nodup

structure SelectedInstrument where
  instrument : Instrument
  marketKey : PerpetualMarketKey
  canonicalBaseUnitsPerVenueBaseUnit : Decimal
  mappingKind : Text
deriving DecidableEq

def Instrument.aliasKey (i : Instrument) : AliasKey :=
  ⟨i.exchange, i.marketType, i.exchangeSymbol, i.venueContractVersion⟩

/-- `Aliases.Resolve`. -/
def Aliases.Resolve (a : Aliases) (i : Instrument) : Except Text SelectedInstrument := do
  failIf (¬ Eligible i) (text "ineligible perpetual " ++ i.exchange ++ text " " ++ i.exchangeSymbol)
  match a.entries.lookup i.aliasKey with
  | some e => do
      failIf (e.expectedBaseAsset ≠ i.baseAsset ∨ e.expectedQuoteAsset ≠ i.quoteAsset ∨
          some e.expectedSettleAsset ≠ i.settleAsset)
        (text "alias assertions differ: " ++ i.exchange ++ text " " ++ i.exchangeSymbol ++ text " version " ++
          i.venueContractVersion)
      let k ← ParsePerpetualMarketKey (e.canonicalBaseAsset ++ keySuffix)
      return ⟨i, k, e.canonicalBaseUnitsPerVenueBaseUnit, text "alias"⟩
  | none => do
      let k ← ParsePerpetualMarketKey (i.baseAsset ++ keySuffix)
      return ⟨i, k, Decimal.ofInt 1, text "identity"⟩

/-- `compareIdentity`. -/
def compareIdentity (a : Text) (am : MarketType) (as av : Text) (b : Text) (bm : MarketType) (bs bv : Text) :
    Bool :=
  if a ≠ b then a < b else if am ≠ bm then am < bm else if as ≠ bs then as < bs else av < bv

/-! ## Configuration -/

abbrev SelectionMode := Text

def Disabled : SelectionMode := text "disabled"
def Auto : SelectionMode := text "auto"
def Explicit : SelectionMode := text "explicit"

structure VenueSelectionConfig where
  venue : Text
  mode : SelectionMode
  includes : List Text
  excludes : List Text
  topicsPerConnection : Int
  maxInstruments : Int
deriving DecidableEq

structure SelectionConfig where
  venues : List VenueSelectionConfig
  includes : List Text
  excludes : List Text
deriving DecidableEq

def textLess (a b : Text) : Bool := a < b

/-- The loop of `normalizedList`, with the value before. -/
def checkListFrom (canonical : Bool) (before : Option Text) : List Text → Except Text Unit
  | [] => .ok ()
  | s :: rest => do
      failIf (¬ Exact s ∨ before = some s) (text "invalid/duplicate list value " ++ quoted s)
      if canonical then
        let _ ← ParsePerpetualMarketKey s
        checkListFrom canonical (some s) rest
      else
        checkListFrom canonical (some s) rest

/-- `normalizedList`. -/
def normalizedList (v : List Text) (canonical : Bool) : Except Text (List Text) := do
  let out := Listing.sortBy textLess v
  checkListFrom canonical none out
  return out

/-- `overlap`. -/
def overlap (a b : List Text) : Bool := b.any fun s => decide (s ∈ a)

/-- One turn of the loop of `normalizeConfig`. -/
def normalizeVenue (seen : List Text) (v : VenueSelectionConfig) : Except Text VenueSelectionConfig := do
  failIf (v.venue = [] ∨ v.venue ∈ seen) (text "empty/duplicate venue " ++ quoted v.venue)
  failIf (v.mode ≠ Disabled ∧ v.mode ≠ Auto ∧ v.mode ≠ Explicit)
    (text "invalid " ++ v.venue ++ text " selection mode")
  failIf (decide (v.mode = Explicit) ≠ decide (v.includes.length > 0))
    (v.venue ++ text " explicit mode requires symbols; other modes forbid include")
  let includes ← normalizedList v.includes false
  let excludes ← normalizedList v.excludes false
  failIf (overlap includes excludes = true) (v.venue ++ text " raw include/exclude conflict")
  return { v with includes, excludes }

def normalizeVenues (seen : List Text) : List VenueSelectionConfig → Except Text (List VenueSelectionConfig)
  | [] => .ok []
  | v :: rest => do
      let w ← normalizeVenue seen v
      let ws ← normalizeVenues (seen ++ [v.venue]) rest
      return w :: ws

def venueLess (a b : VenueSelectionConfig) : Bool := a.venue < b.venue

/-- The venues that are not disabled. -/
def enabled (venues : List VenueSelectionConfig) : List VenueSelectionConfig :=
  venues.filter fun v => decide (v.mode ≠ Disabled)

/-- `normalizeConfig`. -/
def normalizeConfig (c : SelectionConfig) : Except Text SelectionConfig := do
  let venues ← normalizeVenues [] (Listing.sortBy venueLess c.venues)
  failIf ((enabled venues).length = 1)
    (text "at least two perpetual venues must be enabled, or disable all")
  let includes ← normalizedList c.includes true
  let excludes ← normalizedList c.excludes true
  failIf (overlap includes excludes = true) (text "canonical include/exclude conflict")
  return ⟨venues, includes, excludes⟩

/-! ## The walk over the catalogs -/

structure VenueCatalog where
  venue : Text
  instruments : List Instrument
deriving DecidableEq

structure VenueSummary where
  venue : Text
  mode : SelectionMode
  candidates : Nat
  filteredCandidates : Nat
  selected : Nat
deriving DecidableEq

/-- `byVenue`. -/
def indexCatalogs (byVenue : List (Text × List Instrument)) : List VenueCatalog →
    Except Text (List (Text × List Instrument))
  | [] => .ok byVenue
  | c :: rest => do
      failIf (c.venue ∈ byVenue.map Prod.fst) (text "duplicate catalog " ++ c.venue)
      indexCatalogs (byVenue ++ [(c.venue, c.instruments)]) rest

/-- What the loop over one catalog changes. -/
structure Pass where
  groups : List (Text × List SelectedInstrument)
  hitAliases : List AliasKey
  all : List SelectedInstrument
  seen : List Text
  canonicalSeen : List Text
  candidates : Nat
  filteredCandidates : Nat

def SelectedInstrument.key (s : SelectedInstrument) : Text := s.marketKey.String

/-- An instrument that the venue's own lists leave out. -/
def VenueSelectionConfig.Skips (v : VenueSelectionConfig) (i : Instrument) : Prop :=
  (v.mode = Explicit ∧ i.exchangeSymbol ∉ v.includes) ∨ i.exchangeSymbol ∈ v.excludes

instance (v : VenueSelectionConfig) (i : Instrument) : Decidable (v.Skips i) :=
  inferInstanceAs (Decidable (_ ∨ _))

/-- One instrument of a catalog. -/
def visit (aliases : Aliases) (v : VenueSelectionConfig) (p : Pass) (i : Instrument) : Except Text Pass := do
  failIf (i.exchange ≠ v.venue ∨ ¬ Eligible i ∨ i.venueContractVersion = [])
    (text "invalid catalog identity " ++ v.venue ++ text " " ++ i.exchangeSymbol)
  i.ValidateDefinition
  failIf (i.exchangeSymbol ∈ p.seen) (text "duplicate live symbol " ++ v.venue ++ text " " ++ i.exchangeSymbol)
  let s ← aliases.Resolve i
  let p := { p with
    seen := p.seen ++ [i.exchangeSymbol]
    candidates := p.candidates + 1
    hitAliases := p.hitAliases ++ if s.mappingKind = text "alias" then [i.aliasKey] else []
    all := p.all ++ [s] }
  if v.Skips i then
    return p
  else do
    failIf (s.key ∈ p.canonicalSeen)
      (text "canonical collision at " ++ v.venue ++ text " for " ++ s.key ++
        text "; exclude one raw symbol or fix aliases")
    return { p with
      canonicalSeen := p.canonicalSeen ++ [s.key]
      groups := Grouping.add SelectedInstrument.key p.groups s
      filteredCandidates := p.filteredCandidates + 1 }

def visits (aliases : Aliases) (v : VenueSelectionConfig) (p : Pass) : List Instrument → Except Text Pass
  | [] => .ok p
  | i :: rest => do
      let p ← visit aliases v p i
      visits aliases v p rest

/-- What the loop over the venues changes. -/
structure Walk where
  groups : List (Text × List SelectedInstrument)
  hitAliases : List AliasKey
  all : List SelectedInstrument
  rawRequired : List (Text × List Text)
  venues : List VenueSummary
  warnings : List Text

/-- The venue's excludes that nothing in its catalog matches. -/
def VenueSelectionConfig.stale (v : VenueSelectionConfig) (items : List Instrument) : List Text :=
  if v.mode = Disabled then []
  else (v.excludes.filter fun s => decide (s ∉ items.map Instrument.exchangeSymbol)).map fun s =>
    text "stale venue exclude: " ++ v.venue ++ text " " ++ s

/-- One venue. -/
def walkVenue (aliases : Aliases) (byVenue : List (Text × List Instrument)) (w : Walk)
    (v : VenueSelectionConfig) : Except Text Walk :=
  if v.mode = Disabled then
    .ok { w with venues := w.venues ++ [⟨v.venue, v.mode, 0, 0, 0⟩] }
  else
    match byVenue.lookup v.venue with
    | none => .error (text "missing complete catalog " ++ v.venue)
    | some items => do
        let p ← visits aliases v ⟨w.groups, w.hitAliases, w.all, [], [], 0, 0⟩ items
        checkAll (fun s => failIf (s ∉ p.seen)
          (v.venue ++ text " explicit symbol missing or ineligible: " ++ s)) v.includes
        return {
          groups := p.groups
          hitAliases := p.hitAliases
          all := p.all
          rawRequired := w.rawRequired ++ if v.mode = Explicit then [(v.venue, v.includes)] else []
          venues := w.venues ++ [⟨v.venue, v.mode, p.candidates, p.filteredCandidates, 0⟩]
          warnings := w.warnings ++ (v.excludes.filter fun s => decide (s ∉ p.seen)).map fun s =>
            text "stale venue exclude: " ++ v.venue ++ text " " ++ s }

def walkVenues (aliases : Aliases) (byVenue : List (Text × List Instrument)) (w : Walk) :
    List VenueSelectionConfig → Except Text Walk
  | [] => .ok w
  | v :: rest => do
      let w ← walkVenue aliases byVenue w v
      walkVenues aliases byVenue w rest

/-! ## The selection -/

/-- The order in which a `range` over a map comes upon its entries: any. -/
structure MapOrder where
  range : {α : Type} → List α → List α
  perm : ∀ {α : Type} (l : List α), (range l).Perm l

/-- What the loop over the groups changes. -/
structure Choice where
  ignored : Nat
  groupCount : Nat
  matched : List Text
  selected : List SelectedInstrument

/-- One group. -/
def choose (includes excludes : List Text) (c : Choice) (g : Text × List SelectedInstrument) : Choice :=
  if g.2.length < 2 then { c with ignored := c.ignored + 1 }
  else if (includes ≠ [] ∧ g.1 ∉ includes) ∨ g.1 ∈ excludes then { c with matched := c.matched ++ [g.1] }
  else { c with
    matched := c.matched ++ [g.1]
    groupCount := c.groupCount + 1
    selected := c.selected ++ g.2 }

/-- A group that is selected, by its key and size. -/
def Chosen (cfg : SelectionConfig) (key : Text) (size : Nat) : Bool :=
  decide (2 ≤ size) && !decide ((cfg.includes ≠ [] ∧ key ∉ cfg.includes) ∨ key ∈ cfg.excludes)

def identityLess (a b : Instrument) : Bool :=
  compareIdentity a.exchange a.marketType a.exchangeSymbol a.venueContractVersion
    b.exchange b.marketType b.exchangeSymbol b.venueContractVersion

def selectedLess (a b : SelectedInstrument) : Bool :=
  if a.key ≠ b.key then a.key < b.key else identityLess a.instrument b.instrument

/-- `delete(rawRequired[exchange], symbol)`. -/
def dropRequired (required : List (Text × List Text)) (s : SelectedInstrument) : List (Text × List Text) :=
  required.map fun r =>
    if r.1 = s.instrument.exchange then (r.1, r.2.filter fun x => decide (x ≠ s.instrument.exchangeSymbol)) else r

structure PotentialAlias where
  left : Instrument
  right : Instrument
deriving DecidableEq

/-- `strings.TrimLeft(base, "0123456789")`. -/
def trimDigits (base : Text) : Text := base.dropWhile Char.isDigit

/-- The pairs of different venues and keys whose bases differ by leading digits only. -/
def potentialAliases : List SelectedInstrument → List PotentialAlias
  | [] => []
  | a :: rest =>
      (rest.filter fun b =>
          !(decide (a.instrument.exchange = b.instrument.exchange) || decide (a.marketKey = b.marketKey)) &&
            decide (trimDigits a.instrument.baseAsset ≠ []) &&
            decide (trimDigits a.instrument.baseAsset = trimDigits b.instrument.baseAsset)).map
          (fun b => ⟨a.instrument, b.instrument⟩) ++
        potentialAliases rest

structure Result where
  mappingRevision : Text
  selected : List SelectedInstrument
  venues : List VenueSummary
  groupCount : Nat
  ignoredSingleVenueGroups : Nat
  identityCount : Nat
  aliasCount : Nat
  warnings : List Text
  potentialAliases : List PotentialAlias
deriving DecidableEq

/-- What follows the loop over the venues. -/
def finish (o : MapOrder) (cfg : SelectionConfig) (aliases : Aliases) (w : Walk) : Except Text Result := do
  let c := (o.range w.groups).foldl (choose cfg.includes cfg.excludes) ⟨0, 0, [], []⟩
  checkAll (fun key => failIf (key ∉ c.matched)
    (text "canonical include " ++ key ++ text " is not shared by at least two enabled venues")) cfg.includes
  let stale := (cfg.excludes.filter fun key => decide (key ∉ c.matched)).map fun key =>
    text "stale canonical exclude: " ++ key
  let selected := Listing.sortBy selectedLess c.selected
  let required := selected.foldl dropRequired w.rawRequired
  checkAll (fun r => failIf (r.2 ≠ [])
    (r.1 ++ text " explicit symbols not in final shared universe: [" ++
      List.intercalate (text " ") (Listing.sortBy textLess r.2) ++ text "]")) (o.range required)
  let unmatched := ((o.range aliases.entries).filter fun e => decide (e.1 ∉ w.hitAliases)).map fun e =>
    text "unmatched historical alias: " ++ e.1.exchange ++ text " " ++ e.1.symbol ++ text " version " ++ e.1.version
  return {
    mappingRevision := aliases.revision
    selected
    venues := w.venues.map fun v =>
      { v with selected := selected.countP fun s => decide (s.instrument.exchange = v.venue) }
    groupCount := c.groupCount
    ignoredSingleVenueGroups := c.ignored
    identityCount := selected.countP fun s => decide (s.mappingKind ≠ text "alias")
    aliasCount := selected.countP fun s => decide (s.mappingKind = text "alias")
    warnings := Listing.sortBy textLess (w.warnings ++ stale ++ unmatched)
    potentialAliases := potentialAliases
      (Listing.sortBy (fun a b => identityLess a.instrument b.instrument) w.all) }

/-- `BuildCommonPerpetualUniverse`. -/
def BuildCommonPerpetualUniverse (o : MapOrder) (catalogs : List VenueCatalog) (cfg : SelectionConfig)
    (aliases : Option Aliases) : Except Text Result :=
  match aliases with
  | none => .error (text "alias dictionary required")
  | some aliases => do
      let cfg ← normalizeConfig cfg
      let byVenue ← indexCatalogs [] catalogs
      let w ← walkVenues aliases byVenue ⟨[], [], [], [], [], []⟩ cfg.venues
      finish o cfg aliases w

/-! ## The revision -/

/-- A text inside the quotes of `json.Marshal`, which escapes for HTML. -/
def jsonEscape (c : Char) : Text :=
  if c = '<' ∨ c = '>' ∨ c = '&' then Json.backslash :: 'u' :: Json.hex4 c.toNat else Json.escape c

def jsonText (s : Text) : Text := Json.quoteMark :: (s.flatMap jsonEscape ++ [Json.quoteMark])

def jsonArray {α : Type} (write : α → Text) (l : List α) : Text := '[' :: (Json.items write l ++ [']'])

def jsonObject (members : List (String × Text)) : Text :=
  '\x7b' :: (Json.items (fun m => jsonText (text m.1) ++ ':' :: m.2) members ++ ['\x7d'])

def VenueSelectionConfig.json (v : VenueSelectionConfig) : Text :=
  jsonObject [("venue", jsonText v.venue), ("mode", jsonText v.mode),
    ("include", jsonArray jsonText v.includes), ("exclude", jsonArray jsonText v.excludes),
    ("topics_per_connection", Json.intText v.topicsPerConnection),
    ("max_instruments", Json.intText v.maxInstruments)]

/-- The configuration and the encoded capacity. No venues are a nil slice. -/
def SelectionConfig.json (c : SelectionConfig) (capacity : Text) : Text :=
  jsonObject [("venues", if c.venues = [] then text "null" else jsonArray VenueSelectionConfig.json c.venues),
    ("canonical_include", jsonArray jsonText c.includes), ("canonical_exclude", jsonArray jsonText c.excludes),
    ("capacity", capacity)]

/-- `identity`. -/
structure Identity where
  key : Text
  exchange : Text
  symbol : Text
  version : Text
deriving DecidableEq

def SelectedInstrument.identity (s : SelectedInstrument) : Identity :=
  ⟨s.key, s.instrument.exchange, s.instrument.exchangeSymbol, s.instrument.venueContractVersion⟩

def Identity.less (a b : Identity) : Bool :=
  if a.key ≠ b.key then a.key < b.key
  else compareIdentity a.exchange MarketPerpetual a.symbol a.version b.exchange MarketPerpetual b.symbol b.version

def Identity.json (i : Identity) : Text :=
  jsonObject [("Key", jsonText i.key), ("Exchange", jsonText i.exchange), ("Symbol", jsonText i.symbol),
    ("Version", jsonText i.version)]

/-- `Hash`. -/
def Hash (sha256 : Text → Vector UInt8 32) (pre : String) (b : Text) : Text :=
  Discovery.hexText (sha256 (text pre ++ Char.ofNat 10 :: b)).toList

/-- `SelectionRevision`, with what `json.Marshal` makes of the capacity. -/
def SelectionRevision (sha256 : Text → Vector UInt8 32) (cfg : SelectionConfig) (mappingRevision : Text)
    (selected : List SelectedInstrument) (capacity : Except Text Text) : Except Text (Text × Text) := do
  let cfg ← normalizeConfig cfg
  let capacity ← capacity
  let configBytes := cfg.json capacity
  let identities := Listing.sortBy Identity.less (selected.map SelectedInstrument.identity)
  let b := jsonObject [("mapping_revision", jsonText mappingRevision), ("config", configBytes),
    ("members", jsonArray Identity.json identities)]
  return (Hash sha256 "perpetual-universe-v1" b, configBytes)

/-! ## The recorded run -/

/-- `model.PerpetualUniverseRun`. The counts are those of lists in memory. -/
structure PerpetualUniverseRun where
  runID : BitVec 128
  selectionRevision : Text
  mappingRevision : Text
  /-- Nanoseconds since the zero time. -/
  startedAt : Int
  selectionConfigJSON : Text
  enabledVenues : List Text
  canonicalInclude : List Text
  canonicalExclude : List Text
  canonicalGroupCount : Nat
  instrumentCount : Nat

/-- `ValidateMappingRevision`. -/
def ValidateMappingRevision (revision : Text) : Except Text Unit :=
  failIf (Discovery.ValidDigest revision = false) (text "revision must be a lowercase SHA-256 hex digest")

/-- The values of one field, with the value before. -/
def checkValuesFrom (field : String) (canonical : Bool) (before : Option Text) : List Text → Except Text Unit
  | [] => .ok ()
  | value :: rest => do
      failIf (¬ Exact value ∨ ∃ b ∈ before, value ≤ b) (text field ++ text " must contain exact sorted unique strings")
      if canonical then
        match ParsePerpetualMarketKey value with
        | .error _ => .error (text "invalid canonical market key " ++ quoted value)
        | .ok _ => checkValuesFrom field canonical (some value) rest
      else
        checkValuesFrom field canonical (some value) rest

/-- What a run is checked for before its counts. -/
def PerpetualUniverseRun.validateTexts (r : PerpetualUniverseRun) (jsonValid : Text → Bool) :
    Except Text Unit := do
  failIf (r.runID = 0) (text "universe run requires run_id")
  ValidateMappingRevision r.mappingRevision
  ValidateMappingRevision r.selectionRevision
  failIf (r.startedAt = 0 ∨ r.startedAt % 1000000 ≠ 0)
    (text "started_at requires nonzero millisecond-precision UTC time")
  failIf (jsonValid r.selectionConfigJSON = false ∨ ¬ ['\x7b'] <+: r.selectionConfigJSON)
    (text "selection_config_json must be a JSON object")
  checkValuesFrom "enabled_venues" false none r.enabledVenues
  checkValuesFrom "canonical_include" true none r.canonicalInclude
  checkValuesFrom "canonical_exclude" true none r.canonicalExclude

/-- What its counts are checked for. -/
def PerpetualUniverseRun.validateCounts (r : PerpetualUniverseRun) : Except Text Unit := do
  failIf (r.enabledVenues.length = 1 ∨ (r.instrumentCount > 0 ∧ r.enabledVenues.length < 2))
    (text "universe requires zero or at least two enabled venues")
  failIf (r.canonicalGroupCount > r.instrumentCount / 2)
    (text "universe group count exceeds two-venue instrument count")

/-- `PerpetualUniverseRun.Validate`, with `json.Valid`. -/
def PerpetualUniverseRun.Validate (r : PerpetualUniverseRun) (jsonValid : Text → Bool) : Except Text Unit := do
  r.validateTexts jsonValid
  r.validateCounts

end Universe

end MarketInfo
