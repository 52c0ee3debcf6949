import MarketInfo.Model.Book
import MarketInfo.Model.Decimal

/-! # The hedge of a quote

An amount of ether is hedged in whole lots of an instrument, at the prices of the ten
levels of a book. `ApplyHedge` computes with exact decimals: what is hedged, what is left
over, and what selling and buying the hedge costs.
-/

namespace MarketInfo

/-! ## Arithmetic of `decimal.Decimal` -/

namespace Decimal

/-- `Mul`. -/
def mul (d e : Decimal) : Decimal := ⟨d.coefficient * e.coefficient, d.exponent + e.exponent⟩

/-- `Add`, at the smaller of the exponents. -/
def add (d e : Decimal) : Decimal :=
  let common := min d.exponent e.exponent
  ⟨d.coefficient * 10 ^ (d.exponent - common).toNat + e.coefficient * 10 ^ (e.exponent - common).toNat, common⟩

def shift (d : Decimal) (places : Int) : Decimal := ⟨d.coefficient, d.exponent + places⟩

/-- `BigInt`: the digits after the point are dropped. -/
def bigInt (d : Decimal) : Int :=
  if d.exponent < 0 then d.coefficient.tdiv (10 ^ (-d.exponent).toNat)
  else d.coefficient * 10 ^ d.exponent.toNat

/-- `Truncate(0)`. -/
def truncate (d : Decimal) : Decimal := if d.exponent < 0 then ofInt d.bigInt else d

theorem value_ofInt (n : Int) : (ofInt n).value = n := by simp [ofInt, value]

theorem value_mul (d e : Decimal) : (d.mul e).value = d.value * e.value := by
  have hten : (10 : ℚ) ≠ 0 := by norm_num
  rw [value, mul, value, value, zpow_add₀ hten, Int.cast_mul]
  ring

theorem value_shift (d : Decimal) (places : Int) : (d.shift places).value = d.value * (10 : ℚ) ^ places := by
  have hten : (10 : ℚ) ≠ 0 := by norm_num
  rw [value, shift, value, zpow_add₀ hten, mul_assoc]

theorem coefficient_zpow {c e common : Int} (h : common ≤ e) :
    ((c * 10 ^ (e - common).toNat : Int) : ℚ) * (10 : ℚ) ^ common = c * (10 : ℚ) ^ e := by
  have hten : (10 : ℚ) ≠ 0 := by norm_num
  have hpower : ((10 : ℚ) ^ (e - common).toNat) = (10 : ℚ) ^ (e - common) := by
    rw [← zpow_natCast, Int.toNat_of_nonneg (by omega)]
  rw [Int.cast_mul, Int.cast_pow, Int.cast_ofNat, hpower, mul_assoc, ← zpow_add₀ hten, Int.sub_add_cancel]

theorem value_add (d e : Decimal) : (d.add e).value = d.value + e.value := by
  rw [value, add, Int.cast_add, add_mul, coefficient_zpow (min_le_left _ _),
    coefficient_zpow (min_le_right _ _)]
  rfl

/-- A decimal is its own truncation iff it is a whole number, and then `BigInt` is that number. -/
theorem equal_truncate_iff (d : Decimal) : d.Equal d.truncate ↔ d.value = d.bigInt := by
  unfold Equal truncate
  split
  · rw [value_ofInt]
  · rename_i hexponent
    rw [eq_self_iff_true, true_iff, value, bigInt, if_neg hexponent, Int.cast_mul, Int.cast_pow,
      Int.cast_ofNat, ← zpow_natCast, Int.toNat_of_nonneg (by omega)]

theorem bigInt_of_value {d : Decimal} {n : Int} (h : d.value = n) : d.bigInt = n := by
  have hten : (10 : ℚ) ≠ 0 := by norm_num
  unfold bigInt
  split
  · rename_i hexponent
    -- the coefficient is a multiple of the power of ten
    have hpower : (10 : ℚ) ^ d.exponent = ((10 : ℚ) ^ (-d.exponent).toNat)⁻¹ := by
      rw [← zpow_natCast, Int.toNat_of_nonneg (by omega), zpow_neg, inv_inv]
    have hcoefficient : d.coefficient = n * 10 ^ (-d.exponent).toNat := by
      rw [value, hpower, ← div_eq_mul_inv, div_eq_iff (by positivity)] at h
      exact_mod_cast h
    rw [hcoefficient]
    exact Int.mul_tdiv_cancel _ (by positivity)
  · rename_i hexponent
    rw [value, ← Int.toNat_of_nonneg (not_lt.mp hexponent), zpow_natCast] at h
    exact_mod_cast h

end Decimal

namespace Lst

open Json (Text)

/-! ## The model -/

/-- `decimalAtoms`: a decimal as a number of its smallest units. -/
def decimalAtoms (d : Decimal) (scale : Int) : Except String Int :=
  let v := d.shift scale
  if ¬ v.Equal v.truncate then .error "cex_amount_not_exact_at_scale"
  else
    let n := v.bigInt
    if n < 0 ∨ 2 ^ 256 ≤ n then .error "cex_amount_outside_uint256" else .ok n

structure Instrument where
  id : UInt32
  contractMultiplier : Decimal
  priceTickSize : Decimal
  quantityStepSize : Decimal

/-- The metadata of an instrument. No sum of exponents leaves the range of their type. -/
structure CEXMetadata where
  instrument : Instrument
  lotMin : Decimal
  lotMax : Decimal
  marketLotMin : Decimal
  marketLotMax : Decimal
  marketLotStep : Decimal
  minNotional : Decimal
  exponents : ∀ d ∈ [instrument.contractMultiplier, instrument.priceTickSize, instrument.quantityStepSize,
    marketLotStep], |d.exponent| ≤ 2 ^ 28

/-- A book, or the reason why there is none. -/
structure CEXMarket where
  bids : List Level
  asks : List Level
  depthErr : Option String

/-- The hedge of a quote. The times and hashes of its evidence are left out. -/
structure Quote where
  hedgeInstrumentId : UInt32 := 0
  hedgeStatus : String := ""
  hedgeReason : String := ""
  hedgeQuantityLot : Option Int := none
  hedgeEthWei : Option Int := none
  unhedgedEthResidualWei : Option Int := none
  hedgeSellNotionalUsdtE8 : Option Int := none
  hedgeBuyNotionalUsdtE8 : Option Int := none
deriving DecidableEq

/-- The loop of `notional`, with the lots that are left and the sum so far. -/
def takeLevels (m : CEXMetadata) (left : Nat) (sum : Decimal) : List Level → Nat × Decimal
  | [] => (left, sum)
  | l :: rest =>
      let take := min left l.qtyLot.toNat
      let sum := sum.add (((((Decimal.ofInt l.priceTick.toInt).mul m.instrument.priceTickSize).mul
        (Decimal.ofInt take)).mul m.instrument.quantityStepSize).mul m.instrument.contractMultiplier)
      let left := left - take
      if left = 0 then (left, sum) else takeLevels m left sum rest

def notional (m : CEXMetadata) (qtyLots : Int) (levels : List Level) : Except String Int :=
  let (left, sum) := takeLevels m qtyLots.toNat Decimal.zero levels
  if left ≠ 0 then .error "cex_ten_level_capacity_insufficient"
  else if sum.LessThan m.minNotional then .error "cex_min_notional"
  else decimalAtoms sum 8

/-- An early return. -/
def Quote.fail (q : Quote) (reason : String) : Quote × Option String :=
  ({ q with hedgeReason := reason }, some reason)

variable (NewFromString : Text → Except String Decimal) (print : Decimal → Text)

/-- `ApplyHedge`: the quote that it leaves, and the error. -/
def ApplyHedge (q : Quote) (m : CEXMetadata) (market : CEXMarket) (q0 : Option Int) :
    Quote × Option String :=
  let q := { q with hedgeInstrumentId := m.instrument.id, hedgeStatus := "unknown" }
  match market.depthErr with
  | some reason => q.fail reason
  | none =>
  if m.instrument.id = 0 then q.fail "cex_hedge_instrument_identity_missing" else
  match q0 with
  | none => q.fail "hedge_input_unavailable_from_chain"
  | some q0 =>
  if q0 ≤ 0 ∨ 2 ^ 256 ≤ q0 then q.fail "hedge_input_unavailable_from_chain" else
  match decimalAtoms (m.instrument.quantityStepSize.mul m.instrument.contractMultiplier) 18 with
  | .error _ => q.fail "cex_lot_wei_invalid"
  | .ok lotWei =>
  if lotWei ≤ 0 then q.fail "cex_lot_wei_invalid" else
  let lots := q0.tdiv lotWei
  if ¬ IsInt64 lots ∨ lots ≤ 0 then q.fail "cex_hedge_lots_outside_positive_int64" else
  let hedgeWei := lots * lotWei
  let q := { q with
    hedgeQuantityLot := some lots
    hedgeEthWei := some hedgeWei
    unhedgedEthResidualWei := some (q0 - hedgeWei) }
  let qty := (Decimal.ofInt lots).mul m.instrument.quantityStepSize
  if qty.LessThan m.lotMin ∨ qty.GreaterThan m.lotMax ∨ qty.LessThan m.marketLotMin ∨
      qty.GreaterThan m.marketLotMax then q.fail "cex_lot_limits" else
  match QuantityLot NewFromString (print qty) m.marketLotStep with
  | .error _ => q.fail "cex_market_lot_step"
  | .ok _ =>
  match notional m lots market.bids with
  | .error e => q.fail e
  | .ok sell =>
  match notional m lots market.asks with
  | .error e => q.fail e
  | .ok buy =>
  ({ q with
      hedgeSellNotionalUsdtE8 := some sell
      hedgeBuyNotionalUsdtE8 := some buy
      hedgeStatus := "ok"
      hedgeReason := "" }, none)

/-! ## What a hedge is -/

/-- The price of each lot of a side, the best first. -/
def lotPrices (levels : List Level) : List Int :=
  levels.flatMap fun l => List.replicate l.qtyLot.toNat l.priceTick.toInt

/-- What some lots cost, taken from the best ones on. -/
def cost (m : CEXMetadata) (levels : List Level) (n : Nat) : ℚ :=
  ((lotPrices levels).take n).sum * m.instrument.priceTickSize.value *
    (m.instrument.quantityStepSize.value * m.instrument.contractMultiplier.value)

/-- A lot in wei. -/
def lotValue (m : CEXMetadata) : ℚ :=
  m.instrument.quantityStepSize.value * m.instrument.contractMultiplier.value * 10 ^ 18

/-- A side has the lots, for no less than the least notional, and their cost is a whole number of
units of 10⁻⁸. -/
structure Fills (m : CEXMetadata) (levels : List Level) (n : Int) : Prop where
  depth : n.toNat ≤ (lotPrices levels).length
  least : m.minNotional.value ≤ cost m levels n.toNat
  units : ∃ s : Int, 0 ≤ s ∧ s < 2 ^ 256 ∧ (s : ℚ) = cost m levels n.toNat * 10 ^ 8

/-- An amount is hedged in a number of lots. -/
structure Hedges (m : CEXMetadata) (market : CEXMarket) (amount lot n : Int) : Prop where
  depthErr : market.depthErr = none
  identity : m.instrument.id ≠ 0
  amount_pos : 0 < amount
  amount_lt : amount < 2 ^ 256
  lot_eq : (lot : ℚ) = lotValue m
  lot_pos : 0 < lot
  lot_lt : lot < 2 ^ 256
  lots : n = amount / lot
  lots_pos : 0 < n
  lots_lt : n < 2 ^ 63
  lotMin : m.lotMin.value ≤ n * m.instrument.quantityStepSize.value
  lotMax : n * m.instrument.quantityStepSize.value ≤ m.lotMax.value
  marketLotMin : m.marketLotMin.value ≤ n * m.instrument.quantityStepSize.value
  marketLotMax : n * m.instrument.quantityStepSize.value ≤ m.marketLotMax.value
  marketStep : m.marketLotStep.IsPositive
  marketLots : ∃ k : Nat, k < 2 ^ 64 ∧
    n * m.instrument.quantityStepSize.value = k * m.marketLotStep.value
  bids : Fills m market.bids n
  asks : Fills m market.asks n

end Lst

end MarketInfo
