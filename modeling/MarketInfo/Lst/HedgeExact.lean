import MarketInfo.Lst.Hedge

/-! # Hedges are exact

Each operation has the exact value, so that what is accepted and what it costs can be said
in rational numbers.
-/

namespace MarketInfo

namespace Lst

open Json (Text)

/-! ## The steps -/

theorem decimalAtoms_eq_ok {d : Decimal} {scale n : Int} :
    decimalAtoms d scale = .ok n ↔ (n : ℚ) = d.value * (10 : ℚ) ^ scale ∧ 0 ≤ n ∧ n < 2 ^ 256 := by
  unfold decimalAtoms
  dsimp only
  have hwhole := Decimal.equal_truncate_iff (d.shift scale)
  rw [Decimal.value_shift] at hwhole
  constructor
  · intro h
    split at h
    · cases h
    · rename_i hexact
      split at h
      · cases h
      · rename_i hrange
        obtain rfl := Except.ok.inj h
        exact ⟨(hwhole.mp (not_not.mp hexact)).symm, by omega, by omega⟩
  · rintro ⟨hvalue, hnonneg, hlt⟩
    have hn : (d.shift scale).bigInt = n := Decimal.bigInt_of_value (by rw [Decimal.value_shift, hvalue])
    have hexact := hwhole.mpr (by rw [hn, hvalue])
    rw [if_neg (not_not.mpr hexact), hn, if_neg (by omega)]

theorem take_lotPrices (l : Level) (rest : List Level) (left : Nat) :
    ((lotPrices (l :: rest)).take left).sum =
      (min left l.qtyLot.toNat : Nat) * l.priceTick.toInt +
        ((lotPrices rest).take (left - min left l.qtyLot.toNat)).sum := by
  have hleft : left - l.qtyLot.toNat = left - min left l.qtyLot.toNat := by omega
  rw [lotPrices, List.flatMap_cons, ← lotPrices, List.take_append, List.length_replicate,
    List.take_replicate, List.sum_append, List.sum_replicate, hleft, nsmul_eq_mul]

/-- The loop takes the best lots first. -/
theorem takeLevels_eq (m : CEXMetadata) (levels : List Level) :
    ∀ (left : Nat) (sum : Decimal), 0 < left →
      (takeLevels m left sum levels).1 = left - (lotPrices levels).length ∧
        (takeLevels m left sum levels).2.value = sum.value + cost m levels left := by
  induction levels with
  | nil => exact fun left sum _ => ⟨by simp [takeLevels, lotPrices], by simp [takeLevels, lotPrices, cost]⟩
  | cons l rest ih =>
      intro left sum hleft
      have hlength : (lotPrices (l :: rest)).length = l.qtyLot.toNat + (lotPrices rest).length := by
        rw [lotPrices, List.flatMap_cons, List.length_append, List.length_replicate, ← lotPrices]
      generalize htake : min left l.qtyLot.toNat = take
      have hstep : (sum.add (((((Decimal.ofInt l.priceTick.toInt).mul m.instrument.priceTickSize).mul
          (Decimal.ofInt take)).mul m.instrument.quantityStepSize).mul
            m.instrument.contractMultiplier)).value + cost m rest (left - take) =
          sum.value + cost m (l :: rest) left := by
        rw [Decimal.value_add, Decimal.value_mul, Decimal.value_mul, Decimal.value_mul, Decimal.value_mul,
          Decimal.value_ofInt, Decimal.value_ofInt, cost, cost, take_lotPrices, htake]
        push_cast
        ring
      unfold takeLevels
      dsimp only
      rw [htake]
      split
      · rename_i hdone
        have hnothing : cost m rest (left - take) = 0 := by
          rw [hdone, cost, List.take_zero]
          simp
        rw [hnothing, add_zero] at hstep
        exact ⟨by rw [hlength]; omega, hstep⟩
      · rename_i hmore
        obtain ⟨hfirst, hsecond⟩ := ih (left - take) _ (Nat.pos_of_ne_zero hmore)
        rw [hfirst, hsecond]
        exact ⟨by rw [hlength]; omega, hstep⟩

theorem notional_eq_ok {m : CEXMetadata} {n s : Int} {levels : List Level} (hn : 0 < n) :
    notional m n levels = .ok s ↔ n.toNat ≤ (lotPrices levels).length ∧
      m.minNotional.value ≤ cost m levels n.toNat ∧
        (s : ℚ) = cost m levels n.toNat * 10 ^ 8 ∧ 0 ≤ s ∧ s < 2 ^ 256 := by
  obtain ⟨hleft, hsum⟩ := takeLevels_eq m levels n.toNat Decimal.zero (by omega)
  have hzero : Decimal.zero.value = 0 := by simp [Decimal.zero, Decimal.value]
  rw [hzero, zero_add] at hsum
  unfold notional
  generalize takeLevels m n.toNat Decimal.zero levels = result at hleft hsum
  obtain ⟨left, sum⟩ := result
  dsimp only at hleft hsum ⊢
  rw [← hsum]
  constructor
  · intro h
    split at h
    · cases h
    · rename_i hdone
      split at h
      · cases h
      · rename_i hleast
        exact ⟨by omega, not_lt.mp hleast, decimalAtoms_eq_ok.mp h⟩
  · rintro ⟨hdepth, hleast, hunits⟩
    rw [if_neg (by omega), if_neg (not_lt.mpr hleast)]
    exact decimalAtoms_eq_ok.mpr hunits

theorem fills_iff {m : CEXMetadata} {n : Int} {levels : List Level} (hn : 0 < n) :
    Fills m levels n ↔ ∃ s, notional m n levels = .ok s := by
  simp only [notional_eq_ok hn]
  constructor
  · rintro ⟨hdepth, hleast, s, hnonneg, hlt, hs⟩
    exact ⟨s, hdepth, hleast, hs, hnonneg, hlt⟩
  · rintro ⟨s, hdepth, hleast, hs, hnonneg, hlt⟩
    exact ⟨hdepth, hleast, s, hnonneg, hlt, hs⟩

/-! ## The market step -/

/-- `String` writes a decimal as a plain literal of its value, with no more places than it has. -/
def Prints (print : Decimal → Text) : Prop :=
  ∀ d : Decimal, ∃ l : Literal, l.Plain ∧ l.text = print d ∧ l.value = d.value ∧ min d.exponent 0 ≤ l.scale

section

variable {NewFromString : Text → Except String Decimal} {print : Decimal → Text}
  (hread : ReadsExactly NewFromString) (hprint : Prints print)
include hread hprint

theorem quantityLot_print {d step : Decimal} (hexponent : -2 ^ 30 ≤ d.exponent)
    (hstep : |step.exponent| ≤ 2 ^ 28) :
    (∃ k, QuantityLot NewFromString (print d) step = .ok k) ↔
      step.IsPositive ∧ ∃ k : Nat, k < 2 ^ 64 ∧ d.value = k * step.value := by
  obtain ⟨l, hplain, htext, hvalue, hscale⟩ := hprint d
  have hpower : l.power = 0 := Literal.power_of_none hplain.no_exponent
  have hlow : -2 ^ 30 ≤ l.scale := by omega
  have hhigh : l.scale ≤ 0 := by
    unfold Literal.scale
    omega
  have hparse : ParseStrictDecimal NewFromString (print d) "quantity" = .ok ⟨l.coefficient, l.scale⟩ := by
    have hplainDecimal : plainDecimal (print d) = true := plainDecimal_iff.mpr ⟨l, hplain, htext⟩
    unfold ParseStrictDecimal
    rw [Check.seq_eq_ok, Check.failIf_eq_ok, not_or, not_or, Bool.not_eq_false, not_not]
    refine ⟨⟨?_, ?_, hplainDecimal⟩, ?_⟩
    · intro hempty
      rw [hempty] at hplainDecimal
      cases hplainDecimal
    · rw [← htext]
      exact trimSpace_text hplain
    · rw [← htext, hread l hplain.toWellformed (by rw [hpower]; exact ⟨by norm_num, by norm_num⟩)
        ⟨by omega, by omega⟩]
      rfl
  have hsame : (Decimal.mk l.coefficient l.scale).value = d.value := by
    rw [← hvalue, Literal.value_eq]
    rfl
  unfold QuantityLot
  simp only [hparse, Check.andThen_eq_ok, Except.ok.injEq, exists_eq_left', Check.failIf_eq_ok, inField_eq_ok,
    exists_const, not_lt, not_not]
  by_cases hpositive : step.IsPositive
  · have hfit : |(Decimal.mk l.coefficient l.scale).exponent - step.exponent| < 2 ^ 31 := by
      show |l.scale - step.exponent| < 2 ^ 31
      rw [abs_le] at hstep
      rw [abs_lt]
      omega
    simp only [decimalUnits_iff hpositive hfit, hsame]
    constructor
    · rintro ⟨k, -, units, hunits, hrange, hk⟩
      refine ⟨hpositive, units.toNat, by have := hrange.2; omega, ?_⟩
      have hcast : ((units.toNat : ℕ) : ℚ) = (units : ℚ) := by
        exact_mod_cast congrArg (Int.cast : ℤ → ℚ) (Int.toNat_of_nonneg hrange.1)
      rw [hunits, hcast]
    · rintro ⟨-, k, hk, hunits⟩
      have hstepValue : 0 < step.value := by
        unfold Decimal.value
        have hcoefficient : (0 : ℚ) < step.coefficient := by exact_mod_cast hpositive
        positivity
      have hproduct : 0 ≤ l.coefficient * (10 : ℚ) ^ l.scale := by
        rw [← Literal.value_eq, hvalue, hunits]
        positivity
      have hnonneg : 0 ≤ l.coefficient := by
        exact_mod_cast nonneg_of_mul_nonneg_left hproduct (by positivity)
      exact ⟨k, hnonneg, k, by rw [hunits, Int.cast_natCast], ⟨by omega, by omega⟩, rfl⟩
  · constructor
    · rintro ⟨k, -, units, hunits, -⟩
      unfold decimalUnits at hunits
      rw [Check.seq_eq_ok, Check.failIf_eq_ok, not_not] at hunits
      exact absurd hunits.1 hpositive
    · exact fun h => absurd h.1 hpositive

end

/-! ## The hedge -/

section

variable {NewFromString : Text → Except String Decimal} {print : Decimal → Text}

theorem value_qty (m : CEXMetadata) (n : Int) :
    ((Decimal.ofInt n).mul m.instrument.quantityStepSize).value =
      n * m.instrument.quantityStepSize.value := by
  rw [Decimal.value_mul, Decimal.value_ofInt]

theorem lotWei_eq_ok {m : CEXMetadata} {lot : Int} :
    decimalAtoms (m.instrument.quantityStepSize.mul m.instrument.contractMultiplier) 18 = .ok lot ↔
      (lot : ℚ) = lotValue m ∧ 0 ≤ lot ∧ lot < 2 ^ 256 := by
  rw [decimalAtoms_eq_ok, Decimal.value_mul]
  rfl

variable (hread : ReadsExactly NewFromString) (hprint : Prints print)
include hread hprint

theorem quantityLot_qty (m : CEXMetadata) (n : Int) :
    (∃ k, QuantityLot NewFromString (print ((Decimal.ofInt n).mul m.instrument.quantityStepSize))
        m.marketLotStep = .ok k) ↔
      m.marketLotStep.IsPositive ∧ ∃ k : Nat, k < 2 ^ 64 ∧
        n * m.instrument.quantityStepSize.value = k * m.marketLotStep.value := by
  have hstep := m.exponents m.instrument.quantityStepSize (by simp)
  have hexponent : ((Decimal.ofInt n).mul m.instrument.quantityStepSize).exponent =
      m.instrument.quantityStepSize.exponent := by simp [Decimal.mul, Decimal.ofInt]
  rw [quantityLot_print hread hprint ?_ (m.exponents _ (by simp)), value_qty]
  rw [hexponent]
  rw [abs_le] at hstep
  omega

/-- A hedge is accepted, and these are its amounts. -/
theorem ApplyHedge_of_hedges {q : Quote} {m : CEXMetadata} {market : CEXMarket} {amount lot n : Int}
    (h : Hedges m market amount lot n) {sell buy : Int} (hsell : notional m n market.bids = .ok sell)
    (hbuy : notional m n market.asks = .ok buy) :
    ApplyHedge NewFromString print q m market (some amount) =
      ({ hedgeInstrumentId := m.instrument.id
         hedgeStatus := "ok"
         hedgeReason := ""
         hedgeQuantityLot := some n
         hedgeEthWei := some (n * lot)
         unhedgedEthResidualWei := some (amount - n * lot)
         hedgeSellNotionalUsdtE8 := some sell
         hedgeBuyNotionalUsdtE8 := some buy }, none) := by
  have hlot := lotWei_eq_ok.mpr ⟨h.lot_eq, h.lot_pos.le, h.lot_lt⟩
  have hn : amount.tdiv lot = n := by
    rw [h.lots, Int.tdiv_eq_ediv_of_nonneg h.amount_pos.le]
  obtain ⟨k, hk⟩ := (quantityLot_qty hread hprint m n).mpr ⟨h.marketStep, h.marketLots⟩
  unfold ApplyHedge
  simp only [h.depthErr, h.identity, if_false, hlot, hn, hk, hsell, hbuy]
  rw [if_neg (by have := h.amount_pos; have := h.amount_lt; omega), if_neg (not_le.mpr h.lot_pos),
    if_neg, if_neg]
  · simp only [value_qty, not_or, not_lt]
    exact ⟨h.lotMin, h.lotMax, h.marketLotMin, h.marketLotMax⟩
  · have := h.lots_pos
    have := h.lots_lt
    omega

/-- Whatever is accepted is a hedge. -/
theorem hedges_of_ApplyHedge {q : Quote} {m : CEXMetadata} {market : CEXMarket} {q0 : Option Int}
    (h : (ApplyHedge NewFromString print q m market q0).2 = none) :
    ∃ amount lot n, q0 = some amount ∧ Hedges m market amount lot n := by
  unfold ApplyHedge Quote.fail at h
  dsimp only at h
  split at h
  · cases h
  rename_i hdepth
  split at h
  · cases h
  rename_i hid
  split at h
  · cases h
  rename_i amount
  split at h
  · cases h
  rename_i hamount
  split at h
  · cases h
  rename_i lot hlot
  split at h
  · cases h
  rename_i hlotpos
  split at h
  · cases h
  rename_i hlots
  split at h
  · cases h
  rename_i hlimits
  split at h
  · cases h
  rename_i k hk
  split at h
  · cases h
  rename_i sell hsell
  split at h
  · cases h
  rename_i buy hbuy
  obtain ⟨hvalue, -, hlotlt⟩ := lotWei_eq_ok.mp hlot
  rw [Int.tdiv_eq_ediv_of_nonneg (by omega)] at hlots hlimits hk hsell hbuy
  generalize hn : amount / lot = n at hlots hlimits hk hsell hbuy
  have hpos : 0 < n := by omega
  simp only [value_qty, not_or, not_lt] at hlimits
  obtain ⟨hlotMin, hlotMax, hmarketMin, hmarketMax⟩ := hlimits
  obtain ⟨hmarketStep, hmarketLots⟩ := (quantityLot_qty hread hprint m n).mp ⟨k, hk⟩
  refine ⟨amount, lot, n, rfl, ?_⟩
  exact {
    depthErr := hdepth
    identity := hid
    amount_pos := by omega
    amount_lt := by omega
    lot_eq := hvalue
    lot_pos := by omega
    lot_lt := hlotlt
    lots := hn.symm
    lots_pos := hpos
    lots_lt := by omega
    lotMin := hlotMin
    lotMax := hlotMax
    marketLotMin := hmarketMin
    marketLotMax := hmarketMax
    marketStep := hmarketStep
    marketLots := hmarketLots
    bids := (fills_iff hpos).mpr ⟨sell, hsell⟩
    asks := (fills_iff hpos).mpr ⟨buy, hbuy⟩ }

/-- An amount is accepted iff it is hedged by a number of lots, and then the hedge is exact: what is
left over is less than a lot, and each side costs what its best lots cost. -/
theorem ApplyHedge_exact (q : Quote) (m : CEXMetadata) (market : CEXMarket) (q0 : Option Int) :
    ((ApplyHedge NewFromString print q m market q0).2 = none ↔
        ∃ amount lot n, q0 = some amount ∧ Hedges m market amount lot n) ∧
      ∀ amount lot n, q0 = some amount → Hedges m market amount lot n →
        ∃ hedged residual sell buy : Int,
          (ApplyHedge NewFromString print q m market q0).1 =
            { hedgeInstrumentId := m.instrument.id
              hedgeStatus := "ok"
              hedgeReason := ""
              hedgeQuantityLot := some n
              hedgeEthWei := some hedged
              unhedgedEthResidualWei := some residual
              hedgeSellNotionalUsdtE8 := some sell
              hedgeBuyNotionalUsdtE8 := some buy } ∧
          hedged = n * lot ∧ hedged + residual = amount ∧ 0 ≤ residual ∧ residual < lot ∧
          (sell : ℚ) = cost m market.bids n.toNat * 10 ^ 8 ∧
          (buy : ℚ) = cost m market.asks n.toNat * 10 ^ 8 := by
  have hamounts : ∀ amount lot n, Hedges m market amount lot n → ∃ sell buy,
      notional m n market.bids = .ok sell ∧ notional m n market.asks = .ok buy := by
    intro amount lot n h
    obtain ⟨sell, hsell⟩ := (fills_iff h.lots_pos).mp h.bids
    obtain ⟨buy, hbuy⟩ := (fills_iff h.lots_pos).mp h.asks
    exact ⟨sell, buy, hsell, hbuy⟩
  constructor
  · constructor
    · exact hedges_of_ApplyHedge hread hprint
    · rintro ⟨amount, lot, n, rfl, h⟩
      obtain ⟨sell, buy, hsell, hbuy⟩ := hamounts amount lot n h
      rw [ApplyHedge_of_hedges hread hprint h hsell hbuy]
  · rintro amount lot n rfl h
    obtain ⟨sell, buy, hsell, hbuy⟩ := hamounts amount lot n h
    have hdivision : lot * n + amount % lot = amount := by
      rw [h.lots]
      exact Int.mul_ediv_add_emod amount lot
    rw [mul_comm] at hdivision
    refine ⟨n * lot, amount - n * lot, sell, buy, ?_, rfl, by omega, ?_, ?_, ?_, ?_⟩
    · rw [ApplyHedge_of_hedges hread hprint h hsell hbuy]
    · have hnonneg := Int.emod_nonneg amount h.lot_pos.ne'
      omega
    · have hlt := Int.emod_lt_of_pos amount h.lot_pos
      omega
    · exact ((notional_eq_ok h.lots_pos).mp hsell).2.2.1
    · exact ((notional_eq_ok h.lots_pos).mp hbuy).2.2.1

end

/-! ## One instrument -/

/-- The digits of a decimal, with at least one before the point. -/
def digitsOf (d : Decimal) : Text :=
  let digits := Nat.toDigits 10 (d.coefficient.natAbs * 10 ^ d.exponent.toNat)
  List.replicate ((-d.exponent).toNat + 1 - digits.length) '0' ++ digits

/-- A decimal with all of its places. -/
def plainLiteral (d : Decimal) : Literal where
  negative := decide (d.coefficient < 0)
  whole := (digitsOf d).take ((digitsOf d).length - (-d.exponent).toNat)
  fraction :=
    if 0 ≤ d.exponent then none
    else some ((digitsOf d).drop ((digitsOf d).length - (-d.exponent).toNat))
  exponent := none

theorem digitsOf_digits (d : Decimal) : AllDigits (digitsOf d) := by
  intro c hc
  rcases List.mem_append.mp hc with hzero | hdigit
  · rw [(List.mem_replicate.mp hzero).2]
    rfl
  · exact Nat.isDigit_of_mem_toDigits (by norm_num) (by norm_num) hdigit

theorem length_digitsOf (d : Decimal) : (-d.exponent).toNat < (digitsOf d).length := by
  rw [digitsOf]
  rw [List.length_append, List.length_replicate]
  omega

theorem plainLiteral_digits (d : Decimal) :
    (plainLiteral d).whole ++ (plainLiteral d).fractionDigits = digitsOf d ∧
      (plainLiteral d).fractionDigits.length = (-d.exponent).toNat := by
  have hlength := length_digitsOf d
  unfold Literal.fractionDigits plainLiteral
  dsimp only
  split
  · have hnone : (-d.exponent).toNat = 0 := by omega
    rw [hnone, Nat.sub_zero, List.take_length]
    simp
  · rw [Option.getD_some, List.take_append_drop, List.length_drop]
    exact ⟨rfl, by omega⟩

theorem prints_plainLiteral : Prints fun d => (plainLiteral d).text := by
  intro d
  obtain ⟨hdigits, hplaces⟩ := plainLiteral_digits d
  have hall : AllDigits ((plainLiteral d).whole ++ (plainLiteral d).fractionDigits) :=
    hdigits ▸ digitsOf_digits d
  have hplain : (plainLiteral d).Plain := {
    whole := fun c hc => hall c (List.mem_append_left _ hc)
    fraction := fun c hc => hall c (List.mem_append_right _ hc)
    some_digit := by
      rw [hdigits]
      have hlength := length_digitsOf d
      intro hempty
      rw [hempty] at hlength
      exact absurd hlength (Nat.not_lt_zero _)
    exponent := fun e he => by cases he
    no_exponent := rfl }
  have hscale : (plainLiteral d).scale = min d.exponent 0 := by
    have hpower : (plainLiteral d).power = 0 := Literal.power_of_none rfl
    rw [Literal.scale, hpower, hplaces]
    omega
  have hnumber : Nat.ofDigitChars 10 (digitsOf d) 0 = d.coefficient.natAbs * 10 ^ d.exponent.toNat := by
    rw [digitsOf]
    rw [Nat.ofDigitChars_append, Nat.ofDigitChars_replicate_zero, Nat.mul_zero,
      Nat.ofDigitChars_ten_toDigits]
  have hcoefficient : (plainLiteral d).coefficient = d.coefficient * 10 ^ d.exponent.toNat := by
    rw [Literal.coefficient, hdigits, hnumber]
    have hsign : (plainLiteral d).sign * (d.coefficient.natAbs : Int) = d.coefficient := by
      unfold Literal.sign plainLiteral
      by_cases hneg : d.coefficient < 0
      · simp only [hneg, decide_true, if_true]
        omega
      · simp only [hneg, decide_false, Bool.false_eq_true, if_false]
        omega
    rw [Nat.cast_mul, ← mul_assoc, hsign]
    push_cast
    rfl
  refine ⟨plainLiteral d, hplain, rfl, ?_, hscale.ge⟩
  rw [Literal.value_eq, hscale, hcoefficient]
  have hshift : d.exponent.toNat = (d.exponent - min d.exponent 0).toNat := by omega
  rw [hshift]
  exact Decimal.coefficient_zpow (min_le_left _ _)

/-- One coin a lot, with prices in units of 10⁻⁹ and no more than ten lots an order. -/
def coin : CEXMetadata where
  instrument := ⟨1, ⟨1, 0⟩, ⟨1, -9⟩, ⟨1, 0⟩⟩
  lotMin := ⟨1, 0⟩
  lotMax := ⟨10, 0⟩
  marketLotMin := ⟨1, 0⟩
  marketLotMax := ⟨10, 0⟩
  marketLotStep := ⟨1, 0⟩
  minNotional := ⟨0, 0⟩
  exponents := by decide

/-- A side of one level. -/
def thin (price : Int64) (lots : UInt64) : CEXMarket := ⟨[⟨price, lots⟩], [⟨price, lots⟩], none⟩

/-- The depth and the limits admit the lot, but its price is no whole number of units of 10⁻⁸. -/
theorem ApplyHedge_inexact_notional :
    (1 ≤ (lotPrices (thin 1 1).bids).length ∧ 1 ≤ (lotPrices (thin 1 1).asks).length ∧
        coin.lotMin.value ≤ 1 ∧ 1 ≤ coin.lotMax.value ∧ coin.marketLotMin.value ≤ 1 ∧
        1 ≤ coin.marketLotMax.value ∧ coin.minNotional.value ≤ cost coin (thin 1 1).bids 1) ∧
      (ApplyHedge newFromString (fun d => (plainLiteral d).text) {} coin (thin 1 1) (some (10 ^ 18))).2 =
        some "cex_amount_not_exact_at_scale" := by
  decide +kernel

/-- One coin and a half is hedged by one coin. -/
theorem ApplyHedge_exact_coin :
    ∃ hedged residual sell buy : Int,
      (ApplyHedge newFromString (fun d => (plainLiteral d).text) {} coin (thin 10 3)
          (some (3 * 10 ^ 18 / 2))).1 =
        { hedgeInstrumentId := coin.instrument.id
          hedgeStatus := "ok"
          hedgeReason := ""
          hedgeQuantityLot := some 1
          hedgeEthWei := some hedged
          unhedgedEthResidualWei := some residual
          hedgeSellNotionalUsdtE8 := some sell
          hedgeBuyNotionalUsdtE8 := some buy } ∧
      hedged = 1 * 10 ^ 18 ∧ hedged + residual = 3 * 10 ^ 18 / 2 ∧ 0 ≤ residual ∧ residual < 10 ^ 18 ∧
      (sell : ℚ) = cost coin (thin 10 3).bids (Int.toNat 1) * 10 ^ 8 ∧
      (buy : ℚ) = cost coin (thin 10 3).asks (Int.toNat 1) * 10 ^ 8 := by
  have hside : Fills coin [⟨10, 3⟩] 1 :=
    ⟨by decide, by decide +kernel, 1, by norm_num, by norm_num, by decide +kernel⟩
  have h : Hedges coin (thin 10 3) (3 * 10 ^ 18 / 2) (10 ^ 18) 1 := {
    depthErr := rfl
    identity := by decide
    amount_pos := by norm_num
    amount_lt := by norm_num
    lot_eq := by decide +kernel
    lot_pos := by norm_num
    lot_lt := by norm_num
    lots := by norm_num
    lots_pos := by norm_num
    lots_lt := by norm_num
    lotMin := by decide +kernel
    lotMax := by decide +kernel
    marketLotMin := by decide +kernel
    marketLotMax := by decide +kernel
    marketStep := by decide
    marketLots := ⟨1, by norm_num, by decide +kernel⟩
    bids := hside
    asks := hside }
  exact (ApplyHedge_exact newFromString_reads prints_plainLiteral {} coin (thin 10 3) _).2 _ _ _ rfl h

end Lst

end MarketInfo
