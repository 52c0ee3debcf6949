import MarketInfo.Model.Decimal

/-! # Option prices and quantities

The parser of option feeds also takes powers of ten, within bounds that are checked before
the text is read. Prices and quantities are whole numbers of 10⁻⁸.
-/

namespace MarketInfo.Options

open Json (Text)
open Check (failIf seq_eq_ok andThen_eq_ok failIf_eq_ok)

/-- `^-?(0|[1-9][0-9]*)(\.[0-9]+)?([eE][+-]?[0-9]+)?$`. -/
def jsonNumber : RegularExpression Char :=
  Pattern.optional (.char '-') *
    ((.char '0' + Pattern.oneOf ['1', '2', '3', '4', '5', '6', '7', '8', '9'] * Pattern.digit.star) *
      (Pattern.optional (.char '.' * Pattern.many Pattern.digit) *
        Pattern.optional (Pattern.oneOf ['e', 'E'] *
          (Pattern.optional (Pattern.oneOf ['+', '-']) * Pattern.many Pattern.digit))))

/-- What a successful `IndexAny(raw, "eE")` checks. -/
def checkExponent (raw : Text) : Except ParseError Unit :=
  match raw.dropWhile unmarked with
  | [] => .ok ()
  | _ :: text =>
      match setString text with
      | none => .error (.message "decimal exponent out of bounds")
      | some exp =>
          failIf (¬ IsInt64 exp ∨ exp < -128 ∨ 128 < exp) (.message "decimal exponent out of bounds")

def decimalInteger (v : Decimal) (scale : Int) : Except ParseError Int := do
  let shift := v.exponent + scale
  failIf (shift < -256 ∨ 256 < shift) (.message "decimal scale out of bounds")
  let power : Int := 10 ^ shift.natAbs
  if 0 ≤ shift then return v.coefficient * power
  else do
    failIf (v.coefficient.tmod power ≠ 0) (.message "decimal is not exactly representable")
    return v.coefficient.tdiv power

section

variable (NewFromString : Text → Except String Decimal)

def ParseNumber (raw : Text) : Except ParseError Decimal := do
  failIf (raw.length = 0 ∨ 128 < Codec.byteLength raw ∨ jsonNumber.rmatch raw = false)
    (.message "invalid or oversized JSON decimal")
  checkExponent raw
  match NewFromString raw with
  | .error _ => .error (.message "decimal outside parser bounds")
  | .ok v =>
      failIf (v.exponent < -256 ∨ 128 < v.exponent) (.message "decimal outside parser bounds")
      return v

def Price (raw : Text) (signed : Bool) : Except ParseError Int := do
  let v ← ParseNumber NewFromString raw
  let n ← decimalInteger v 8
  failIf (¬ IsInt64 n ∨ (signed = false ∧ n ≤ 0)) (.message "price outside allowed Int64 domain")
  return n

def Quantity (raw : Text) : Except ParseError Nat := do
  let v ← ParseNumber NewFromString raw
  let n ← decimalInteger v 8
  failIf (¬ IsUint64 n) (.message "quantity outside UInt64 domain")
  return n.toNat

end

/-- `StorageUnit`. -/
def StorageUnit : Decimal := ⟨1, -8⟩

/-! ## The grammar -/

theorem mem_whole {s : Text} :
    s ∈ (.char '0' + Pattern.oneOf ['1', '2', '3', '4', '5', '6', '7', '8', '9'] * Pattern.digit.star :
        RegularExpression Char).matches' ↔
      AllDigits s ∧ (s = ['0'] ∨ ∃ c rest, s = c :: rest ∧ c ≠ '0') := by
  rw [RegularExpression.matches'_add, Language.mem_add, Pattern.mem_mul, Pattern.mem_char]
  constructor
  · rintro (rfl | ⟨a, ha, b, hb, rfl⟩)
    · refine ⟨?_, .inl rfl⟩
      intro c hc
      rw [List.mem_singleton.1 hc]
      rfl
    · obtain ⟨c, hc, rfl⟩ := Pattern.mem_oneOf.1 ha
      refine ⟨?_, .inr ⟨c, b, rfl, ?_⟩⟩
      · intro d hd
        rcases List.mem_cons.1 hd with rfl | hd
        · exact Pattern.mem_digits.1 (List.mem_cons_of_mem _ hc)
        · exact Pattern.mem_star_digit.1 hb d hd
      · rintro rfl
        revert hc
        decide
  · rintro ⟨hall, rfl | ⟨c, rest, rfl, hc⟩⟩
    · exact .inl rfl
    · have hdigit := Pattern.mem_digits.2 (hall c List.mem_cons_self)
      have hfirst := (List.mem_cons.1 hdigit).resolve_left hc
      refine .inr ⟨[c], Pattern.mem_oneOf.2 ⟨c, hfirst, rfl⟩, rest, ?_, rfl⟩
      exact Pattern.mem_star_digit.2 fun d hd => hall d (List.mem_cons_of_mem c hd)

theorem mem_fraction {s : Text} :
    s ∈ (Pattern.optional (.char '.' * Pattern.many Pattern.digit)).matches' ↔
      ∃ fraction : Option Text, AllDigits (fraction.getD []) ∧ fraction ≠ some [] ∧
        s = (fraction.map (List.cons '.')).getD [] := by
  rw [Pattern.mem_optional, Pattern.mem_mul]
  constructor
  · rintro (rfl | ⟨a, ha, b, hb, rfl⟩)
    · exact ⟨none, by simp [AllDigits], by simp, rfl⟩
    · obtain rfl : a = ['.'] := ha
      obtain ⟨hne, hall⟩ := Pattern.mem_many_digit.1 hb
      exact ⟨some b, hall, by simpa using hne, rfl⟩
  · rintro ⟨fraction, hall, hne, rfl⟩
    rcases fraction with _ | digits
    · exact .inl rfl
    · have hdigits : digits ≠ [] := fun h => hne (congrArg some h)
      exact .inr ⟨['.'], rfl, digits, Pattern.mem_many_digit.2 ⟨hdigits, hall⟩, rfl⟩

theorem mem_exponent {s : Text} :
    s ∈ (Pattern.optional (Pattern.oneOf ['e', 'E'] *
        (Pattern.optional (Pattern.oneOf ['+', '-']) * Pattern.many Pattern.digit))).matches' ↔
      ∃ exponent : Option Exponent, (∀ e ∈ exponent, e.Wellformed) ∧
        s = (exponent.map Exponent.text).getD [] := by
  rw [Pattern.mem_optional, Pattern.mem_mul]
  constructor
  · rintro (rfl | ⟨a, ha, b, hb, rfl⟩)
    · exact ⟨none, by simp, rfl⟩
    · obtain ⟨mark, hmark, rfl⟩ := Pattern.mem_oneOf.1 ha
      obtain ⟨sign, hsign, digits, hdigits, rfl⟩ := Pattern.mem_mul.1 hb
      obtain ⟨hne, hall⟩ := Pattern.mem_many_digit.1 hdigits
      have hmarked : mark = 'e' ∨ mark = 'E' := by simpa using hmark
      rcases Pattern.mem_optional.1 hsign with rfl | hsigned
      · refine ⟨some ⟨mark, none, digits⟩, ?_, rfl⟩
        rintro _ ⟨⟩
        exact ⟨hmarked, .inl rfl, hne, hall⟩
      · obtain ⟨c, hc, rfl⟩ := Pattern.mem_oneOf.1 hsigned
        refine ⟨some ⟨mark, some c, digits⟩, ?_, rfl⟩
        rintro _ ⟨⟩
        refine ⟨hmarked, ?_, hne, hall⟩
        have : c = '+' ∨ c = '-' := by simpa using hc
        rcases this with rfl | rfl
        · exact .inr (.inl rfl)
        · exact .inr (.inr rfl)
  · rintro ⟨exponent, hwellformed, rfl⟩
    rcases exponent with _ | e
    · exact .inl rfl
    · have he := hwellformed e rfl
      have hdigits := Pattern.mem_many_digit.2 ⟨he.some_digit, he.digits⟩
      refine .inr ⟨[e.mark], Pattern.mem_oneOf.2 ⟨e.mark, by simpa using he.mark, rfl⟩, _,
        Pattern.mem_mul.2 ⟨e.sign.toList, ?_, e.digits, hdigits, rfl⟩, rfl⟩
      rw [Pattern.mem_optional, Pattern.mem_oneOf]
      rcases he.sign with hsign | hsign | hsign
      · rw [hsign]
        exact .inl rfl
      · rw [hsign]
        exact .inr ⟨'+', by simp, rfl⟩
      · rw [hsign]
        exact .inr ⟨'-', by simp, rfl⟩

/-- The expression matches the JSON numbers and nothing else. -/
theorem jsonNumber_iff {raw : Text} :
    jsonNumber.rmatch raw = true ↔ ∃ l : Literal, l.Number ∧ l.text = raw := by
  rw [RegularExpression.rmatch_iff_matches', jsonNumber, Pattern.mem_mul]
  constructor
  · rintro ⟨sign, hsign, _, hunsigned, rfl⟩
    obtain ⟨whole, hwhole, _, hafter, rfl⟩ := Pattern.mem_mul.1 hunsigned
    obtain ⟨point, hpoint, power, hpower, rfl⟩ := Pattern.mem_mul.1 hafter
    obtain ⟨hdigits, hleading⟩ := mem_whole.1 hwhole
    obtain ⟨fraction, hfraction, hsome, rfl⟩ := mem_fraction.1 hpoint
    obtain ⟨exponent, hexponent, rfl⟩ := mem_exponent.1 hpower
    have hne : whole ++ fraction.getD [] ≠ [] := by
      rintro h
      obtain ⟨rfl, -⟩ := List.append_eq_nil_iff.1 h
      rcases hleading with h | ⟨c, rest, h, -⟩ <;> cases h
    have hnumber : ∀ negative, Literal.Number ⟨negative, whole, fraction, exponent⟩ := fun _ =>
      ⟨⟨hdigits, hfraction, hne, hexponent⟩, hleading, hsome⟩
    rcases Pattern.mem_optional.1 hsign with rfl | hminus
    · refine ⟨⟨false, whole, fraction, exponent⟩, hnumber false, ?_⟩
      simp [Literal.text, Literal.signText, Literal.mantissa]
    · obtain rfl : sign = ['-'] := hminus
      refine ⟨⟨true, whole, fraction, exponent⟩, hnumber true, ?_⟩
      simp [Literal.text, Literal.signText, Literal.mantissa]
  · rintro ⟨l, hl, rfl⟩
    refine ⟨l.signText, ?_, l.whole ++ ((l.fraction.map (List.cons '.')).getD [] ++
      (l.exponent.map Exponent.text).getD []), ?_, ?_⟩
    · rw [Pattern.mem_optional]
      unfold Literal.signText
      split
      · exact .inr rfl
      · exact .inl rfl
    · refine Pattern.mem_mul.2 ⟨l.whole, mem_whole.2 ⟨hl.whole, hl.no_leading_zero⟩, _, ?_, rfl⟩
      exact Pattern.mem_mul.2 ⟨_, mem_fraction.2 ⟨l.fraction, hl.fraction, hl.fraction_digit, rfl⟩, _,
        mem_exponent.2 ⟨l.exponent, hl.exponent, rfl⟩, rfl⟩
    · simp [Literal.text, Literal.mantissa]

/-! ## The bounds -/

theorem length_le_byteLength (s : Text) : s.length ≤ Codec.byteLength s := by
  unfold Codec.byteLength
  have hall : ∀ n ∈ s.map Char.utf8Size, 1 ≤ n := by
    intro n hn
    obtain ⟨c, -, rfl⟩ := List.mem_map.1 hn
    exact Char.utf8Size_pos c
  calc s.length = (s.map Char.utf8Size).length := by rw [List.length_map]
    _ ≤ (s.map Char.utf8Size).sum := List.length_le_sum_of_one_le _ hall

theorem checkExponent_iff {l : Literal} (h : l.Wellformed) :
    checkExponent l.text = .ok () ↔ |l.power| ≤ 128 := by
  unfold checkExponent
  rw [(divided h).2]
  rcases he : l.exponent with _ | e
  · rw [Literal.power_of_none he]
    simp
  · have hpower : l.power = e.power := by
      unfold Literal.power
      rw [he]
      rfl
    rw [hpower]
    change (match setString (e.sign.toList ++ e.digits) with
      | none => Except.error (ParseError.message "decimal exponent out of bounds")
      | some exp => failIf (¬ IsInt64 exp ∨ exp < -128 ∨ 128 < exp)
          (ParseError.message "decimal exponent out of bounds")) = .ok () ↔ _
    rw [setString_power (h.exponent e he)]
    dsimp only
    rw [failIf_eq_ok, abs_le]
    constructor
    · intro hguard
      omega
    · rintro ⟨hlow, hhigh⟩
      omega

/-- A number of 128 bytes, with a power of ten of 128 places either way. -/
structure Admitted (l : Literal) : Prop where
  number : l.Number
  bytes : Codec.byteLength l.text ≤ 128
  power : |l.power| ≤ 128

theorem Admitted.scale {l : Literal} (h : Admitted l) : -256 ≤ l.scale ∧ l.scale ≤ 128 := by
  have hlength := l.length_fractionDigits_le.trans (length_le_byteLength l.text)
  have hbytes := h.bytes
  have hpower := abs_le.1 h.power
  unfold Literal.scale
  omega

section

variable {NewFromString : Text → Except String Decimal} (hread : ReadsExactly NewFromString)
include hread

theorem parseNumber_iff {raw : Text} {v : Decimal} :
    ParseNumber NewFromString raw = .ok v ↔
      ∃ l : Literal, Admitted l ∧ l.text = raw ∧ v = ⟨l.coefficient, l.scale⟩ := by
  have hparsed : ∀ l : Literal, Admitted l → NewFromString l.text = .ok ⟨l.coefficient, l.scale⟩ := by
    intro l hl
    have hscale := hl.scale
    have hpower := abs_le.1 hl.power
    exact hread l hl.number.toWellformed ⟨by omega, by omega⟩ ⟨by omega, by omega⟩
  unfold ParseNumber
  rw [seq_eq_ok, failIf_eq_ok, seq_eq_ok, not_or, not_or, Bool.not_eq_false, not_lt]
  constructor
  · rintro ⟨⟨-, hbytes, hnumber⟩, hexponent, hresult⟩
    obtain ⟨l, hl, rfl⟩ := jsonNumber_iff.1 hnumber
    have hadmitted : Admitted l := ⟨hl, hbytes, (checkExponent_iff hl.toWellformed).1 hexponent⟩
    rw [hparsed l hadmitted] at hresult
    dsimp only at hresult
    rw [seq_eq_ok] at hresult
    exact ⟨l, hadmitted, rfl, (Except.ok.inj hresult.2).symm⟩
  · rintro ⟨l, hl, rfl, rfl⟩
    have hnumber := jsonNumber_iff.2 ⟨l, hl.number, rfl⟩
    have hscale := hl.scale
    refine ⟨⟨?_, hl.bytes, hnumber⟩, (checkExponent_iff hl.number.toWellformed).2 hl.power, ?_⟩
    · intro hempty
      rw [List.eq_nil_of_length_eq_zero hempty] at hnumber
      revert hnumber
      decide
    · rw [hparsed l hl]
      dsimp only
      rw [seq_eq_ok, failIf_eq_ok]
      exact ⟨by omega, rfl⟩

end

/-- Within the bounds the units are exact. -/
theorem decimalInteger_iff {v : Decimal} {n : Int} (hbounds : -256 ≤ v.exponent + 8 ∧ v.exponent + 8 ≤ 256) :
    decimalInteger v 8 = .ok n ↔ v.value = n * StorageUnit.value := by
  have hten : (10 : ℚ) ≠ 0 := by norm_num
  have hunit : StorageUnit.value = (10 : ℚ) ^ (-8 : ℤ) := by
    unfold Decimal.value StorageUnit
    rw [Int.cast_one, one_mul]
  have hscaled : v.value = n * StorageUnit.value ↔ (v.coefficient : ℚ) * (10 : ℚ) ^ (v.exponent + 8) = n := by
    rw [hunit, zpow_neg, ← div_eq_mul_inv, eq_div_iff (zpow_ne_zero _ hten), Decimal.value, mul_assoc,
      ← zpow_add₀ hten]
  unfold decimalInteger
  dsimp only
  rw [seq_eq_ok, failIf_eq_ok, hscaled]
  generalize v.exponent + 8 = shift at hbounds
  by_cases hsign : 0 ≤ shift
  · obtain ⟨k, rfl⟩ := Int.eq_ofNat_of_zero_le hsign
    rw [if_pos hsign, Int.natAbs_natCast, zpow_natCast]
    constructor
    · rintro ⟨-, hresult⟩
      rw [← Except.ok.inj hresult]
      push_cast
      rfl
    · intro h
      refine ⟨by omega, congrArg Except.ok ?_⟩
      exact_mod_cast h
  · obtain ⟨k, hk⟩ := Int.eq_ofNat_of_zero_le (show 0 ≤ -shift by omega)
    obtain rfl : shift = -k := by omega
    rw [if_neg hsign, Int.natAbs_neg, Int.natAbs_natCast, zpow_neg, zpow_natCast, ← div_eq_mul_inv,
      div_eq_iff (pow_ne_zero k hten), seq_eq_ok, failIf_eq_ok, not_not]
    have hpower : (10 : ℤ) ^ k ≠ 0 := by positivity
    constructor
    · rintro ⟨-, hremainder, hresult⟩
      rw [← Except.ok.inj hresult]
      exact_mod_cast (Int.tdiv_mul_cancel (Int.dvd_of_tmod_eq_zero hremainder)).symm
    · intro h
      have hcoefficient : v.coefficient = n * 10 ^ k := by exact_mod_cast h
      refine ⟨by omega, ?_, ?_⟩
      · rw [hcoefficient]
        exact Int.mul_tmod_left _ _
      · rw [hcoefficient]
        exact congrArg Except.ok (Int.mul_tdiv_cancel _ hpower)

section

variable {NewFromString : Text → Except String Decimal} (hread : ReadsExactly NewFromString)
include hread

/-- What both option parsers read before they look at the range. -/
theorem read_units_iff {raw : Text} {n : Int} :
    (∃ v, ParseNumber NewFromString raw = .ok v ∧ decimalInteger v 8 = .ok n) ↔
      ∃ l : Literal, Admitted l ∧ l.text = raw ∧ l.value = n * StorageUnit.value := by
  constructor
  · rintro ⟨v, hv, hn⟩
    obtain ⟨l, hl, hraw, rfl⟩ := (parseNumber_iff hread).1 hv
    have hscale := hl.scale
    rw [decimalInteger_iff ⟨by dsimp only; omega, by dsimp only; omega⟩] at hn
    exact ⟨l, hl, hraw, (Literal.value_eq l).trans hn⟩
  · rintro ⟨l, hl, hraw, hn⟩
    have hscale := hl.scale
    refine ⟨⟨l.coefficient, l.scale⟩, (parseNumber_iff hread).2 ⟨l, hl, hraw, rfl⟩, ?_⟩
    rw [decimalInteger_iff ⟨by dsimp only; omega, by dsimp only; omega⟩]
    exact (Literal.value_eq l).symm.trans hn

theorem price_iff {raw : Text} {signed : Bool} {n : Int} :
    Price NewFromString raw signed = .ok n ↔
      (IsInt64 n ∧ (signed = true ∨ 0 < n)) ∧
        ∃ l : Literal, Admitted l ∧ l.text = raw ∧ l.value = n * StorageUnit.value := by
  rw [← read_units_iff hread]
  unfold Price
  simp only [andThen_eq_ok, exists_const, failIf_eq_ok]
  constructor
  · rintro ⟨v, hv, units, hunits, hguard, hresult⟩
    obtain rfl := Except.ok.inj hresult
    rw [not_or, not_not, not_and, not_le] at hguard
    refine ⟨⟨hguard.1, ?_⟩, v, hv, hunits⟩
    rcases signed with _ | _
    · exact .inr (hguard.2 rfl)
    · exact .inl rfl
  · rintro ⟨⟨hrange, hsign⟩, v, hv, hunits⟩
    refine ⟨v, hv, n, hunits, ?_, rfl⟩
    rw [not_or, not_not, not_and, not_le]
    refine ⟨hrange, fun hunsigned => ?_⟩
    rcases hsign with hsigned | hpositive
    · rw [hsigned] at hunsigned
      cases hunsigned
    · exact hpositive

theorem quantity_iff {raw : Text} {n : Nat} :
    Quantity NewFromString raw = .ok n ↔
      n < 2 ^ 64 ∧ ∃ l : Literal, Admitted l ∧ l.text = raw ∧ l.value = n * StorageUnit.value := by
  have hread := @read_units_iff _ hread raw n
  rw [Int.cast_natCast] at hread
  rw [← hread]
  unfold Quantity
  simp only [andThen_eq_ok, exists_const, failIf_eq_ok, not_not]
  constructor
  · rintro ⟨v, hv, units, hunits, hrange, hresult⟩
    obtain rfl := Except.ok.inj hresult
    refine ⟨by omega, v, hv, ?_⟩
    rw [Int.toNat_of_nonneg hrange.1]
    exact hunits
  · rintro ⟨hbound, v, hv, hunits⟩
    exact ⟨v, hv, n, hunits, ⟨by omega, by omega⟩, rfl⟩

end

/-! ## Exact parsing -/

/-- `PriceTick` and `QuantityLot` return a number exactly when it is what the literal is in
steps and lies in the range, and so do the option parsers within their bounds. -/
theorem parsing_exact {NewFromString : Text → Except String Decimal} (hread : ReadsExactly NewFromString)
    (raw : Text) :
    (∀ step : Decimal, step.IsPositive → (∀ l : Literal, l.Plain → l.text = raw → Aligned l.scale step) →
      (∀ tick : Int, PriceTick NewFromString raw step = .ok tick ↔
        (0 < tick ∧ tick < 2 ^ 63) ∧
          ∃ l : Literal, l.Plain ∧ l.text = raw ∧ l.value = tick * step.value) ∧
      (∀ lot : Nat, QuantityLot NewFromString raw step = .ok lot ↔
        lot < 2 ^ 64 ∧ ∃ l : Literal, l.Plain ∧ l.text = raw ∧ l.value = lot * step.value)) ∧
      (∀ (signed : Bool) (n : Int), Price NewFromString raw signed = .ok n ↔
        (IsInt64 n ∧ (signed = true ∨ 0 < n)) ∧
          ∃ l : Literal, Admitted l ∧ l.text = raw ∧ l.value = n * StorageUnit.value) ∧
      ∀ n : Nat, Quantity NewFromString raw = .ok n ↔
        n < 2 ^ 64 ∧ ∃ l : Literal, Admitted l ∧ l.text = raw ∧ l.value = n * StorageUnit.value :=
  ⟨fun _ hstep hfit => ⟨fun _ => priceTick_iff hread hstep hfit, fun _ => quantityLot_iff hread hstep hfit⟩,
    fun _ _ => price_iff hread, fun _ => quantity_iff hread⟩

theorem parsing_exact_quantity :
    QuantityLot newFromString ['1', '.', '2', '3', '0'] ⟨1, -3⟩ = .ok 1230 ↔
      1230 < 2 ^ 64 ∧ ∃ l : Literal, l.Plain ∧ l.text = ['1', '.', '2', '3', '0'] ∧
        l.value = (1230 : Nat) * (Decimal.mk 1 (-3)).value := by
  refine ((parsing_exact newFromString_reads ['1', '.', '2', '3', '0']).1 ⟨1, -3⟩ (by decide) ?_).2 1230
  intro l hl htext
  have hlength := l.length_fractionDigits_le
  rw [htext] at hlength
  have hpower := Literal.power_of_none hl.no_exponent
  have hplaces : l.fractionDigits.length ≤ 5 := hlength
  have hscale : -5 ≤ l.scale ∧ l.scale ≤ 0 := by
    unfold Literal.scale
    omega
  constructor
  · omega
  · rw [abs_lt]
    dsimp only
    constructor
    · omega
    · omega

example : QuantityLot newFromString ['1', '.', '2', '3', '0'] ⟨1, -3⟩ = .ok 1230 := by decide

/-- `0e129`. -/
def zeroLiteral : Literal := ⟨false, ['0'], none, some ⟨'e', none, ['1', '2', '9']⟩⟩

theorem zeroLiteral_number : zeroLiteral.Number := by
  have hdigits : AllDigits ['0'] ∧ AllDigits ['1', '2', '9'] := by simp [AllDigits]
  refine ⟨⟨hdigits.1, by simp [Literal.fractionDigits, zeroLiteral, AllDigits], by simp [zeroLiteral], ?_⟩,
    .inl rfl, by simp [zeroLiteral]⟩
  rintro _ ⟨⟩
  exact ⟨.inl rfl, .inl rfl, by simp, hdigits.2⟩

/-- Zero is refused when its power of ten is above the bound. -/
theorem large_exponent_refused :
    ¬ ∀ (NewFromString : Text → Except String Decimal), ReadsExactly NewFromString →
      ∀ (raw : Text) (n : Nat), Quantity NewFromString raw = .ok n ↔
        n < 2 ^ 64 ∧ ∃ l : Literal, l.Number ∧ l.text = raw ∧ l.value = n * StorageUnit.value := by
  intro h
  have hvalue : zeroLiteral.value = (0 : ℕ) * StorageUnit.value := by
    have hcoefficient : zeroLiteral.coefficient = 0 := by decide
    rw [Literal.value_eq, hcoefficient, Int.cast_zero, zero_mul, Nat.cast_zero, zero_mul]
  have haccepted := (h newFromString newFromString_reads zeroLiteral.text 0).2
    ⟨by norm_num, zeroLiteral, zeroLiteral_number, rfl, hvalue⟩
  obtain ⟨-, l, hl, htext, -⟩ := (quantity_iff newFromString_reads).1 haccepted
  have hpower := (checkExponent_iff hl.number.toWellformed).2 hl.power
  rw [htext] at hpower
  revert hpower
  decide

end MarketInfo.Options
