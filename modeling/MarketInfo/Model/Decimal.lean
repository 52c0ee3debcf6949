import MarketInfo.Lib.Literal
import MarketInfo.Lib.Check
import MarketInfo.Codec.Type
import MarketInfo.Discovery.Decimal

/-! # Ticks and lots

A price or a quantity that a venue sends as text, in units of the instrument's step. The
text is read by `decimal.NewFromString`, which is a parameter here; the units are an exact
quotient of integers after both decimals were brought to one exponent.
-/

namespace MarketInfo

open Json (Text)
open Check (failIf seq_eq_ok andThen_eq_ok failIf_eq_ok)

inductive ParseError
  | message (text : String)
  /-- `value %s is not exactly divisible by step %s`. -/
  | indivisible (value step : Decimal)
  /-- `%s: %w`. -/
  | wrapped (field : String) (err : ParseError)
deriving DecidableEq, Repr

/-- `fmt.Errorf(field + ": %w", err)`. -/
def inField {α : Type} (field : String) : Except ParseError α → Except ParseError α
  | .error e => .error (.wrapped field e)
  | .ok a => .ok a

@[simp] theorem inField_eq_ok {α : Type} {field : String} {x : Except ParseError α} {a : α} :
    inField field x = .ok a ↔ x = .ok a := by
  cases x <;> simp [inField]

@[reducible] def IsInt32 (n : Int) : Prop := -2 ^ 31 ≤ n ∧ n < 2 ^ 31
@[reducible] def IsInt64 (n : Int) : Prop := -2 ^ 63 ≤ n ∧ n < 2 ^ 63
@[reducible] def IsUint64 (n : Int) : Prop := 0 ≤ n ∧ n < 2 ^ 64

/-- The loop of `plainDecimal`, after some digits and points. -/
def plainDigits : Nat → Nat → Text → Bool
  | digits, _, [] => decide (0 < digits)
  | digits, dots, c :: rest =>
      if c = '.' then if 1 < dots + 1 then false else plainDigits digits (dots + 1) rest
      else if c.isDigit then plainDigits (digits + 1) dots rest
      else false

def plainDecimal (value : Text) : Bool :=
  if value.head? = some '-' then
    if value.length = 1 then false else plainDigits 0 0 value.tail
  else plainDigits 0 0 value

/-- The shift is an `int32`. -/
def scaledCoefficient (value : Decimal) (exponent : Int) : Int :=
  let shift := (value.exponent - exponent).bmod (2 ^ 32)
  if shift ≤ 0 then value.coefficient else value.coefficient * 10 ^ shift.toNat

def decimalUnits (value step : Decimal) : Except ParseError Int := do
  failIf (¬ step.IsPositive) (.message "step must be positive")
  let commonExponent := if step.exponent < value.exponent then step.exponent else value.exponent
  let valueInteger := scaledCoefficient value commonExponent
  let stepInteger := scaledCoefficient step commonExponent
  failIf (valueInteger.tmod stepInteger ≠ 0) (.indivisible value step)
  return valueInteger.tdiv stepInteger

section

variable (NewFromString : Text → Except String Decimal)

def ParseStrictDecimal (raw : Text) (field : String) : Except ParseError Decimal := do
  failIf (raw = [] ∨ Codec.trimSpace raw ≠ raw ∨ plainDecimal raw = false)
    (.message (field ++ " must be a plain decimal string"))
  match NewFromString raw with
  | .error e => .error (.wrapped field (.message e))
  | .ok value => return value

def ParsePositiveDecimal (raw : Text) (field : String) : Except ParseError Decimal := do
  let value ← ParseStrictDecimal NewFromString raw field
  failIf (¬ value.IsPositive) (.message (field ++ " must be positive"))
  return value

def PriceTick (raw : Text) (step : Decimal) : Except ParseError Int := do
  let value ← ParsePositiveDecimal NewFromString raw "price"
  let units ← inField "price" (decimalUnits value step)
  failIf (¬ IsInt64 units ∨ units ≤ 0) (.message "price tick is outside positive Int64 range")
  return units

def QuantityLot (raw : Text) (step : Decimal) : Except ParseError Nat := do
  let value ← ParseStrictDecimal NewFromString raw "quantity"
  failIf value.IsNegative (.message "quantity must be non-negative")
  let units ← inField "quantity" (decimalUnits value step)
  failIf (¬ IsUint64 units) (.message "quantity lot is outside UInt64 range")
  return units.toNat

end

/-! ## What is assumed of the reader -/

/-- `decimal.NewFromString` reads a literal without rounding while its exponents are `int32`. -/
def ReadsExactly (NewFromString : Text → Except String Decimal) : Prop :=
  ∀ l : Literal, l.Wellformed → IsInt32 l.power → IsInt32 l.scale →
    NewFromString l.text = .ok ⟨l.coefficient, l.scale⟩

/-- `SetString(s, 10)` of a `big.Int`. -/
def setString (s : Text) : Option Int :=
  let negative := s.head? = some '-'
  let digits := if negative ∨ s.head? = some '+' then s.tail else s
  if digits = [] ∨ digits.all Char.isDigit = false then none
  else some (if negative then -(Nat.ofDigitChars 10 digits 0 : Int) else Nat.ofDigitChars 10 digits 0)

/-- Neither `e` nor `E`. -/
def unmarked (c : Char) : Bool := c ≠ 'e' && c ≠ 'E'

/-- A reader: the exponent, then the digits on both sides of the point. -/
def newFromString (s : Text) : Except String Decimal :=
  let mantissa := s.takeWhile unmarked
  let before := mantissa.takeWhile fun c => c ≠ '.'
  let after := (mantissa.dropWhile fun c => c ≠ '.').tail
  let power := match s.dropWhile unmarked with
    | [] => some 0
    | _ :: digits => setString digits
  match power, setString (before ++ after) with
  | some power, some coefficient =>
      if IsInt32 power ∧ IsInt32 (power - after.length) then .ok ⟨coefficient, power - after.length⟩
      else .error "fractional part too long"
  | _, _ => .error "can't convert to decimal"

/-! ## The grammar -/

theorem plainDigits_after_point {s : Text} {digits : Nat} :
    plainDigits digits 1 s = true ↔ AllDigits s ∧ 0 < digits + s.length := by
  induction s generalizing digits with
  | nil => simp [plainDigits, AllDigits]
  | cons c rest ih =>
      rw [plainDigits]
      by_cases hpoint : c = '.'
      · rw [if_pos hpoint, if_pos (by norm_num)]
        refine ⟨(by rintro ⟨⟩), fun h => ?_⟩
        exact absurd hpoint (h.1.ne List.mem_cons_self rfl)
      · rw [if_neg hpoint]
        by_cases hdigit : c.isDigit = true
        · rw [if_pos hdigit, ih]
          have hall : AllDigits (c :: rest) ↔ AllDigits rest := by
            simp [AllDigits, hdigit]
          rw [hall, List.length_cons]
          refine and_congr_right fun _ => ?_
          omega
        · rw [if_neg hdigit]
          exact ⟨(by rintro ⟨⟩), fun h => absurd (h.1 c List.mem_cons_self) hdigit⟩

/-- Digits, and perhaps a point followed by digits. -/
theorem plainDigits_iff {s : Text} {digits : Nat} :
    plainDigits digits 0 s = true ↔ ∃ (whole : Text) (fraction : Option Text), AllDigits whole ∧
      AllDigits (fraction.getD []) ∧ 0 < digits + (whole ++ fraction.getD []).length ∧
      s = whole ++ (fraction.map (List.cons '.')).getD [] := by
  induction s generalizing digits with
  | nil =>
      constructor
      · intro h
        refine ⟨[], none, by simp [AllDigits], by simp [AllDigits], ?_, rfl⟩
        simpa [plainDigits] using h
      · rintro ⟨whole, fraction, -, -, hsome, htext⟩
        obtain ⟨rfl, hfraction⟩ := List.nil_eq_append_iff.1 htext
        rcases fraction with _ | fraction
        · simpa [plainDigits] using hsome
        · cases hfraction
  | cons c rest ih =>
      rw [plainDigits]
      -- the first point ends the whole part, and a second one is refused
      by_cases hpoint : c = '.'
      · subst hpoint
        rw [if_pos rfl, if_neg (by norm_num), plainDigits_after_point]
        constructor
        · rintro ⟨hall, hsome⟩
          exact ⟨[], some rest, by simp [AllDigits], hall, by simpa using hsome, rfl⟩
        · rintro ⟨whole, fraction, hwhole, hfraction, hsome, htext⟩
          rcases whole with _ | ⟨d, whole⟩
          · rcases fraction with _ | fraction
            · cases htext
            · obtain rfl : rest = fraction := (List.cons.inj htext).2
              exact ⟨hfraction, by simpa using hsome⟩
          · have hd : d = '.' := (List.cons.inj htext).1.symm
            exact absurd hd (hwhole.ne List.mem_cons_self rfl)
      · rw [if_neg hpoint]
        by_cases hdigit : c.isDigit = true
        · rw [if_pos hdigit, ih]
          constructor
          · rintro ⟨whole, fraction, hwhole, hfraction, hsome, rfl⟩
            refine ⟨c :: whole, fraction, ?_, hfraction, ?_, rfl⟩
            · intro d hd
              rcases List.mem_cons.1 hd with rfl | hd
              · exact hdigit
              · exact hwhole d hd
            · rw [List.cons_append, List.length_cons]
              omega
          · rintro ⟨whole, fraction, hwhole, hfraction, hsome, htext⟩
            rcases whole with _ | ⟨d, whole⟩
            · rcases fraction with _ | fraction
              · cases htext
              · exact absurd (List.cons.inj htext).1 hpoint
            · refine ⟨whole, fraction, fun d hd => hwhole d (List.mem_cons_of_mem _ hd), hfraction, ?_,
                (List.cons.inj htext).2⟩
              rw [List.cons_append, List.length_cons] at hsome
              omega
        · rw [if_neg hdigit]
          refine ⟨(by rintro ⟨⟩), ?_⟩
          rintro ⟨whole, fraction, hwhole, -, -, htext⟩
          rcases whole with _ | ⟨d, whole⟩
          · rcases fraction with _ | fraction
            · cases htext
            · exact absurd (List.cons.inj htext).1 hpoint
          · rw [(List.cons.inj htext).1] at hdigit
            exact absurd (hwhole d List.mem_cons_self) hdigit

theorem plainDecimal_sign {s : Text} (h : s ≠ []) : plainDecimal ('-' :: s) = plainDigits 0 0 s := by
  have hlength : ¬ ('-' :: s).length = 1 := by
    have := List.length_pos_of_ne_nil h
    rw [List.length_cons]
    omega
  unfold plainDecimal
  rw [if_pos List.head?_cons, if_neg hlength, List.tail_cons]

theorem plainDecimal_unsigned {s : Text} (h : s.head? ≠ some '-') : plainDecimal s = plainDigits 0 0 s := by
  unfold plainDecimal
  rw [if_neg h]

/-- `plainDecimal` accepts the plain literals and nothing else. -/
theorem plainDecimal_iff {raw : Text} : plainDecimal raw = true ↔ ∃ l : Literal, l.Plain ∧ l.text = raw := by
  -- the digits that were scanned, behind the sign that was cut off
  have hbuild : ∀ (negative : Bool) (s : Text), plainDigits 0 0 s = true →
      ∃ l : Literal, l.Plain ∧ l.text = (if negative then ['-'] else []) ++ s := by
    intro negative s hs
    obtain ⟨whole, fraction, hwhole, hfraction, hsome, rfl⟩ := plainDigits_iff.1 hs
    refine ⟨⟨negative, whole, fraction, none⟩, ⟨⟨hwhole, hfraction, ?_, by simp⟩, rfl⟩, ?_⟩
    · intro hnone
      have hempty : whole ++ fraction.getD [] = [] := hnone
      rw [hempty] at hsome
      exact absurd hsome (by norm_num)
    · rw [Literal.text_of_none rfl]
      rfl
  constructor
  · intro h
    by_cases hsign : raw.head? = some '-'
    · obtain ⟨s, rfl⟩ := List.head?_eq_some_iff.1 hsign
      by_cases hempty : s = []
      · subst hempty
        cases h
      · rw [plainDecimal_sign hempty] at h
        exact hbuild true s h
    · rw [plainDecimal_unsigned hsign] at h
      exact hbuild false raw h
  · rintro ⟨l, hl, rfl⟩
    have hpositive : 0 < 0 + (l.whole ++ l.fractionDigits).length := by
      have := List.length_pos_of_ne_nil hl.some_digit
      omega
    have hscan : plainDigits 0 0 l.mantissa = true :=
      plainDigits_iff.2 ⟨l.whole, l.fraction, hl.whole, hl.fraction, hpositive, rfl⟩
    rw [Literal.text_of_none hl.no_exponent]
    unfold Literal.signText
    split
    · have hnonempty : l.mantissa ≠ [] := by
        intro h
        rw [h] at hscan
        cases hscan
      rw [List.singleton_append, plainDecimal_sign hnonempty]
      exact hscan
    · -- a sign is neither a digit nor a point
      have hhead : l.mantissa.head? ≠ some '-' := by
        intro h
        obtain ⟨rest, hrest⟩ := List.head?_eq_some_iff.1 h
        rw [hrest] at hscan
        cases hscan
      rw [List.nil_append, plainDecimal_unsigned hhead]
      exact hscan

theorem trimSpace_eq {s : Text} (h : ∀ c ∈ s, Codec.isSpace c = false) : Codec.trimSpace s = s := by
  have hdrop : ∀ t : Text, (∀ c ∈ t, Codec.isSpace c = false) → t.dropWhile Codec.isSpace = t := by
    intro t ht
    rcases t with _ | ⟨c, rest⟩
    · rfl
    · rw [List.dropWhile_cons_of_neg (by rw [ht c List.mem_cons_self]; decide)]
  unfold Codec.trimSpace
  rw [hdrop s h, hdrop s.reverse fun c hc => h c (List.mem_reverse.1 hc), List.reverse_reverse]

theorem isSpace_of_isDigit {c : Char} (h : c.isDigit = true) : Codec.isSpace c = false := by
  have hmem := Pattern.mem_digits.2 h
  fin_cases hmem <;> decide

theorem trimSpace_text {l : Literal} (h : l.Plain) : Codec.trimSpace l.text = l.text := by
  refine trimSpace_eq fun c hc => ?_
  rw [Literal.text_of_none h.no_exponent] at hc
  rcases Literal.mem_front h.toWellformed hc with rfl | rfl | hdigit
  · decide
  · decide
  · exact isSpace_of_isDigit hdigit

/-! ## The reader -/

theorem all_isDigit {s : Text} (h : AllDigits s) : s.all Char.isDigit = true := List.all_eq_true.2 h

theorem setString_minus {s : Text} (hne : s ≠ []) (hs : AllDigits s) :
    setString ('-' :: s) = some (-(Nat.ofDigitChars 10 s 0 : Int)) := by
  simp [setString, hne, all_isDigit hs]

theorem setString_plus {s : Text} (hne : s ≠ []) (hs : AllDigits s) :
    setString ('+' :: s) = some (Nat.ofDigitChars 10 s 0 : Int) := by
  simp [setString, hne, all_isDigit hs]

theorem setString_digits {s : Text} (hne : s ≠ []) (hs : AllDigits s) :
    setString s = some (Nat.ofDigitChars 10 s 0 : Int) := by
  obtain ⟨c, rest, rfl⟩ := List.exists_cons_of_ne_nil hne
  have hminus : c ≠ '-' := hs.ne List.mem_cons_self rfl
  have hplus : c ≠ '+' := hs.ne List.mem_cons_self rfl
  simp only [setString, List.head?_cons, Option.some.injEq, hminus, hplus, or_self, if_false, hne,
    all_isDigit hs, Bool.true_eq_false]

theorem setString_power {e : Exponent} (h : e.Wellformed) :
    setString (e.sign.toList ++ e.digits) = some e.power := by
  unfold Exponent.power
  rcases h.sign with hsign | hsign | hsign
  · rw [hsign, if_neg (by decide)]
    exact setString_digits h.some_digit h.digits
  · rw [hsign, if_neg (by decide)]
    exact setString_plus h.some_digit h.digits
  · rw [hsign, if_pos rfl]
    exact setString_minus h.some_digit h.digits

theorem setString_coefficient {l : Literal} (h : l.Wellformed) :
    setString (l.signText ++ l.whole ++ l.fractionDigits) = some l.coefficient := by
  have hdigits := h.whole.append h.fraction
  unfold Literal.coefficient Literal.sign Literal.signText
  rw [List.append_assoc]
  split
  · rw [neg_one_mul]
    exact setString_minus h.some_digit hdigits
  · rw [one_mul]
    exact setString_digits h.some_digit hdigits

theorem takeWhile_all {α : Type} {p : α → Bool} {s rest : List α} (hs : ∀ c ∈ s, p c = true)
    (hrest : ∀ c ∈ rest.head?, p c = false) :
    (s ++ rest).takeWhile p = s ∧ (s ++ rest).dropWhile p = rest := by
  rw [List.takeWhile_append_of_pos hs, List.dropWhile_append_of_pos hs]
  rcases rest with _ | ⟨c, rest⟩
  · exact ⟨List.append_nil s, rfl⟩
  · have hc : ¬ p c = true := by
      rw [hrest c rfl]
      decide
    rw [List.takeWhile_cons_of_neg hc, List.dropWhile_cons_of_neg hc]
    exact ⟨List.append_nil s, rfl⟩

theorem unmarked_front {l : Literal} (h : l.Wellformed) {c : Char} (hc : c ∈ l.signText ++ l.mantissa) :
    unmarked c = true := by
  rcases Literal.mem_front h hc with rfl | rfl | hdigit
  · decide
  · decide
  · have hmem := Pattern.mem_digits.2 hdigit
    fin_cases hmem <;> decide

theorem marked {e : Exponent} (h : e.Wellformed) : unmarked e.mark = false := by
  rcases h.mark with hmark | hmark
  · rw [hmark]
    decide
  · rw [hmark]
    decide

/-- The text divides at the mark of the power of ten. -/
theorem divided {l : Literal} (h : l.Wellformed) :
    l.text.takeWhile unmarked = l.signText ++ l.mantissa ∧
      l.text.dropWhile unmarked = (l.exponent.map Exponent.text).getD [] := by
  refine takeWhile_all (fun c hc => unmarked_front h hc) ?_
  intro c hc
  rcases he : l.exponent with _ | e
  · rw [he] at hc
    cases hc
  · rw [he] at hc
    obtain rfl : e.mark = c := Option.some.inj hc
    exact marked (h.exponent e he)

/-- The mantissa divides at its point. -/
theorem mantissa_divided {l : Literal} (h : l.Wellformed) :
    (l.signText ++ l.mantissa).takeWhile (fun c => decide (c ≠ '.')) = l.signText ++ l.whole ∧
      ((l.signText ++ l.mantissa).dropWhile fun c => decide (c ≠ '.')).tail = l.fractionDigits := by
  have hpoint : ∀ c ∈ l.signText ++ l.whole, decide (c ≠ '.') = true := by
    intro c hc
    rcases List.mem_append.1 hc with hsign | hwhole
    · unfold Literal.signText at hsign
      split at hsign
      · rw [List.mem_singleton.1 hsign]
        decide
      · cases hsign
    · exact decide_eq_true (h.whole.ne hwhole rfl)
  have hrest : ∀ c ∈ ((l.fraction.map (List.cons '.')).getD []).head?, decide (c ≠ '.') = false := by
    intro c hc
    rcases hf : l.fraction with _ | digits
    · rw [hf] at hc
      cases hc
    · rw [hf] at hc
      obtain rfl : '.' = c := Option.some.inj hc
      decide
  obtain ⟨hbefore, hafter⟩ := takeWhile_all hpoint hrest
  unfold Literal.mantissa
  rw [← List.append_assoc]
  refine ⟨hbefore, ?_⟩
  rw [hafter]
  unfold Literal.fractionDigits
  rcases l.fraction with _ | digits
  · rfl
  · rfl

theorem newFromString_reads : ReadsExactly newFromString := by
  intro l hl hpower hscale
  obtain ⟨hmantissa, hexponent⟩ := divided hl
  obtain ⟨hbefore, hafter⟩ := mantissa_divided hl
  -- the power of ten is what stands behind the mark
  have hread : (match l.text.dropWhile unmarked with
      | [] => some 0
      | _ :: digits => setString digits) = some l.power := by
    rw [hexponent]
    unfold Literal.power
    rcases he : l.exponent with _ | e
    · rfl
    · exact setString_power (hl.exponent e he)
  have hlong : IsInt32 (l.power - l.fractionDigits.length) := hscale
  unfold newFromString
  dsimp only
  rw [hread, hmantissa, hbefore, hafter, setString_coefficient hl]
  dsimp only
  rw [if_pos ⟨hpower, hlong⟩]
  rfl

/-! ## Units -/

/-- The exponents of two decimals are `int32`, and so is what one is above the other. -/
@[reducible] def Aligned (scale : Int) (step : Decimal) : Prop :=
  -2 ^ 31 ≤ scale ∧ |scale - step.exponent| < 2 ^ 31

theorem scaledCoefficient_eq {value : Decimal} {exponent : Int} (hle : exponent ≤ value.exponent)
    (hfit : value.exponent - exponent < 2 ^ 31) :
    (scaledCoefficient value exponent : ℚ) = value.value / (10 : ℚ) ^ exponent := by
  have hten : (10 : ℚ) ≠ 0 := by norm_num
  -- the difference of two exponents that are this near does not wrap
  have hshift : (value.exponent - exponent).bmod (2 ^ 32) = value.exponent - exponent := by
    refine Int.bmod_eq_of_le ?_ ?_
    · omega
    · omega
  have hinteger : scaledCoefficient value exponent =
      value.coefficient * 10 ^ (value.exponent - exponent).toNat := by
    unfold scaledCoefficient
    dsimp only
    rw [hshift]
    split
    · have hzero : (value.exponent - exponent).toNat = 0 := by omega
      rw [hzero, pow_zero, mul_one]
    · rfl
  have hpower : (10 : ℚ) ^ (value.exponent - exponent).toNat =
      (10 : ℚ) ^ value.exponent / (10 : ℚ) ^ exponent := by
    rw [← zpow_natCast, Int.toNat_of_nonneg (by omega), zpow_sub₀ hten]
  unfold Decimal.value
  rw [hinteger, Int.cast_mul, Int.cast_pow, Int.cast_ofNat, hpower, mul_div_assoc]

theorem Aligned.apart {l : Literal} {step : Decimal} (h : Aligned l.scale step) :
    |(Decimal.mk l.coefficient l.scale).exponent - step.exponent| < 2 ^ 31 := h.2

/-- The quotient is exact: the units of a value are the whole number of steps it is. -/
theorem decimalUnits_iff {value step : Decimal} {units : Int} (hstep : step.IsPositive)
    (hfit : |value.exponent - step.exponent| < 2 ^ 31) :
    decimalUnits value step = .ok units ↔ value.value = units * step.value := by
  have hten : (10 : ℚ) ≠ 0 := by norm_num
  rw [abs_lt] at hfit
  generalize hcommon : (if step.exponent < value.exponent then step.exponent else value.exponent) = common
  have hle : common ≤ value.exponent ∧ common ≤ step.exponent ∧ value.exponent - common < 2 ^ 31 ∧
      step.exponent - common < 2 ^ 31 := by
    split at hcommon <;> omega
  have hvalue := scaledCoefficient_eq hle.1 hle.2.2.1
  have hstepInteger := scaledCoefficient_eq hle.2.1 hle.2.2.2
  have hcommonPower : (10 : ℚ) ^ common ≠ 0 := zpow_ne_zero _ hten
  have hpositive : (0 : ℚ) < scaledCoefficient step common := by
    rw [hstepInteger]
    unfold Decimal.value
    have hcoefficient : (0 : ℚ) < step.coefficient := by exact_mod_cast hstep
    positivity
  have hnonzero : scaledCoefficient step common ≠ 0 := by
    intro h
    rw [h] at hpositive
    exact absurd hpositive (by norm_num)
  -- both sides in units of the common power of ten
  have hexact : value.value = units * step.value ↔
      scaledCoefficient value common = units * scaledCoefficient step common := by
    rw [← @Int.cast_inj ℚ, Int.cast_mul, hvalue, hstepInteger, ← mul_div_assoc, div_left_inj' hcommonPower]
  unfold decimalUnits
  rw [seq_eq_ok, failIf_eq_ok]
  dsimp only
  rw [hcommon, seq_eq_ok, failIf_eq_ok, hexact, not_not, not_not]
  constructor
  · rintro ⟨-, hremainder, hquotient⟩
    obtain rfl := Except.ok.inj hquotient
    exact (Int.tdiv_mul_cancel (Int.dvd_of_tmod_eq_zero hremainder)).symm
  · intro h
    refine ⟨hstep, ?_, ?_⟩
    · rw [h]
      exact Int.mul_tmod_left _ _
    · rw [h]
      exact congrArg Except.ok (Int.mul_tdiv_cancel _ hnonzero)

section

variable {NewFromString : Text → Except String Decimal} (hread : ReadsExactly NewFromString)
include hread

theorem parseStrictDecimal_iff {raw : Text} {field : String} {value : Decimal}
    (hfit : ∀ l : Literal, l.Plain → l.text = raw → -2 ^ 31 ≤ l.scale) :
    ParseStrictDecimal NewFromString raw field = .ok value ↔
      ∃ l : Literal, l.Plain ∧ l.text = raw ∧ value = ⟨l.coefficient, l.scale⟩ := by
  have hparsed : ∀ l : Literal, l.Plain → l.text = raw → NewFromString raw = .ok ⟨l.coefficient, l.scale⟩ := by
    intro l hl hraw
    have hpower : l.power = 0 := Literal.power_of_none hl.no_exponent
    have hscale : l.scale = -l.fractionDigits.length := by
      unfold Literal.scale
      omega
    have hlow := hfit l hl hraw
    rw [← hraw]
    refine hread l hl.toWellformed ?_ ?_
    · rw [hpower]
      exact ⟨by norm_num, by norm_num⟩
    · exact ⟨hlow, by omega⟩
  unfold ParseStrictDecimal
  rw [seq_eq_ok, failIf_eq_ok]
  constructor
  · rintro ⟨hguard, hresult⟩
    rw [not_or, not_or, Bool.not_eq_false] at hguard
    obtain ⟨l, hl, hraw⟩ := plainDecimal_iff.1 hguard.2.2
    rw [hparsed l hl hraw] at hresult
    exact ⟨l, hl, hraw, (Except.ok.inj hresult).symm⟩
  · rintro ⟨l, hl, hraw, rfl⟩
    have hplain : plainDecimal raw = true := plainDecimal_iff.2 ⟨l, hl, hraw⟩
    refine ⟨?_, ?_⟩
    · rw [not_or, not_or, Bool.not_eq_false, not_not]
      refine ⟨?_, ?_, hplain⟩
      · rintro rfl
        cases hplain
      · rw [← hraw]
        exact trimSpace_text hl
    · rw [hparsed l hl hraw]
      rfl

theorem priceTick_iff {raw : Text} {step : Decimal} {tick : Int} (hstep : step.IsPositive)
    (hfit : ∀ l : Literal, l.Plain → l.text = raw → Aligned l.scale step) :
    PriceTick NewFromString raw step = .ok tick ↔
      (0 < tick ∧ tick < 2 ^ 63) ∧ ∃ l : Literal, l.Plain ∧ l.text = raw ∧ l.value = tick * step.value := by
  have hstepValue : 0 < step.value := by
    unfold Decimal.value
    have hcoefficient : (0 : ℚ) < step.coefficient := by exact_mod_cast hstep
    positivity
  unfold PriceTick ParsePositiveDecimal
  simp only [andThen_eq_ok, exists_const, failIf_eq_ok, inField_eq_ok, not_or, not_not, not_le,
    parseStrictDecimal_iff hread fun l hl hraw => (hfit l hl hraw).1]
  constructor
  · rintro ⟨value, ⟨parsed, ⟨l, hl, hraw, rfl⟩, -, hparsed⟩, units, hunits, ⟨hrange, hunitsPositive⟩, hresult⟩
    obtain rfl := Except.ok.inj hparsed
    obtain rfl := Except.ok.inj hresult
    rw [decimalUnits_iff hstep (hfit l hl hraw).apart] at hunits
    exact ⟨⟨hunitsPositive, hrange.2⟩, l, hl, hraw, (Literal.value_eq l).trans hunits⟩
  · rintro ⟨⟨hpositive, hbound⟩, l, hl, hraw, hvalue⟩
    have hunits : decimalUnits ⟨l.coefficient, l.scale⟩ step = .ok tick := by
      rw [decimalUnits_iff hstep (hfit l hl hraw).apart]
      exact (Literal.value_eq l).symm.trans hvalue
    have hcoefficient : 0 < l.coefficient := by
      have htick : (0 : ℚ) < tick := by exact_mod_cast hpositive
      have hproduct : 0 < l.coefficient * (10 : ℚ) ^ l.scale := by
        rw [← Literal.value_eq, hvalue]
        exact mul_pos htick hstepValue
      exact_mod_cast pos_of_mul_pos_left hproduct (by positivity)
    exact ⟨_, ⟨_, ⟨l, hl, hraw, rfl⟩, hcoefficient, rfl⟩, tick, hunits, ⟨⟨by omega, hbound⟩, hpositive⟩, rfl⟩

theorem quantityLot_iff {raw : Text} {step : Decimal} {lot : Nat} (hstep : step.IsPositive)
    (hfit : ∀ l : Literal, l.Plain → l.text = raw → Aligned l.scale step) :
    QuantityLot NewFromString raw step = .ok lot ↔
      lot < 2 ^ 64 ∧ ∃ l : Literal, l.Plain ∧ l.text = raw ∧ l.value = lot * step.value := by
  have hstepValue : 0 < step.value := by
    unfold Decimal.value
    have hcoefficient : (0 : ℚ) < step.coefficient := by exact_mod_cast hstep
    positivity
  unfold QuantityLot
  simp only [andThen_eq_ok, exists_const, failIf_eq_ok, inField_eq_ok, not_not, not_lt,
    parseStrictDecimal_iff hread fun l hl hraw => (hfit l hl hraw).1]
  constructor
  · rintro ⟨value, ⟨l, hl, hraw, rfl⟩, -, units, hunits, hrange, hresult⟩
    obtain rfl := Except.ok.inj hresult
    rw [decimalUnits_iff hstep (hfit l hl hraw).apart] at hunits
    refine ⟨by omega, l, hl, hraw, ?_⟩
    have hcast : ((units.toNat : ℕ) : ℚ) = (units : ℚ) := by
      exact_mod_cast congrArg (Int.cast : ℤ → ℚ) (Int.toNat_of_nonneg hrange.1)
    rw [hcast]
    exact (Literal.value_eq l).trans hunits
  · rintro ⟨hbound, l, hl, hraw, hvalue⟩
    have hunits : decimalUnits ⟨l.coefficient, l.scale⟩ step = .ok (lot : ℤ) := by
      rw [decimalUnits_iff hstep (hfit l hl hraw).apart, Int.cast_natCast]
      exact (Literal.value_eq l).symm.trans hvalue
    have hcoefficient : 0 ≤ l.coefficient := by
      have hproduct : 0 ≤ l.coefficient * (10 : ℚ) ^ l.scale := by
        rw [← Literal.value_eq, hvalue]
        positivity
      exact_mod_cast nonneg_of_mul_nonneg_left hproduct (by positivity)
    exact ⟨_, ⟨l, hl, hraw, rfl⟩, hcoefficient, lot, hunits, ⟨by omega, by omega⟩, rfl⟩

end

end MarketInfo
