import MarketInfo.Codec.Normal
import MarketInfo.Codec.Sql
import MarketInfo.Mysql.RowLaws

/-! # Round trip through the database

What `FromSQL` makes of a cell is the normal form of the value that was sent, which its codec
encoding is decoded to as well, exactly while both clocks show its instants in range.
-/

namespace MarketInfo.Codec

open Json (Text intText)
open Wire (bigEndian ofBigEndian)

/-! ## Texts of numbers -/

theorem asciiText_asciiBytes {s : Text} (h : ∀ c ∈ s, c.toNat < 256) : asciiText (asciiBytes s) = s := by
  unfold asciiText asciiBytes
  rw [List.map_map]
  refine (List.map_congr_left fun c hc => ?_).trans (List.map_id s)
  have hlt := h c hc
  have hbyte : c.toUInt8.toNat = c.toNat := by
    rw [Char.toUInt8, UInt32.toNat_toUInt8]
    exact Nat.mod_eq_of_lt hlt
  rw [Function.comp, hbyte, Char.ofNat_toNat, id]

theorem digit_lt {c : Char} (h : c.isDigit = true) : c.toNat < 256 :=
  lt_of_le_of_lt (Char.isDigit_iff_toNat.1 h).2 (by decide)

theorem digits_eq {s : Text} (hne : s ≠ []) (hall : ∀ c ∈ s, c.isDigit = true) :
    digits s = some (Nat.ofDigitChars 10 s 0) := by
  unfold digits
  rw [if_neg (by simpa [hne] using hall)]
  congr 1
  unfold Nat.ofDigitChars
  congr 1
  funext n c
  rw [Nat.mul_comm]

theorem digits_toDigits (n : Nat) : digits (Nat.toDigits 10 n) = some n := by
  have hpos := Nat.length_toDigits_pos (b := 10) (n := n)
  rw [digits_eq (List.ne_nil_of_length_pos hpos) fun c hc => Nat.isDigit_of_mem_toDigits (by norm_num) (by norm_num) hc,
    Nat.ofDigitChars_ten_toDigits]

theorem atoi_intText {n : Int} (hlo : -2 ^ 63 ≤ n) (hhi : n < 2 ^ 63) : atoi (intText n) = some n := by
  unfold intText
  split
  · have habs : -(n.natAbs : Int) = n := by omega
    unfold atoi
    simp only [digits_toDigits, Option.map_eq_map, Option.map_some, Option.bind_eq_bind, Option.bind_some, habs]
    exact if_pos ⟨hlo, hhi⟩
  · have habs : (n.natAbs : Int) = n := by omega
    have hall : ∀ c ∈ Nat.toDigits 10 n.natAbs, c.isDigit = true := fun c hc =>
      Nat.isDigit_of_mem_toDigits (by norm_num) (by norm_num) hc
    have hdigits := digits_toDigits n.natAbs
    generalize Nat.toDigits 10 n.natAbs = s at hall hdigits
    unfold atoi
    split
    · cases hall '-' List.mem_cons_self
    · cases hall '+' List.mem_cons_self
    · simp only [hdigits, Option.map_eq_map, Option.map_some, Option.bind_eq_bind, Option.bind_some,
        Int.ofNat_eq_natCast, habs]
      exact if_pos ⟨hlo, hhi⟩

theorem ascii_intText (n : Int) : ∀ c ∈ intText n, c.toNat < 256 := by
  have hall : ∀ c ∈ Nat.toDigits 10 n.natAbs, c.toNat < 256 := fun c hc =>
    digit_lt (Nat.isDigit_of_mem_toDigits (by norm_num) (by norm_num) hc)
  intro c hc
  unfold intText at hc
  split at hc
  · rcases List.mem_cons.1 hc with rfl | hc
    · decide
    · exact hall c hc
  · exact hall c hc

theorem intText_natCast (n : Nat) : intText n = Nat.toDigits 10 n := by
  unfold intText
  rw [if_neg (by omega), Int.natAbs_natCast]

/-- All that shows an integer has its digits. -/
theorem ShowsInteger.text {n : Int} {y : SqlValue} (h : ShowsInteger n y) : asciiText y.s = intText n := by
  cases h with
  | int64 h =>
      rw [← h]
      exact asciiText_asciiBytes (ascii_intText _)
  | uint64 h =>
      rw [← h, intText_natCast, SqlValue.s, ← intText_natCast]
      exact asciiText_asciiBytes (ascii_intText _)
  | bytes => exact asciiText_asciiBytes (ascii_intText n)
  | string => exact asciiText_asciiBytes (ascii_intText n)

theorem parseUint_eq {s : List UInt8} {n bits : Nat} (htext : asciiText s = intText n) (h : n < 2 ^ bits) :
    parseUint s bits = .ok n := by
  unfold parseUint
  rw [htext, intText_natCast, digits_toDigits]
  exact if_pos h

theorem parseInt_eq {s : List UInt8} {n : Int} {bits : Nat} (htext : asciiText s = intText n) (hbits : bits ≤ 64)
    (hlo : -2 ^ (bits - 1) ≤ n) (hhi : n < 2 ^ (bits - 1)) : parseInt s bits = .ok n := by
  have hpow : (2 : Int) ^ (bits - 1) ≤ 2 ^ 63 := pow_le_pow_right₀ (by norm_num) (by omega)
  unfold parseInt
  rw [htext, atoi_intText (by omega) (by omega)]
  exact if_pos ⟨hlo, hhi⟩

theorem scaledEqual_of_ok {d : Decimal} {n : Int} (h : decimalCoefficient d = .ok n) : d.ScaledEqual d.scaled := by
  unfold decimalCoefficient at h
  split at h
  · rename_i hzero
    unfold Decimal.ScaledEqual Decimal.scaled
    rw [hzero]
    split <;> simp
  · simp only [Check.andThen_eq_ok, Check.failIf_eq_ok] at h
    obtain ⟨-, -, -, hequal, -⟩ := h
    exact not_not.1 hequal

/-- Where nothing is cut off, nothing is rounded. -/
theorem scaled_eq {d : Decimal} {n : Int} (h : decimalCoefficient d = .ok n) :
    MarketInfo.Decimal.scaled ⟨d.coefficient, d.exponent⟩ = d.scaled := by
  have hequal := scaledEqual_of_ok h
  unfold MarketInfo.Decimal.scaled
  dsimp only
  split
  · rename_i hplaces
    unfold Decimal.scaled
    rw [if_pos (by omega)]
  · rename_i hplaces
    unfold Decimal.ScaledEqual at hequal
    have hpower : (-(d.exponent + 18)).toNat = (-18 - d.exponent).toNat := by omega
    rw [if_neg (by omega), hpower] at hequal
    generalize (-18 - d.exponent).toNat = k at hequal ⊢
    generalize d.scaled = n at hequal ⊢
    have hm : 0 < 10 ^ k := by positivity
    have habs : d.coefficient.natAbs = 10 ^ k * n.natAbs := by
      rw [hequal, Int.natAbs_mul, Int.natAbs_pow, Nat.mul_comm]
      rfl
    have hsign : d.coefficient.sign = n.sign := by
      have hpow : (0 : Int) < 10 ^ k := by positivity
      rw [hequal, Int.sign_mul, Int.sign_eq_one_of_pos hpow, mul_one]
    have hhalf : (2 * d.coefficient.natAbs + 10 ^ k) / (2 * 10 ^ k) = n.natAbs := by
      have hsplit : 2 * d.coefficient.natAbs + 10 ^ k = 10 ^ k * (2 * n.natAbs + 1) := by
        rw [habs]
        ring
      rw [hsplit, Nat.mul_comm 2 (10 ^ k), Nat.mul_div_mul_left _ _ hm]
      omega
    rw [hhalf, hsign, Int.sign_mul_natAbs]

/-- The fixed text of a decimal that the codec writes is read without rounding. -/
theorem newFromString_stringFixed {c : SqlColumn} (hread : ReadsExactly c.newFromString) {d : Decimal} {n : Int}
    (h : decimalCoefficient d = .ok n) :
    c.newFromString (asciiText (asciiBytes d.stringFixed)) = .ok ⟨d.scaled, -18⟩ := by
  have hscaled := scaled_eq h
  let digits := MarketInfo.Decimal.padded d.scaled.natAbs
  have hall : ∀ c ∈ digits, c.isDigit = true := MarketInfo.Decimal.digits_padded _
  have hlen : 18 < digits.length := by
    simp only [digits, MarketInfo.Decimal.padded, List.length_append, List.length_replicate]
    omega
  let l : Literal :=
    { negative := decide (d.scaled < 0), whole := digits.take (digits.length - 18),
      fraction := some (digits.drop (digits.length - 18)), exponent := none }
  have htext : l.text = d.stringFixed := by
    unfold Decimal.stringFixed MarketInfo.Decimal.stringFixed
    rw [Literal.text_of_none rfl, hscaled]
    simp [l, Literal.signText, Literal.mantissa, digits]
  have hdigits : l.whole ++ l.fractionDigits = digits := List.take_append_drop _ _
  have hformed : l.Wellformed := {
    whole := fun c hc => hall c (List.mem_of_mem_take hc)
    fraction := fun c hc => hall c (List.mem_of_mem_drop hc)
    some_digit := by
      rw [hdigits]
      exact List.ne_nil_of_length_pos (by omega)
    exponent := nofun }
  have hscale : l.scale = -18 := by
    unfold Literal.scale
    rw [Literal.power_of_none rfl]
    simp only [l, Literal.fractionDigits, Option.getD_some, List.length_drop]
    omega
  have hcoefficient : l.coefficient = d.scaled := by
    unfold Literal.coefficient Literal.sign
    rw [hdigits, MarketInfo.Decimal.ofDigitChars_padded]
    simp only [l, decide_eq_true_eq]
    split <;> omega
  have hascii : ∀ c ∈ d.stringFixed, c.toNat < 256 := by
    intro c hc
    rw [← htext, Literal.text_of_none rfl] at hc
    rcases Literal.mem_front hformed hc with rfl | rfl | hdigit
    · decide
    · decide
    · exact digit_lt hdigit
  have hpower : l.power = 0 := Literal.power_of_none rfl
  have hliteral := hread l hformed (by rw [hpower]; decide) (by rw [hscale]; decide)
  rw [asciiText_asciiBytes hascii, ← htext, hliteral, hcoefficient, hscale]

/-! ## Scalars -/

theorem Returns.showsInteger {x y : SqlValue} {n : Int} (h : Returns x y) (hx : x.integer? = some n) :
    ShowsInteger n y := by
  cases h with
  | integer hn hshows =>
      rw [hx] at hn
      rw [Option.some.inj hn]
      exact hshows
  | _ => cases hx

theorem Returns.null_iff {x y : SqlValue} (h : Returns x y) : y = .null ↔ x = .null := by
  cases h with
  | integer hn hshows =>
      constructor
      · rintro rfl
        cases hshows
      · rintro rfl
        cases hn
  | _ => simp

theorem Returns.of_bytes {a : List UInt8} {y : SqlValue} (h : Returns (.bytes a) y) : y = .bytes a := by
  cases h with
  | bytes => rfl
  | integer hn _ => cases hn

theorem Returns.of_string {s : List UInt8} {y : SqlValue} (h : Returns (.string s) y) : y.s = s := by
  cases h with
  | decimalBytes => rfl
  | decimalText => rfl
  | integer hn _ => cases hn

theorem Returns.of_time {t : Time} {y : SqlValue} (h : Returns (.time t) y) :
    y = .time ⟨t.unixNano - t.unixNano % Time.microsecond, 0⟩ := by
  cases h with
  | time => rfl
  | integer hn _ => cases hn

variable {c : SqlColumn}

theorem unit_microsecond {scale : Scale} {t : Time} (h : t.nanosecond % scale.unit = 0) :
    t.unixNano % Time.microsecond = 0 := by
  unfold Time.nanosecond at h
  cases scale with
  | second =>
      change t.unixNano % 1000000000 % 1000000000 = 0 at h
      change t.unixNano % 1000 = 0
      omega
  | milli =>
      change t.unixNano % 1000000000 % 1000000 = 0 at h
      change t.unixNano % 1000 = 0
      omega
  | micro =>
      change t.unixNano % 1000000000 % 1000 = 0 at h
      change t.unixNano % 1000 = 0
      omega

/-- What comes back of a scalar that the codec writes is its normal form. -/
theorem fromScalar_sqlScalar (hread : ReadsExactly c.newFromString) {t : Ty} {v : Value} {body : List UInt8}
    {x y : SqlValue} (hbody : scalarBytes t v = .ok body) (hx : sqlScalar t v = .ok x) (hreturns : Returns x y) :
    fromScalar c t y = .ok (normalScalar t v) := by
  cases t with
  | bool =>
      simp only [scalarBytes] at hbody
      split at hbody
      · rename_i b
        obtain rfl := Except.ok.inj hx
        have htext := (hreturns.showsInteger rfl).text
        have hnat : ((if b = true then 1 else 0 : Int)) = ((if b = true then 1 else 0 : Nat) : Int) := by
          cases b <;> rfl
        rw [hnat] at htext
        simp only [fromScalar]
        rw [parseUint_eq htext (by cases b <;> decide)]
        cases b <;> rfl
      · cases hbody
  | uint width =>
      simp only [scalarBytes] at hbody
      split at hbody
      · cases hbody
      · rename_i n hn
        simp only [sqlScalar, hn] at hx
        obtain rfl := Except.ok.inj hx
        have hfits : n.toNat < 2 ^ (8 * width.size) := by
          have hlt := n.toNat_lt
          split at hbody
          · cases hbody
          · rename_i hwidth
            cases width <;> simp only [Width.size] at hwidth ⊢ <;> omega
        simp only [fromScalar]
        rw [parseUint_eq (hreturns.showsInteger rfl).text hfits]
        simp only [normalScalar, hn]
        rfl
  | int32 =>
      simp only [scalarBytes] at hbody
      split at hbody
      · cases hbody
      · rename_i n hn
        simp only [sqlScalar, hn] at hx
        obtain rfl := Except.ok.inj hx
        split at hbody
        · cases hbody
        · rename_i hrange
          simp only [fromScalar]
          rw [parseInt_eq (hreturns.showsInteger rfl).text (by norm_num) (by norm_num; omega) (by norm_num; omega)]
          simp only [normalScalar, hn]
          rfl
  | int64 =>
      simp only [scalarBytes] at hbody
      split at hbody
      · cases hbody
      · rename_i n hn
        simp only [sqlScalar, hn] at hx
        obtain rfl := Except.ok.inj hx
        have hlo := n.le_toInt
        have hhi := n.toInt_lt
        simp only [fromScalar]
        rw [parseInt_eq (hreturns.showsInteger rfl).text (by norm_num) (by norm_num; omega) (by norm_num; omega)]
        simp only [normalScalar, hn, Option.getD_some]
        exact congrArg (fun m => Except.ok (Value.int64 m)) (Int64.ofInt_toInt n)
  | uint256 =>
      simp only [scalarBytes] at hbody
      split at hbody
      · rename_i n
        obtain rfl := Except.ok.inj hx
        rw [hreturns.of_bytes]
        split at hbody
        · cases hbody
        · rename_i hfits
          rw [not_or, not_lt, not_lt, Nat.size_le] at hfits
          have hlt : n.toNat < 256 ^ 32 := by
            have hpow : (256 : Nat) ^ 32 = 2 ^ 256 := by norm_num
            omega
          simp only [fromScalar]
          have hnormal : normalScalar .uint256 (.bigInt n) = .bigInt n := rfl
          rw [if_pos (Wire.length_bigEndian _ _), Wire.ofBigEndian_bigEndian_of_lt hlt,
            Int.toNat_of_nonneg hfits.1, hnormal]
      · cases hbody
  | decimal =>
      simp only [scalarBytes] at hbody
      split at hbody
      · rename_i d
        obtain rfl := Except.ok.inj hx
        rw [Check.andThen_eq_ok] at hbody
        obtain ⟨n, hn, -⟩ := hbody
        simp only [fromScalar]
        rw [hreturns.of_string, newFromString_stringFixed hread hn]
        rfl
      · cases hbody
  | uuid =>
      simp only [scalarBytes] at hbody
      split at hbody
      · rename_i u
        obtain rfl := Except.ok.inj hx
        rw [hreturns.of_bytes]
        simp only [fromScalar]
        rw [dif_pos u.length_toList]
        rfl
      · cases hbody
  | enum8 enums =>
      simp only [scalarBytes] at hbody
      split at hbody
      · rename_i s
        split at hbody
        · cases hbody
        · rename_i code hcode
          simp only [sqlScalar, hcode, Option.getD_some] at hx
          obtain rfl := Except.ok.inj hx
          have htext := (hreturns.showsInteger rfl).text
          rw [Int8.toInt_toInt64] at htext
          have hlo := code.le_toInt
          have hhi := code.toInt_lt
          simp only [fromScalar]
          rw [parseInt_eq htext (by norm_num) (by norm_num; omega) (by norm_num; omega)]
          have hname := EnumTable.name?_of_code? hcode
          simp only [bind, Except.bind, Int8.ofInt_toInt, hname]
          rfl
      · cases hbody
  | dateTime scale =>
      simp only [scalarBytes] at hbody
      split at hbody
      · rename_i τ
        obtain rfl := Except.ok.inj hx
        simp only [Check.andThen_eq_ok, Check.failIf_eq_ok, not_not] at hbody
        obtain ⟨-, -, -, hunit, -⟩ := hbody
        rw [hreturns.of_time, Time.utc_unixNano, unit_microsecond hunit, sub_zero]
        rfl
      · cases hbody
  | _ => cases hbody

/-! ## Columns of every type -/

theorem encode_of_SQLValue : ∀ (t : Ty) {v : Value} {x : SqlValue}, SQLValue c t v = .ok x →
    ∃ data, Encode (c.tagged t) v = .ok data
  | .nullable _, _, _, h | .lowCardinality _, _, _, h | .array _, _, _, h | .tuple _, _, _, h
  | .uint _, _, _, h | .int32, _, _, h | .int64, _, _, h | .uint256, _, _, h | .uuid, _, _, h | .bool, _, _, h
  | .string, _, _, h | .fixedString _, _, _, h | .decimal, _, _, h | .dateTime _, _, _, h | .enum8 _, _, _, h => by
      unfold SQLValue at h
      rw [Check.andThen_eq_ok] at h
      obtain ⟨data, hdata, -⟩ := h
      exact ⟨data, hdata⟩

theorem sqlScalar_ne_null {t : Ty} {v : Value} {x : SqlValue} (h : sqlScalar t v = .ok x) : x ≠ .null := by
  rintro rfl
  unfold sqlScalar at h
  split at h
  all_goals first | cases h | (split at h <;> cases h)

/-- Only a null is sent as a null. -/
theorem SQLValue_ne_null : ∀ (t : Ty) {v : Value} {x : SqlValue}, v.indirect ≠ .null → SQLValue c t v = .ok x →
    x ≠ .null
  | .nullable child, v, x, hvalue, h => by
      unfold SQLValue at h
      rw [Check.andThen_eq_ok] at h
      obtain ⟨-, -, h⟩ := h
      split at h
      · rename_i hnull
        exact absurd hnull hvalue
      · exact SQLValue_ne_null child (by rwa [Value.indirect_indirect]) h
  | .lowCardinality child, v, x, hvalue, h => by
      unfold SQLValue at h
      rw [Check.andThen_eq_ok] at h
      obtain ⟨-, -, h⟩ := h
      exact SQLValue_ne_null child (by rwa [Value.indirect_indirect]) h
  | .array _, _, x, _, h | .tuple _, _, x, _, h => by
      unfold SQLValue at h
      rw [Check.andThen_eq_ok] at h
      obtain ⟨-, -, h⟩ := h
      obtain ⟨data, -, rfl⟩ := map_eq_ok h
      exact nofun
  | .uint _, _, x, _, h | .int32, _, x, _, h | .int64, _, x, _, h | .uint256, _, x, _, h | .uuid, _, x, _, h
  | .bool, _, x, _, h | .string, _, x, _, h | .fixedString _, _, x, _, h | .decimal, _, x, _, h
  | .dateTime _, _, x, _, h | .enum8 _, _, x, _, h => by
      unfold SQLValue at h
      rw [Check.andThen_eq_ok] at h
      obtain ⟨-, -, h⟩ := h
      exact sqlScalar_ne_null h

theorem refuseNull_ok {t : Ty} {y : SqlValue} (h : y ≠ .null) : refuseNull c t y = .ok () := by
  unfold refuseNull
  rw [Check.failIf_eq_ok]
  exact h

/-- A type of which all that is sent is read in its normal form. -/
def ComesBack (c : SqlColumn) (t : Ty) : Prop :=
  ∀ (v : Value) (x y : SqlValue), SQLValue c t v = .ok x → Returns x y → c.zone.Shows (timestamps t v) →
    UtcInRange (timestamps t v) → FromSQL c t y = .ok (normalize t v)

theorem comesBack_leaf {t : Ty} (hformed : t.WellFormed)
    (hto : ∀ v, SQLValue c t v = do
      let _ ← Encode (c.tagged t) v
      sqlScalar t v.indirect)
    (hfrom : ∀ y, FromSQL c t y = do
      refuseNull c t y
      let out ← fromScalar c t y
      let _ ← Encode (c.tagged t) out
      return out)
    (hnormal : ∀ v, normalize t v = normalScalar t v.indirect)
    (hback : ∀ (v : Value) (data : List UInt8) (x y : SqlValue), Encode (c.tagged t) v = .ok data →
      sqlScalar t v.indirect = .ok x → Returns x y → fromScalar c t y = .ok (normalScalar t v.indirect)) :
    ComesBack c t := by
  intro v x y hsent hreturns _ hutc
  rw [hto, Check.andThen_eq_ok] at hsent
  obtain ⟨data, hdata, hx⟩ := hsent
  have hnull : y ≠ .null := fun h => sqlScalar_ne_null hx (hreturns.null_iff.1 h)
  have hagain := encode_normalize (t := c.tagged t) hformed hdata hutc
  rw [hfrom, refuseNull_ok hnull, hnormal]
  change Encode (c.tagged t) (normalize t v) = .ok data at hagain
  rw [hnormal] at hagain
  simp only [Check.andThen_eq_ok]
  exact ⟨(), trivial, _, hback v data x y hdata hx hreturns, data, hagain, rfl⟩

theorem comesBack_scalar (hread : ReadsExactly c.newFromString) {t : Ty} (hformed : t.WellFormed)
    (hto : ∀ v, SQLValue c t v = do
      let _ ← Encode (c.tagged t) v
      sqlScalar t v.indirect)
    (hfrom : ∀ y, FromSQL c t y = do
      refuseNull c t y
      let out ← fromScalar c t y
      let _ ← Encode (c.tagged t) out
      return out)
    (hnormal : ∀ v, normalize t v = normalScalar t v.indirect)
    (hwrite : ∀ v s, writeValue t v s =
      if maxBytes < s.out.length then .error "value exceeds byte limit"
      else match v.indirect with
        | .null => .error ("NULL for " ++ t.name)
        | v => s.write <$> scalarBytes t v) : ComesBack c t := by
  refine comesBack_leaf hformed hto hfrom hnormal fun v data x y hdata hx hreturns => ?_
  obtain ⟨s, hs, -, -⟩ := encode_eq_ok.1 hdata
  change writeValue t v _ = .ok s at hs
  rw [hwrite] at hs
  split at hs
  · cases hs
  · split at hs
    · cases hs
    · obtain ⟨body, hbody, -⟩ := map_eq_ok hs
      exact fromScalar_sqlScalar hread hbody hx hreturns

theorem comesBack_text {t : Ty} (hformed : t.WellFormed)
    (hto : ∀ v, SQLValue c t v = do
      let _ ← Encode (c.tagged t) v
      sqlScalar t v.indirect)
    (hfrom : ∀ y, FromSQL c t y = do
      refuseNull c t y
      let out ← fromScalar c t y
      let _ ← Encode (c.tagged t) out
      return out)
    (hnormal : ∀ v, normalize t v = normalScalar t v.indirect)
    (hscalar : ∀ v, sqlScalar t v = match v.text? with
      | some a => .ok (.bytes a)
      | none => .error "expected bytes or string")
    (hback : ∀ y, fromScalar c t y = .ok (.string y.s))
    (htext : ∀ v, normalScalar t v = .string (v.text?.getD [])) : ComesBack c t := by
  refine comesBack_leaf hformed hto hfrom hnormal fun v data x y _ hx hreturns => ?_
  rw [hscalar] at hx
  split at hx
  · rename_i a ha
    obtain rfl := Except.ok.inj hx
    rw [hback, htext, hreturns.of_bytes, ha]
    rfl
  · cases hx

theorem comesBack_blob {t : Ty}
    (hto : ∀ v, SQLValue c t v = do
      let _ ← Encode (c.tagged t) v
      SqlValue.bytes <$> Encode (c.tagged t) v)
    (hfrom : ∀ y, FromSQL c t y = do
      refuseNull c t y
      fromBlob c t y) : ComesBack c t := by
  intro v x y hsent hreturns hshows _
  rw [hto, Check.andThen_eq_ok] at hsent
  obtain ⟨data, hdata, hx⟩ := hsent
  rw [hdata] at hx
  obtain rfl := Except.ok.inj hx
  have hnull : SqlValue.bytes data ≠ .null := nofun
  rw [hreturns.of_bytes, hfrom, refuseNull_ok hnull]
  exact decode_of_encode hdata hshows

theorem comesBack_nullable {child : Ty} (hchild : ComesBack c child) : ComesBack c (.nullable child) := by
  intro v x y hsent hreturns hshows hutc
  unfold SQLValue at hsent
  rw [Check.andThen_eq_ok] at hsent
  obtain ⟨-, -, hsent⟩ := hsent
  unfold FromSQL
  split at hsent
  · rename_i hnull
    obtain rfl := Except.ok.inj hsent
    have hnormal : normalize (.nullable child) v = .null := by
      unfold normalize
      rw [hnull]
    rw [if_pos (hreturns.null_iff.2 rfl), hnormal]
  · rename_i hvalue
    have hx := SQLValue_ne_null child (by rwa [Value.indirect_indirect]) hsent
    rw [timestamps_nullable hvalue] at hshows hutc
    rw [if_neg fun h => hx (hreturns.null_iff.1 h), normalize_nullable hvalue]
    exact hchild _ _ _ hsent hreturns hshows hutc

theorem comesBack_lowCardinality {child : Ty} (hchild : ComesBack c child) :
    ComesBack c (.lowCardinality child) := by
  intro v x y hsent hreturns hshows hutc
  have hvalue : v.indirect ≠ .null := by
    intro hnull
    obtain ⟨data, hdata⟩ := encode_of_SQLValue _ hsent
    obtain ⟨s, hs, -, -⟩ := encode_eq_ok.1 hdata
    change writeValue (.lowCardinality child) v _ = .ok s at hs
    unfold writeValue at hs
    rw [hnull] at hs
    split at hs <;> cases hs
  have hx := SQLValue_ne_null _ hvalue hsent
  have hnull : y ≠ .null := fun h => hx (hreturns.null_iff.1 h)
  unfold SQLValue at hsent
  rw [Check.andThen_eq_ok] at hsent
  obtain ⟨-, -, hsent⟩ := hsent
  have hnormal : normalize (.lowCardinality child) v = normalize child v.indirect := by
    conv_lhs => unfold normalize
  rw [timestamps] at hshows hutc
  unfold FromSQL
  rw [refuseNull_ok hnull, hnormal]
  exact hchild _ _ _ hsent hreturns hshows hutc

/-- The induction over types. -/
theorem comesBack (hread : ReadsExactly c.newFromString) (t : Ty) (h : t.WellFormed) : ComesBack c t := by
  cases t with
  | nullable child => exact comesBack_nullable (comesBack hread child (by simpa only [Ty.WellFormed] using h))
  | lowCardinality child =>
      obtain rfl : child = .string := h
      exact comesBack_lowCardinality (comesBack_text trivial (fun _ => rfl) (fun _ => rfl) (fun _ => rfl)
        (fun _ => rfl) (fun _ => rfl) fun _ => rfl)
  | array _ => exact comesBack_blob (fun _ => rfl) fun _ => rfl
  | tuple _ => exact comesBack_blob (fun _ => rfl) fun _ => rfl
  | string =>
      exact comesBack_text h (fun _ => rfl) (fun _ => rfl) (fun _ => rfl) (fun _ => rfl) (fun _ => rfl) fun _ => rfl
  | fixedString _ =>
      exact comesBack_text h (fun _ => rfl) (fun _ => rfl) (fun _ => rfl) (fun _ => rfl) (fun _ => rfl) fun _ => rfl
  -- the scalars but for text
  | _ => exact comesBack_scalar hread h (fun _ => rfl) (fun _ => rfl) (fun _ => rfl) fun _ _ => rfl

/-! ## The round trip -/

theorem returns_total (x : SqlValue) : ∃ y, Returns x y := by
  cases x with
  | null => exact ⟨_, .null⟩
  | bytes a => exact ⟨_, .bytes a⟩
  | string s => exact ⟨_, .decimalText s⟩
  | int64 n => exact ⟨_, .integer rfl (.int64 rfl)⟩
  | uint64 n => exact ⟨_, .integer rfl (.uint64 rfl)⟩
  | bool b => exact ⟨_, .integer rfl .string⟩
  | time t => exact ⟨_, .time t⟩

/-- What is read is the normal form of the value that was sent. Its codec encoding is decoded to that
too, and the two are encoded alike. -/
def ReadsBack (c : SqlColumn) (t : Ty) (v : Value) (x : SqlValue) : Prop :=
  ∀ y, Returns x y → FromSQL c t y = .ok (normalize t v) ∧
    ∀ data, Encode (c.tagged t) v = .ok data →
      Decode c.zone (c.tagged t) data = .ok (normalize t v) ∧ Encode (c.tagged t) (normalize t v) = .ok data

/-- The local clock and UTC show every instant in the years 1970 to 9999. -/
def InBothRanges (c : SqlColumn) (times : List Time) : Prop :=
  ∀ τ ∈ times, (c.zone.local τ).YearInRange ∧ τ.utc.YearInRange

theorem readsBack_iff (hread : ReadsExactly c.newFromString) {t : Ty}
    (hparse : Parse c.sha256 (c.text t) = .ok (c.tagged t)) {v : Value} {x : SqlValue}
    (hsent : SQLValue c t v = .ok x) : ReadsBack c t v x ↔ InBothRanges c (timestamps t v) := by
  have hformed : t.WellFormed := Parse_wellFormed hparse
  obtain ⟨data, hdata⟩ := encode_of_SQLValue t hsent
  constructor
  · intro hback τ hτ
    obtain ⟨y, hy⟩ := returns_total x
    obtain ⟨-, hcodec⟩ := hback y hy
    obtain ⟨hdecode, hagain⟩ := hcodec data hdata
    constructor
    · exact (decode_encode_iff hparse hdata c.zone).1 hdecode τ hτ
    · exact utcInRange_of_encode (t := c.tagged t) hformed hagain τ hτ
  · intro hrange y hy
    have hshows : c.zone.Shows (timestamps t v) := fun τ hτ => (hrange τ hτ).1
    have hutc : UtcInRange (timestamps t v) := fun τ hτ => (hrange τ hτ).2
    refine ⟨comesBack hread t hformed v x y hsent hy hshows hutc, fun data' hdata' => ?_⟩
    exact ⟨decode_of_encode hdata' hshows, encode_normalize (t := c.tagged t) hformed hdata' hutc⟩

section

open Mysql.Rows

/-- A record that is read from the cells that the driver hands back for another one, whose instants
both clocks show in range. -/
def ReadFrom (T : Table) (o r : Record) : Prop :=
  ∀ k ∈ T.columns, ∃ (c : SqlColumn) (v : Value) (x y : SqlValue), ReadsExactly c.newFromString ∧
    k.type = c.tagged k.type.1 ∧ Parse c.sha256 (c.text k.type.1) = .ok k.type ∧ r k.name = some v ∧
      SQLValue c k.type.1 v = .ok x ∧ Returns x y ∧ InBothRanges c (timestamps k.type.1 v) ∧
        o k.name = (FromSQL c k.type.1 y).toOption

theorem ReadFrom.shows {T : Table} {o r : Record} (h : ReadFrom T o r) : Shows T o r ∧ Shows T r r := by
  have hcolumn : ∀ k ∈ T.columns, ∃ v data, r k.name = some v ∧ Encode k.type v = .ok data ∧
      o k.name = some (normalize k.type.1 v) ∧ Encode k.type (normalize k.type.1 v) = .ok data := by
    intro k hk
    obtain ⟨c, v, x, y, hread, htype, hparse, hv, hsent, hy, hrange, ho⟩ := h k hk
    obtain ⟨data, hdata⟩ := encode_of_SQLValue _ hsent
    have hparse' := hparse.trans (congrArg Except.ok htype)
    obtain ⟨hfrom, hcodec⟩ := (readsBack_iff hread hparse' hsent).2 hrange y hy
    have hagain := (hcodec data hdata).2
    rw [← htype] at hdata hagain
    rw [hfrom] at ho
    exact ⟨v, data, hv, hdata, ho, hagain⟩
  have hwritten : ∀ k ∈ T.columns, ∀ v data, r k.name = some v → Encode k.type v = .ok data →
      written r k = data := by
    intro k _ v data hv hdata
    rw [written, hv, Option.getD_some, hdata]
    rfl
  constructor
  · intro k hk
    obtain ⟨v, data, hv, hdata, ho, hagain⟩ := hcolumn k hk
    exact ⟨_, ho, hwritten k hk v data hv hdata ▸ hagain⟩
  · intro k hk
    obtain ⟨v, data, hv, hdata, -, -⟩ := hcolumn k hk
    exact ⟨v, hv, hwritten k hk v data hv hdata ▸ hdata⟩

/-- A value comes back from the database as from the codec exactly if both clocks show its instants in
range, and the digests of a row that is read are then those of the row that was written. -/
theorem sql_round_trip_iff {c : SqlColumn} (hread : ReadsExactly c.newFromString) {t : Ty}
    (hparse : Parse c.sha256 (c.text t) = .ok (c.tagged t)) {v : Value} {x : SqlValue}
    (hsent : SQLValue c t v = .ok x) :
    (ReadsBack c t v x ↔ InBothRanges c (timestamps t v)) ∧
      ∀ (b : Backend) (T : Table) (o r : Record), ReadFrom T o r →
        keyHash b T o = keyHash b T r ∧ rowHash b T o = rowHash b T r := by
  refine ⟨readsBack_iff hread hparse hsent, fun b T o r h => ?_⟩
  obtain ⟨ho, hr⟩ := h.shows
  constructor
  · rw [keyHash_of_shows ho, keyHash_of_shows hr]
  · rw [rowHash_of_shows ho, rowHash_of_shows hr]

end

/-! A timestamp that may be missing, in a process one hour east of Greenwich. -/

def oneHourEast : Zone := ⟨fun _ => 3600, fun _ => by norm_num⟩

def seenAt : SqlColumn where
  zone := oneHourEast
  sha256 := noHash
  newFromString := newFromString
  text
    | .nullable _ => "Nullable(DateTime64(6, 'UTC'))".toList
    | _ => "DateTime64(6, 'UTC')".toList

def seenAtTy : Ty := .nullable (.dateTime .micro)

theorem sql_round_trip_seenAt :
    (ReadsBack seenAt seenAtTy (.ref (.time ⟨1700000000000001000, 3600⟩)) (.time ⟨1700000000000001000, 0⟩) ↔
      InBothRanges seenAt (timestamps seenAtTy (.ref (.time ⟨1700000000000001000, 3600⟩)))) ∧
      ∀ (b : Mysql.Rows.Backend) (T : Mysql.Rows.Table) (o r : Mysql.Rows.Record), ReadFrom T o r →
        Mysql.Rows.keyHash b T o = Mysql.Rows.keyHash b T r ∧
          Mysql.Rows.rowHash b T o = Mysql.Rows.rowHash b T r :=
  sql_round_trip_iff newFromString_reads rfl (by decide +kernel)

/-- Half an hour into 1970 on the local clock: sent and decoded, and not read back. -/
theorem sql_round_trip_epoch_east :
    ∃ x y data, Parse seenAt.sha256 (seenAt.text (.dateTime .micro)) = .ok (seenAt.tagged (.dateTime .micro)) ∧
      SQLValue seenAt (.dateTime .micro) (.time ⟨-1800000000000, 3600⟩) = .ok x ∧ Returns x y ∧
        Encode (seenAt.tagged (.dateTime .micro)) (.time ⟨-1800000000000, 3600⟩) = .ok data ∧
          Decode seenAt.zone (seenAt.tagged (.dateTime .micro)) data = .ok (.time ⟨-1800000000000, 0⟩) ∧
            FromSQL seenAt (.dateTime .micro) y = .error "timestamp range" := by
  refine ⟨.time ⟨-1800000000000, 0⟩, _, _, rfl, by decide +kernel, .time _, rfl, rfl, rfl⟩

end MarketInfo.Codec
