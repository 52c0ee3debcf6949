import MarketInfo.Preimage.Rows

/-! # Texts of numbers and instants

What a decimal or an instant is written as says which one it is.
-/

namespace MarketInfo.Preimage

open Json (Text intText Stops)
open Keeper (civil)

/-! ## Digits -/

def AllDigits (s : Text) : Prop := ∀ c ∈ s, c.isDigit = true

theorem digits_split {a b r r' : Text} (ha : AllDigits a) (hb : AllDigits b) (hr : Stops r) (hr' : Stops r')
    (h : a ++ r = b ++ r') : a = b ∧ r = r' := by
  have hfront : ∀ {s t : Text}, AllDigits s → Stops t → (s ++ t).takeWhile Char.isDigit = s := by
    intro s t hs ht
    rw [List.takeWhile_append_of_pos hs]
    rcases t with _ | ⟨c, t⟩
    · simp
    · rw [List.takeWhile_cons_of_neg (by rw [ht c rfl]; decide), List.append_nil]
  have hsame : a = b := by rw [← hfront ha hr, h, hfront hb hr']
  rw [hsame] at h
  exact ⟨hsame, List.append_cancel_left h⟩

theorem sign_split {p p' : Prop} [Decidable p] [Decidable p'] {s s' : Text} (hs : s.head? ≠ some '-')
    (hs' : s'.head? ≠ some '-') (h : (if p then ['-'] else []) ++ s = (if p' then ['-'] else []) ++ s') :
    (p ↔ p') ∧ s = s' := by
  by_cases hp : p
  · by_cases hp' : p'
    · rw [if_pos hp, if_pos hp'] at h
      exact ⟨iff_of_true hp hp', (List.cons.inj h).2⟩
    · rw [if_pos hp, if_neg hp'] at h
      rw [List.nil_append] at h
      exact absurd (by rw [← h]; rfl) hs'
  · by_cases hp' : p'
    · rw [if_neg hp, if_pos hp'] at h
      rw [List.nil_append] at h
      exact absurd (by rw [h]; rfl) hs
    · rw [if_neg hp, if_neg hp'] at h
      exact ⟨iff_of_false hp hp', h⟩

theorem head_digits {a r : Text} (ha : AllDigits a) (hr : r.head? ≠ some '-') : (a ++ r).head? ≠ some '-' := by
  rcases a with _ | ⟨c, a⟩
  · exact hr
  · intro h
    have hc := ha c List.mem_cons_self
    rw [Option.some.inj h] at hc
    cases hc

theorem digits_padded (w n : Nat) : AllDigits (padded w n) := by
  intro c hc
  rcases List.mem_append.1 hc with hzero | hdigit
  · rw [(List.mem_replicate.1 hzero).2]
    rfl
  · exact Nat.isDigit_of_mem_toDigits (by norm_num) (by norm_num) hdigit

theorem number_padded (w n : Nat) : Nat.ofDigitChars 10 (padded w n) 0 = n := by
  unfold padded Keeper.padded
  rw [Nat.ofDigitChars_append, Nat.ofDigitChars_replicate_zero, Nat.mul_zero, Nat.ofDigitChars_ten_toDigits]

theorem padded_inj {w m n : Nat} {r r' : Text} (hr : Stops r) (hr' : Stops r')
    (h : padded w m ++ r = padded w n ++ r') : m = n ∧ r = r' := by
  obtain ⟨hsame, hrest⟩ := digits_split (digits_padded w m) (digits_padded w n) hr hr' h
  exact ⟨by rw [← number_padded w m, hsame, number_padded], hrest⟩

theorem le_length_padded (w n : Nat) : w ≤ (padded w n).length := by
  unfold padded Keeper.padded
  rw [List.length_append, List.length_replicate]
  omega

/-- Without the zeros at its end. -/
def trim (s : Text) : Text := (s.reverse.dropWhile (· = '0')).reverse

theorem trim_spec (s : Text) : ∃ z, s = trim s ++ List.replicate z '0' := by
  refine ⟨(s.reverse.takeWhile (· = '0')).length, ?_⟩
  have hsplit := List.takeWhile_append_dropWhile (p := (· = '0')) (l := s.reverse)
  have hzeros : s.reverse.takeWhile (· = '0') = List.replicate (s.reverse.takeWhile (· = '0')).length '0' := by
    refine List.eq_replicate_iff.2 ⟨rfl, fun c hc => ?_⟩
    simpa using List.mem_takeWhile_imp hc
  calc s = (s.reverse).reverse := (List.reverse_reverse s).symm
    _ = (s.reverse.takeWhile (· = '0') ++ s.reverse.dropWhile (· = '0')).reverse := by rw [hsplit]
    _ = trim s ++ (s.reverse.takeWhile (· = '0')).reverse := List.reverse_append
    _ = trim s ++ List.replicate (s.reverse.takeWhile (· = '0')).length '0' := by
      rw [hzeros, List.reverse_replicate, List.length_replicate]

theorem trim_zero (s : Text) : trim (s ++ ['0']) = trim s := by
  unfold trim
  rw [List.reverse_append]
  rfl

theorem digits_trim {s : Text} (h : AllDigits s) : AllDigits (trim s) := by
  intro c hc
  obtain ⟨z, hz⟩ := trim_spec s
  exact h c (hz ▸ List.mem_append_left _ hc)

theorem length_padded {w n : Nat} (hw : 0 < w) (h : n < 10 ^ w) : (padded w n).length = w := by
  have hdigits := (Nat.length_toDigits_le_iff (b := 10) (n := n) (by norm_num) hw).2 h
  unfold padded Keeper.padded
  rw [List.length_append, List.length_replicate]
  omega

theorem stops_fraction (n : Nat) (r : Text) (hr : Stops r) : Stops (fraction n ++ r) := by
  unfold fraction
  dsimp only
  split
  · exact hr
  · intro c hc
    obtain rfl := Option.some.inj hc
    rfl

theorem fraction_inj {m n : Nat} (hm : m < 10 ^ 9) (hn : n < 10 ^ 9) (h : fraction m = fraction n) : m = n := by
  have htrim : trim (padded 9 m) = trim (padded 9 n) := by
    unfold fraction at h
    dsimp only at h
    change (if trim (padded 9 m) = [] then [] else '.' :: trim (padded 9 m)) =
      (if trim (padded 9 n) = [] then [] else '.' :: trim (padded 9 n)) at h
    split at h
    · rename_i hzero
      split at h
      · rename_i hzero'
        rw [hzero, hzero']
      · cases h
    · split at h
      · cases h
      · exact (List.cons.inj h).2
  obtain ⟨z, hz⟩ := trim_spec (padded 9 m)
  obtain ⟨z', hz'⟩ := trim_spec (padded 9 n)
  have hlen := length_padded (by norm_num) hm
  have hlen' := length_padded (by norm_num) hn
  have hzeros : z = z' := by
    rw [hz, List.length_append, List.length_replicate, htrim] at hlen
    rw [hz', List.length_append, List.length_replicate] at hlen'
    omega
  rw [← number_padded 9 m, ← number_padded 9 n, hz, hz', htrim, hzeros]

theorem padded_ten {w : Nat} (hw : 0 < w) (n : Nat) : padded (w + 1) (n * 10) = padded w n ++ ['0'] := by
  unfold padded Keeper.padded
  rcases Nat.eq_zero_or_pos n with rfl | hn
  · have hzero : Nat.toDigits 10 0 = ['0'] := rfl
    rw [Nat.zero_mul, hzero]
    obtain ⟨w, rfl⟩ := Nat.exists_eq_succ_of_ne_zero (Nat.pos_iff_ne_zero.1 hw)
    simp [List.replicate_succ']
  · have hten : Nat.toDigits 10 (n * 10) = Nat.toDigits 10 n ++ ['0'] := by
      have happend := Nat.toDigits_append_toDigits (b := 10) (n := n) (d := 0) (by norm_num) hn (by norm_num)
      rw [Nat.add_zero, Nat.mul_comm] at happend
      exact happend.symm
    rw [hten, List.length_append, List.length_singleton, ← List.append_assoc]
    congr 2
    congr 1
    omega

theorem shift_zeros (n t z : Nat) :
    (n : ℚ) * ((10 : Nat) : ℚ) ^ z * 10 ^ (-((t + z : Nat) : Int)) = n / 10 ^ t := by
  rw [zpow_neg, zpow_natCast, pow_add, Nat.cast_ofNat]
  field_simp

/-- A text of a decimal by its parts, and what they stand for. -/
theorem decimalString_parts (d : Decimal) :
    ∃ whole tail : Text, AllDigits whole ∧ AllDigits tail ∧
      decimalString d = (if d.coefficient < 0 then ['-'] else []) ++ (whole ++ if tail = [] then [] else '.' :: tail) ∧
      (d.coefficient.natAbs : ℚ) * 10 ^ d.exponent = Nat.ofDigitChars 10 (whole ++ tail) 0 / 10 ^ tail.length := by
  unfold decimalString
  dsimp only
  split
  · rename_i he
    obtain ⟨k, hk⟩ := Int.eq_ofNat_of_zero_le he
    have hnum : (d.coefficient * 10 ^ d.exponent.toNat).natAbs = d.coefficient.natAbs * 10 ^ k := by
      rw [hk, Int.toNat_natCast, Int.natAbs_mul, Int.natAbs_pow]
      rfl
    have hneg : d.coefficient * 10 ^ d.exponent.toNat < 0 ↔ d.coefficient < 0 := by
      have hpow : (0 : Int) < 10 ^ d.exponent.toNat := by positivity
      constructor
      · intro h
        by_contra hc
        exact absurd h (not_lt.2 (mul_nonneg (not_lt.1 hc) hpow.le))
      · intro h
        exact mul_neg_of_neg_of_pos h hpow
    refine ⟨Nat.toDigits 10 (d.coefficient.natAbs * 10 ^ k), [], ?_, by simp [AllDigits], ?_, ?_⟩
    · intro c hc
      exact Nat.isDigit_of_mem_toDigits (by norm_num) (by norm_num) hc
    · unfold intText
      rw [hnum]
      by_cases hc : d.coefficient < 0
      · rw [if_pos (hneg.2 hc), if_pos hc]
        simp
      · rw [if_neg (fun h => hc (hneg.1 h)), if_neg hc]
        simp
    · rw [List.append_nil, Nat.ofDigitChars_ten_toDigits, hk]
      push_cast
      simp
  · rename_i he
    obtain ⟨k, hk⟩ : ∃ k : Nat, d.exponent = -(k : Int) := ⟨(-d.exponent).toNat, by omega⟩
    have hplaces : (-d.exponent).toNat = k := by omega
    rw [hplaces]
    have hlen := le_length_padded (k + 1) d.coefficient.natAbs
    have hall := digits_padded (k + 1) d.coefficient.natAbs
    have hnumber := number_padded (k + 1) d.coefficient.natAbs
    generalize padded (k + 1) d.coefficient.natAbs = digits at hlen hall hnumber ⊢
    have hwhole : AllDigits (digits.take (digits.length - k)) := fun c hc => hall c (List.mem_of_mem_take hc)
    have hrest : AllDigits (digits.drop (digits.length - k)) := fun c hc => hall c (List.mem_of_mem_drop hc)
    refine ⟨digits.take (digits.length - k), trim (digits.drop (digits.length - k)), hwhole, digits_trim hrest, ?_, ?_⟩
    · rw [List.append_assoc]
      rfl
    · -- what was cut off are zeros
      obtain ⟨z, hz⟩ := trim_spec (digits.drop (digits.length - k))
      have hcount : (trim (digits.drop (digits.length - k))).length + z = k := by
        have hdrop := congrArg List.length hz
        rw [List.length_drop, List.length_append, List.length_replicate] at hdrop
        omega
      have hdigits : digits = digits.take (digits.length - k) ++ trim (digits.drop (digits.length - k)) ++
          List.replicate z '0' := by
        rw [List.append_assoc, ← hz, List.take_append_drop]
      have hvalue : d.coefficient.natAbs =
          Nat.ofDigitChars 10 (digits.take (digits.length - k) ++ trim (digits.drop (digits.length - k))) 0 * 10 ^ z := by
        rw [← hnumber]
        conv_lhs => rw [hdigits]
        rw [Nat.ofDigitChars_append, Nat.ofDigitChars_replicate_zero, Nat.mul_comm]
      have hk' : d.exponent = -((trim (digits.drop (digits.length - k))).length + z : Nat) := by rw [hcount, hk]
      rw [hvalue, hk', Nat.cast_mul, Nat.cast_pow]
      exact shift_zeros _ _ _

theorem decimalString_step (c e : Int) : decimalString ⟨c * 10, e - 1⟩ = decimalString ⟨c, e⟩ := by
  unfold decimalString
  dsimp only
  have hneg : (c * 10 < 0) = (c < 0) := by
    apply propext
    omega
  have habs : (c * 10).natAbs = c.natAbs * 10 := by omega
  rcases lt_trichotomy e 0 with he | rfl | he
  · obtain ⟨k, hk⟩ : ∃ k, (-e).toNat = k + 1 := ⟨(-e).toNat - 1, by omega⟩
    have hk' : (-(e - 1)).toNat = k + 1 + 1 := by omega
    have hlen := le_length_padded (k + 1 + 1) c.natAbs
    have hbefore : ¬ 0 ≤ e - 1 := by omega
    have hafter : ¬ 0 ≤ e := by omega
    rw [if_neg hbefore, if_neg hafter, hk, hk', habs, padded_ten (Nat.succ_pos (k + 1)), List.length_append,
      List.length_singleton]
    generalize padded (k + 1 + 1) c.natAbs = digits at hlen ⊢
    have hcut : digits.length + 1 - (k + 1 + 1) = digits.length - (k + 1) := by omega
    rw [hcut, List.take_append_of_le_length (by omega), List.drop_append_of_le_length (by omega)]
    have htail := trim_zero (digits.drop (digits.length - (k + 1)))
    unfold trim at htail
    rw [htail]
    by_cases hc : c < 0
    · rw [if_pos hc, if_pos (hneg ▸ hc)]
    · rw [if_neg hc, if_neg (hneg ▸ hc)]
  · -- one place that is zero
    have hbefore : ¬ (0 : Int) ≤ 0 - 1 := by omega
    have hone : padded 1 c.natAbs = Nat.toDigits 10 c.natAbs := by
      have hpos := Nat.length_toDigits_pos (b := 10) (n := c.natAbs)
      unfold padded Keeper.padded
      rw [Nat.sub_eq_zero_of_le hpos, List.replicate_zero, List.nil_append]
    have hplaces : (-(0 - 1 : Int)).toNat = 1 := rfl
    have hpow : c * 10 ^ (0 : Int).toNat = c := by simp
    rw [if_neg hbefore, if_pos (le_refl _), hplaces, habs, padded_ten (by norm_num), hone, hpow, List.length_append,
      List.length_singleton, Nat.add_sub_cancel, List.take_left, List.drop_left]
    unfold intText
    by_cases hc : c < 0
    · rw [if_pos hc, if_pos (hneg ▸ hc)]
      simp
    · rw [if_neg hc, if_neg (hneg ▸ hc)]
      simp
  · have hpow : c * 10 * 10 ^ (e - 1).toNat = c * 10 ^ e.toNat := by
      have hn : e.toNat = (e - 1).toNat + 1 := by omega
      rw [hn, pow_succ]
      ring
    rw [if_pos (by omega), if_pos (by omega), hpow]

theorem decimalString_scale (c e : Int) (n : Nat) : decimalString ⟨c * 10 ^ n, e - n⟩ = decimalString ⟨c, e⟩ := by
  induction n with
  | zero => simp
  | succ n ih =>
      have hstep := decimalString_step (c * 10 ^ n) (e - n)
      rw [ih] at hstep
      rw [← hstep, pow_succ, mul_assoc]
      congr 2
      push_cast
      ring

theorem tail_stops (tail : Text) : Stops (if tail = [] then [] else '.' :: tail) := by
  split
  · exact nofun
  · intro c hc
    obtain rfl := Option.some.inj hc
    rfl

theorem tail_head (tail : Text) : (if tail = [] then [] else '.' :: tail).head? ≠ some '-' := by
  split
  · exact nofun
  · intro h
    cases Option.some.inj h

theorem value_sign {a b : Decimal}
    (habs : (a.coefficient.natAbs : ℚ) * 10 ^ a.exponent = b.coefficient.natAbs * 10 ^ b.exponent)
    (hsign : a.coefficient < 0 ↔ b.coefficient < 0) : a.value = b.value := by
  unfold Decimal.value
  rcases lt_or_ge a.coefficient 0 with ha | ha
  · have hb := hsign.1 ha
    rw [Nat.cast_natAbs, Nat.cast_natAbs, abs_of_neg ha, abs_of_neg hb] at habs
    push_cast at habs
    linarith
  · have hb : 0 ≤ b.coefficient := not_lt.1 fun hb => absurd (hsign.2 hb) (not_lt.2 ha)
    rw [Nat.cast_natAbs, Nat.cast_natAbs, abs_of_nonneg ha, abs_of_nonneg hb] at habs
    exact habs

/-- Of two decimals of one value, one is the other with zeros at its end. -/
theorem scale_of_value_eq {a b : Decimal} (h : a.value = b.value) (hle : a.exponent ≤ b.exponent) :
    ∃ n : Nat, a.exponent = b.exponent - n ∧ a.coefficient = b.coefficient * 10 ^ n := by
  obtain ⟨n, hn⟩ := Int.eq_ofNat_of_zero_le (sub_nonneg.2 hle)
  refine ⟨n, by omega, ?_⟩
  unfold Decimal.value at h
  have hb : b.exponent = a.exponent + n := by omega
  rw [hb, zpow_add₀ (by norm_num), zpow_natCast] at h
  have hpos : (10 : ℚ) ^ a.exponent ≠ 0 := by positivity
  have hcast : (a.coefficient : ℚ) = b.coefficient * 10 ^ n := by
    apply mul_right_cancel₀ hpos
    rw [h]
    ring
  exact_mod_cast hcast

/-- Two decimals are written alike exactly if they have one value. -/
theorem decimalString_eq_iff (a b : Decimal) : a.value = b.value ↔ decimalString a = decimalString b := by
  constructor
  · intro h
    have hscaled : ∀ {a b : Decimal}, a.value = b.value → a.exponent ≤ b.exponent →
        decimalString a = decimalString b := by
      intro a b h hle
      obtain ⟨n, he, hc⟩ := scale_of_value_eq h hle
      have hscale := decimalString_scale b.coefficient b.exponent n
      rw [← hc, ← he] at hscale
      exact hscale
    rcases le_total a.exponent b.exponent with hle | hle
    · exact hscaled h hle
    · exact (hscaled h.symm hle).symm
  · intro h
    obtain ⟨whole, tail, hw, ht, hs, hv⟩ := decimalString_parts a
    obtain ⟨whole', tail', hw', ht', hs', hv'⟩ := decimalString_parts b
    rw [hs, hs'] at h
    obtain ⟨hsign, hrest⟩ := sign_split (head_digits hw (tail_head tail)) (head_digits hw' (tail_head tail')) h
    obtain ⟨rfl, htail⟩ := digits_split hw hw' (tail_stops tail) (tail_stops tail') hrest
    have hsame : tail = tail' := by
      split at htail
      · split at htail
        · rename_i hzero hzero'
          rw [hzero, hzero']
        · cases htail
      · split at htail
        · cases htail
        · exact (List.cons.inj htail).2
    subst hsame
    exact value_sign (hv.trans hv'.symm) hsign

/-! ## Decimals with 18 places -/

theorem stringFixed_eq_iff (a b : Decimal) : a.scaled = b.scaled ↔ a.stringFixed = b.stringFixed := by
  constructor
  · intro h
    unfold Decimal.stringFixed
    rw [h]
  · intro h
    unfold Decimal.stringFixed at h
    dsimp only at h
    rw [List.append_assoc, List.append_assoc] at h
    have htake : ∀ n k, AllDigits ((Decimal.padded n).take k) := fun n k c hc =>
      Decimal.digits_padded n c (List.mem_of_mem_take hc)
    have hpoint : ∀ s : Text, ('.' :: s).head? ≠ some '-' := fun s hs => by cases Option.some.inj hs
    have hstops : ∀ s : Text, Stops ('.' :: s) := fun s c hc => by
      obtain rfl := Option.some.inj hc
      rfl
    obtain ⟨hsign, hrest⟩ := sign_split (head_digits (htake _ _) (hpoint _)) (head_digits (htake _ _) (hpoint _)) h
    obtain ⟨hwhole, hplaces⟩ := digits_split (htake _ _) (htake _ _) (hstops _) (hstops _) hrest
    have hdigits : Decimal.padded a.scaled.natAbs = Decimal.padded b.scaled.natAbs := by
      rw [← List.take_append_drop ((Decimal.padded a.scaled.natAbs).length - 18) (Decimal.padded a.scaled.natAbs),
        hwhole, (List.cons.inj hplaces).2, List.take_append_drop]
    have habs : a.scaled.natAbs = b.scaled.natAbs := by
      rw [← Decimal.ofDigitChars_padded a.scaled.natAbs, hdigits, Decimal.ofDigitChars_padded]
    omega

/-! ## Instants -/

/-- The year of an era and the day of that year, counted from March. -/
theorem dayOfYear_bounds {d y : Nat} (h : d < 146097) (hy : y = (d - d / 1460 + d / 36524 - d / 146096) / 365) :
    y ≤ 399 ∧ 365 * y + y / 4 - y / 100 ≤ d ∧ d - (365 * y + y / 4 - y / 100) ≤ 365 := by
  generalize hc : d / 36524 = c at hy
  by_cases hlast : c = 4
  · -- the last day of the era
    have hd : d = 146096 := by omega
    have hyear : y = 399 := by omega
    omega
  · have hcentury : c ≤ 3 := by omega
    -- in each century the days of four years tell the year apart
    have hsplit : y / 4 = (d + c) / 1461 ∧ y / 100 = c := by
      have hleap : d / 1460 = (d + c) / 1461 ∨ d / 1460 = (d + c) / 1461 + 1 := by omega
      interval_cases c
      all_goals
        constructor
        · rcases hleap with he | he <;> omega
        · rcases hleap with he | he <;> omega
    obtain ⟨hfour, hhundred⟩ := hsplit
    have hleap : d / 1460 = (d + c) / 1461 ∨ d / 1460 = (d + c) / 1461 + 1 := by omega
    refine ⟨by omega, ?_, ?_⟩
    · rw [hfour, hhundred]
      rcases hleap with he | he <;> omega
    · rw [hfour, hhundred]
      rcases hleap with he | he <;> omega

theorem civil_inj {a b : Int} (h : civil a = civil b) : a = b := by
  unfold civil at h
  dsimp only at h
  generalize hz : a + 719468 = z at h
  generalize hz' : b + 719468 = z' at h
  have hlt : (z % 146097).toNat < 146097 := by omega
  have hlt' : (z' % 146097).toNat < 146097 := by omega
  generalize hd : (z % 146097).toNat = d at h hlt
  generalize hd' : (z' % 146097).toNat = d' at h hlt'
  obtain ⟨hy, hle, hdoy⟩ := dayOfYear_bounds hlt rfl
  obtain ⟨hy', hle', hdoy'⟩ := dayOfYear_bounds hlt' rfl
  generalize (d - d / 1460 + d / 36524 - d / 146096) / 365 = y at h hy hle hdoy
  generalize (d' - d' / 1460 + d' / 36524 - d' / 146096) / 365 = y' at h hy' hle' hdoy'
  generalize hq : d - (365 * y + y / 4 - y / 100) = q at h hdoy
  generalize hq' : d' - (365 * y' + y' / 4 - y' / 100) = q' at h hdoy'
  have hyear := congrArg Prod.fst h
  have hmonth := congrArg (fun date => date.2.1) h
  have hday := congrArg (fun date => date.2.2) h
  dsimp only at hyear hmonth hday
  have hm : (5 * q + 2) / 153 ≤ 11 := by omega
  have hm' : (5 * q' + 2) / 153 ≤ 11 := by omega
  generalize hmm : (5 * q + 2) / 153 = m at hyear hmonth hday hm
  generalize hmm' : (5 * q' + 2) / 153 = m' at hyear hmonth hday hm'
  -- the months counted from March are told apart, and with them the days of the year
  have hsame : m = m' := by
    split at hmonth <;> split at hmonth <;> omega
  subst hsame
  have hq2 : q = q' := by omega
  have hera : z / 146097 * 400 + y = z' / 146097 * 400 + y' := by
    split at hyear <;> omega
  have hy2 : y = y' ∧ z / 146097 = z' / 146097 := by omega
  obtain ⟨rfl, hera⟩ := hy2
  omega

theorem stops_cons {c : Char} (hc : c.isDigit = false) (s : Text) : Stops (c :: s) := by
  intro d hd
  rw [← Option.some.inj hd]
  exact hc

theorem rfc3339Nano_inj {t t' : Int} (h : rfc3339Nano t = rfc3339Nano t') : t = t' := by
  unfold rfc3339Nano at h
  dsimp only at h
  generalize hdate : civil (t / 1000000000 / 86400) = date at h
  generalize hdate' : civil (t' / 1000000000 / 86400) = date' at h
  generalize hclock : (t / 1000000000 % 86400).toNat = clock at h
  generalize hclock' : (t' / 1000000000 % 86400).toNat = clock' at h
  generalize hnanos : (t % 1000000000).toNat = nanos at h
  generalize hnanos' : (t' % 1000000000).toNat = nanos' at h
  rw [List.append_assoc, List.append_assoc] at h
  have hdash : ∀ n (s : Text), (padded 4 n ++ '-' :: s).head? ≠ some '-' := by
    intro n s
    have hlen := le_length_padded 4 n
    have hall := digits_padded 4 n
    generalize padded 4 n = year at hlen hall ⊢
    rcases year with _ | ⟨c, rest⟩
    · simp at hlen
    · intro hc
      have hdigit := hall c List.mem_cons_self
      rw [Option.some.inj hc] at hdigit
      cases hdigit
  -- field by field, each up to the mark behind it
  obtain ⟨hsign, h⟩ := sign_split (hdash _ _) (hdash _ _) h
  obtain ⟨hyear, h⟩ := padded_inj (stops_cons rfl _) (stops_cons rfl _) h
  obtain ⟨hmonth, h⟩ := padded_inj (stops_cons rfl _) (stops_cons rfl _) (List.cons.inj h).2
  obtain ⟨hday, h⟩ := padded_inj (stops_cons rfl _) (stops_cons rfl _) (List.cons.inj h).2
  obtain ⟨hhour, h⟩ := padded_inj (stops_cons rfl _) (stops_cons rfl _) (List.cons.inj h).2
  obtain ⟨hminute, h⟩ := padded_inj (stops_cons rfl _) (stops_cons rfl _) (List.cons.inj h).2
  have hend : ∀ n, Stops (fraction n ++ ['Z']) := fun n => stops_fraction n _ (stops_cons rfl _)
  obtain ⟨hsecond, h⟩ := padded_inj (hend _) (hend _) (List.cons.inj h).2
  have hfraction := fraction_inj (by omega) (by omega) (List.append_cancel_right h)
  have hsame : date = date' := Prod.ext (by omega) (Prod.ext hmonth hday)
  have hdays := civil_inj (hdate.trans (hsame.trans hdate'.symm))
  omega

end MarketInfo.Preimage
