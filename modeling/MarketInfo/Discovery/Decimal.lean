import MarketInfo.Lib.Json

/-! # Stored decimals

`decimal.Decimal` as it is hashed: a `Decimal(38,18)` in the way Python writes it. Two
decimals with no more than 18 places that are written alike have one value.
-/

namespace MarketInfo

open Json (Text)

/-- `decimal.Decimal`: the coefficient times a power of ten. -/
structure Decimal where
  coefficient : Int
  exponent : Int
deriving DecidableEq, Repr

namespace Decimal

def value (d : Decimal) : ℚ := d.coefficient * (10 : ℚ) ^ d.exponent

def zero : Decimal := ⟨0, 0⟩

/-- `decimal.NewFromInt`. -/
def ofInt (n : Int) : Decimal := ⟨n, 0⟩

@[reducible] def Equal (a b : Decimal) : Prop := a.value = b.value
@[reducible] def LessThan (a b : Decimal) : Prop := a.value < b.value
@[reducible] def GreaterThan (a b : Decimal) : Prop := b.value < a.value
@[reducible] def IsNegative (a : Decimal) : Prop := a.coefficient < 0
@[reducible] def IsPositive (a : Decimal) : Prop := 0 < a.coefficient

/-- The coefficient with 18 places, rounded half away from zero. -/
def scaled (d : Decimal) : Int :=
  if -18 ≤ d.exponent then d.coefficient * 10 ^ (d.exponent + 18).toNat
  else
    let m : Nat := 10 ^ (-18 - d.exponent).toNat
    d.coefficient.sign * ((2 * d.coefficient.natAbs + m) / (2 * m) : Nat)

/-- The digits of a number, 19 of them at least. -/
def padded (n : Nat) : Text :=
  List.replicate (19 - (Nat.toDigits 10 n).length) '0' ++ Nat.toDigits 10 n

/-- `StringFixed(18)`. -/
def stringFixed (d : Decimal) : Text :=
  let digits := padded d.scaled.natAbs
  (if d.scaled < 0 then ['-'] else []) ++ digits.take (digits.length - 18) ++
    '.' :: digits.drop (digits.length - 18)

end Decimal

/-- `ReferenceDecimal`. -/
@[reducible] def ReferenceDecimal (v : Decimal) : Prop :=
  ¬ v.IsNegative ∧ -18 ≤ v.exponent ∧ v.LessThan ⟨1, 20⟩

/-- `PythonStoredDecimal`. -/
def PythonStoredDecimal (v : Decimal) : Text :=
  let s := v.stringFixed
  let negative := s.head? = some '-'
  let s := if negative then s.drop 1 else s
  let digits := (s.filter fun c => c ≠ '.').dropWhile fun c => c = '0'
  if digits = [] then ['0', 'E', '-', '1', '8']
  else
    let adjusted : Int := digits.length - 19
    let s := if adjusted < -6 then
        digits.take 1 ++ (if 1 < digits.length then '.' :: digits.drop 1 else []) ++ 'E' :: Json.intText adjusted
      else s
    if negative then '-' :: s else s

namespace Decimal

/-! ## Reading it back -/

/-- The digits before an exponent, as one number. -/
def unstored (s : Text) : Nat :=
  Nat.ofDigitChars 10 ((s.takeWhile fun c => c ≠ 'E').filter Char.isDigit) 0

theorem digits_padded (n : Nat) : ∀ c ∈ padded n, c.isDigit = true := by
  intro c hc
  rcases List.mem_append.1 hc with hzero | hdigit
  · rw [(List.mem_replicate.1 hzero).2]
    rfl
  · exact Nat.isDigit_of_mem_toDigits (by norm_num) (by norm_num) hdigit

theorem ofDigitChars_padded (n : Nat) : Nat.ofDigitChars 10 (padded n) 0 = n := by
  unfold padded
  rw [Nat.ofDigitChars_append, Nat.ofDigitChars_replicate_zero, Nat.mul_zero, Nat.ofDigitChars_ten_toDigits]

theorem ofDigitChars_dropWhile (s : Text) :
    Nat.ofDigitChars 10 (s.dropWhile fun c => c = '0') 0 = Nat.ofDigitChars 10 s 0 := by
  induction s with
  | nil => rfl
  | cons c s ih =>
      by_cases hc : c = '0'
      · rw [List.dropWhile_cons_of_pos (by simpa using hc), ih, hc]
        rfl
      · rw [List.dropWhile_cons_of_neg (by simpa using hc)]

theorem isDigit_ne {c d : Char} (hc : c.isDigit = true) (hd : d.isDigit = false) : c ≠ d := by
  rintro rfl
  rw [hc] at hd
  cases hd

theorem filter_digits {s : Text} (h : ∀ c ∈ s, c.isDigit = true) : s.filter Char.isDigit = s :=
  List.filter_eq_self.2 h

/-- Digits before an exponent, with a point after some of them. -/
theorem unstored_append {a b rest : Text} (ha : ∀ c ∈ a, c.isDigit = true) (hb : ∀ c ∈ b, c.isDigit = true)
    (hrest : rest = [] ∨ rest.head? = some 'E') :
    unstored (a ++ '.' :: b ++ rest) = Nat.ofDigitChars 10 (a ++ b) 0 ∧
      unstored (a ++ rest) = Nat.ofDigitChars 10 a 0 := by
  have hstop : rest.takeWhile (fun c => decide (c ≠ 'E')) = [] := by
    rcases hrest with rfl | hhead
    · rfl
    · rcases rest with _ | ⟨c, rest⟩
      · rfl
      · obtain rfl : c = 'E' := Option.some.inj hhead
        rfl
  have hplain : ∀ s : Text, (∀ c ∈ s, c.isDigit = true ∨ c = '.') → ∀ c ∈ s, decide (c ≠ 'E') = true := by
    intro s hs c hc
    rcases hs c hc with hdigit | rfl
    · exact decide_eq_true (isDigit_ne hdigit rfl)
    · rfl
  constructor
  · have hall : ∀ c ∈ a ++ '.' :: b, c.isDigit = true ∨ c = '.' := by
      intro c hc
      rcases List.mem_append.1 hc with hc | hc
      · exact .inl (ha c hc)
      · rcases List.mem_cons.1 hc with rfl | hc
        · exact .inr rfl
        · exact .inl (hb c hc)
    unfold unstored
    rw [List.takeWhile_append_of_pos (hplain _ hall), hstop, List.append_nil, List.filter_append,
      List.filter_cons_of_neg (by decide), filter_digits ha, filter_digits hb]
  · unfold unstored
    rw [List.takeWhile_append_of_pos (hplain _ fun c hc => .inl (ha c hc)), hstop, List.append_nil,
      filter_digits ha]

theorem unstored_storedDecimal {d : Decimal} (h : 0 ≤ d.scaled) :
    (unstored (PythonStoredDecimal d) : Int) = d.scaled := by
  have hdigits := digits_padded d.scaled.natAbs
  have hnumber := ofDigitChars_padded d.scaled.natAbs
  have hpoint : ∀ c ∈ padded d.scaled.natAbs, decide (c ≠ '.') = true := fun c hc =>
    decide_eq_true (isDigit_ne (hdigits c hc) rfl)
  generalize hk : (padded d.scaled.natAbs).length - 18 = k
  have hfixed : d.stringFixed = (padded d.scaled.natAbs).take k ++ '.' :: (padded d.scaled.natAbs).drop k := by
    unfold stringFixed
    dsimp only
    rw [if_neg (by omega), List.nil_append, hk]
  generalize padded d.scaled.natAbs = digits at hdigits hnumber hpoint hfixed
  have hfirst : ∀ c ∈ digits.take k, c.isDigit = true := fun c hc => hdigits c (List.mem_of_mem_take hc)
  have hlast : ∀ c ∈ digits.drop k, c.isDigit = true := fun c hc => hdigits c (List.mem_of_mem_drop hc)
  have hsign : ¬ (d.stringFixed.head? = some '-') := by
    rw [hfixed]
    intro hhead
    rcases hfront : digits.take k with _ | ⟨c, rest⟩
    · rw [hfront] at hhead
      have hpointed : '.' = '-' := Option.some.inj hhead
      revert hpointed
      decide
    · rw [hfront] at hhead hfirst
      obtain rfl : c = '-' := Option.some.inj hhead
      exact absurd (hfirst '-' List.mem_cons_self) (by decide)
  have hall : (d.stringFixed.filter fun c => c ≠ '.') = digits := by
    rw [hfixed, List.filter_append, List.filter_cons_of_neg (by decide), ← List.filter_append,
      List.take_append_drop]
    exact List.filter_eq_self.2 hpoint
  have hstripped := ofDigitChars_dropWhile digits
  have hmore : ∀ c ∈ digits.dropWhile (fun c => c = '0'), c.isDigit = true := fun c hc =>
    hdigits c ((List.dropWhile_sublist _).subset hc)
  unfold PythonStoredDecimal
  dsimp only
  simp only [if_neg hsign, hall]
  generalize (digits.dropWhile fun c => decide (c = '0')) = shown at hstripped hmore
  split
  · rename_i hempty
    rw [hempty] at hstripped
    rw [← hstripped] at hnumber
    change 0 = d.scaled.natAbs at hnumber
    show (0 : Int) = d.scaled
    omega
  · have hvalue : (Nat.ofDigitChars 10 shown 0 : Int) = d.scaled := by
      rw [hstripped, hnumber]
      omega
    split
    · -- a mantissa and an exponent
      have hone : ∀ c ∈ shown.take 1, c.isDigit = true := fun c hc => hmore c (List.mem_of_mem_take hc)
      have hothers : ∀ c ∈ shown.drop 1, c.isDigit = true := fun c hc => hmore c (List.mem_of_mem_drop hc)
      split
      · rw [(unstored_append hone hothers (.inr rfl)).1, List.take_append_drop]
        exact hvalue
      · rename_i hshort
        rw [List.append_nil, (unstored_append hone hothers (.inr rfl)).2, List.take_of_length_le (by omega)]
        exact hvalue
    · have hread := (unstored_append hfirst hlast (.inl rfl)).1
      rw [List.append_nil, List.take_append_drop] at hread
      rw [hfixed, hread, hnumber]
      omega

theorem scaled_nonneg {d : Decimal} (h : ReferenceDecimal d) : 0 ≤ d.scaled := by
  unfold scaled
  rw [if_pos h.2.1]
  exact mul_nonneg (not_lt.1 h.1) (by positivity)

theorem value_eq {d : Decimal} (h : -18 ≤ d.exponent) : d.value = d.scaled / (10 : ℚ) ^ (18 : ℕ) := by
  have hten : (10 : ℚ) ≠ 0 := by norm_num
  have hpower : (10 : ℚ) ^ d.exponent * (10 : ℚ) ^ (18 : ℕ) = (10 : ℚ) ^ (d.exponent + 18).toNat := by
    rw [← zpow_natCast, ← zpow_natCast, ← zpow_add₀ hten]
    congr 1
    omega
  rw [eq_div_iff (pow_ne_zero 18 hten)]
  unfold value scaled
  rw [if_pos h, mul_assoc, hpower, Int.cast_mul, Int.cast_pow]
  rfl

/-- Two reference decimals are written alike if and only if they are equal. -/
theorem stored_eq_iff {a b : Decimal} (ha : ReferenceDecimal a) (hb : ReferenceDecimal b) :
    PythonStoredDecimal a = PythonStoredDecimal b ↔ a.Equal b := by
  constructor
  · intro h
    have hscaled : a.scaled = b.scaled := by
      rw [← unstored_storedDecimal (scaled_nonneg ha), h, unstored_storedDecimal (scaled_nonneg hb)]
    show a.value = b.value
    rw [value_eq ha.2.1, value_eq hb.2.1, hscaled]
  · intro h
    have hscaled : a.scaled = b.scaled := by
      have hvalue : a.value = b.value := h
      rw [value_eq ha.2.1, value_eq hb.2.1, div_left_inj' (by positivity)] at hvalue
      exact_mod_cast hvalue
    unfold PythonStoredDecimal stringFixed
    rw [hscaled]

end Decimal

end MarketInfo
