import MarketInfo.Lib.Json

/-! # Decimal literals

Digits with a sign, a point and a power of ten, and the rational number they stand for.
The value is a whole coefficient times a power of ten, so nothing is rounded in reading one.
-/

open Json (Text)

/-- What follows `e` or `E` in a literal. -/
structure Exponent where
  mark : Char
  sign : Option Char
  digits : Text
deriving DecidableEq, Repr

structure Literal where
  negative : Bool
  whole : Text
  /-- The digits after the point, none where there is no point. -/
  fraction : Option Text
  exponent : Option Exponent
deriving DecidableEq, Repr

def AllDigits (s : Text) : Prop := ∀ c ∈ s, c.isDigit = true

instance (s : Text) : Decidable (AllDigits s) := inferInstanceAs (Decidable (∀ c ∈ s, c.isDigit = true))

theorem AllDigits.append {s t : Text} (hs : AllDigits s) (ht : AllDigits t) : AllDigits (s ++ t) := by
  intro c hc
  rcases List.mem_append.1 hc with hc | hc
  · exact hs c hc
  · exact ht c hc

theorem AllDigits.ne {s : Text} (hs : AllDigits s) {c d : Char} (hc : c ∈ s) (hd : d.isDigit = false) :
    c ≠ d := by
  rintro rfl
  rw [hs c hc] at hd
  cases hd

namespace Exponent

structure Wellformed (e : Exponent) : Prop where
  mark : e.mark = 'e' ∨ e.mark = 'E'
  sign : e.sign = none ∨ e.sign = some '+' ∨ e.sign = some '-'
  some_digit : e.digits ≠ []
  digits : AllDigits e.digits

def text (e : Exponent) : Text := e.mark :: (e.sign.toList ++ e.digits)

def power (e : Exponent) : Int :=
  if e.sign = some '-' then -(Nat.ofDigitChars 10 e.digits 0) else Nat.ofDigitChars 10 e.digits 0

end Exponent

namespace Literal

def fractionDigits (l : Literal) : Text := l.fraction.getD []

/-- The digits, with the point between them if there is one. -/
def mantissa (l : Literal) : Text := l.whole ++ (l.fraction.map (List.cons '.')).getD []

def signText (l : Literal) : Text := if l.negative then ['-'] else []

def text (l : Literal) : Text := l.signText ++ l.mantissa ++ (l.exponent.map Exponent.text).getD []

def sign (l : Literal) : Int := if l.negative then -1 else 1

def power (l : Literal) : Int := (l.exponent.map Exponent.power).getD 0

/-- The number a literal stands for. -/
def value (l : Literal) : ℚ :=
  l.sign * (Nat.ofDigitChars 10 l.whole 0 +
    Nat.ofDigitChars 10 l.fractionDigits 0 / (10 : ℚ) ^ l.fractionDigits.length) * (10 : ℚ) ^ l.power

/-- The literal with its point moved behind the last digit. -/
def coefficient (l : Literal) : Int := l.sign * Nat.ofDigitChars 10 (l.whole ++ l.fractionDigits) 0

def scale (l : Literal) : Int := l.power - l.fractionDigits.length

structure Wellformed (l : Literal) : Prop where
  whole : AllDigits l.whole
  fraction : AllDigits l.fractionDigits
  some_digit : l.whole ++ l.fractionDigits ≠ []
  exponent : ∀ e ∈ l.exponent, e.Wellformed

/-- A literal without a power of ten. -/
structure Plain (l : Literal) : Prop extends l.Wellformed where
  no_exponent : l.exponent = none

/-- A number as JSON writes it. -/
structure Number (l : Literal) : Prop extends l.Wellformed where
  no_leading_zero : l.whole = ['0'] ∨ ∃ c rest, l.whole = c :: rest ∧ c ≠ '0'
  fraction_digit : l.fraction ≠ some []

/-- A literal is read without rounding. -/
theorem value_eq (l : Literal) : l.value = l.coefficient * (10 : ℚ) ^ l.scale := by
  have hten : (10 : ℚ) ≠ 0 := by norm_num
  have hpower : (10 : ℚ) ^ l.scale = (10 : ℚ) ^ l.power / (10 : ℚ) ^ l.fractionDigits.length := by
    unfold scale
    rw [zpow_sub₀ hten, zpow_natCast]
  have hdigits : (Nat.ofDigitChars 10 (l.whole ++ l.fractionDigits) 0 : ℚ) =
      Nat.ofDigitChars 10 l.whole 0 * (10 : ℚ) ^ l.fractionDigits.length +
        Nat.ofDigitChars 10 l.fractionDigits 0 := by
    rw [Nat.ofDigitChars_append, Nat.ofDigitChars_eq_ofDigitChars_zero]
    push_cast
    ring
  have hplaces : (10 : ℚ) ^ l.fractionDigits.length ≠ 0 := pow_ne_zero _ hten
  unfold value coefficient
  rw [hpower, Int.cast_mul, Int.cast_natCast, hdigits]
  field_simp

theorem power_of_none {l : Literal} (h : l.exponent = none) : l.power = 0 := by
  unfold power
  rw [h]
  rfl

theorem text_of_none {l : Literal} (h : l.exponent = none) : l.text = l.signText ++ l.mantissa := by
  unfold text
  rw [h]
  exact List.append_nil _

theorem text_of_some {l : Literal} {e : Exponent} (h : l.exponent = some e) :
    l.text = l.signText ++ l.mantissa ++ e.mark :: (e.sign.toList ++ e.digits) := by
  unfold text
  rw [h]
  rfl

/-- Before the power of ten there are digits, a sign and a point only. -/
theorem mem_front {l : Literal} (h : l.Wellformed) {c : Char} (hc : c ∈ l.signText ++ l.mantissa) :
    c = '-' ∨ c = '.' ∨ c.isDigit = true := by
  rcases List.mem_append.1 hc with hsign | hmantissa
  · unfold signText at hsign
    split at hsign
    · exact .inl (List.mem_singleton.1 hsign)
    · cases hsign
  · rcases List.mem_append.1 hmantissa with hwhole | hfraction
    · exact .inr (.inr (h.whole c hwhole))
    · have hall := h.fraction
      unfold fractionDigits at hall
      rcases hf : l.fraction with _ | digits
      · rw [hf] at hfraction
        cases hfraction
      · rw [hf] at hfraction hall
        rcases List.mem_cons.1 hfraction with rfl | hdigit
        · exact .inr (.inl rfl)
        · exact .inr (.inr (hall c hdigit))

theorem length_fractionDigits_le (l : Literal) : l.fractionDigits.length ≤ l.text.length := by
  have hmantissa : l.fractionDigits.length ≤ l.mantissa.length := by
    unfold fractionDigits mantissa
    rcases l.fraction with _ | digits
    · exact Nat.zero_le _
    · rw [List.length_append]
      show digits.length ≤ l.whole.length + (digits.length + 1)
      omega
  unfold text
  rw [List.length_append, List.length_append]
  omega

end Literal

/-! ## Regular expressions of character classes -/

namespace Pattern

variable {α : Type}

/-- `[abc]`. -/
def oneOf (cs : List α) : RegularExpression α := cs.foldr (fun c p => .char c + p) 0

/-- `p?`. -/
def optional (p : RegularExpression α) : RegularExpression α := 1 + p

/-- `p+`. -/
def many (p : RegularExpression α) : RegularExpression α := p * p.star

/-- `[0-9]`. -/
def digit : RegularExpression Char := oneOf ['0', '1', '2', '3', '4', '5', '6', '7', '8', '9']

theorem mem_oneOf {cs s : List α} : s ∈ (oneOf cs).matches' ↔ ∃ c ∈ cs, s = [c] := by
  induction cs with
  | nil => exact ⟨fun h => absurd h (Language.notMem_zero s), by rintro ⟨c, hc, -⟩; cases hc⟩
  | cons c cs ih =>
      change s ∈ ({[c]} : Language α) + (oneOf cs).matches' ↔ _
      rw [Language.mem_add, ih]
      constructor
      · rintro (h | ⟨d, hd, h⟩)
        · exact ⟨c, List.mem_cons_self, h⟩
        · exact ⟨d, List.mem_cons_of_mem c hd, h⟩
      · rintro ⟨d, hd, h⟩
        rcases List.mem_cons.1 hd with rfl | hd
        · exact .inl h
        · exact .inr ⟨d, hd, h⟩

theorem mem_char {c : α} {s : List α} : s ∈ (RegularExpression.char c).matches' ↔ s = [c] := Iff.rfl

theorem mem_optional {p : RegularExpression α} {s : List α} :
    s ∈ (optional p).matches' ↔ s = [] ∨ s ∈ p.matches' := by
  change s ∈ (1 : Language α) + p.matches' ↔ _
  rw [Language.mem_add, Language.mem_one]

theorem mem_mul {p q : RegularExpression α} {s : List α} :
    s ∈ (p * q).matches' ↔ ∃ a ∈ p.matches', ∃ b ∈ q.matches', a ++ b = s := by
  rw [RegularExpression.matches'_mul, Language.mem_mul]

theorem mem_star_oneOf {cs s : List α} : s ∈ (oneOf cs).star.matches' ↔ ∀ c ∈ s, c ∈ cs := by
  rw [RegularExpression.matches'_star, Language.mem_kstar]
  constructor
  · rintro ⟨pieces, rfl, hpieces⟩ c hc
    obtain ⟨piece, hpiece, hmem⟩ := List.mem_flatten.1 hc
    obtain ⟨d, hd, rfl⟩ := mem_oneOf.1 (hpieces piece hpiece)
    rw [List.mem_singleton.1 hmem]
    exact hd
  · intro h
    refine ⟨s.map fun c => [c], ?_, ?_⟩
    · rw [← List.flatMap_def, List.flatMap_singleton']
    · intro piece hpiece
      obtain ⟨c, hc, rfl⟩ := List.mem_map.1 hpiece
      exact mem_oneOf.2 ⟨c, h c hc, rfl⟩

theorem mem_digits {c : Char} :
    c ∈ ['0', '1', '2', '3', '4', '5', '6', '7', '8', '9'] ↔ c.isDigit = true := by
  constructor
  · intro h
    fin_cases h <;> rfl
  · intro h
    have hrange : 48 ≤ c.toNat ∧ c.toNat ≤ 57 := by
      simpa [Char.isDigit, UInt32.le_iff_toNat_le] using h
    have hc : c = Char.ofNat c.toNat := (Char.ofNat_toNat c).symm
    generalize c.toNat = n at hrange hc
    obtain ⟨hlow, hhigh⟩ := hrange
    interval_cases n <;> (rw [hc]; decide)

theorem mem_star_digit {s : Text} : s ∈ digit.star.matches' ↔ AllDigits s := by
  unfold digit
  rw [mem_star_oneOf]
  exact forall₂_congr fun c _ => mem_digits

theorem mem_many_digit {s : Text} : s ∈ (many digit).matches' ↔ s ≠ [] ∧ AllDigits s := by
  unfold many
  rw [mem_mul]
  constructor
  · rintro ⟨a, ha, b, hb, rfl⟩
    obtain ⟨c, hc, rfl⟩ := mem_oneOf.1 ha
    refine ⟨List.cons_ne_nil _ _, ?_⟩
    intro d hd
    rcases List.mem_cons.1 hd with rfl | hd
    · exact mem_digits.1 hc
    · exact mem_star_digit.1 hb d hd
  · rintro ⟨hne, hdigits⟩
    obtain ⟨c, rest, rfl⟩ := List.exists_cons_of_ne_nil hne
    refine ⟨[c], mem_oneOf.2 ⟨c, mem_digits.2 (hdigits c List.mem_cons_self), rfl⟩, rest, ?_, rfl⟩
    exact mem_star_digit.2 fun d hd => hdigits d (List.mem_cons_of_mem c hd)

end Pattern
