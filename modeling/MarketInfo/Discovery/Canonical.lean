import MarketInfo.Discovery.Documents

/-! # The bytes of a document

Python writes a stored decimal as `PythonStoredDecimal` does, and a document is written as
what it means: whatever the order of its maps and the spelling of its decimals, which count
as they are stored, with 18 places.
-/

namespace MarketInfo

open Json (Text Tree Meaning)

/-! ## Python's decimals -/

namespace Python

/-- `'%+d'`. -/
def signed (n : Int) : Text := if n < 0 then Json.intText n else '+' :: Json.intText n

/-- `Decimal.__str__` of a sign, digits and an exponent. -/
def str (negative : Bool) (digits : Text) (exp : Int) : Text :=
  let leftdigits := exp + digits.length
  let dotplace := if exp ≤ 0 ∧ -6 < leftdigits then leftdigits else 1
  let intpart := if dotplace ≤ 0 then ['0']
    else if (digits.length : Int) ≤ dotplace then
      digits ++ List.replicate (dotplace - digits.length).toNat '0'
    else digits.take dotplace.toNat
  let fracpart := if dotplace ≤ 0 then '.' :: (List.replicate (-dotplace).toNat '0' ++ digits)
    else if (digits.length : Int) ≤ dotplace then []
    else '.' :: digits.drop dotplace.toNat
  let exponent := if leftdigits = dotplace then [] else 'E' :: signed (leftdigits - dotplace)
  (if negative then ['-'] else []) ++ intpart ++ fracpart ++ exponent

/-- `str` of the number of units of the eighteenth place. -/
def stored (n : Int) : Text := str (n < 0) (Nat.toDigits 10 n.natAbs) (-18)

end Python

namespace Decimal

/-- The value as it is stored: with 18 places, half a unit rounded away from zero. -/
def storedValue (d : Decimal) : ℚ := d.scaled / 10 ^ 18

/-- A value of `Decimal(38,18)`, however it is spelled. -/
def Is38_18 (d : Decimal) : Prop := ∃ n : Int, n.natAbs < 10 ^ 38 ∧ d.value = n / 10 ^ 18

theorem dropWhile_padded (n : Nat) :
    (padded n).dropWhile (fun c => decide (c = '0')) = if n = 0 then [] else Nat.toDigits 10 n := by
  have hzeros : ∀ c ∈ List.replicate (19 - (Nat.toDigits 10 n).length) '0', decide (c = '0') = true := by
    intro c hc
    rw [(List.mem_replicate.1 hc).2]
    rfl
  rw [padded, List.dropWhile_append_of_pos hzeros]
  split
  · rename_i hn
    rw [hn]
    rfl
  · rename_i hn
    obtain ⟨c, rest, hdigits, hc⟩ := Json.head_toDigits_pos (Nat.pos_of_ne_zero hn)
    rw [hdigits]
    refine List.dropWhile_cons_of_neg ?_
    fin_cases hc <;> decide

theorem length_toDigits_pos (n : Nat) : 0 < (Nat.toDigits 10 n).length :=
  List.length_pos_iff.2 Nat.toDigits_ne_nil

/-- The digits before the point and after it. -/
theorem split_padded (n : Nat) :
    (padded n).take ((padded n).length - 18) ++ '.' :: (padded n).drop ((padded n).length - 18) =
      if (Nat.toDigits 10 n).length ≤ 18 then
        '0' :: '.' :: (List.replicate (18 - (Nat.toDigits 10 n).length) '0' ++ Nat.toDigits 10 n)
      else (Nat.toDigits 10 n).take ((Nat.toDigits 10 n).length - 18) ++
        '.' :: (Nat.toDigits 10 n).drop ((Nat.toDigits 10 n).length - 18) := by
  have hpos := length_toDigits_pos n
  unfold padded
  generalize Nat.toDigits 10 n = digits at hpos
  split
  · rename_i hshort
    rw [show 19 - digits.length = (18 - digits.length) + 1 by omega, List.replicate_succ, List.cons_append,
      show ('0' :: (List.replicate (18 - digits.length) '0' ++ digits)).length - 18 = 1 by simp; omega]
    rfl
  · rename_i hlong
    rw [show 19 - digits.length = 0 by omega, List.replicate_zero, List.nil_append]

/-- The digits with a point after all but 18 of them. -/
def pointed (n : Nat) : Text :=
  (padded n).take ((padded n).length - 18) ++ '.' :: (padded n).drop ((padded n).length - 18)

theorem stringFixed_eq (d : Decimal) :
    d.stringFixed = (if d.scaled < 0 then ['-'] else []) ++ pointed d.scaled.natAbs := by
  rw [stringFixed, pointed, List.append_assoc]

theorem filter_pointed (n : Nat) : (pointed n).filter (fun c => decide (c ≠ '.')) = padded n := by
  have hpoint : ∀ c ∈ padded n, decide (c ≠ '.') = true := fun c hc =>
    decide_eq_true (isDigit_ne (digits_padded n c hc) rfl)
  rw [pointed, List.filter_append, List.filter_cons_of_neg (by decide), ← List.filter_append,
    List.take_append_drop]
  exact List.filter_eq_self.2 hpoint

theorem head_pointed (n : Nat) : ¬ (pointed n).head? = some '-' := by
  rw [pointed, split_padded]
  have hdigits : ∀ c ∈ (Nat.toDigits 10 n).take ((Nat.toDigits 10 n).length - 18), c.isDigit = true := fun c hc =>
    Nat.isDigit_of_mem_toDigits (by norm_num) (by norm_num) (List.mem_of_mem_take hc)
  split
  · simp
  · generalize (Nat.toDigits 10 n).take ((Nat.toDigits 10 n).length - 18) = front at hdigits
    intro hhead
    rcases front with _ | ⟨c, rest⟩
    · cases hhead
    · obtain rfl : c = '-' := Option.some.inj hhead
      exact absurd (hdigits '-' List.mem_cons_self) (by decide)

/-- The text without its sign. -/
def unsignedText (n : Nat) : Text :=
  let digits := Nat.toDigits 10 n
  if n = 0 then ['0', 'E', '-', '1', '8']
  else if digits.length < 13 then
    digits.take 1 ++ (if 1 < digits.length then '.' :: digits.drop 1 else []) ++
      'E' :: Json.intText (digits.length - 19)
  else pointed n

theorem storedDecimal_eq (d : Decimal) :
    PythonStoredDecimal d = (if d.scaled < 0 then ['-'] else []) ++ unsignedText d.scaled.natAbs := by
  have hshown : ∀ n : Nat, (((pointed n).filter fun c => decide (c ≠ '.')).dropWhile fun c => decide (c = '0')) =
      if n = 0 then [] else Nat.toDigits 10 n := fun n => by
    rw [filter_pointed, dropWhile_padded]
  have hsign : (d.stringFixed.head? = some '-') ↔ d.scaled < 0 := by
    rw [stringFixed_eq]
    split
    · simp [*]
    · simp [*, head_pointed]
  have hbody : (if d.scaled < 0 then d.stringFixed.drop 1 else d.stringFixed) =
      pointed d.scaled.natAbs := by
    rw [stringFixed_eq]
    split
    · rfl
    · rfl
  unfold PythonStoredDecimal
  simp only [hsign, hbody, hshown]
  unfold unsignedText
  by_cases hzero : d.scaled.natAbs = 0
  · have hnonneg : ¬ d.scaled < 0 := by omega
    simp only [hzero, hnonneg, if_true, if_false, List.nil_append]
  · have hlength : ((Nat.toDigits 10 d.scaled.natAbs).length : Int) - 19 < -6 ↔
        (Nat.toDigits 10 d.scaled.natAbs).length < 13 := by omega
    simp only [if_neg hzero, if_neg Nat.toDigits_ne_nil, hlength]
    split
    · rfl
    · rfl

theorem unsignedText_eq_python (n : Nat) : unsignedText n = Python.str false (Nat.toDigits 10 n) (-18) := by
  have hpos := length_toDigits_pos n
  by_cases hzero : n = 0
  · subst hzero
    rfl
  · unfold unsignedText pointed
    rw [split_padded]
    dsimp only
    rw [if_neg hzero]
    generalize Nat.toDigits 10 n = digits at hpos
    unfold Python.str
    dsimp only
    split
    · -- scientific: one digit before the point
      rename_i hshort
      have hplace : ¬ ((-18 : Int) ≤ 0 ∧ (-6 : Int) < -18 + digits.length) := by omega
      have hexponent : ¬ (-18 + (digits.length : Int) = 1) := by omega
      have hsigned : Python.signed (-18 + (digits.length : Int) - 1) = Json.intText (digits.length - 19) := by
        rw [Python.signed, if_pos (by omega)]
        congr 1
        omega
      simp only [if_neg hplace, if_neg hexponent, hsigned, if_neg (show ¬ (1 : Int) ≤ 0 by omega),
        Bool.false_eq_true, if_false, List.nil_append]
      by_cases hone : digits.length = 1
      · have htake : digits.take 1 = digits := List.take_of_length_le (by omega)
        simp [hone, htake]
      · simp only [if_neg (show ¬ (digits.length : Int) ≤ 1 by omega), if_pos (show 1 < digits.length by omega)]
        rfl
    · rename_i hlong
      have hplace : (-18 : Int) ≤ 0 ∧ (-6 : Int) < -18 + digits.length := by omega
      simp only [if_pos hplace, if_true, Bool.false_eq_true, if_false, List.nil_append, List.append_nil]
      by_cases hpoint : digits.length ≤ 18
      · have hzeros : (-(-18 + (digits.length : Int))).toNat = 18 - digits.length := by omega
        simp only [if_pos hpoint, if_pos (show -18 + (digits.length : Int) ≤ 0 by omega), hzeros]
        rfl
      · have hbefore : (-18 + (digits.length : Int)).toNat = digits.length - 18 := by omega
        simp only [if_neg hpoint, if_neg (show ¬ -18 + (digits.length : Int) ≤ 0 by omega),
          if_neg (show ¬ (digits.length : Int) ≤ -18 + digits.length by omega), hbefore]

theorem storedDecimal_eq_python (d : Decimal) : PythonStoredDecimal d = Python.stored d.scaled := by
  rw [storedDecimal_eq, unsignedText_eq_python, Python.stored, Python.str, Python.str]
  by_cases hneg : d.scaled < 0
  · simp [hneg, List.append_assoc]
  · simp [hneg]

/-! ## Decimals tell their stored value -/

theorem unstored_minus (s : Text) : unstored ('-' :: s) = unstored s := by
  rw [unstored, unstored, List.takeWhile_cons_of_pos (by decide), List.filter_cons_of_neg (by decide)]

theorem unstored_unsignedText (n : Nat) : unstored (unsignedText n) = n := by
  have hscaled : scaled ⟨n, -18⟩ = n := by
    simp [scaled]
  have hstored := unstored_storedDecimal (d := ⟨n, -18⟩) (by omega)
  rw [storedDecimal_eq, hscaled, if_neg (by omega), Int.natAbs_natCast, List.nil_append] at hstored
  exact_mod_cast hstored

theorem head_unsignedText (n : Nat) : ¬ (unsignedText n).head? = some '-' := by
  unfold unsignedText
  dsimp only
  split
  · decide
  · split
    · obtain ⟨c, rest, hdigits, hc⟩ := Json.head_toDigits n
      rw [hdigits]
      intro hhead
      obtain rfl : c = '-' := Option.some.inj hhead
      exact absurd hc (by decide)
    · exact head_pointed n

/-- Two decimals are written alike exactly if they are stored alike. -/
theorem stored_eq_iff_scaled (a b : Decimal) :
    PythonStoredDecimal a = PythonStoredDecimal b ↔ a.scaled = b.scaled := by
  constructor
  · intro h
    have hhead : ∀ d : Decimal, (PythonStoredDecimal d).head? = some '-' ↔ d.scaled < 0 := fun d => by
      rw [storedDecimal_eq]
      split
      · simp [*]
      · simp [*, head_unsignedText]
    have hnumber : ∀ d : Decimal, unstored (PythonStoredDecimal d) = d.scaled.natAbs := fun d => by
      rw [storedDecimal_eq]
      split
      · exact (unstored_minus _).trans (unstored_unsignedText _)
      · exact unstored_unsignedText _
    have hsign := (hhead a).symm.trans ((iff_of_eq (congrArg (fun s => s.head? = some '-') h)).trans (hhead b))
    have hsame := (hnumber a).symm.trans ((congrArg unstored h).trans (hnumber b))
    omega
  · intro h
    rw [storedDecimal_eq, storedDecimal_eq, h]

theorem storedValue_eq_iff {a b : Decimal} : a.storedValue = b.storedValue ↔ a.scaled = b.scaled := by
  rw [storedValue, storedValue, div_left_inj' (by norm_num)]
  exact_mod_cast Iff.rfl

/-- A `Decimal(38,18)` is stored without rounding. -/
theorem storedValue_of_is38_18 {d : Decimal} (h : d.Is38_18) : d.storedValue = d.value := by
  obtain ⟨n, -, hn⟩ := h
  by_cases hplaces : -18 ≤ d.exponent
  · exact (value_eq hplaces).symm
  · -- more places than 18, of which the last are zeros
    generalize hm : 10 ^ (-18 - d.exponent).toNat = m
    have hpos : 0 < m := hm ▸ by positivity
    have hten : (10 : ℚ) ≠ 0 := by norm_num
    have hpower : (10 : ℚ) ^ d.exponent * (m * 10 ^ 18) = 1 := by
      rw [← hm, Nat.cast_pow, Nat.cast_ofNat, ← zpow_natCast, ← zpow_natCast, ← zpow_add₀ hten,
        ← zpow_add₀ hten]
      convert zpow_zero (10 : ℚ) using 2
      push_cast
      omega
    have hcoefficient : d.coefficient = n * m := by
      have hvalue : (d.coefficient : ℚ) = n * m := by
        calc (d.coefficient : ℚ)
            = d.coefficient * ((10 : ℚ) ^ d.exponent * (m * 10 ^ 18)) := by rw [hpower, mul_one]
          _ = d.value * (m * 10 ^ 18) := by rw [value, mul_assoc]
          _ = n * m := by rw [hn]; field_simp
      exact_mod_cast hvalue
    have hround : (2 * d.coefficient.natAbs + m) / (2 * m) = n.natAbs := by
      rw [hcoefficient, Int.natAbs_mul, Int.natAbs_natCast,
        show 2 * (n.natAbs * m) + m = m + 2 * m * n.natAbs by ring, Nat.add_mul_div_left _ _ (by omega),
        Nat.div_eq_of_lt (by omega), Nat.zero_add]
    have hsign : d.coefficient.sign = n.sign := by
      rw [hcoefficient, Int.sign_mul, Int.sign_natCast_of_ne_zero hpos.ne', mul_one]
    have hscaled : d.scaled = n := by
      rw [scaled, if_neg hplaces]
      simp only [hm, hround, hsign]
      exact Int.sign_mul_natAbs n
    rw [storedValue, hscaled, hn]

/-- On `Decimal(38,18)` values Python's text is the one of the value. -/
theorem stored_injective {a b : Decimal} (ha : a.Is38_18) (hb : b.Is38_18) :
    PythonStoredDecimal a = PythonStoredDecimal b ↔ a.Equal b := by
  rw [stored_eq_iff_scaled, ← storedValue_eq_iff, storedValue_of_is38_18 ha, storedValue_of_is38_18 hb]

end Decimal

/-! ## Documents -/

namespace Discovery.Documents

@[elab_as_elim]
theorem Doc.induction {P : Doc → Prop} (json : ∀ t, P (.json t)) (decimal : ∀ v, P (.decimal v))
    (decimals : ∀ vs, P (.decimals vs)) (map : ∀ es, (∀ e ∈ es, P e.2) → P (.map es)) : ∀ d, P d
  | .json t => json t
  | .decimal v => decimal v
  | .decimals vs => decimals vs
  | .map es => map es fun e _ => Doc.induction json decimal decimals map e.2
termination_by d => sizeOf d
decreasing_by
  simp only [Doc.map.sizeOf_spec]
  have := List.sizeOf_lt_of_mem ‹_›
  rcases e with ⟨k, d⟩
  simp only [Prod.mk.sizeOf_spec] at this
  simp only
  omega

theorem hashJSONEntries_eq (es : List (Text × Doc)) :
    hashJSONEntries es = es.map fun e => (e.1, hashJSONValue e.2) := by
  induction es with
  | nil => rfl
  | cons e es ih => rw [hashJSONEntries, ih, List.map_cons]

mutual

/-- What a document says, where decimals count as they are stored. -/
def Doc.meaning : Doc → Meaning
  | .json t => t.meaning
  | .decimal v => .number v.storedValue
  | .decimals vs => .list (vs.map fun v => .number v.storedValue)
  | .map es => .map (docMeaningAt es)

def docMeaningAt : List (Text × Doc) → Text → Option Meaning
  | [], _ => none
  | (k, d) :: es, key => if k = key then some d.meaning else docMeaningAt es key

end

theorem docMeaningAt_eq (es : List (Text × Doc)) (k : Text) :
    docMeaningAt es k = (Entries.find es k).map Doc.meaning := by
  induction es with
  | nil => rfl
  | cons e es ih =>
      rw [docMeaningAt, ih, Entries.find, Entries.find, List.find?_cons]
      by_cases hkey : e.1 = k
      · simp [hkey]
      · simp [hkey]

def IsDecimal : Doc → Prop
  | .decimal _ => True
  | .decimals _ => True
  | _ => False

/-- Maps have no key twice and decimals stand under the keys of decimals, which hold nothing
else. A map outside lists is walked into. -/
inductive Typed (decimalKey : Text → Prop) : Doc → Prop
  | json {t : Tree} (distinct : t.Distinct) (leaf : ∀ es, t ≠ .map es) : Typed decimalKey (.json t)
  | map {es : List (Text × Doc)} (keys : Entries.Distinct es)
      (decimals : ∀ e ∈ es, decimalKey e.1 → IsDecimal e.2)
      (others : ∀ e ∈ es, ¬ decimalKey e.1 → Typed decimalKey e.2) : Typed decimalKey (.map es)

theorem decimal_sort_iff {d e : Doc} (hd : IsDecimal d) (he : IsDecimal e) :
    (hashJSONValue d).sort = (hashJSONValue e).sort ↔ d.meaning = e.meaning := by
  have hone : ∀ v w : Decimal, Tree.text (PythonStoredDecimal v) = Tree.text (PythonStoredDecimal w) ↔
      Meaning.number v.storedValue = Meaning.number w.storedValue := fun v w => by
    rw [Tree.text.injEq, Meaning.number.injEq, Decimal.stored_eq_iff_scaled, Decimal.storedValue_eq_iff]
  have hsorted : ∀ vs : List Decimal, Json.sortAll (vs.map fun v => .text (PythonStoredDecimal v)) =
      vs.map fun v => .text (PythonStoredDecimal v) := fun vs => by
    rw [Json.sortAll_eq, List.map_map]
    rfl
  cases d with
  | json t => cases hd
  | map es => cases hd
  | decimal v =>
      cases e with
      | json t => cases he
      | map es => cases he
      | decimal w => exact hone v w
      | decimals ws => simp [hashJSONValue, Tree.sort, Doc.meaning]
  | decimals vs =>
      cases e with
      | json t => cases he
      | map es => cases he
      | decimal w => simp [hashJSONValue, Tree.sort, Doc.meaning]
      | decimals ws =>
          rw [hashJSONValue, hashJSONValue, Tree.sort, Tree.sort, hsorted, hsorted, Doc.meaning, Doc.meaning,
            Tree.list.injEq, Meaning.list.injEq]
          exact Json.map_eq_map_iff fun v _ w _ => hone v w

theorem hash_sort_iff {decimalKey : Text → Prop} (d : Doc) : ∀ e : Doc, Typed decimalKey d → Typed decimalKey e →
    ((hashJSONValue d).sort = (hashJSONValue e).sort ↔ d.meaning = e.meaning) := by
  have hcross : ∀ (t : Tree) (es : List (Text × Doc)), (∀ us, t ≠ .map us) →
      ((hashJSONValue (.json t)).sort ≠ (hashJSONValue (.map es)).sort ∧
        (Doc.json t).meaning ≠ (Doc.map es).meaning) := by
    intro t es hleaf
    cases t with
    | map us => exact absurd rfl (hleaf us)
    | int n => simp [hashJSONValue, Tree.sort, Doc.meaning, Tree.meaning]
    | text s => simp [hashJSONValue, Tree.sort, Doc.meaning, Tree.meaning]
    | list ts => simp [hashJSONValue, Tree.sort, Doc.meaning, Tree.meaning]
  induction d using Doc.induction with
  | decimal v =>
      intro e hd
      cases hd
  | decimals vs =>
      intro e hd
      cases hd
  | json t =>
      intro e hd he
      cases hd with
      | json hd hleaf =>
      cases he with
      | json he _ => exact Json.sort_eq_iff t _ hd he
      | map _ _ _ =>
          exact ⟨fun h => absurd h (hcross t _ hleaf).1, fun h => absurd h (hcross t _ hleaf).2⟩
  | map es ih =>
      intro e hd he
      cases hd with
      | map hkeys hdecimals hothers =>
      cases he with
      | json _ hleaf =>
          exact ⟨fun h => absurd h.symm (hcross _ es hleaf).1, fun h => absurd h.symm (hcross _ es hleaf).2⟩
      | map hkeys' hdecimals' hothers' =>
          rw [hashJSONValue, hashJSONValue, Tree.sort, Tree.sort, Doc.meaning, Doc.meaning, Tree.map.injEq,
            Meaning.map.injEq, Json.sortValues_eq, Json.sortValues_eq, hashJSONEntries_eq,
            hashJSONEntries_eq, List.map_map, List.map_map, funext_iff]
          simp only [docMeaningAt_eq]
          refine Entries.sortByKey_map_eq_iff (f := fun d => (hashJSONValue d).sort)
            (g := fun d => (hashJSONValue d).sort) hkeys hkeys' fun k v w hv hw => ?_
          by_cases hk : decimalKey k
          · exact decimal_sort_iff (hdecimals _ hv hk) (hdecimals' _ hw hk)
          · exact ih (k, v) hv w (hothers _ hv hk) (hothers' _ hw hk)

/-- The bytes tell what the document says, and nothing else. -/
theorem formatted_eq_iff {decimalKey : Text → Prop} {d e : Doc} (hd : Typed decimalKey d)
    (he : Typed decimalKey e) : formatted d = formatted e ↔ d.meaning = e.meaning := by
  rw [← hash_sort_iff d e hd he, formatted, formatted, Json.spaced, Json.spaced,
    (Json.spacedFrom_injective false false).eq_iff]
  exact Json.write_injective.eq_iff

/-! ## The bodies -/

/-- The keys under which bodies have decimals. -/
def decimalKeys : List Text :=
  ["rate", "mark", "base_index", "base_usd_index", "quote_usd_index", "base_volume", "perp_maker",
    "perp_taker", "spot_taker", "spot_maximum", "perp_maximum", "position_limit", "borrow_leverage",
    "quote_discount_minimum", "quote_discount_maximum", "quote_discount_rate",
    "quote_discount_liquidation_penalty", "base_discount_minimum", "base_discount_maximum",
    "base_discount_rate", "base_discount_liquidation_penalty", "perp_minimum", "perp_imr", "perp_mmr",
    "perp_maximum_leverage", "borrow_minimum", "borrow_maximum", "borrow_imr", "borrow_mmr",
    "borrow_maximum_leverage", "minimum", "maximum", "penalty", "initial", "maintenance",
    "maximum_leverage"].map text

/-- An entry of a flat body: a decimal under a key of decimals, else a text or an integer. -/
def flat (e : Text × Doc) : Bool :=
  match e.2 with
  | .decimal _ => decimalKeys.contains e.1
  | .decimals _ => decimalKeys.contains e.1
  | .json (.text _) => !decimalKeys.contains e.1
  | .json (.int _) => !decimalKeys.contains e.1
  | _ => false

theorem typed_of_flat {es : List (Text × Doc)} (hkeys : Entries.Distinct es) (h : es.all flat = true) :
    Typed (· ∈ decimalKeys) (.map es) := by
  have hflat : ∀ e ∈ es, flat e = true := List.all_eq_true.1 h
  refine .map hkeys ?_ ?_
  · rintro ⟨k, d⟩ he hk
    have hentry := hflat _ he
    unfold flat at hentry
    split at hentry <;> simp_all [IsDecimal]
  · rintro ⟨k, d⟩ he hk
    have hentry := hflat _ he
    unfold flat at hentry
    split at hentry <;> simp_all
    · exact .json (.text _) (by simp)
    · exact .json (.int _) (by simp)

theorem distinct_pair (price qty : Int) : (pair price qty).Distinct := by
  refine .list fun t ht => ?_
  rcases List.mem_cons.1 ht with rfl | ht
  · exact .int price
  · rw [List.mem_singleton.1 ht]
    exact .int qty

theorem distinct_sides (levels : List Level) : (sides levels).Distinct := by
  refine .list fun t ht => ?_
  obtain ⟨l, -, rfl⟩ := List.mem_map.1 ht
  exact distinct_pair _ _

theorem distinct_changes (prices : List Int64) (qtys : List UInt64) : (changes prices qtys).Distinct := by
  refine .list fun t ht => ?_
  obtain ⟨c, -, rfl⟩ := List.mem_map.1 ht
  exact distinct_pair _ _

theorem distinct_deltaTree (d : BookDelta) : (deltaTree d).Distinct := by
  refine .map (of_decide_eq_true rfl) fun e he => ?_
  simp only [List.mem_cons, List.not_mem_nil, or_false] at he
  rcases he with rfl | rfl | rfl
  · exact .int _
  · exact distinct_changes _ _
  · exact distinct_changes _ _

theorem distinct_sourceTree (n : Nat) (s : PublicSource) : (sourceTree n s).Distinct := by
  refine .map (of_decide_eq_true rfl) fun e he => ?_
  simp only [List.mem_cons, List.not_mem_nil, or_false] at he
  rcases he with rfl | rfl | rfl | rfl | rfl | rfl
  · exact .int _
  · exact .text _
  · exact .text _
  · exact .text _
  · exact .int _
  · exact .int _

theorem typed_minute (batch : MinuteBatch) : Typed (· ∈ decimalKeys) (TradingMinuteBody batch) := by
  refine .map (of_decide_eq_true rfl) (fun e he hk => ?_) fun e he _ => ?_
  · -- none of its keys is one of decimals
    have hnone : ∀ k ∈ ["id", "instrument_id", "minute_ms", "stored_depth", "valid_bitmap", "bids", "asks",
        "deltas"].map text, k ∉ decimalKeys := by decide +kernel
    exact absurd hk (hnone e.1 (List.mem_map_of_mem (f := Prod.fst) he))
  · simp only [List.mem_cons, List.not_mem_nil, or_false] at he
    rcases he with rfl | rfl | rfl | rfl | rfl | rfl | rfl | rfl
    · exact .json (.text _) fun es => Tree.noConfusion
    · exact .json (.int _) fun es => Tree.noConfusion
    · exact .json (.int _) fun es => Tree.noConfusion
    · exact .json (.int _) fun es => Tree.noConfusion
    · exact .json (.int _) fun es => Tree.noConfusion
    · exact .json (distinct_sides _) fun es => Tree.noConfusion
    · exact .json (distinct_sides _) fun es => Tree.noConfusion
    · refine .json (.list fun t ht => ?_) fun es => Tree.noConfusion
      obtain ⟨d, -, rfl⟩ := List.mem_map.1 ht
      exact distinct_deltaTree d

theorem typed_sources (ss : List PublicSource) : Typed (· ∈ decimalKeys) (sourceRows ss) := by
  refine .json (.list fun t ht => ?_) fun es => Tree.noConfusion
  obtain ⟨n, hn, rfl⟩ := List.mem_mapIdx.1 ht
  exact distinct_sourceTree _ _

theorem typed_value (d : Document) : Typed (· ∈ decimalKeys) d.value := by
  cases d with
  | funding f => exact typed_of_flat (of_decide_eq_true rfl) rfl
  | bar f => exact typed_of_flat (of_decide_eq_true rfl) rfl
  | fee f => exact typed_of_flat (of_decide_eq_true rfl) rfl
  | capital f => exact typed_of_flat (of_decide_eq_true rfl) rfl
  | reference f => exact typed_of_flat (of_decide_eq_true rfl) rfl
  | discount v => exact typed_of_flat (of_decide_eq_true rfl) rfl
  | risk v => exact typed_of_flat (of_decide_eq_true rfl) rfl
  | minute batch => exact typed_minute batch
  | sources ss => exact typed_sources ss

/-! ## Flat bodies -/

theorem write_text_list (ss : List Text) :
    (Tree.list (ss.map .text)).write = (Json.Value.texts ss).write := by
  rw [Json.write_list, Json.items_map]
  rfl

theorem write_fieldDoc (f : Field) :
    (hashJSONValue (fieldDoc f)).sort.write = (Discovery.hashJSONValue f).write := by
  cases f with
  | text s => rfl
  | int n => rfl
  | decimal v => rfl
  | decimals vs =>
      have hsorted : (hashJSONValue (fieldDoc (.decimals vs))).sort =
          Tree.list ((vs.map PythonStoredDecimal).map .text) := by
        rw [fieldDoc, hashJSONValue, Tree.sort, Json.sortAll_eq, List.map_map, List.map_map]
        rfl
      rw [hsorted, write_text_list]
      rfl

/-- A flat body that lists its keys in order is hashed as the encoder writes it. -/
theorem formatted_ofBody {b : Body} (h : b.Pairwise fun f g => f.1 ≤ g.1) :
    formatted (ofBody b) = bodyText b := by
  have hsorted : Entries.sortByKey (b.map fun f => (f.1, (hashJSONValue (fieldDoc f.2)).sort)) =
      b.map fun f => (f.1, (hashJSONValue (fieldDoc f.2)).sort) := by
    refine List.mergeSort_of_pairwise (List.pairwise_map.2 (h.imp fun hle => ?_))
    exact decide_eq_true hle
  have hmember : (fun f : Text × Field => Json.writeMember (f.1, (hashJSONValue (fieldDoc f.2)).sort)) =
      fun f => Json.writeField (f.1, Discovery.hashJSONValue f.2) := funext fun f => by
    rw [Json.writeMember, Json.writeField, write_fieldDoc]
  rw [formatted, bodyText, Tree.encode, ofBody, hashJSONValue, Tree.sort, Json.sortValues_eq,
    hashJSONEntries_eq, List.map_map, List.map_map]
  change Json.spaced (Json.Tree.map (Entries.sortByKey (b.map fun f =>
    (f.1, (hashJSONValue (fieldDoc f.2)).sort)))).write = _
  rw [hsorted, Json.write_map, Json.items_map, hmember, hashJSON, Json.Object.write, Json.items_map]

/-- The hash of capital parameters and of their versions is the one of their documents. -/
theorem hash_capital (sha256 : Text → Vector UInt8 32) (f : CapitalParameters) (v : DiscountRuleVersion)
    (w : RiskRuleVersion) :
    hash sha256 (Document.capital f).value = DiscoveryHash sha256 f.body ∧
      hash sha256 (Document.discount v).value = DiscoveryHash sha256 v.body ∧
      hash sha256 (Document.risk w).value = DiscoveryHash sha256 w.body := by
  have hash_eq : ∀ b : Body, b.Pairwise (fun f g => f.1 ≤ g.1) →
      hash sha256 (ofBody b) = DiscoveryHash sha256 b := fun b hb => by
    rw [hash, formatted_ofBody hb, DiscoveryHash]
  exact ⟨hash_eq f.body (of_decide_eq_true rfl), hash_eq v.body (of_decide_eq_true rfl),
    hash_eq w.body (of_decide_eq_true rfl)⟩

/-! ## Canonical bytes -/

/-- Two documents have the same bytes exactly if they say the same with their decimals as they are
stored; so have values of any shape. A `Decimal(38,18)` is stored as it is, in Python's text. -/
theorem formatted_canonical :
    (∀ d e : Document, formatted d.value = formatted e.value ↔ d.value.meaning = e.value.meaning) ∧
      (∀ (decimalKey : Text → Prop) (d e : Doc), Typed decimalKey d → Typed decimalKey e →
        (formatted d = formatted e ↔ d.meaning = e.meaning)) ∧
      (∀ (v : Decimal) (n : Int), n.natAbs < 10 ^ 38 → v.value = n / 10 ^ 18 →
        PythonStoredDecimal v = Python.stored n ∧ v.storedValue = v.value) ∧
      ∀ a b : Decimal, a.Is38_18 → b.Is38_18 → (PythonStoredDecimal a = PythonStoredDecimal b ↔ a.Equal b) := by
  refine ⟨fun d e => formatted_eq_iff (typed_value d) (typed_value e), fun K d e => formatted_eq_iff, ?_,
    fun a b => Decimal.stored_injective⟩
  intro v n hn hv
  have hstored := Decimal.storedValue_of_is38_18 ⟨n, hn, hv⟩
  have hscaled : v.scaled = n := by
    rw [hv, Decimal.storedValue, div_left_inj' (by norm_num)] at hstored
    exact_mod_cast hstored
  rw [Decimal.storedDecimal_eq_python, hscaled]
  exact ⟨rfl, hstored⟩

/-! A document with a map inside, its entries walked in two orders and a decimal spelled in two ways. -/

def walkedOnce : Doc :=
  .map [(text "rate", .decimal ⟨5, -1⟩), (text "rows", .map [(text "a", num 1), (text "b", str ['x'])])]

def walkedAgain : Doc :=
  .map [(text "rows", .map [(text "b", str ['x']), (text "a", num 1)]), (text "rate", .decimal ⟨500, -3⟩)]

theorem typed_rows {es : List (Text × Doc)} (hes : Typed (· = text "rate") (.map es)) (v : Decimal) :
    Typed (· = text "rate") (.map [(text "rate", .decimal v), (text "rows", .map es)]) ∧
      Typed (· = text "rate") (.map [(text "rows", .map es), (text "rate", .decimal v)]) := by
  have hne : ¬ text "rows" = text "rate" := by decide
  constructor
  · refine .map (of_decide_eq_true rfl) ?_ ?_
    · simp [IsDecimal, hne]
    · simpa using fun _ => hes
  · refine .map (of_decide_eq_true rfl) ?_ ?_
    · simp [IsDecimal, hne]
    · simpa using fun _ => hes

theorem typed_inner {k k' : Text} {t t' : Tree} (hk : k ≠ k') (hrate : k ≠ text "rate" ∧ k' ≠ text "rate")
    (ht : t.Distinct ∧ ∀ es, t ≠ .map es) (ht' : t'.Distinct ∧ ∀ es, t' ≠ .map es) :
    Typed (· = text "rate") (.map [(k, .json t), (k', .json t')]) := by
  refine .map (by simpa [Entries.Distinct] using hk) ?_ ?_
  · simp [hrate]
  · simpa [hrate] using And.intro (Typed.json ht.1 ht.2) (Typed.json ht'.1 ht'.2)

theorem formatted_canonical_walks :
    formatted walkedOnce = formatted walkedAgain ∧
      PythonStoredDecimal ⟨5, -10⟩ = "5.00000000E-10".toList ∧
      PythonStoredDecimal ⟨5, -1⟩ = PythonStoredDecimal ⟨500, -3⟩ := by
  have hint : (Tree.int 1).Distinct ∧ ∀ es, Tree.int 1 ≠ .map es := ⟨.int 1, fun es => Tree.noConfusion⟩
  have htext : (Tree.text ['x']).Distinct ∧ ∀ es, Tree.text ['x'] ≠ .map es :=
    ⟨.text _, fun es => Tree.noConfusion⟩
  have hequal : Decimal.Equal ⟨5, -1⟩ ⟨500, -3⟩ := by
    unfold Decimal.Equal Decimal.value
    norm_num
  have hstored : Decimal.storedValue ⟨5, -1⟩ = Decimal.storedValue ⟨500, -3⟩ := by
    rw [Decimal.storedValue_eq_iff]
    decide +kernel
  have hmeaning : walkedOnce.meaning = walkedAgain.meaning := by
    have hrows : (Doc.map [(text "a", num 1), (text "b", str ['x'])]).meaning =
        (Doc.map [(text "b", str ['x']), (text "a", num 1)]).meaning := by
      refine congrArg Meaning.map (funext fun k => ?_)
      by_cases ha : text "a" = k
      · have hb : ¬ text "b" = k := ha ▸ by decide
        simp only [docMeaningAt, ha, hb, if_true, if_false]
      · simp only [docMeaningAt, ha, if_false]
    rw [walkedOnce, walkedAgain, Doc.meaning, Doc.meaning]
    refine congrArg Meaning.map (funext fun k => ?_)
    by_cases hrate : text "rate" = k
    · have hother : ¬ text "rows" = k := hrate ▸ by decide
      simp only [docMeaningAt, hrate, hother, if_true, if_false, Doc.meaning, hstored]
    · simp only [docMeaningAt, hrate, if_false, hrows]
  refine ⟨(formatted_canonical.2.1 (· = text "rate") walkedOnce walkedAgain
    (typed_rows (typed_inner (by decide) (by decide) hint htext) _).1
    (typed_rows (typed_inner (by decide) (by decide) htext hint) _).2).2 hmeaning, ?_, ?_⟩
  · rw [(formatted_canonical.2.2.1 ⟨5, -10⟩ 500000000 (by norm_num) (by norm_num [Decimal.value])).1]
    decide +kernel
  · exact (formatted_canonical.2.2.2 ⟨5, -1⟩ ⟨500, -3⟩ ⟨500000000000000000, by norm_num, by norm_num [Decimal.value]⟩
      ⟨500000000000000000, by norm_num, by norm_num [Decimal.value]⟩).2 hequal

/-! ## Predictions with more places -/

/-- A prediction around an index price. -/
def prediction (price : Decimal) : FundingPrediction where
  id := ['p']
  instrumentID := 1
  observedMS := 1000
  sourceMS := 1000
  fundingMS := 2000
  rate := ⟨1, -4⟩
  mark := ⟨1, 0⟩
  baseIndex := ⟨1000000000000000001, -18⟩
  baseUSDIndex := price
  quoteUSDIndex := ⟨1, 0⟩
  markMS := 1000
  baseIndexMS := 1000
  quoteIndexMS := 1000
  sources := [⟨text "https://www.okx.com/api/v5/public/funding-rate", List.replicate 64 'a', text "exchange_ts",
    1000, 1000⟩]

theorem prediction_valid :
    (prediction ⟨10000000000000000003, -19⟩).validate = .ok () ∧
      (prediction ⟨10000000000000000004, -19⟩).validate = .ok () := by
  decide +kernel

/-- Index prices are not bounded to 18 places, and what is behind them is rounded off. -/
theorem formatted_drops_places :
    ∃ f g : FundingPrediction, f.validate = .ok () ∧ g.validate = .ok () ∧
      ¬ f.baseUSDIndex.Equal g.baseUSDIndex ∧
      formatted (Document.funding f).value = formatted (Document.funding g).value := by
  have hstored : PythonStoredDecimal ⟨10000000000000000003, -19⟩ =
      PythonStoredDecimal ⟨10000000000000000004, -19⟩ := by decide +kernel
  refine ⟨_, _, prediction_valid.1, prediction_valid.2, by norm_num [prediction, Decimal.value], ?_⟩
  simp only [formatted, Document.value, FundingPrediction.body, prediction, hashJSONValue, hashJSONEntries,
    hstored]

end Discovery.Documents

end MarketInfo
