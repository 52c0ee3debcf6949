import MarketInfo.Discovery.Capital

/-! # Versions lose nothing

`Rebuild` accepts what `SplitCapitalVersions` makes, and only that.
-/

namespace MarketInfo

open Json (Text)

namespace Discovery

variable {sha256 : Text → Vector UInt8 32}

/-! ## Hashes -/

theorem digit_valid {n : Nat} (h : n < 16) :
    ((48 ≤ (Nat.digitChar n).toNat && (Nat.digitChar n).toNat ≤ 57) ||
      (97 ≤ (Nat.digitChar n).toNat && (Nat.digitChar n).toNat ≤ 102)) = true := by
  interval_cases n <;> rfl

theorem length_hexText (a : List UInt8) : (hexText a).length = 2 * a.length := by
  induction a with
  | nil => rfl
  | cons b a ih =>
      unfold hexText at ih ⊢
      rw [List.flatMap_cons, List.length_append, ih, List.length_cons]
      show 2 + 2 * a.length = 2 * (a.length + 1)
      omega

theorem validDigest_hash (body : Body) : ValidDigest (DiscoveryHash sha256 body) = true := by
  unfold ValidDigest DiscoveryHash
  rw [length_hexText, Vector.length_toList]
  refine Bool.and_eq_true_iff.2 ⟨rfl, List.all_eq_true.2 ?_⟩
  intro c hc
  obtain ⟨b, -, hb⟩ := List.mem_flatMap.1 hc
  have hbyte := b.toNat_lt
  rcases List.mem_cons.1 hb with rfl | hb
  · exact digit_valid (by omega)
  · rw [List.mem_singleton.1 hb]
    exact digit_valid (by omega)

theorem digitChar_inj {m n : Nat} (hm : m < 16) (hn : n < 16) (h : Nat.digitChar m = Nat.digitChar n) :
    m = n := by
  rw [← Json.hexValue_digitChar hm, h, Json.hexValue_digitChar hn]

theorem hexText_injective : Function.Injective hexText := by
  intro a
  induction a with
  | nil =>
      intro b h
      have hlength := congrArg List.length h
      rw [length_hexText, length_hexText] at hlength
      exact (List.length_eq_zero_iff.1 (by simpa using hlength.symm)).symm
  | cons x a ih =>
      intro b h
      rcases b with _ | ⟨y, b⟩
      · have hlength := congrArg List.length h
        rw [length_hexText, length_hexText] at hlength
        simp at hlength
      · obtain ⟨hhigh, hrest⟩ := List.cons.inj h
        obtain ⟨hlow, htail⟩ := List.cons.inj hrest
        have hx := x.toNat_lt
        have hy := y.toNat_lt
        have hdiv := digitChar_inj (by omega) (by omega) hhigh
        have hmod := digitChar_inj (by omega) (by omega) hlow
        have hbyte : x = y := UInt8.toNat_inj.1 (by omega)
        rw [hbyte, ih htail]

theorem bodyText_inj {b c : Body} (h : bodyText b = bodyText c) : hashJSON b = hashJSON c :=
  Json.Object.write_injective (Json.spacedFrom_injective false false h)

/-- Two texts with one digest. -/
def Collides (sha256 : Text → Vector UInt8 32) (s t : Text) : Prop := s ≠ t ∧ sha256 s = sha256 t

/-- Bodies with one hash are alike, unless their texts collide. -/
theorem hash_inj {b c : Body} (h : DiscoveryHash sha256 b = DiscoveryHash sha256 c) :
    Collides sha256 (bodyText b) (bodyText c) ∨ hashJSON b = hashJSON c := by
  have hdigest : sha256 (bodyText b) = sha256 (bodyText c) := Vector.toList_inj.1 (hexText_injective h)
  by_cases htext : bodyText b = bodyText c
  · exact .inr (bodyText_inj htext)
  · exact .inl ⟨htext, hdigest⟩

theorem hash_congr {b c : Body} (h : hashJSON b = hashJSON c) :
    DiscoveryHash sha256 b = DiscoveryHash sha256 c := by
  unfold DiscoveryHash bodyText
  rw [h]

/-! ## Tiers -/

/-- Tiers with the same values. -/
structure DiscountTier.Same (t u : DiscountTier) : Prop where
  minimum : t.minimum.Equal u.minimum
  maximum : t.maximum.Equal u.maximum
  rate : t.rate.Equal u.rate
  penalty : t.penalty.Equal u.penalty

structure RiskTier.Same (t u : RiskTier) : Prop where
  minimum : t.minimum.Equal u.minimum
  maximum : t.maximum.Equal u.maximum
  initial : t.initial.Equal u.initial
  maintenance : t.maintenance.Equal u.maintenance
  maximumLeverage : t.maximumLeverage.Equal u.maximumLeverage

/-- Every decimal of the tier can be stored. -/
structure DiscountTier.Storable (t : DiscountTier) : Prop where
  minimum : ReferenceDecimal t.minimum
  maximum : ReferenceDecimal t.maximum
  rate : ReferenceDecimal t.rate
  penalty : ReferenceDecimal t.penalty

structure RiskTier.Storable (t : RiskTier) : Prop where
  minimum : ReferenceDecimal t.minimum
  maximum : ReferenceDecimal t.maximum
  initial : ReferenceDecimal t.initial
  maintenance : ReferenceDecimal t.maintenance
  maximumLeverage : ReferenceDecimal t.maximumLeverage

theorem checkDiscountTiers_storable {message : String} {last previous : Decimal} {tiers : List DiscountTier}
    (h : checkDiscountTiers message last previous tiers = .ok ()) : ∀ t ∈ tiers, t.Storable := by
  induction tiers generalizing last previous with
  | nil => exact fun t ht => absurd ht List.not_mem_nil
  | cons t rest ih =>
      unfold checkDiscountTiers at h
      simp only [Check.seq_eq_ok, Check.failIf_eq_ok, not_or, not_not] at h
      obtain ⟨⟨hminimum, hmaximum, hrate, hpenalty⟩, -, hrest⟩ := h
      intro u hu
      rcases List.mem_cons.1 hu with rfl | hmem
      · exact ⟨hminimum, hmaximum, hrate, hpenalty⟩
      · exact ih hrest u hmem

theorem checkRiskTiers_storable {message : String} {last : Decimal} {tiers : List RiskTier}
    (h : checkRiskTiers message last tiers = .ok ()) : ∀ t ∈ tiers, t.Storable := by
  induction tiers generalizing last with
  | nil => exact fun t ht => absurd ht List.not_mem_nil
  | cons t rest ih =>
      unfold checkRiskTiers at h
      simp only [Check.seq_eq_ok, Check.failIf_eq_ok, not_or, not_not] at h
      obtain ⟨⟨hminimum, hmaximum, hinitial, hmaintenance, hleverage⟩, -, hrest⟩ := h
      intro u hu
      rcases List.mem_cons.1 hu with rfl | hmem
      · exact ⟨hminimum, hmaximum, hinitial, hmaintenance, hleverage⟩
      · exact ih hrest u hmem

/-- The message is all in which the checks of a version and of its parameters differ. -/
theorem checkDiscountTiers_message {message message' : String} {last previous : Decimal}
    {tiers : List DiscountTier} (h : checkDiscountTiers message last previous tiers = .ok ()) :
    checkDiscountTiers message' last previous tiers = .ok () := by
  induction tiers generalizing last previous with
  | nil => rfl
  | cons t rest ih =>
      unfold checkDiscountTiers at h ⊢
      simp only [Check.seq_eq_ok, Check.failIf_eq_ok] at h ⊢
      exact ⟨h.1, h.2.1, ih h.2.2⟩

theorem checkRiskTiers_message {message message' : String} {last : Decimal} {tiers : List RiskTier}
    (h : checkRiskTiers message last tiers = .ok ()) : checkRiskTiers message' last tiers = .ok () := by
  induction tiers generalizing last with
  | nil => rfl
  | cons t rest ih =>
      unfold checkRiskTiers at h ⊢
      simp only [Check.seq_eq_ok, Check.failIf_eq_ok] at h ⊢
      exact ⟨h.1, h.2.1, ih h.2.2⟩

/-- One column of a list of tiers, as it is hashed. -/
def column {α : Type} (f : α → Decimal) (tiers : List α) : List Text := (tiers.map f).map PythonStoredDecimal

/-- The hashed columns of discount tiers. -/
def discountColumns (tiers : List DiscountTier) : List Text × List Text × List Text × List Text :=
  (column DiscountTier.minimum tiers, column DiscountTier.maximum tiers, column DiscountTier.rate tiers,
    column DiscountTier.penalty tiers)

def riskColumns (tiers : List RiskTier) : List Text × List Text × List Text × List Text × List Text :=
  (column RiskTier.minimum tiers, column RiskTier.maximum tiers, column RiskTier.initial tiers,
    column RiskTier.maintenance tiers, column RiskTier.maximumLeverage tiers)

theorem discountColumns_eq_iff {ts us : List DiscountTier} (ht : ∀ t ∈ ts, t.Storable)
    (hu : ∀ u ∈ us, u.Storable) :
    discountColumns ts = discountColumns us ↔ List.Forall₂ DiscountTier.Same ts us := by
  induction ts generalizing us with
  | nil =>
      rcases us with _ | ⟨u, us⟩
      · exact ⟨fun _ => .nil, fun _ => rfl⟩
      · constructor
        · intro h
          cases (Prod.mk.inj h).1
        · intro h
          cases h
  | cons t ts ih =>
      rcases us with _ | ⟨u, us⟩
      · constructor
        · intro h
          cases (Prod.mk.inj h).1
        · intro h
          cases h
      · have hthis := ht t List.mem_cons_self
        have hthat := hu u List.mem_cons_self
        have hrest := ih (fun t h => ht t (List.mem_cons_of_mem _ h)) (fun u h => hu u (List.mem_cons_of_mem _ h))
        rw [List.forall₂_cons, ← hrest]
        simp only [discountColumns, column, List.map_cons, Prod.mk.injEq, List.cons.injEq,
          Decimal.stored_eq_iff hthis.minimum hthat.minimum, Decimal.stored_eq_iff hthis.maximum hthat.maximum,
          Decimal.stored_eq_iff hthis.rate hthat.rate, Decimal.stored_eq_iff hthis.penalty hthat.penalty]
        constructor
        · rintro ⟨⟨h1, r1⟩, ⟨h2, r2⟩, ⟨h3, r3⟩, h4, r4⟩
          exact ⟨⟨h1, h2, h3, h4⟩, r1, r2, r3, r4⟩
        · rintro ⟨⟨h1, h2, h3, h4⟩, r1, r2, r3, r4⟩
          exact ⟨⟨h1, r1⟩, ⟨h2, r2⟩, ⟨h3, r3⟩, h4, r4⟩

theorem riskColumns_eq_iff {ts us : List RiskTier} (ht : ∀ t ∈ ts, t.Storable) (hu : ∀ u ∈ us, u.Storable) :
    riskColumns ts = riskColumns us ↔ List.Forall₂ RiskTier.Same ts us := by
  induction ts generalizing us with
  | nil =>
      rcases us with _ | ⟨u, us⟩
      · exact ⟨fun _ => .nil, fun _ => rfl⟩
      · constructor
        · intro h
          cases (Prod.mk.inj h).1
        · intro h
          cases h
  | cons t ts ih =>
      rcases us with _ | ⟨u, us⟩
      · constructor
        · intro h
          cases (Prod.mk.inj h).1
        · intro h
          cases h
      · have hthis := ht t List.mem_cons_self
        have hthat := hu u List.mem_cons_self
        have hrest := ih (fun t h => ht t (List.mem_cons_of_mem _ h)) (fun u h => hu u (List.mem_cons_of_mem _ h))
        rw [List.forall₂_cons, ← hrest]
        simp only [riskColumns, column, List.map_cons, Prod.mk.injEq, List.cons.injEq,
          Decimal.stored_eq_iff hthis.minimum hthat.minimum, Decimal.stored_eq_iff hthis.maximum hthat.maximum,
          Decimal.stored_eq_iff hthis.initial hthat.initial,
          Decimal.stored_eq_iff hthis.maintenance hthat.maintenance,
          Decimal.stored_eq_iff hthis.maximumLeverage hthat.maximumLeverage]
        constructor
        · rintro ⟨⟨h1, r1⟩, ⟨h2, r2⟩, ⟨h3, r3⟩, ⟨h4, r4⟩, h5, r5⟩
          exact ⟨⟨h1, h2, h3, h4, h5⟩, r1, r2, r3, r4, r5⟩
        · rintro ⟨⟨h1, h2, h3, h4, h5⟩, r1, r2, r3, r4, r5⟩
          exact ⟨⟨h1, r1⟩, ⟨h2, r2⟩, ⟨h3, r3⟩, ⟨h4, r4⟩, h5, r5⟩

/-! ## Versions -/

theorem discount_id_eq {currency : Text} {ts us : List DiscountTier} (h : discountColumns ts = discountColumns us) :
    (discountVersion sha256 currency ts).id = (discountVersion sha256 currency us).id := by
  simp only [discountColumns, column, Prod.mk.injEq] at h
  obtain ⟨hminimum, hmaximum, hrate, hpenalty⟩ := h
  refine hash_congr ?_
  simp only [hashJSON, DiscountRuleVersion.body, List.map_cons, List.map_nil, hashJSONValue, hminimum, hmaximum,
    hrate, hpenalty]

theorem risk_id_eq {instrumentID : UInt32} {base role : Text} {ts us : List RiskTier}
    (h : riskColumns ts = riskColumns us) :
    (riskVersion sha256 instrumentID base role ts).id = (riskVersion sha256 instrumentID base role us).id := by
  simp only [riskColumns, column, Prod.mk.injEq] at h
  obtain ⟨hminimum, hmaximum, hinitial, hmaintenance, hleverage⟩ := h
  refine hash_congr ?_
  simp only [hashJSON, RiskRuleVersion.body, List.map_cons, List.map_nil, hashJSONValue, hminimum, hmaximum,
    hinitial, hmaintenance, hleverage]

theorem discount_validate_eq_ok {v : DiscountRuleVersion} :
    v.validate sha256 = .ok () ↔ v.currency ≠ [] ∧ v.tiers.length ≠ 0 ∧
      checkDiscountTiers "invalid discount version tiers" .zero (.ofInt 1) v.tiers = .ok () ∧
      v = discountVersion sha256 v.currency v.tiers := by
  unfold DiscountRuleVersion.validate
  simp only [Check.seq_eq_ok, Check.failIf_eq_ok, not_or, not_not, Bool.not_eq_false]
  constructor
  · rintro ⟨⟨hcurrency, -, hlength⟩, htiers, hid⟩
    refine ⟨hcurrency, hlength, htiers, ?_⟩
    rcases v with ⟨id, currency, tiers⟩
    exact congrArg (fun id => DiscountRuleVersion.mk id currency tiers) hid.symm
  · rintro ⟨hcurrency, hlength, htiers, hversion⟩
    have hid : v.id = DiscoveryHash sha256 v.body := by
      rw [hversion]
      rfl
    refine ⟨⟨hcurrency, ?_, hlength⟩, htiers, hid.symm⟩
    rw [hid]
    exact validDigest_hash _

theorem risk_validate_eq_ok {v : RiskRuleVersion} :
    v.validate sha256 = .ok () ↔ v.instrumentID ≠ 0 ∧ v.base ≠ [] ∧
      (v.role = text "SWAP" ∨ v.role = text "MARGIN") ∧ v.tiers.length ≠ 0 ∧
      checkRiskTiers "invalid risk version tiers" .zero v.tiers = .ok () ∧
      v = riskVersion sha256 v.instrumentID v.base v.role v.tiers := by
  have hrole : ∀ r : Text, ¬ (r ≠ text "SWAP" ∧ r ≠ text "MARGIN") ↔ r = text "SWAP" ∨ r = text "MARGIN" := by
    intro r
    tauto
  unfold RiskRuleVersion.validate
  simp only [Check.seq_eq_ok, Check.failIf_eq_ok, not_or, hrole, not_not, Bool.not_eq_false]
  constructor
  · rintro ⟨⟨hinstrument, hbase, hrole, -, hlength⟩, htiers, hid⟩
    refine ⟨hinstrument, hbase, hrole, hlength, htiers, ?_⟩
    rcases v with ⟨id, instrumentID, base, role, tiers⟩
    exact congrArg (fun id => RiskRuleVersion.mk id instrumentID base role tiers) hid.symm
  · rintro ⟨hinstrument, hbase, hrole, hlength, htiers, hversion⟩
    have hid : v.id = DiscoveryHash sha256 v.body := by
      rw [hversion]
      rfl
    refine ⟨⟨hinstrument, hbase, hrole, ?_, hlength⟩, htiers, hid.symm⟩
    rw [hid]
    exact validDigest_hash _

theorem check_eq_ok {v : CapitalVersions} :
    v.check sha256 = .ok () ↔ v.quote.validate sha256 = .ok () ∧ v.base.validate sha256 = .ok () ∧
      v.perp.validate sha256 = .ok () ∧ v.borrow.validate sha256 = .ok () := by
  unfold CapitalVersions.check
  simp only [Check.seq_eq_ok]

/-- What valid parameters have been checked for. -/
structure CapitalParameters.Valid (p : CapitalParameters) : Prop where
  instrumentID : p.instrumentID ≠ 0
  base : p.base ≠ []
  leverage : ReferenceDecimal p.borrowLeverage
  quote : p.quoteDiscount.length ≠ 0 ∧
    checkDiscountTiers "invalid discount tier coverage" .zero (.ofInt 1) p.quoteDiscount = .ok ()
  discount : p.baseDiscount.length ≠ 0 ∧
    checkDiscountTiers "invalid discount tier coverage" .zero (.ofInt 1) p.baseDiscount = .ok ()
  perp : p.perpTiers.length ≠ 0 ∧ checkRiskTiers "invalid risk tier coverage" .zero p.perpTiers = .ok ()
  borrow : p.borrowTiers.length ≠ 0 ∧ checkRiskTiers "invalid risk tier coverage" .zero p.borrowTiers = .ok ()

theorem valid_of_validate {p : CapitalParameters} (h : p.validate = .ok ()) : p.Valid := by
  unfold CapitalParameters.validate at h
  simp only [Check.seq_eq_ok, Check.failIf_eq_ok, Check.checkAll_eq_ok, not_or, List.mem_cons,
    List.not_mem_nil, or_false, forall_eq_or_imp, forall_eq, not_not] at h
  obtain ⟨⟨-, hinstrument, hbase, -⟩, hleverage, ⟨hquote, hdiscount⟩, ⟨hperp, hborrow⟩, -⟩ := h
  exact ⟨hinstrument, hbase, hleverage, hquote, hdiscount, hperp, hborrow⟩

theorem check_versions {p : CapitalParameters} (h : p.Valid) : (p.versions sha256).check sha256 = .ok () := by
  have husdt : text "USDT" ≠ [] := by decide
  rw [check_eq_ok, discount_validate_eq_ok, discount_validate_eq_ok, risk_validate_eq_ok, risk_validate_eq_ok]
  exact ⟨⟨husdt, h.quote.1, checkDiscountTiers_message h.quote.2, rfl⟩,
    ⟨h.base, h.discount.1, checkDiscountTiers_message h.discount.2, rfl⟩,
    ⟨h.instrumentID, h.base, .inl rfl, h.perp.1, checkRiskTiers_message h.perp.2, rfl⟩,
    ⟨h.instrumentID, h.base, .inr rfl, h.borrow.1, checkRiskTiers_message h.borrow.2, rfl⟩⟩

theorem split_eq_ok {p : CapitalParameters} {v : CapitalVersions} :
    SplitCapitalVersions sha256 p = .ok v ↔ p.validate = .ok () ∧ v = p.versions sha256 := by
  unfold SplitCapitalVersions
  simp only [Check.seq_eq_ok, Check.failIf_eq_ok, not_not]
  constructor
  · rintro ⟨hvalid, -, -, h⟩
    exact ⟨hvalid, (Except.ok.inj h).symm⟩
  · rintro ⟨hvalid, rfl⟩
    exact ⟨hvalid, (valid_of_validate hvalid).leverage, check_versions (valid_of_validate hvalid), rfl⟩

/-- A version without the arrays that `Rebuild` does not read. -/
def CapitalVersions.stripped (v : CapitalVersions) : CapitalVersions :=
  { v with observation := { v.observation with
      parameters := { v.observation.parameters with
        quoteDiscount := [], baseDiscount := [], perpTiers := [], borrowTiers := [], sources := [] } } }

/-- `Rebuild` gives back the one observation that `SplitCapitalVersions` makes into the
versions. -/
theorem rebuild_eq_ok {v : CapitalVersions} {sources : List PublicSource} {p : CapitalParameters} :
    v.Rebuild sha256 sources = .ok p ↔
      p.validate = .ok () ∧ p.sources = sources ∧ v.stripped = p.versions sha256 := by
  unfold CapitalVersions.Rebuild
  simp only [Check.seq_eq_ok, Check.failIf_eq_ok, not_or, not_not]
  constructor
  · rintro ⟨hcheck, ⟨hquote, hbase, hperp, hborrow, hcurrency, hscope, hperpBase, hborrowBase, hperpID, hborrowID,
      hswap, hmargin⟩, hvalid, ⟨-, hhash⟩, h⟩
    obtain rfl := Except.ok.inj h
    rw [check_eq_ok, discount_validate_eq_ok, discount_validate_eq_ok, risk_validate_eq_ok,
      risk_validate_eq_ok] at hcheck
    obtain ⟨⟨-, -, -, hv1⟩, ⟨-, -, -, hv2⟩, ⟨-, -, -, -, -, hv3⟩, ⟨-, -, -, -, -, hv4⟩⟩ := hcheck
    rw [hcurrency] at hv1
    rw [hscope] at hv2
    rw [hperpID, hperpBase, hswap] at hv3
    rw [hborrowID, hborrowBase, hmargin] at hv4
    refine ⟨hvalid, rfl, ?_⟩
    unfold CapitalVersions.stripped CapitalParameters.versions
    dsimp only
    rw [← hv1, ← hv2, ← hv3, ← hv4, hquote, hbase, hperp, hborrow, hhash]
  · rintro ⟨hvalid, rfl, hversions⟩
    have hcheck := @check_versions sha256 _ (valid_of_validate hvalid)
    have hquote := congrArg CapitalVersions.quote hversions
    have hbase := congrArg CapitalVersions.base hversions
    have hperp := congrArg CapitalVersions.perp hversions
    have hborrow := congrArg CapitalVersions.borrow hversions
    have hobservation := congrArg CapitalVersions.observation hversions
    change v.quote = _ at hquote
    change v.base = _ at hbase
    change v.perp = _ at hperp
    change v.borrow = _ at hborrow
    rcases hobs : v.observation with ⟨parameters, r1, r2, r3, r4, r5⟩
    unfold CapitalVersions.stripped at hobservation
    rw [hobs] at hobservation
    simp only [CapitalParameters.versions, CapitalVersionObservation.mk.injEq] at hobservation
    obtain ⟨hparameters, rfl, rfl, rfl, rfl, rfl⟩ := hobservation
    -- what the split leaves out comes back from the versions
    let fill : CapitalParameters → CapitalParameters := fun q =>
      { q with quoteDiscount := p.quoteDiscount, baseDiscount := p.baseDiscount, perpTiers := p.perpTiers,
               borrowTiers := p.borrowTiers, sources := p.sources }
    have hrest := congrArg fill hparameters
    have hbaseScope := congrArg CapitalParameters.base hparameters
    have hinstrumentScope := congrArg CapitalParameters.instrumentID hparameters
    have hleverage := congrArg CapitalParameters.borrowLeverage hparameters
    change parameters.base = p.base at hbaseScope
    change parameters.instrumentID = p.instrumentID at hinstrumentScope
    change parameters.borrowLeverage = p.borrowLeverage at hleverage
    have hrebuilt : ({ parameters with
        quoteDiscount := v.quote.tiers, baseDiscount := v.base.tiers, perpTiers := v.perp.tiers,
        borrowTiers := v.borrow.tiers, sources := p.sources } : CapitalParameters) = p := by
      rw [hquote, hbase, hperp, hborrow]
      exact hrest
    have hchecked : v.check sha256 = .ok () := by
      rw [check_eq_ok] at hcheck ⊢
      rw [hquote, hbase, hperp, hborrow]
      exact hcheck
    refine ⟨hchecked, ?_, ?_, ?_, ?_⟩
    · rw [hquote, hbase, hperp, hborrow, hbaseScope, hinstrumentScope]
      exact ⟨rfl, rfl, rfl, rfl, rfl, rfl, rfl, rfl, rfl, rfl, rfl, rfl⟩
    · dsimp only
      rw [hrebuilt]
      exact hvalid
    · dsimp only
      rw [hrebuilt, hleverage]
      exact ⟨(valid_of_validate hvalid).leverage, rfl⟩
    · dsimp only
      rw [hrebuilt]
      rfl

/-! ## Altered versions -/

/-- The scope and the clocks of an observation, with what it is not rebuilt from. -/
structure SameScope (p q : CapitalParameters) : Prop where
  id : p.id = q.id
  instrumentID : p.instrumentID = q.instrumentID
  observedMS : p.observedMS = q.observedMS
  sourceMS : p.sourceMS = q.sourceMS
  effectiveMS : p.effectiveMS = q.effectiveMS
  validUntilMS : p.validUntilMS = q.validUntilMS
  base : p.base = q.base
  borrowLeverage : p.borrowLeverage.Equal q.borrowLeverage
  modelHash : p.modelHash = q.modelHash

/-- And the same tiers. -/
structure SameContent (p q : CapitalParameters) : Prop where
  scope : SameScope p q
  quote : List.Forall₂ DiscountTier.Same p.quoteDiscount q.quoteDiscount
  base : List.Forall₂ DiscountTier.Same p.baseDiscount q.baseDiscount
  perp : List.Forall₂ RiskTier.Same p.perpTiers q.perpTiers
  borrow : List.Forall₂ RiskTier.Same p.borrowTiers q.borrowTiers

/-- Versions with one content, under the same ids, scope and references. -/
structure SameVersions (v w : CapitalVersions) : Prop where
  quote : v.quote.id = w.quote.id ∧ v.quote.currency = w.quote.currency ∧
    List.Forall₂ DiscountTier.Same v.quote.tiers w.quote.tiers
  base : v.base.id = w.base.id ∧ v.base.currency = w.base.currency ∧
    List.Forall₂ DiscountTier.Same v.base.tiers w.base.tiers
  perp : v.perp.id = w.perp.id ∧ v.perp.instrumentID = w.perp.instrumentID ∧ v.perp.base = w.perp.base ∧
    v.perp.role = w.perp.role ∧ List.Forall₂ RiskTier.Same v.perp.tiers w.perp.tiers
  borrow : v.borrow.id = w.borrow.id ∧ v.borrow.instrumentID = w.borrow.instrumentID ∧
    v.borrow.base = w.borrow.base ∧ v.borrow.role = w.borrow.role ∧
    List.Forall₂ RiskTier.Same v.borrow.tiers w.borrow.tiers
  references : v.observation.quoteVersion = w.observation.quoteVersion ∧
    v.observation.baseVersion = w.observation.baseVersion ∧
    v.observation.perpVersion = w.observation.perpVersion ∧
    v.observation.borrowVersion = w.observation.borrowVersion ∧ v.observation.hash = w.observation.hash
  scope : SameScope v.observation.parameters w.observation.parameters

theorem storable_tiers {p : CapitalParameters} (h : p.Valid) :
    (∀ t ∈ p.quoteDiscount, t.Storable) ∧ (∀ t ∈ p.baseDiscount, t.Storable) ∧
      (∀ t ∈ p.perpTiers, t.Storable) ∧ ∀ t ∈ p.borrowTiers, t.Storable :=
  ⟨checkDiscountTiers_storable h.quote.2, checkDiscountTiers_storable h.discount.2,
    checkRiskTiers_storable h.perp.2, checkRiskTiers_storable h.borrow.2⟩

/-- Every field of valid parameters shows in what is hashed. -/
theorem sameContent_of_hashJSON {p q : CapitalParameters} (hp : p.Valid) (hq : q.Valid)
    (h : hashJSON p.body = hashJSON q.body) : SameContent p q := by
  obtain ⟨hp1, hp2, hp3, hp4⟩ := storable_tiers hp
  obtain ⟨hq1, hq2, hq3, hq4⟩ := storable_tiers hq
  simp only [hashJSON, CapitalParameters.body, List.map_cons, List.map_nil, hashJSONValue, List.cons.injEq,
    Prod.mk.injEq, Json.Value.text.injEq, Json.Value.int.injEq, Json.Value.texts.injEq, true_and, and_true] at h
  obtain ⟨hbase, b1, b2, b3, b4, o1, hleverage, o2, o3, o4, o5, heffective, hinstrument, hmodel, hid, hobserved,
    r1, r2, r3, r4, r5, q1, q2, q3, q4, hsource, huntil⟩ := h
  constructor
  · constructor
    · exact hid
    · exact UInt32.toNat_inj.1 (by exact_mod_cast hinstrument)
    · exact hobserved
    · exact hsource
    · exact heffective
    · exact huntil
    · exact hbase
    · exact (Decimal.stored_eq_iff hp.leverage hq.leverage).1 hleverage
    · exact hmodel
  · refine (discountColumns_eq_iff hp1 hq1).1 ?_
    simp only [discountColumns, column, q1, q2, q3, q4]
  · refine (discountColumns_eq_iff hp2 hq2).1 ?_
    simp only [discountColumns, column, b1, b2, b3, b4]
  · refine (riskColumns_eq_iff hp3 hq3).1 ?_
    simp only [riskColumns, column, r1, r2, r3, r4, r5]
  · refine (riskColumns_eq_iff hp4 hq4).1 ?_
    simp only [riskColumns, column, o1, o2, o3, o4, o5]

theorem sameVersions_of_content {p q : CapitalParameters} (hp : p.Valid) (hq : q.Valid) (h : SameContent p q)
    (hhash : DiscoveryHash sha256 p.body = DiscoveryHash sha256 q.body) :
    SameVersions (p.versions sha256) (q.versions sha256) := by
  obtain ⟨hp1, hp2, hp3, hp4⟩ := storable_tiers hp
  obtain ⟨hq1, hq2, hq3, hq4⟩ := storable_tiers hq
  have hquote : ((p.versions sha256).quote).id = ((q.versions sha256).quote).id :=
    discount_id_eq ((discountColumns_eq_iff hp1 hq1).2 h.quote)
  have hbase : ((p.versions sha256).base).id = ((q.versions sha256).base).id := by
    show (discountVersion sha256 p.base p.baseDiscount).id = (discountVersion sha256 q.base q.baseDiscount).id
    rw [h.scope.base]
    exact discount_id_eq ((discountColumns_eq_iff hp2 hq2).2 h.base)
  have hperp : ((p.versions sha256).perp).id = ((q.versions sha256).perp).id := by
    show (riskVersion sha256 p.instrumentID p.base _ p.perpTiers).id =
      (riskVersion sha256 q.instrumentID q.base _ q.perpTiers).id
    rw [h.scope.base, h.scope.instrumentID]
    exact risk_id_eq ((riskColumns_eq_iff hp3 hq3).2 h.perp)
  have hborrow : ((p.versions sha256).borrow).id = ((q.versions sha256).borrow).id := by
    show (riskVersion sha256 p.instrumentID p.base _ p.borrowTiers).id =
      (riskVersion sha256 q.instrumentID q.base _ q.borrowTiers).id
    rw [h.scope.base, h.scope.instrumentID]
    exact risk_id_eq ((riskColumns_eq_iff hp4 hq4).2 h.borrow)
  constructor
  · exact ⟨hquote, rfl, h.quote⟩
  · exact ⟨hbase, h.scope.base, h.base⟩
  · exact ⟨hperp, h.scope.instrumentID, h.scope.base, rfl, h.perp⟩
  · exact ⟨hborrow, h.scope.instrumentID, h.scope.base, rfl, h.borrow⟩
  · exact ⟨hquote, hbase, hperp, hborrow, hhash⟩
  · exact ⟨h.scope.id, h.scope.instrumentID, h.scope.observedMS, h.scope.sourceMS, h.scope.effectiveMS,
      h.scope.validUntilMS, h.scope.base, h.scope.borrowLeverage, h.scope.modelHash⟩

/-- A split loses nothing; the id of a version is told by its rule, with the currency or the
instrument, base and role it is for; and versions that are rebuilt under the hash of a split
are its versions, unless two texts with one digest were found. -/
theorem capital_versions :
    (∀ p, p.validate = .ok () → ∃ v, SplitCapitalVersions sha256 p = .ok v ∧
      v.Rebuild sha256 p.sources = .ok p ∧ v.observation.hash = DiscoveryHash sha256 p.body) ∧
      (∀ p q v w, SplitCapitalVersions sha256 p = .ok v → SplitCapitalVersions sha256 q = .ok w →
        (List.Forall₂ DiscountTier.Same p.quoteDiscount q.quoteDiscount → v.quote.id = w.quote.id) ∧
        (p.base = q.base → List.Forall₂ DiscountTier.Same p.baseDiscount q.baseDiscount →
          v.base.id = w.base.id) ∧
        (p.instrumentID = q.instrumentID → p.base = q.base →
          (List.Forall₂ RiskTier.Same p.perpTiers q.perpTiers → v.perp.id = w.perp.id) ∧
          (List.Forall₂ RiskTier.Same p.borrowTiers q.borrowTiers → v.borrow.id = w.borrow.id))) ∧
      ∀ p v v' sources p', SplitCapitalVersions sha256 p = .ok v → v'.Rebuild sha256 sources = .ok p' →
        v'.observation.hash = DiscoveryHash sha256 p'.body ∧ p'.sources = sources ∧
          (v'.observation.hash = v.observation.hash →
            Collides sha256 (bodyText p'.body) (bodyText p.body) ∨
              SameVersions v' v ∧ SameContent p' p) := by
  refine ⟨?_, ?_, ?_⟩
  · intro p hvalid
    refine ⟨p.versions sha256, split_eq_ok.2 ⟨hvalid, rfl⟩, ?_, rfl⟩
    exact rebuild_eq_ok.2 ⟨hvalid, rfl, rfl⟩
  · intro p q v w hv hw
    obtain ⟨hp, rfl⟩ := split_eq_ok.1 hv
    obtain ⟨hq, rfl⟩ := split_eq_ok.1 hw
    obtain ⟨hp1, hp2, hp3, hp4⟩ := storable_tiers (valid_of_validate hp)
    obtain ⟨hq1, hq2, hq3, hq4⟩ := storable_tiers (valid_of_validate hq)
    refine ⟨?_, ?_, ?_⟩
    · intro htiers
      exact discount_id_eq ((discountColumns_eq_iff hp1 hq1).2 htiers)
    · intro hbase htiers
      show (discountVersion sha256 p.base p.baseDiscount).id = (discountVersion sha256 q.base q.baseDiscount).id
      rw [hbase]
      exact discount_id_eq ((discountColumns_eq_iff hp2 hq2).2 htiers)
    · intro hinstrument hbase
      show (_ → (riskVersion sha256 p.instrumentID p.base _ p.perpTiers).id =
          (riskVersion sha256 q.instrumentID q.base _ q.perpTiers).id) ∧
        (_ → (riskVersion sha256 p.instrumentID p.base _ p.borrowTiers).id =
          (riskVersion sha256 q.instrumentID q.base _ q.borrowTiers).id)
      rw [hinstrument, hbase]
      constructor
      · intro htiers
        exact risk_id_eq ((riskColumns_eq_iff hp3 hq3).2 htiers)
      · intro htiers
        exact risk_id_eq ((riskColumns_eq_iff hp4 hq4).2 htiers)
  · intro p v v' sources p' hsplit hrebuild
    obtain ⟨hp, rfl⟩ := split_eq_ok.1 hsplit
    obtain ⟨hp', hsources, hversions⟩ := rebuild_eq_ok.1 hrebuild
    have hhash : v'.observation.hash = DiscoveryHash sha256 p'.body :=
      congrArg (fun v : CapitalVersions => v.observation.hash) hversions
    refine ⟨hhash, hsources, ?_⟩
    intro hsame
    have hbodies : DiscoveryHash sha256 p'.body = DiscoveryHash sha256 p.body := hhash.symm.trans hsame
    rcases hash_inj hbodies with hcollides | hjson
    · exact .inl hcollides
    · have hcontent := sameContent_of_hashJSON (valid_of_validate hp') (valid_of_validate hp) hjson
      have hstripped := @sameVersions_of_content sha256 _ _ (valid_of_validate hp')
        (valid_of_validate hp) hcontent hbodies
      rw [← hversions] at hstripped
      refine .inr ⟨⟨hstripped.quote, hstripped.base, hstripped.perp, hstripped.borrow, hstripped.references,
        ?_⟩, hcontent⟩
      have hscope := hstripped.scope
      exact ⟨hscope.id, hscope.instrumentID, hscope.observedMS, hscope.sourceMS, hscope.effectiveMS,
        hscope.validUntilMS, hscope.base, hscope.borrowLeverage, hscope.modelHash⟩

/-! ## Two instruments with one rule -/

def zeroDigest : Text := List.replicate 64 '0'

def wholeDiscount : DiscountTier := ⟨⟨0, 0⟩, ⟨1, 0⟩, ⟨1, 0⟩, ⟨0, 0⟩⟩

def wholeRisk : RiskTier := ⟨⟨0, 0⟩, ⟨1, 0⟩, ⟨1, 0⟩, ⟨0, 0⟩, ⟨1, 0⟩⟩

/-- An observation of one tier of each kind. -/
def observation : CapitalParameters where
  id := text "observation-one"
  instrumentID := 17
  observedMS := 1001
  sourceMS := 1000
  effectiveMS := 1000
  validUntilMS := 3601000
  base := text "BTC"
  quoteDiscount := [wholeDiscount]
  baseDiscount := [wholeDiscount]
  perpTiers := [wholeRisk]
  borrowTiers := [wholeRisk]
  borrowLeverage := ⟨1, 0⟩
  modelHash := zeroDigest
  sources := [⟨text "https://www.okx.com", zeroDigest, text "exchange_ts", 1000, 1001⟩]

theorem value_whole (n : Int) : (⟨n, 0⟩ : Decimal).value = n := by
  unfold Decimal.value
  rw [zpow_zero, mul_one]

theorem reference_whole {n : Int} (h : 0 ≤ n) (hsmall : n ≤ 1) : ReferenceDecimal ⟨n, 0⟩ := by
  have hplaces : (-18 : Int) ≤ 0 := by norm_num
  refine ⟨not_lt.2 h, hplaces, ?_⟩
  show (⟨n, 0⟩ : Decimal).value < (⟨1, 20⟩ : Decimal).value
  rw [value_whole]
  unfold Decimal.value
  have hcast : (n : ℚ) ≤ 1 := by exact_mod_cast hsmall
  refine lt_of_le_of_lt hcast ?_
  norm_num

theorem check_wholeDiscount (message : String) :
    checkDiscountTiers message .zero (.ofInt 1) [wholeDiscount] = .ok () := by
  have hzero := reference_whole (le_refl 0) (by norm_num)
  have hone := reference_whole (n := 1) (by norm_num) (le_refl 1)
  unfold checkDiscountTiers
  simp only [Check.seq_eq_ok, Check.failIf_eq_ok, not_or, not_not]
  refine ⟨⟨hzero, hone, hone, hzero⟩, ?_, rfl⟩
  unfold Decimal.zero Decimal.ofInt wholeDiscount
  simp only [Decimal.Equal, Decimal.GreaterThan, Decimal.IsNegative, value_whole]
  norm_num

theorem check_wholeRisk (message : String) : checkRiskTiers message .zero [wholeRisk] = .ok () := by
  have hzero := reference_whole (le_refl 0) (by norm_num)
  have hone := reference_whole (n := 1) (by norm_num) (le_refl 1)
  unfold checkRiskTiers
  simp only [Check.seq_eq_ok, Check.failIf_eq_ok, not_or, not_not]
  refine ⟨⟨hzero, hone, hone, hzero, hone⟩, ?_, rfl⟩
  unfold Decimal.zero wholeRisk
  simp only [Decimal.LessThan, Decimal.GreaterThan, Decimal.IsNegative, Decimal.IsPositive, value_whole]
  norm_num

theorem observation_validate : observation.validate = .ok () := by
  unfold CapitalParameters.validate
  simp only [Check.seq_eq_ok, Check.failIf_eq_ok, Check.checkAll_eq_ok, not_or, List.mem_cons,
    List.not_mem_nil, or_false, forall_eq_or_imp, forall_eq, not_not]
  exact ⟨by decide, reference_whole (by norm_num) (le_refl 1),
    ⟨⟨by decide, check_wholeDiscount _⟩, by decide, check_wholeDiscount _⟩,
    ⟨⟨by decide, check_wholeRisk _⟩, by decide, check_wholeRisk _⟩, by decide⟩

/-- Of the instrument only its presence is checked. -/
theorem validate_instrument {p : CapitalParameters} (h : p.validate = .ok ()) {instrumentID : UInt32}
    (hne : instrumentID ≠ 0) : CapitalParameters.validate { p with instrumentID } = .ok () := by
  unfold CapitalParameters.validate at h ⊢
  simp only [Check.seq_eq_ok, Check.failIf_eq_ok, not_or] at h ⊢
  obtain ⟨⟨hid, -, hrest⟩, hothers⟩ := h
  exact ⟨⟨hid, hne, hrest⟩, hothers⟩

/-- A digest that tells the rule of instrument 17 from every other text. -/
def markedDigest (s : Text) : Vector UInt8 32 :=
  Vector.replicate 32
    (if s = bodyText (RiskRuleVersion.body ⟨[], 17, text "BTC", text "SWAP", [wholeRisk]⟩) then 1 else 0)

theorem versions_perp_tiers (p : CapitalParameters) : (p.versions sha256).perp.tiers = p.perpTiers := rfl

theorem versions_perp_role (p : CapitalParameters) : (p.versions sha256).perp.role = text "SWAP" := rfl

/-- The scope of a rule shows in the id of its version. -/
theorem id_tells_scope :
    ∃ v w, SplitCapitalVersions markedDigest observation = .ok v ∧
      SplitCapitalVersions markedDigest { observation with instrumentID := 18 } = .ok w ∧
        v.perp.tiers = w.perp.tiers ∧ v.perp.role = w.perp.role ∧ v.perp.id ≠ w.perp.id := by
  refine ⟨_, _, split_eq_ok.2 ⟨observation_validate, rfl⟩,
    split_eq_ok.2 ⟨validate_instrument observation_validate (by decide), rfl⟩, ?_, ?_, ?_⟩
  · rw [versions_perp_tiers, versions_perp_tiers]
  · rw [versions_perp_role, versions_perp_role]
  intro hid
  have htexts : bodyText (RiskRuleVersion.body ⟨[], 18, text "BTC", text "SWAP", [wholeRisk]⟩) ≠
      bodyText (RiskRuleVersion.body ⟨[], 17, text "BTC", text "SWAP", [wholeRisk]⟩) := by
    intro htext
    have hfields := bodyText_inj htext
    simp only [hashJSON, RiskRuleVersion.body, List.map_cons, hashJSONValue, List.cons.injEq, Prod.mk.injEq,
      Json.Value.int.injEq, true_and] at hfields
    exact absurd hfields.1 (by decide)
  have hdigest := Vector.toList_inj.1 (hexText_injective hid)
  change markedDigest (bodyText (RiskRuleVersion.body ⟨[], 17, text "BTC", text "SWAP", [wholeRisk]⟩)) =
    markedDigest (bodyText (RiskRuleVersion.body ⟨[], 18, text "BTC", text "SWAP", [wholeRisk]⟩)) at hdigest
  unfold markedDigest at hdigest
  rw [if_pos rfl, if_neg htexts] at hdigest
  revert hdigest
  decide

end Discovery

end MarketInfo
