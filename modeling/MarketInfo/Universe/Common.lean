import MarketInfo.Universe.Selection

/-! # The common universe

Selection is free of order and sound: one run and one revision for all orders of the
catalogs, their instruments and the configured lists, every selected key shared by two
venues, and the configured rules kept.
-/

namespace MarketInfo

open Json (Text)
open Check (failIf checkAll)

namespace Universe

variable {o o' : MapOrder} {catalogs catalogs' : List VenueCatalog} {cfg cfg' n : SelectionConfig}
  {aliases : Aliases} {items items' : VenueSelectionConfig → List Instrument} {r : Result}

/-! ## Runs -/

/-- What a normalized configuration and the catalogs have to bear out. -/
structure Accepted (n : SelectionConfig) (aliases : Aliases) (catalogs : List VenueCatalog) : Prop where
  distinct : (catalogs.map VenueCatalog.venue).Nodup
  good : ∀ v ∈ n.venues, v.Good aliases (catalogs.map VenueCatalog.entry)
  meets : Meets n (keptOf aliases (itemsOf (catalogs.map VenueCatalog.entry)) n.venues)

theorem itemsOf_disabled {byVenue : List (Text × List Instrument)} {v : VenueSelectionConfig}
    (h : v.mode = Disabled) : itemsOf byVenue v = [] :=
  if_pos h

theorem valid_includes {v : VenueSelectionConfig} (hvalid : v.Valid) (h : v.mode = Disabled) : v.includes = [] := by
  by_contra hne
  exact explicit_ne_disabled ((hvalid.explicit.2 hne).symm.trans h)

theorem venues_nodup (h : normalizeConfig cfg = .ok n) : (n.venues.map VenueSelectionConfig.venue).Nodup := by
  rcases normalizeConfig_eq_ok h with ⟨hnames, -, rfl, -⟩
  refine ((Listing.sortBy_perm venueLess _).map _).nodup_iff.2 ?_
  rw [List.map_map]
  exact hnames

/-- The venues of a normalized configuration are those configured, with their lists in order. -/
theorem mem_venues (h : normalizeConfig cfg = .ok n) {w : VenueSelectionConfig} :
    w ∈ n.venues ↔ ∃ v ∈ cfg.venues, v.sorted = w := by
  rcases normalizeConfig_eq_ok h with ⟨-, -, rfl, -⟩
  rw [Listing.mem_sortBy, List.mem_map]

theorem listed_of_good (h : normalizeConfig cfg = .ok n)
    (hgood : ∀ v ∈ n.venues, v.Good aliases (catalogs.map VenueCatalog.entry)) :
    ∀ v ∈ n.venues, Listed aliases v (itemsOf (catalogs.map VenueCatalog.entry) v) := by
  intro w hw
  by_cases hdisabled : w.mode = Disabled
  · rw [itemsOf_disabled hdisabled]
    rcases (mem_venues h).1 hw with ⟨v, hv, rfl⟩
    have hincludes := valid_includes ((normalizeConfig_eq_ok h).2.1 v hv) hdisabled
    refine ⟨fun i hi => absurd hi List.not_mem_nil, List.nodup_nil, List.nodup_nil, fun s hs => ?_⟩
    have hmem : s ∈ v.includes := Listing.mem_sortBy.1 hs
    rw [hincludes] at hmem
    exact absurd hmem List.not_mem_nil
  · exact (hgood w hw hdisabled).2

theorem build_eq_ok (hn : normalizeConfig cfg = .ok n) :
    BuildCommonPerpetualUniverse o catalogs cfg (some aliases) = .ok r ↔ Accepted n aliases catalogs ∧
      r = outcome n aliases (itemsOf (catalogs.map VenueCatalog.entry)) := by
  have hindex := fun m => @indexCatalogs_eq_ok [] m catalogs List.nodup_nil
  simp only [List.map_nil, List.nil_append] at hindex
  have hfinish : (∀ v ∈ n.venues, v.Good aliases (catalogs.map VenueCatalog.entry)) →
      (finish o n aliases ((⟨[], [], [], [], [], []⟩ : Walk).after aliases
        (itemsOf (catalogs.map VenueCatalog.entry)) n.venues) = .ok r ↔
        Meets n (keptOf aliases (itemsOf (catalogs.map VenueCatalog.entry)) n.venues) ∧
          r = outcome n aliases (itemsOf (catalogs.map VenueCatalog.entry))) := fun hgood =>
    finish_eq_ok ((apart_resolvedOf (venues_nodup hn) (listed_of_good hn hgood)).sub keptOf_sub)
  unfold BuildCommonPerpetualUniverse
  dsimp only
  rw [hn]
  constructor
  · intro h
    rw [Check.andThen_eq_ok] at h
    rcases h with ⟨n', hn', h⟩
    cases hn'
    rw [Check.andThen_eq_ok] at h
    rcases h with ⟨m, hm, h⟩
    rcases (hindex m).1 hm with ⟨hcatalogs, rfl⟩
    rw [Check.andThen_eq_ok] at h
    rcases h with ⟨w, hw, h⟩
    rcases walkVenues_eq_ok.1 hw with ⟨hgood, rfl⟩
    rcases (hfinish hgood).1 h with ⟨hmeets, hr⟩
    exact ⟨⟨hcatalogs, hgood, hmeets⟩, hr⟩
  · rintro ⟨haccepted, hr⟩
    rw [Check.andThen_eq_ok]
    refine ⟨n, rfl, ?_⟩
    rw [Check.andThen_eq_ok]
    refine ⟨_, (hindex _).2 ⟨haccepted.distinct, rfl⟩, ?_⟩
    rw [Check.andThen_eq_ok]
    exact ⟨_, walkVenues_eq_ok.2 ⟨haccepted.good, rfl⟩, (hfinish haccepted.good).2 ⟨haccepted.meets, hr⟩⟩

/-- A successful run has a configuration that passes. -/
theorem build_config (h : BuildCommonPerpetualUniverse o catalogs cfg (some aliases) = .ok r) :
    ∃ n, normalizeConfig cfg = .ok n := by
  unfold BuildCommonPerpetualUniverse at h
  dsimp only at h
  rw [Check.andThen_eq_ok] at h
  rcases h with ⟨n, hn, -⟩
  exact ⟨n, hn⟩

/-- The same run, whatever the order of the catalogs, the lists and the maps. -/
theorem build_reordered (hcatalogs : Listing.Reordered VenueCatalog.Reordered catalogs catalogs')
    (hcfg : cfg.Reordered cfg') (h : BuildCommonPerpetualUniverse o catalogs cfg (some aliases) = .ok r) :
    BuildCommonPerpetualUniverse o' catalogs' cfg' (some aliases) = .ok r := by
  rcases build_config h with ⟨n, hn⟩
  rcases (build_eq_ok hn).1 h with ⟨haccepted, rfl⟩
  have hitems := sameItems_reordered hcatalogs haccepted.distinct
  have hlisted := listed_of_good hn haccepted.good
  have hlookup := lookup_reordered hcatalogs haccepted.distinct
  rw [build_eq_ok (normalizeConfig_reordered hcfg hn)]
  refine ⟨⟨?_, ?_, haccepted.meets.perm (hitems.keptOf n.venues)⟩,
    outcome_congr hitems (apart_resolvedOf (venues_nodup hn) hlisted)⟩
  · exact (hcatalogs.map_perm fun _ _ hcd => hcd.1).nodup_iff.1 haccepted.distinct
  · intro v hv henabled
    refine ⟨?_, hitems.listed (hlisted v hv)⟩
    have hfound := (haccepted.good v hv henabled).1
    have hrel := hlookup v.venue
    generalize (catalogs.map VenueCatalog.entry).lookup v.venue = x at hrel hfound
    generalize (catalogs'.map VenueCatalog.entry).lookup v.venue = y at hrel
    cases hrel with
    | some hperm => rfl
    | none => exact hfound

/-- The same revision, also for the selection in another order. -/
theorem revision_reordered {sha256 : Text → Vector UInt8 32} {mappingRevision : Text}
    {selected selected' : List SelectedInstrument} {capacity : Except Text Text} {x : Text × Text}
    (hcfg : cfg.Reordered cfg') (hselected : selected.Perm selected')
    (h : SelectionRevision sha256 cfg mappingRevision selected capacity = .ok x) :
    SelectionRevision sha256 cfg' mappingRevision selected' capacity = .ok x := by
  have hsort : Listing.sortBy Identity.less (selected.map SelectedInstrument.identity) =
      Listing.sortBy Identity.less (selected'.map SelectedInstrument.identity) :=
    Listing.sortBy_eq_of_perm Identity.less_iff (hselected.map _) fun _ _ _ _ heq => Identity.rank_injective heq
  unfold SelectionRevision at h ⊢
  rw [Check.andThen_eq_ok] at h ⊢
  rcases h with ⟨n, hn, h⟩
  rw [hsort] at h
  exact ⟨n, normalizeConfig_reordered hcfg hn, h⟩

/-! ## Soundness -/

/-- The configured rules, and what makes a market common. -/
structure Sound (cfg : SelectionConfig) (r : Result) : Prop where
  shared : ∀ s ∈ r.selected, ∃ t ∈ r.selected, t.key = s.key ∧ t.instrument.exchange ≠ s.instrument.exchange
  single : ∀ s ∈ r.selected, ∀ t ∈ r.selected, s.key = t.key → s.instrument.exchange = t.instrument.exchange → s = t
  included : cfg.includes ≠ [] → ∀ s ∈ r.selected, s.key ∈ cfg.includes
  includes : ∀ k ∈ cfg.includes, ∃ s ∈ r.selected, s.key = k
  excluded : ∀ s ∈ r.selected, s.key ∉ cfg.excludes
  venue : ∀ s ∈ r.selected, ∃ v ∈ cfg.venues, v.venue = s.instrument.exchange ∧ v.mode ≠ Disabled ∧
    (v.mode = Explicit → s.instrument.exchangeSymbol ∈ v.includes) ∧ s.instrument.exchangeSymbol ∉ v.excludes
  explicit : ∀ v ∈ cfg.venues, v.mode = Explicit → ∀ x ∈ v.includes,
    ∃ s ∈ r.selected, s.instrument.exchange = v.venue ∧ s.instrument.exchangeSymbol = x

theorem exchange_kept {l : List Instrument} {v : VenueSelectionConfig} (hlisted : Listed aliases v l)
    {s : SelectedInstrument} (hs : s ∈ v.kept aliases l) : s.instrument.exchange = v.venue := by
  rcases List.mem_map.1 hs with ⟨i, hi, rfl⟩
  rw [resolution_instrument]
  exact (hlisted.fits i (List.mem_filter.1 hi).1).exchange

section Kept

variable {vs : List VenueSelectionConfig} (hnames : (vs.map VenueSelectionConfig.venue).Nodup)
  (hlisted : ∀ v ∈ vs, Listed aliases v (items v))

include hnames hlisted

/-- A venue keeps one instrument under a key. -/
theorem kept_single {a b : SelectedInstrument} (ha : a ∈ keptOf aliases items vs) (hb : b ∈ keptOf aliases items vs)
    (hkey : a.key = b.key) (hexchange : a.instrument.exchange = b.instrument.exchange) : a = b := by
  rcases List.mem_flatMap.1 ha with ⟨v, hv, ha⟩
  rcases List.mem_flatMap.1 hb with ⟨w, hw, hb⟩
  rw [exchange_kept (hlisted v hv) ha, exchange_kept (hlisted w hw) hb] at hexchange
  have hvw : v = w := List.inj_on_of_nodup_map hnames hv hw hexchange
  subst hvw
  exact List.inj_on_of_nodup_map (hlisted v hv).keys ha hb hkey

theorem kept_nodup : (keptOf aliases items vs).Nodup := by
  refine List.nodup_flatMap.2 ⟨fun v hv => (hlisted v hv).keys.of_map, ?_⟩
  refine (List.pairwise_map.1 hnames).imp_of_mem ?_
  intro v w hv hw hne s hs hs'
  exact hne ((exchange_kept (hlisted v hv) hs).symm.trans (exchange_kept (hlisted w hw) hs'))

/-- A key of two kept instruments is shared by two venues. -/
theorem kept_shared {s : SelectedInstrument} (hs : s ∈ keptOf aliases items vs)
    (hsize : 2 ≤ (sharing s.key (keptOf aliases items vs)).length) :
    ∃ t ∈ keptOf aliases items vs, t.key = s.key ∧ t.instrument.exchange ≠ s.instrument.exchange := by
  have hnodup : (sharing s.key (keptOf aliases items vs)).Nodup := (kept_nodup hnames hlisted).filter _
  have hother : ∃ t ∈ sharing s.key (keptOf aliases items vs), t ≠ s := by
    by_contra hnone
    push Not at hnone
    have hle : (sharing s.key (keptOf aliases items vs)).length ≤ [s].length :=
      (hnodup.subperm fun t ht => List.mem_singleton.2 (hnone t ht)).length_le
    exact absurd (hsize.trans hle) (Nat.not_le.2 Nat.one_lt_two)
  rcases hother with ⟨t, ht, hne⟩
  rcases (Grouping.mem_under _).1 ht with ⟨hmem, hkey⟩
  exact ⟨t, hmem, hkey, fun hexchange => hne (kept_single hnames hlisted hmem hs hkey hexchange)⟩

end Kept

theorem mem_chosenOf {l : List SelectedInstrument} {s : SelectedInstrument} :
    s ∈ chosenOf n l ↔ s ∈ l ∧ 2 ≤ (sharing s.key l).length ∧ (n.includes ≠ [] → s.key ∈ n.includes) ∧
      s.key ∉ n.excludes := by
  unfold chosenOf Chosen
  rw [List.mem_filter, Bool.and_eq_true, decide_eq_true_eq, Bool.not_eq_true', decide_eq_false_iff_not, not_or,
    not_and, not_not]

theorem build_sound (h : BuildCommonPerpetualUniverse o catalogs cfg (some aliases) = .ok r) : Sound cfg r := by
  rcases build_config h with ⟨n, hn⟩
  rcases (build_eq_ok hn).1 h with ⟨haccepted, rfl⟩
  have hlisted := listed_of_good hn haccepted.good
  have hnames := venues_nodup hn
  rcases normalizeConfig_eq_ok hn with ⟨-, -, heq, -, hapart⟩
  have hincludes : n.includes = Listing.sortBy textLess cfg.includes := by rw [heq]
  have hexcludes : n.excludes = Listing.sortBy textLess cfg.excludes := by rw [heq]
  have hselected : ∀ s, s ∈ (outcome n aliases (itemsOf (catalogs.map VenueCatalog.entry))).selected ↔
      s ∈ chosenOf n (keptOf aliases (itemsOf (catalogs.map VenueCatalog.entry)) n.venues) :=
    fun s => Listing.mem_sortBy
  refine ⟨?_, ?_, ?_, ?_, ?_, ?_, ?_⟩
  · intro s hs
    rcases mem_chosenOf.1 ((hselected s).1 hs) with ⟨hkept, hsize, hin, hout⟩
    rcases kept_shared hnames hlisted hkept hsize with ⟨t, ht, hkey, hexchange⟩
    refine ⟨t, (hselected t).2 (mem_chosenOf.2 ⟨ht, ?_⟩), hkey, hexchange⟩
    rw [hkey]
    exact ⟨hsize, hin, hout⟩
  · intro s hs t ht hkey hexchange
    exact kept_single hnames hlisted (mem_chosenOf.1 ((hselected s).1 hs)).1
      (mem_chosenOf.1 ((hselected t).1 ht)).1 hkey hexchange
  · intro hne s hs
    have hin := (mem_chosenOf.1 ((hselected s).1 hs)).2.2.1
    rw [hincludes] at hin
    refine Listing.mem_sortBy.1 (hin fun hnil => hne ?_)
    exact List.length_eq_zero_iff.1 (Listing.length_sortBy.symm.trans (congrArg List.length hnil))
  · intro k hk
    have hk' : k ∈ n.includes := hincludes ▸ Listing.mem_sortBy.2 hk
    have hsize := haccepted.meets.shared k hk'
    rcases List.exists_mem_of_length_pos (Nat.lt_of_lt_of_le Nat.zero_lt_two hsize) with ⟨s, hs⟩
    rcases (Grouping.mem_under _).1 hs with ⟨hmem, rfl⟩
    refine ⟨s, (hselected s).2 (mem_chosenOf.2 ⟨hmem, hsize, fun _ => hk', ?_⟩), rfl⟩
    rw [hexcludes, Listing.mem_sortBy]
    exact fun hout => hapart _ hout hk
  · intro s hs
    have hout := (mem_chosenOf.1 ((hselected s).1 hs)).2.2.2
    rw [hexcludes, Listing.mem_sortBy] at hout
    exact hout
  · intro s hs
    rcases mem_keptOf.1 (mem_chosenOf.1 ((hselected s).1 hs)).1 with ⟨w, hw, i, hi, hkeeps, rfl⟩
    rcases (mem_venues hn).1 hw with ⟨v, hv, rfl⟩
    rw [resolution_instrument]
    unfold VenueSelectionConfig.Skips at hkeeps
    rw [not_or, not_and, not_not] at hkeeps
    refine ⟨v, hv, ((hlisted _ hw).fits i hi).exchange.symm, fun hdisabled => ?_,
      fun hexplicit => Listing.mem_sortBy.1 (hkeeps.1 hexplicit), fun hout => hkeeps.2 (Listing.mem_sortBy.2 hout)⟩
    have hdisabled' : v.sorted.mode = Disabled := hdisabled
    rw [itemsOf_disabled hdisabled'] at hi
    exact absurd hi List.not_mem_nil
  · intro v hv hexplicit x hx
    rcases haccepted.meets.required v.sorted ((mem_venues hn).2 ⟨v, hv, rfl⟩) hexplicit x
      (Listing.mem_sortBy.2 hx) with ⟨s, hs, hsame⟩
    exact ⟨s, (hselected s).2 hs, hsame⟩

/-! ## Counts -/

/-- A run with the counts that a selection reports. -/
structure PerpetualUniverseRun.Reports (run : PerpetualUniverseRun) (cfg : SelectionConfig) (r : Result) :
    Prop where
  groups : run.canonicalGroupCount = r.groupCount
  instruments : run.instrumentCount = r.selected.length
  venues : run.enabledVenues = (enabled cfg.venues).map VenueSelectionConfig.venue

theorem two_mul_length_le {gs : List (Text × List SelectedInstrument)} (h : ∀ g ∈ gs, 2 ≤ g.2.length) :
    2 * gs.length ≤ (gs.flatMap Prod.snd).length := by
  induction gs with
  | nil => exact Nat.le_refl _
  | cons g rest ih =>
      have hrest := ih fun g' hg' => h g' (List.mem_cons_of_mem _ hg')
      have hg := h g List.mem_cons_self
      rw [List.flatMap_cons, List.length_append, List.length_cons]
      omega

/-- Every selected group brings two instruments. -/
theorem groupCount_le (n : SelectionConfig) (aliases : Aliases) (items : VenueSelectionConfig → List Instrument) :
    2 * (outcome n aliases items).groupCount ≤ (outcome n aliases items).selected.length := by
  have hgroups := Grouping.groups_group SelectedInstrument.key (keptOf aliases items n.venues)
  have hcount := hgroups.countP_eq (Chosen n)
  have hperm := (Grouping.chosen_perm hgroups (Chosen n)).length_eq
  have hselected : (outcome n aliases items).selected.length =
      (chosenOf n (keptOf aliases items n.venues)).length := Listing.length_sortBy
  have hgroupCount : (outcome n aliases items).groupCount =
      ((Grouping.group SelectedInstrument.key (keptOf aliases items n.venues)).filter
        fun g => Chosen n g.1 g.2.length).length := by
    rw [← List.countP_eq_length_filter, hcount]
    rfl
  rw [hselected, hgroupCount]
  refine (two_mul_length_le fun g hg => ?_).trans hperm.le
  have hchosen := (List.mem_filter.1 hg).2
  unfold Chosen at hchosen
  exact of_decide_eq_true (Bool.and_eq_true_iff.1 hchosen).1

theorem length_enabled (h : normalizeConfig cfg = .ok n) : (enabled n.venues).length = (enabled cfg.venues).length := by
  rcases normalizeConfig_eq_ok h with ⟨-, -, rfl, -⟩
  have hperm := (Listing.sortBy_perm venueLess (cfg.venues.map VenueSelectionConfig.sorted)).filter
    fun v => decide (v.mode ≠ Disabled)
  unfold enabled
  rw [hperm.length_eq, List.filter_map, List.length_map]
  rfl

theorem build_counts (h : BuildCommonPerpetualUniverse o catalogs cfg (some aliases) = .ok r)
    {run : PerpetualUniverseRun} (hrun : run.Reports cfg r) : run.validateCounts = .ok () := by
  have hsound := build_sound h
  rcases build_config h with ⟨n, hn⟩
  rcases (build_eq_ok hn).1 h with ⟨-, hr⟩
  have hgroups : 2 * r.groupCount ≤ r.selected.length := by
    rw [hr]
    exact groupCount_le n aliases _
  have hone : (enabled cfg.venues).length ≠ 1 := length_enabled hn ▸ (normalizeConfig_eq_ok hn).2.2.2.1
  have htwo : 0 < r.selected.length → 2 ≤ (enabled cfg.venues).length := by
    intro hpos
    rcases List.exists_mem_of_length_pos hpos with ⟨s, hs⟩
    rcases hsound.venue s hs with ⟨v, hv, -, henabled, -⟩
    have hmem : v ∈ enabled cfg.venues := List.mem_filter.2 ⟨hv, decide_eq_true henabled⟩
    have hsome := List.length_pos_of_mem hmem
    omega
  unfold PerpetualUniverseRun.validateCounts
  rw [Check.seq_eq_ok, Check.failIf_eq_ok, Check.failIf_eq_ok, hrun.groups, hrun.instruments, hrun.venues,
    List.length_map]
  omega

/-! ## The common universe -/

theorem toOption_congr {α : Type} {x y : Except Text α} (hxy : ∀ a, x = .ok a → y = .ok a)
    (hyx : ∀ a, y = .ok a → x = .ok a) : x.toOption = y.toOption := by
  rcases hx : x with e | a
  · rcases hy : y with e' | b
    · rfl
    · rw [hyx b hy] at hx
      cases hx
  · rw [hxy a hx]

/-- For all orders of the catalogs, of their instruments, of the configured lists and of the
maps there is one run and one revision, or none; and a run is sound, with counts that pass. -/
theorem common_universe (o o' : MapOrder) (sha256 : Text → Vector UInt8 32) (aliases : Option Aliases)
    (hcatalogs : Listing.Reordered VenueCatalog.Reordered catalogs catalogs') (hcfg : cfg.Reordered cfg') :
    (BuildCommonPerpetualUniverse o catalogs cfg aliases).toOption =
        (BuildCommonPerpetualUniverse o' catalogs' cfg' aliases).toOption ∧
      (∀ mappingRevision selected selected' capacity, selected.Perm selected' →
        (SelectionRevision sha256 cfg mappingRevision selected capacity).toOption =
          (SelectionRevision sha256 cfg' mappingRevision selected' capacity).toOption) ∧
      ∀ r, BuildCommonPerpetualUniverse o catalogs cfg aliases = .ok r →
        Sound cfg r ∧ ∀ run : PerpetualUniverseRun, run.Reports cfg r →
          ∀ jsonValid, run.Validate jsonValid = run.validateTexts jsonValid := by
  refine ⟨?_, fun mappingRevision selected selected' capacity hselected => ?_, fun r h => ?_⟩
  · cases aliases with
    | none => rfl
    | some aliases =>
        exact toOption_congr (fun r h => build_reordered hcatalogs hcfg h)
          fun r h => build_reordered (hcatalogs.symm fun _ _ hcd => hcd.symm) hcfg.symm h
  · exact toOption_congr (fun x h => revision_reordered hcfg hselected h)
      fun x h => revision_reordered hcfg.symm hselected.symm h
  · cases aliases with
    | none => cases h
    | some aliases =>
        refine ⟨build_sound h, fun run hrun jsonValid => ?_⟩
        unfold PerpetualUniverseRun.Validate
        rw [build_counts h hrun]
        rcases run.validateTexts jsonValid with e | t
        · rfl
        · rfl

def sampleInstrument (venue : Text) : Instrument where
  id := 0
  exchange := venue
  marketType := MarketPerpetual
  exchangeSymbol := text "BTCUSDT"
  venueContractVersion := text "1"
  baseAsset := text "BTC"
  quoteAsset := text "USDT"
  settleAsset := some (text "USDT")
  contractMultiplier := Decimal.ofInt 1
  priceTickSize := Decimal.ofInt 1
  quantityStepSize := Decimal.ofInt 1
  expiryTime := none

def sampleCatalogs : List VenueCatalog :=
  [text "Binance", text "OKX"].map fun venue => ⟨venue, [sampleInstrument venue]⟩

def sampleConfig : SelectionConfig where
  venues := [⟨text "Binance", Auto, [], [], 100, 50⟩, ⟨text "OKX", Explicit, [text "BTCUSDT"], [], 100, 50⟩]
  includes := []
  excludes := []

def noAliases : Aliases := ⟨[], [], List.nodup_nil⟩

def inOrder : MapOrder := ⟨id, fun l => List.Perm.refl l⟩

def backwards : MapOrder := ⟨List.reverse, fun l => List.reverse_perm l⟩

theorem reordered_reverse {α : Type} {R : α → α → Prop} (hR : ∀ a, R a a) (l : List α) :
    Listing.Reordered R l l.reverse :=
  ⟨l, List.forall₂_same.2 fun a _ => hR a, (List.reverse_perm l).symm⟩

/-- Two venues that share one market, and both listed the other way round. -/
theorem common_universe_twoVenues :
    (BuildCommonPerpetualUniverse inOrder sampleCatalogs sampleConfig (some noAliases)).toOption.map
        (fun r => (r.groupCount, r.selected.length)) = some (1, 2) ∧
      (BuildCommonPerpetualUniverse inOrder sampleCatalogs sampleConfig (some noAliases)).toOption =
        (BuildCommonPerpetualUniverse backwards sampleCatalogs.reverse
          { sampleConfig with venues := sampleConfig.venues.reverse } (some noAliases)).toOption := by
  constructor
  · decide +kernel
  · have hcatalogs : Listing.Reordered VenueCatalog.Reordered sampleCatalogs sampleCatalogs.reverse :=
      reordered_reverse (fun c => ⟨rfl, List.Perm.refl _⟩) _
    have hcfg : sampleConfig.Reordered { sampleConfig with venues := sampleConfig.venues.reverse } :=
      ⟨reordered_reverse (fun v => ⟨rfl, rfl, rfl, rfl, List.Perm.refl _, List.Perm.refl _⟩) _, List.Perm.refl _,
        List.Perm.refl _⟩
    exact (common_universe inOrder backwards (fun _ => Vector.replicate 32 0) (some noAliases) hcatalogs hcfg).1

end Universe

end MarketInfo
