import MarketInfo.Universe.Laws

/-! # The selection

A run depends on the catalogs and lists as collections only: when the selection succeeds is
told without an order, and what it gives then is one function of the kept instruments.
-/

namespace MarketInfo

open Json (Text)
open Check (failIf checkAll)
open Grouping (under)

namespace Universe

/-! ## The groups -/

/-- Instruments under one key. -/
abbrev sharing (key : Text) (l : List SelectedInstrument) : List SelectedInstrument :=
  under SelectedInstrument.key key l

/-- The kept instruments whose group is selected. -/
def chosenOf (cfg : SelectionConfig) (l : List SelectedInstrument) : List SelectedInstrument :=
  l.filter fun s => Chosen cfg s.key (sharing s.key l).length

theorem foldl_choose (cfg : SelectionConfig) (gs : List (Text × List SelectedInstrument)) (c : Choice) :
    gs.foldl (choose cfg.includes cfg.excludes) c = {
      ignored := c.ignored + gs.countP fun g => decide (g.2.length < 2)
      groupCount := c.groupCount + gs.countP fun g => Chosen cfg g.1 g.2.length
      matched := c.matched ++ (gs.filter fun g => decide (2 ≤ g.2.length)).map Prod.fst
      selected := c.selected ++ (gs.filter fun g => Chosen cfg g.1 g.2.length).flatMap Prod.snd } := by
  induction gs generalizing c with
  | nil => simp
  | cons g rest ih =>
      rw [List.foldl_cons, ih]
      unfold choose
      simp only [List.countP_cons, List.filter_cons]
      by_cases hsize : g.2.length < 2
      · have hshared : decide (2 ≤ g.2.length) = false := decide_eq_false (not_le.2 hsize)
        have hchosen : Chosen cfg g.1 g.2.length = false := by rw [Chosen, hshared, Bool.false_and]
        simp only [if_pos hsize, hshared, hchosen, decide_eq_true hsize, if_true, Bool.false_eq_true, if_false,
          Nat.add_zero]
        rw [Nat.add_assoc, Nat.add_comm 1]
      · have hshared : decide (2 ≤ g.2.length) = true := decide_eq_true (not_lt.1 hsize)
        by_cases hleft : (cfg.includes ≠ [] ∧ g.1 ∉ cfg.includes) ∨ g.1 ∈ cfg.excludes
        · have hchosen : Chosen cfg g.1 g.2.length = false := by
            rw [Chosen, decide_eq_true hleft, Bool.not_true, Bool.and_false]
          simp only [if_neg hsize, if_pos hleft, hshared, hchosen, decide_eq_false hsize, if_true,
            Bool.false_eq_true, if_false, Nat.add_zero, List.map_cons, List.append_assoc, List.singleton_append]
        · have hchosen : Chosen cfg g.1 g.2.length = true := by
            rw [Chosen, hshared, decide_eq_false hleft, Bool.not_false, Bool.and_true]
          simp only [if_neg hsize, if_neg hleft, hshared, hchosen, decide_eq_false hsize, if_true,
            Bool.false_eq_true, if_false, Nat.add_zero, List.map_cons, List.append_assoc, List.singleton_append,
            List.flatMap_cons]
          rw [Nat.add_assoc, Nat.add_comm 1]

theorem foldl_dropRequired (selected : List SelectedInstrument) (required : List (Text × List Text)) :
    selected.foldl dropRequired required = required.map fun r => (r.1, r.2.filter fun x =>
      decide (∀ s ∈ selected, r.1 = s.instrument.exchange → x ≠ s.instrument.exchangeSymbol)) := by
  induction selected generalizing required with
  | nil => simp
  | cons s rest ih =>
      rw [List.foldl_cons, ih]
      unfold dropRequired
      rw [List.map_map]
      refine List.map_congr_left fun r _ => ?_
      rw [Function.comp_apply]
      by_cases hvenue : r.1 = s.instrument.exchange
      · rw [if_pos hvenue, List.filter_filter]
        refine congrArg (Prod.mk r.1) (List.filter_congr fun x _ => ?_)
        simp [hvenue, Bool.and_comm]
      · rw [if_neg hvenue]
        refine congrArg (Prod.mk r.1) (List.filter_congr fun x _ => ?_)
        simp [hvenue]

/-! ## What a run is made of -/

/-- All instruments of the catalogs, resolved. -/
def resolvedOf (aliases : Aliases) (items : VenueSelectionConfig → List Instrument)
    (vs : List VenueSelectionConfig) : List SelectedInstrument :=
  vs.flatMap fun v => (items v).map aliases.resolution

/-- Those that the venues' lists keep. -/
def keptOf (aliases : Aliases) (items : VenueSelectionConfig → List Instrument)
    (vs : List VenueSelectionConfig) : List SelectedInstrument :=
  vs.flatMap fun v => v.kept aliases (items v)

def hitsOf (aliases : Aliases) (items : VenueSelectionConfig → List Instrument)
    (vs : List VenueSelectionConfig) : List AliasKey :=
  vs.flatMap fun v => aliases.hits (items v)

/-- The run of a normalized configuration. -/
def outcome (cfg : SelectionConfig) (aliases : Aliases) (items : VenueSelectionConfig → List Instrument) :
    Result :=
  let l := keptOf aliases items cfg.venues
  let selected := Listing.sortBy selectedLess (chosenOf cfg l)
  { mappingRevision := aliases.revision
    selected
    venues := cfg.venues.map fun v => { v.summary aliases (items v) with
      selected := selected.countP fun s => decide (s.instrument.exchange = v.venue) }
    groupCount := (l.map SelectedInstrument.key).dedup.countP fun k => Chosen cfg k (sharing k l).length
    ignoredSingleVenueGroups :=
      (l.map SelectedInstrument.key).dedup.countP fun k => decide ((sharing k l).length < 2)
    identityCount := selected.countP fun s => decide (s.mappingKind ≠ text "alias")
    aliasCount := selected.countP fun s => decide (s.mappingKind = text "alias")
    warnings := Listing.sortBy textLess ((cfg.venues.flatMap fun v => v.stale (items v)) ++
      ((cfg.excludes.filter fun key => decide ((sharing key l).length < 2)).map fun key =>
        text "stale canonical exclude: " ++ key) ++
      ((aliases.entries.filter fun e => decide (e.1 ∉ hitsOf aliases items cfg.venues)).map fun e =>
        text "unmatched historical alias: " ++ e.1.exchange ++ text " " ++ e.1.symbol ++ text " version " ++
          e.1.version))
    potentialAliases := potentialAliases (Listing.sortBy (fun a b => identityLess a.instrument b.instrument)
      (resolvedOf aliases items cfg.venues)) }

/-- What the kept instruments have to bear out. -/
structure Meets (cfg : SelectionConfig) (l : List SelectedInstrument) : Prop where
  shared : ∀ key ∈ cfg.includes, 2 ≤ (sharing key l).length
  required : ∀ v ∈ cfg.venues, v.mode = Explicit → ∀ x ∈ v.includes,
    ∃ s ∈ chosenOf cfg l, s.instrument.exchange = v.venue ∧ s.instrument.exchangeSymbol = x

/-- No two instruments have one identity. -/
def Apart (l : List SelectedInstrument) : Prop :=
  ∀ a ∈ l, ∀ b ∈ l, instrumentRank a.instrument = instrumentRank b.instrument → a = b

theorem Apart.selectedRank {l : List SelectedInstrument} (h : Apart l) :
    ∀ a ∈ l, ∀ b ∈ l, Universe.selectedRank a = Universe.selectedRank b → a = b := by
  intro a ha b hb heq
  exact h a ha b hb (congrArg Prod.snd (congrArg ofLex heq))

theorem sort_selected {l m : List SelectedInstrument} (h : Apart l) (hp : l.Perm m) :
    Listing.sortBy selectedLess l = Listing.sortBy selectedLess m :=
  Listing.sortBy_eq_of_perm selectedLess_iff hp h.selectedRank

theorem finish_eq_ok {o : MapOrder} {cfg : SelectionConfig} {aliases : Aliases}
    {items : VenueSelectionConfig → List Instrument} {r : Result}
    (hapart : Apart (keptOf aliases items cfg.venues)) :
    finish o cfg aliases ((⟨[], [], [], [], [], []⟩ : Walk).after aliases items cfg.venues) = .ok r ↔
      Meets cfg (keptOf aliases items cfg.venues) ∧ r = outcome cfg aliases items := by
  have hgroups := Grouping.groups_group SelectedInstrument.key (keptOf aliases items cfg.venues)
  have hrange := o.perm (Grouping.group SelectedInstrument.key (keptOf aliases items cfg.venues))
  have hmatched : ∀ k, k ∈ ((o.range (Grouping.group SelectedInstrument.key (keptOf aliases items cfg.venues))).filter
      fun g => decide (2 ≤ g.2.length)).map Prod.fst ↔ 2 ≤ (sharing k (keptOf aliases items cfg.venues)).length := by
    intro k
    rw [((hrange.filter _).map _).mem_iff, List.mem_map]
    constructor
    · rintro ⟨g, hg, rfl⟩
      rcases List.mem_filter.1 hg with ⟨hg, hsize⟩
      have hunder : g.2 = sharing g.1 (keptOf aliases items cfg.venues) := ((hgroups.mem g).1 hg).1
      rw [← hunder]
      exact of_decide_eq_true hsize
    · intro hsize
      refine ⟨(k, sharing k (keptOf aliases items cfg.venues)), List.mem_filter.2 ⟨(hgroups.mem _).2 ⟨rfl, ?_⟩,
        decide_eq_true hsize⟩, rfl⟩
      intro hnil
      have hzero := congrArg List.length hnil
      dsimp only at hzero
      rw [hzero] at hsize
      exact absurd hsize (by decide)
  have hselected : (((o.range (Grouping.group SelectedInstrument.key (keptOf aliases items cfg.venues))).filter
      fun g => Chosen cfg g.1 g.2.length).flatMap Prod.snd).Perm (chosenOf cfg (keptOf aliases items cfg.venues)) :=
    ((hrange.filter _).flatMap_right _).trans (Grouping.chosen_perm hgroups (Chosen cfg))
  have hchosen : Apart (chosenOf cfg (keptOf aliases items cfg.venues)) := fun a ha b hb =>
    hapart a (List.mem_filter.1 ha).1 b (List.mem_filter.1 hb).1
  have hsorted := (sort_selected hchosen hselected.symm).symm
  have hunmatched := (o.perm aliases.entries).filter fun e => decide (e.1 ∉ hitsOf aliases items cfg.venues)
  have hignored := hgroups.countP_eq fun _ n => decide (n < 2)
  have hcount := hgroups.countP_eq (Chosen cfg)
  have hw : ((⟨[], [], [], [], [], []⟩ : Walk).after aliases items cfg.venues) = {
      groups := Grouping.group SelectedInstrument.key (keptOf aliases items cfg.venues)
      hitAliases := hitsOf aliases items cfg.venues
      all := resolvedOf aliases items cfg.venues
      rawRequired := cfg.venues.flatMap VenueSelectionConfig.required
      venues := cfg.venues.map fun v => v.summary aliases (items v)
      warnings := cfg.venues.flatMap fun v => v.stale (items v) } := rfl
  rw [hw]
  unfold finish
  dsimp only
  rw [foldl_choose]
  simp only [List.nil_append, Nat.zero_add]
  rw [hsorted, foldl_dropRequired, Check.seq_eq_ok, Check.checkAll_eq_ok, Check.seq_eq_ok, Check.checkAll_eq_ok]
  simp only [Check.failIf_eq_ok, not_not, hmatched, hrange.countP_eq, hignored, hcount]
  have hrequired : (∀ x ∈ o.range ((cfg.venues.flatMap VenueSelectionConfig.required).map fun r =>
        (r.1, r.2.filter fun x => decide (∀ s ∈ Listing.sortBy selectedLess
          (chosenOf cfg (keptOf aliases items cfg.venues)), r.1 = s.instrument.exchange →
            x ≠ s.instrument.exchangeSymbol))), x.2 = []) ↔
      ∀ v ∈ cfg.venues, v.mode = Explicit → ∀ x ∈ v.includes, ∃ s ∈ chosenOf cfg (keptOf aliases items cfg.venues),
        s.instrument.exchange = v.venue ∧ s.instrument.exchangeSymbol = x := by
    simp only [(o.perm _).mem_iff, List.mem_map, List.mem_flatMap, Listing.mem_sortBy]
    constructor
    · intro h v hv hexplicit x hx
      have hentry : (v.venue, v.includes) ∈ v.required := by
        unfold VenueSelectionConfig.required
        rw [if_pos hexplicit]
        exact List.mem_singleton_self _
      have hnil := h _ ⟨_, ⟨v, hv, hentry⟩, rfl⟩
      have hdropped := List.filter_eq_nil_iff.1 hnil x hx
      rw [decide_eq_true_eq] at hdropped
      push Not at hdropped
      rcases hdropped with ⟨s, hs, hvenue, hsymbol⟩
      exact ⟨s, hs, hvenue.symm, hsymbol.symm⟩
    · rintro h _ ⟨r, ⟨v, hv, hr⟩, rfl⟩
      unfold VenueSelectionConfig.required at hr
      by_cases hexplicit : v.mode = Explicit
      · rw [if_pos hexplicit] at hr
        rw [List.mem_singleton.1 hr]
        refine List.filter_eq_nil_iff.2 fun x hx hkeep => ?_
        rcases h v hv hexplicit x hx with ⟨s, hs, hvenue, hsymbol⟩
        exact of_decide_eq_true hkeep s hs hvenue.symm hsymbol.symm
      · rw [if_neg hexplicit] at hr
        exact absurd hr List.not_mem_nil
  rw [hrequired]
  have hwarnings : ∀ stale : List Text, Listing.sortBy textLess (stale ++
      ((o.range aliases.entries).filter fun e => decide (e.1 ∉ hitsOf aliases items cfg.venues)).map fun e =>
        text "unmatched historical alias: " ++ e.1.exchange ++ text " " ++ e.1.symbol ++ text " version " ++
          e.1.version) = Listing.sortBy textLess (stale ++
      (aliases.entries.filter fun e => decide (e.1 ∉ hitsOf aliases items cfg.venues)).map fun e =>
        text "unmatched historical alias: " ++ e.1.exchange ++ text " " ++ e.1.symbol ++ text " version " ++
          e.1.version) := fun stale => sort_texts ((hunmatched.map _).append_left stale)
  rw [hwarnings, List.map_map]
  simp only [not_le]
  constructor
  · rintro ⟨hshared, hneeded, h⟩
    exact ⟨⟨hshared, hneeded⟩, (Except.ok.inj h).symm⟩
  · rintro ⟨hmeets, rfl⟩
    exact ⟨hmeets.shared, hmeets.required, rfl⟩

/-! ## Other orders -/

/-- A catalog with its instruments in another order. -/
def VenueCatalog.Reordered (c d : VenueCatalog) : Prop :=
  c.venue = d.venue ∧ c.instruments.Perm d.instruments

/-- A venue's configuration with its lists in another order. -/
structure VenueSelectionConfig.Reordered (v w : VenueSelectionConfig) : Prop where
  venue : v.venue = w.venue
  mode : v.mode = w.mode
  topicsPerConnection : v.topicsPerConnection = w.topicsPerConnection
  maxInstruments : v.maxInstruments = w.maxInstruments
  includes : v.includes.Perm w.includes
  excludes : v.excludes.Perm w.excludes

/-- A configuration with its lists in another order. -/
structure SelectionConfig.Reordered (c d : SelectionConfig) : Prop where
  venues : Listing.Reordered VenueSelectionConfig.Reordered c.venues d.venues
  includes : c.includes.Perm d.includes
  excludes : c.excludes.Perm d.excludes

theorem VenueSelectionConfig.Reordered.symm {v w : VenueSelectionConfig} (h : v.Reordered w) : w.Reordered v :=
  ⟨h.venue.symm, h.mode.symm, h.topicsPerConnection.symm, h.maxInstruments.symm, h.includes.symm,
    h.excludes.symm⟩

theorem SelectionConfig.Reordered.symm {c d : SelectionConfig} (h : c.Reordered d) : d.Reordered c :=
  ⟨Listing.Reordered.symm (fun _ _ h => h.symm) h.venues, h.includes.symm, h.excludes.symm⟩

theorem VenueCatalog.Reordered.symm {c d : VenueCatalog} (h : c.Reordered d) : d.Reordered c :=
  ⟨h.1.symm, h.2.symm⟩

theorem VenueSelectionConfig.Reordered.sorted {v w : VenueSelectionConfig} (h : v.Reordered w) :
    v.sorted = w.sorted := by
  unfold VenueSelectionConfig.sorted
  rw [h.venue, h.mode, h.topicsPerConnection, h.maxInstruments, sort_texts h.includes, sort_texts h.excludes]

theorem sort_venues (vs : List VenueSelectionConfig) :
    (Listing.sortBy venueLess vs).map VenueSelectionConfig.sorted =
      Listing.sortBy venueLess (vs.map VenueSelectionConfig.sorted) :=
  List.map_insertionSort _ _ _ _ fun _ _ _ _ => Iff.rfl

theorem venueLess_iff (a b : VenueSelectionConfig) : venueLess a b = true ↔ a.venue < b.venue := by
  simp [venueLess]

/-- A configuration that passes has venues of different names. -/
theorem normalizeConfig_eq_ok {c n : SelectionConfig} (h : normalizeConfig c = .ok n) :
    (c.venues.map VenueSelectionConfig.venue).Nodup ∧ (∀ v ∈ c.venues, v.Valid) ∧
      n = ⟨Listing.sortBy venueLess (c.venues.map VenueSelectionConfig.sorted),
        Listing.sortBy textLess c.includes, Listing.sortBy textLess c.excludes⟩ ∧
      (enabled n.venues).length ≠ 1 ∧ ∀ k ∈ c.excludes, k ∉ c.includes := by
  unfold normalizeConfig at h
  rw [Check.andThen_eq_ok] at h
  rcases h with ⟨venues, hvenues, h⟩
  rw [Check.seq_eq_ok, Check.andThen_eq_ok] at h
  rcases h with ⟨henabled, includes, hincludes, h⟩
  rw [Check.andThen_eq_ok] at h
  rcases h with ⟨excludes, hexcludes, h⟩
  rw [Check.seq_eq_ok] at h
  rcases h with ⟨hoverlap, h⟩
  rw [Check.failIf_eq_ok] at henabled hoverlap
  rcases normalizeVenues_eq_ok hvenues List.nodup_nil with ⟨hvalid, hnodup, rfl⟩
  have hin := normalizedList_eq_ok hincludes
  have hex := normalizedList_eq_ok hexcludes
  subst hin hex
  have hn := (Except.ok.inj h).symm
  rw [sort_venues] at hn henabled
  rw [Bool.not_eq_true, overlap_eq_false] at hoverlap
  refine ⟨?_, fun v hv => hvalid v (Listing.mem_sortBy.2 hv), hn, ?_, ?_⟩
  · exact ((Listing.sortBy_perm venueLess c.venues).map _).nodup_iff.1 hnodup
  · rw [hn]
    exact henabled
  · intro k hk hmem
    exact hoverlap k (Listing.mem_sortBy.2 hk) (Listing.mem_sortBy.2 hmem)

/-- A configuration in another order is normalized alike. -/
theorem normalizeConfig_reordered {c d n : SelectionConfig} (h : c.Reordered d) (hc : normalizeConfig c = .ok n) :
    normalizeConfig d = .ok n := by
  have hnames := (normalizeConfig_eq_ok hc).1
  have hsort : Listing.sortBy venueLess (c.venues.map VenueSelectionConfig.sorted) =
      Listing.sortBy venueLess (d.venues.map VenueSelectionConfig.sorted) := by
    have hperm := h.venues.map_perm fun _ _ hvw => VenueSelectionConfig.Reordered.sorted hvw
    refine Listing.sortBy_eq_of_perm venueLess_iff hperm ?_
    have hsorted : ((c.venues.map VenueSelectionConfig.sorted).map VenueSelectionConfig.venue).Nodup := by
      rw [List.map_map]
      exact hnames
    exact fun a ha b hb heq => List.inj_on_of_nodup_map hsorted ha hb heq
  rw [← hc]
  unfold normalizeConfig
  rw [← normalizeVenues_sorted [] (Listing.sortBy venueLess d.venues),
    ← normalizeVenues_sorted [] (Listing.sortBy venueLess c.venues), sort_venues, sort_venues, hsort,
    normalizedList_congr h.includes, normalizedList_congr h.excludes]

/-! ## Catalogs in another order -/

/-- Catalogs that hold the same instruments for every venue. -/
def SameItems (items items' : VenueSelectionConfig → List Instrument) : Prop := ∀ v, (items v).Perm (items' v)

theorem lookup_iff {m : List (Text × List Instrument)} (h : (m.map Prod.fst).Nodup) (k : Text)
    (x : List Instrument) : m.lookup k = some x ↔ (k, x) ∈ m := by
  rw [List.lookup_eq_some_iff]
  constructor
  · rintro ⟨l₁, l₂, rfl, -⟩
    exact List.mem_append_right _ List.mem_cons_self
  · intro hmem
    rcases List.append_of_mem hmem with ⟨l₁, l₂, rfl⟩
    refine ⟨l₁, l₂, rfl, fun p hp => ?_⟩
    rw [List.map_append, List.map_cons] at h
    have hne := (List.nodup_append.1 h).2.2 _ (List.mem_map_of_mem hp) _ List.mem_cons_self
    exact bne_iff_ne.2 (Ne.symm hne)

theorem lookup_reordered {catalogs catalogs' : List VenueCatalog}
    (h : Listing.Reordered VenueCatalog.Reordered catalogs catalogs')
    (hnames : (catalogs.map VenueCatalog.venue).Nodup) (k : Text) :
    Option.Rel List.Perm ((catalogs.map VenueCatalog.entry).lookup k)
      ((catalogs'.map VenueCatalog.entry).lookup k) := by
  have hnames' : (catalogs'.map VenueCatalog.venue).Nodup :=
    (h.map_perm fun _ _ hcd => hcd.1).nodup_iff.1 hnames
  have hkeys : ∀ {cs : List VenueCatalog}, (cs.map VenueCatalog.venue).Nodup →
      ((cs.map VenueCatalog.entry).map Prod.fst).Nodup := by
    intro cs hcs
    rw [List.map_map]
    exact hcs
  have hfound : ∀ {cs ds : List VenueCatalog}, Listing.Reordered VenueCatalog.Reordered cs ds →
      (cs.map VenueCatalog.venue).Nodup → (ds.map VenueCatalog.venue).Nodup → ∀ x,
      (cs.map VenueCatalog.entry).lookup k = some x →
        ∃ y, (ds.map VenueCatalog.entry).lookup k = some y ∧ x.Perm y := by
    intro cs ds hcd hcs hds x hx
    rcases List.mem_map.1 ((lookup_iff (hkeys hcs) k x).1 hx) with ⟨c, hc, heq⟩
    rcases hcd.exists_mem hc with ⟨d, hd, hvenue, hperm⟩
    cases heq
    refine ⟨d.instruments, (lookup_iff (hkeys hds) _ _).2 (List.mem_map.2 ⟨d, hd, ?_⟩), hperm⟩
    unfold VenueCatalog.entry
    rw [hvenue]
  rcases hx : (catalogs.map VenueCatalog.entry).lookup k with _ | x
  · rcases hy : (catalogs'.map VenueCatalog.entry).lookup k with _ | y
    · exact Option.Rel.none
    · rcases hfound (h.symm fun _ _ hcd => hcd.symm) hnames' hnames y hy with ⟨x, hx', -⟩
      rw [hx] at hx'
      cases hx'
  · rcases hfound h hnames hnames' x hx with ⟨y, hy, hperm⟩
    rw [hy]
    exact Option.Rel.some hperm

theorem sameItems_reordered {catalogs catalogs' : List VenueCatalog}
    (h : Listing.Reordered VenueCatalog.Reordered catalogs catalogs')
    (hnames : (catalogs.map VenueCatalog.venue).Nodup) :
    SameItems (itemsOf (catalogs.map VenueCatalog.entry)) (itemsOf (catalogs'.map VenueCatalog.entry)) := by
  intro v
  unfold itemsOf
  by_cases hdisabled : v.mode = Disabled
  · rw [if_pos hdisabled, if_pos hdisabled]
  · rw [if_neg hdisabled, if_neg hdisabled]
    have hrel := lookup_reordered h hnames v.venue
    generalize (catalogs.map VenueCatalog.entry).lookup v.venue = x at hrel
    generalize (catalogs'.map VenueCatalog.entry).lookup v.venue = y at hrel
    cases hrel with
    | some hperm => exact hperm
    | none => exact List.Perm.refl _

/-! ## What does not depend on an order -/

variable {cfg : SelectionConfig} {aliases : Aliases} {items items' : VenueSelectionConfig → List Instrument}
  {v : VenueSelectionConfig} {vs : List VenueSelectionConfig}

theorem SameItems.kept (h : SameItems items items') (v : VenueSelectionConfig) :
    (v.kept aliases (items v)).Perm (v.kept aliases (items' v)) :=
  ((h v).filter _).map _

theorem SameItems.listed (h : SameItems items items') (hlisted : Listed aliases v (items v)) :
    Listed aliases v (items' v) where
  fits i hi := hlisted.fits i ((h v).mem_iff.2 hi)
  symbols := ((h v).map _).nodup_iff.1 hlisted.symbols
  keys := ((h.kept v).map _).nodup_iff.1 hlisted.keys
  includes s hs := ((h v).map _).mem_iff.1 (hlisted.includes s hs)

theorem SameItems.keptOf (h : SameItems items items') (vs : List VenueSelectionConfig) :
    (keptOf aliases items vs).Perm (Universe.keptOf aliases items' vs) :=
  List.Perm.flatMap_left vs fun v _ => h.kept v

theorem SameItems.resolvedOf (h : SameItems items items') (vs : List VenueSelectionConfig) :
    (resolvedOf aliases items vs).Perm (Universe.resolvedOf aliases items' vs) :=
  List.Perm.flatMap_left vs fun v _ => (h v).map _

theorem SameItems.hitsOf (h : SameItems items items') (vs : List VenueSelectionConfig) :
    (hitsOf aliases items vs).Perm (Universe.hitsOf aliases items' vs) :=
  List.Perm.flatMap_left vs fun v _ => (h v).flatMap_right _

theorem SameItems.stale (h : SameItems items items') (v : VenueSelectionConfig) :
    v.stale (items v) = v.stale (items' v) := by
  unfold VenueSelectionConfig.stale
  simp only [((h v).map Instrument.exchangeSymbol).mem_iff]

theorem SameItems.summary (h : SameItems items items') (v : VenueSelectionConfig) :
    v.summary aliases (items v) = v.summary aliases (items' v) := by
  unfold VenueSelectionConfig.summary
  rw [(h v).length_eq, (h.kept v).length_eq]

theorem chosenOf_perm {l m : List SelectedInstrument} (h : l.Perm m) :
    (chosenOf cfg l).Perm (chosenOf cfg m) := by
  unfold chosenOf
  simp only [Grouping.length_under SelectedInstrument.key h]
  exact h.filter _

theorem Meets.perm {l m : List SelectedInstrument} (h : l.Perm m) (hmeets : Meets cfg l) : Meets cfg m where
  shared key hkey := Grouping.length_under SelectedInstrument.key h key ▸ hmeets.shared key hkey
  required v hv hexplicit x hx := by
    rcases hmeets.required v hv hexplicit x hx with ⟨s, hs, hsame⟩
    exact ⟨s, (chosenOf_perm h).mem_iff.1 hs, hsame⟩

/-- One instrument of the walk, and the venue in whose catalog it stands. -/
theorem mem_resolvedOf {s : SelectedInstrument} :
    s ∈ resolvedOf aliases items vs ↔ ∃ v ∈ vs, ∃ i ∈ items v, aliases.resolution i = s := by
  simp [resolvedOf]

theorem mem_keptOf {s : SelectedInstrument} :
    s ∈ keptOf aliases items vs ↔ ∃ v ∈ vs, ∃ i ∈ items v, ¬ v.Skips i ∧ aliases.resolution i = s := by
  simp [keptOf, VenueSelectionConfig.kept, and_assoc]

theorem keptOf_sub : keptOf aliases items vs ⊆ resolvedOf aliases items vs := by
  intro s hs
  rcases mem_keptOf.1 hs with ⟨v, hv, i, hi, -, hres⟩
  exact mem_resolvedOf.2 ⟨v, hv, i, hi, hres⟩

/-- Catalogs without a mistake tell their instruments apart. -/
theorem apart_resolvedOf (hnames : (vs.map VenueSelectionConfig.venue).Nodup)
    (hlisted : ∀ v ∈ vs, Listed aliases v (items v)) : Apart (resolvedOf aliases items vs) := by
  intro a ha b hb heq
  rcases mem_resolvedOf.1 ha with ⟨v, hv, i, hi, rfl⟩
  rcases mem_resolvedOf.1 hb with ⟨w, hw, j, hj, rfl⟩
  rw [resolution_instrument, resolution_instrument] at heq
  rcases identityRank_inj heq with ⟨hexchange, -, hsymbol, -⟩
  have hvenue : v.venue = w.venue := by
    rw [← ((hlisted v hv).fits i hi).exchange, ← ((hlisted w hw).fits j hj).exchange, hexchange]
  have hvw : v = w := List.inj_on_of_nodup_map hnames hv hw hvenue
  subst hvw
  rw [List.inj_on_of_nodup_map (hlisted v hv).symbols hi hj hsymbol]

theorem Apart.sub {l m : List SelectedInstrument} (h : Apart m) (hsub : l ⊆ m) : Apart l :=
  fun a ha b hb => h a (hsub ha) b (hsub hb)

/-- The run is the same. -/
theorem outcome_congr (h : SameItems items items') (hapart : Apart (resolvedOf aliases items cfg.venues)) :
    outcome cfg aliases items = outcome cfg aliases items' := by
  have hkept : (keptOf aliases items cfg.venues).Perm (keptOf aliases items' cfg.venues) := h.keptOf cfg.venues
  have hapartKept := hapart.sub keptOf_sub
  have hchosen : Apart (chosenOf cfg (keptOf aliases items cfg.venues)) :=
    hapartKept.sub fun s hs => (List.mem_filter.1 hs).1
  have hselected := sort_selected hchosen (chosenOf_perm hkept)
  have hall : Listing.sortBy (fun a b => identityLess a.instrument b.instrument)
      (resolvedOf aliases items cfg.venues) = Listing.sortBy (fun a b => identityLess a.instrument b.instrument)
      (resolvedOf aliases items' cfg.venues) :=
    @Listing.sortBy_eq_of_perm SelectedInstrument _ _ (fun s => instrumentRank s.instrument) _
      (fun a b => identityLess_iff _ _) _ _ (h.resolvedOf cfg.venues) hapart
  have hkeys := (hkept.map SelectedInstrument.key).dedup
  unfold outcome
  dsimp only
  rw [hselected, hall, hkeys.countP_eq, hkeys.countP_eq]
  simp only [Grouping.length_under SelectedInstrument.key hkept, h.stale, h.summary, (h.hitsOf cfg.venues).mem_iff]

end Universe

end MarketInfo
