import MarketInfo.Universe.Perpetual

/-! # What selection computes

When the walk over the catalogs succeeds, and what it has collected then, as maps and
filters of the instruments. No order of a catalog, a list or a map is left in these.
-/

namespace MarketInfo

open Json (Text)
open Check (failIf checkAll)

namespace Universe

/-! ## Orders -/

/-- The order of `compareIdentity`. -/
def identityRank (a : Text) (am : MarketType) (as av : Text) : Text ×ₗ Text ×ₗ Text ×ₗ Text :=
  toLex (a, toLex (am, toLex (as, av)))

theorem compareIdentity_iff (a : Text) (am : MarketType) (as av : Text) (b : Text) (bm : MarketType)
    (bs bv : Text) :
    compareIdentity a am as av b bm bs bv = true ↔ identityRank a am as av < identityRank b bm bs bv := by
  unfold compareIdentity identityRank
  rw [Prod.Lex.toLex_lt_toLex, Prod.Lex.toLex_lt_toLex, Prod.Lex.toLex_lt_toLex]
  by_cases ha : a = b
  · subst ha
    by_cases hm : am = bm
    · subst hm
      by_cases hs : as = bs
      · subst hs
        simp
      · simp [hs]
    · simp [hm]
  · simp [ha]

theorem identityRank_inj {a : Text} {am : MarketType} {as av b : Text} {bm : MarketType} {bs bv : Text}
    (h : identityRank a am as av = identityRank b bm bs bv) : a = b ∧ am = bm ∧ as = bs ∧ av = bv := by
  have h₁ := congrArg ofLex h
  have h₂ := congrArg ofLex (congrArg Prod.snd h₁)
  have h₃ := congrArg ofLex (congrArg Prod.snd h₂)
  exact ⟨congrArg Prod.fst h₁, congrArg Prod.fst h₂, congrArg Prod.fst h₃, congrArg Prod.snd h₃⟩

theorem textLess_iff (a b : Text) : textLess a b = true ↔ id a < id b := by
  simp [textLess]

theorem sort_texts {l m : List Text} (h : l.Perm m) :
    Listing.sortBy textLess l = Listing.sortBy textLess m :=
  Listing.sortBy_eq_of_perm textLess_iff h fun _ _ _ _ heq => heq

def instrumentRank (i : Instrument) : Text ×ₗ Text ×ₗ Text ×ₗ Text :=
  identityRank i.exchange i.marketType i.exchangeSymbol i.venueContractVersion

theorem identityLess_iff (a b : Instrument) :
    identityLess a b = true ↔ instrumentRank a < instrumentRank b :=
  compareIdentity_iff _ _ _ _ _ _ _ _

def selectedRank (s : SelectedInstrument) : Text ×ₗ (Text ×ₗ Text ×ₗ Text ×ₗ Text) :=
  toLex (s.key, instrumentRank s.instrument)

theorem selectedLess_iff (a b : SelectedInstrument) :
    selectedLess a b = true ↔ selectedRank a < selectedRank b := by
  unfold selectedLess selectedRank
  rw [Prod.Lex.toLex_lt_toLex, ← identityLess_iff]
  by_cases h : a.key = b.key
  · simp [h]
  · simp [h]

def Identity.rank (i : Identity) : Text ×ₗ (Text ×ₗ Text ×ₗ Text ×ₗ Text) :=
  toLex (i.key, identityRank i.exchange MarketPerpetual i.symbol i.version)

theorem Identity.less_iff (a b : Identity) : a.less b = true ↔ a.rank < b.rank := by
  unfold Identity.less Identity.rank
  rw [Prod.Lex.toLex_lt_toLex, ← compareIdentity_iff]
  by_cases h : a.key = b.key
  · simp [h]
  · simp [h]

theorem Identity.rank_injective : Function.Injective Identity.rank := by
  intro a b h
  have h₁ := congrArg ofLex h
  have hkey : a.key = b.key := congrArg Prod.fst h₁
  have hrest : identityRank a.exchange MarketPerpetual a.symbol a.version =
      identityRank b.exchange MarketPerpetual b.symbol b.version := congrArg Prod.snd h₁
  rcases identityRank_inj hrest with ⟨hexchange, -, hsymbol, hversion⟩
  cases a
  cases b
  congr

/-! ## Configuration -/

/-- A venue's lists in order. -/
def VenueSelectionConfig.sorted (v : VenueSelectionConfig) : VenueSelectionConfig :=
  { v with includes := Listing.sortBy textLess v.includes, excludes := Listing.sortBy textLess v.excludes }

theorem normalizedList_congr {l m : List Text} (h : l.Perm m) (canonical : Bool) :
    normalizedList l canonical = normalizedList m canonical := by
  unfold normalizedList
  rw [sort_texts h]

theorem normalizedList_eq_ok {l m : List Text} {canonical : Bool} (h : normalizedList l canonical = .ok m) :
    m = Listing.sortBy textLess l := by
  unfold normalizedList at h
  dsimp only at h
  rw [Check.seq_eq_ok] at h
  exact (Except.ok.inj h.2).symm

theorem normalizeVenue_sorted (seen : List Text) (v : VenueSelectionConfig) :
    normalizeVenue seen v.sorted = normalizeVenue seen v := by
  unfold normalizeVenue VenueSelectionConfig.sorted
  dsimp only
  rw [Listing.length_sortBy, normalizedList_congr (Listing.sortBy_perm textLess v.includes),
    normalizedList_congr (Listing.sortBy_perm textLess v.excludes)]

theorem normalizeVenues_sorted (seen : List Text) (vs : List VenueSelectionConfig) :
    normalizeVenues seen (vs.map VenueSelectionConfig.sorted) = normalizeVenues seen vs := by
  induction vs generalizing seen with
  | nil => rfl
  | cons v rest ih =>
      rw [List.map_cons, normalizeVenues, normalizeVenues, normalizeVenue_sorted]
      have hvenue : v.sorted.venue = v.venue := rfl
      rw [hvenue, ih]

/-- What one venue passes, whatever came before it. -/
structure VenueSelectionConfig.Valid (v : VenueSelectionConfig) : Prop where
  named : v.venue ≠ []
  mode : v.mode = Disabled ∨ v.mode = Auto ∨ v.mode = Explicit
  explicit : v.mode = Explicit ↔ v.includes ≠ []
  apart : ∀ s ∈ v.excludes, s ∉ v.includes

theorem overlap_eq_false {a b : List Text} : overlap a b = false ↔ ∀ s ∈ b, s ∉ a := by
  unfold overlap
  rw [List.any_eq_false]
  simp

theorem normalizeVenue_eq_ok {seen : List Text} {v w : VenueSelectionConfig}
    (h : normalizeVenue seen v = .ok w) : v.Valid ∧ v.venue ∉ seen ∧ w = v.sorted := by
  unfold normalizeVenue at h
  rw [Check.seq_eq_ok, Check.seq_eq_ok, Check.seq_eq_ok, Check.andThen_eq_ok] at h
  rcases h with ⟨hname, hmode, hexplicit, includes, hincludes, h⟩
  rw [Check.andThen_eq_ok] at h
  rcases h with ⟨excludes, hexcludes, h⟩
  rw [Check.seq_eq_ok] at h
  rcases h with ⟨hoverlap, h⟩
  rw [Check.failIf_eq_ok] at hname hmode hexplicit hoverlap
  have hin := normalizedList_eq_ok hincludes
  have hex := normalizedList_eq_ok hexcludes
  subst hin hex
  rw [not_or] at hname
  refine ⟨⟨hname.1, ?_, ?_, ?_⟩, hname.2, (Except.ok.inj h).symm⟩
  · -- a search through the hypotheses would compare the modes letter by letter
    by_contra hnot
    rw [not_or, not_or] at hnot
    exact hmode hnot
  · rw [not_not, decide_eq_decide] at hexplicit
    rw [hexplicit, gt_iff_lt, List.length_pos_iff]
  · rw [Bool.not_eq_true, overlap_eq_false] at hoverlap
    intro s hs hmem
    exact hoverlap s (Listing.mem_sortBy.2 hs) (Listing.mem_sortBy.2 hmem)

theorem normalizeVenues_eq_ok {seen : List Text} {vs ws : List VenueSelectionConfig}
    (h : normalizeVenues seen vs = .ok ws) (hseen : seen.Nodup) :
    (∀ v ∈ vs, v.Valid) ∧ (seen ++ vs.map VenueSelectionConfig.venue).Nodup ∧
      ws = vs.map VenueSelectionConfig.sorted := by
  induction vs generalizing seen ws with
  | nil =>
      rw [normalizeVenues] at h
      refine ⟨fun v hv => absurd hv List.not_mem_nil, ?_, (Except.ok.inj h).symm⟩
      rw [List.map_nil, List.append_nil]
      exact hseen
  | cons v rest ih =>
      rw [normalizeVenues, Check.andThen_eq_ok] at h
      rcases h with ⟨w, hw, h⟩
      rw [Check.andThen_eq_ok] at h
      rcases h with ⟨ws', hws, h⟩
      rcases normalizeVenue_eq_ok hw with ⟨hvalid, hnew, rfl⟩
      have hseen' : (seen ++ [v.venue]).Nodup :=
        List.nodup_append.2 ⟨hseen, List.nodup_singleton _, fun a ha b hb heq =>
          hnew (List.mem_singleton.1 hb ▸ heq ▸ ha)⟩
      rcases ih hws hseen' with ⟨hrest, hnodup, rfl⟩
      refine ⟨?_, ?_, (Except.ok.inj h).symm⟩
      · intro u hu
        rcases List.mem_cons.1 hu with rfl | hu
        · exact hvalid
        · exact hrest u hu
      · rw [List.map_cons]
        rw [List.append_assoc] at hnodup
        exact hnodup

/-! ## One catalog -/

/-- What an alias dictionary makes of an instrument that it resolves. -/
def Aliases.resolution (a : Aliases) (i : Instrument) : SelectedInstrument :=
  match a.entries.lookup i.aliasKey with
  | some e => ⟨i, ⟨e.canonicalBaseAsset, text "USDT", text "USDT", MarketPerpetual⟩,
      e.canonicalBaseUnitsPerVenueBaseUnit, text "alias"⟩
  | none => ⟨i, ⟨i.baseAsset, text "USDT", text "USDT", MarketPerpetual⟩, Decimal.ofInt 1, text "identity"⟩

theorem cutSuffix_append (base suffix : Text) : cutSuffix (base ++ suffix) suffix = some base := by
  unfold cutSuffix
  rw [if_pos (List.suffix_append base suffix), List.length_append, Nat.add_sub_cancel, List.take_left]

theorem parse_key {base : Text} {k : PerpetualMarketKey} (h : ParsePerpetualMarketKey (base ++ keySuffix) = .ok k) :
    k = ⟨base, text "USDT", text "USDT", MarketPerpetual⟩ := by
  unfold ParsePerpetualMarketKey at h
  rw [cutSuffix_append] at h
  dsimp only at h
  split at h
  · exact (Except.ok.inj h).symm
  · cases h

theorem resolve_eq_ok {a : Aliases} {i : Instrument} {s : SelectedInstrument} (h : a.Resolve i = .ok s) :
    s = a.resolution i := by
  unfold Aliases.Resolve at h
  rw [Check.seq_eq_ok] at h
  have h := h.2
  unfold Aliases.resolution
  rcases hlookup : a.entries.lookup i.aliasKey with _ | e
  · rw [hlookup] at h
    dsimp only at h ⊢
    rw [Check.andThen_eq_ok] at h
    rcases h with ⟨k, hk, h⟩
    rw [parse_key hk] at h
    exact (Except.ok.inj h).symm
  · rw [hlookup] at h
    dsimp only at h ⊢
    rw [Check.seq_eq_ok, Check.andThen_eq_ok] at h
    rcases h with ⟨-, k, hk, h⟩
    rw [parse_key hk] at h
    exact (Except.ok.inj h).symm

theorem resolution_instrument (a : Aliases) (i : Instrument) : (a.resolution i).instrument = i := by
  unfold Aliases.resolution
  split
  · rfl
  · rfl

/-- An instrument that a venue's catalog may hold. -/
structure Fits (aliases : Aliases) (v : VenueSelectionConfig) (i : Instrument) : Prop where
  exchange : i.exchange = v.venue
  eligible : Eligible i
  version : i.venueContractVersion ≠ []
  definition : i.ValidateDefinition = .ok ()
  resolved : aliases.Resolve i = .ok (aliases.resolution i)

/-- What a catalog contributes to the groups. -/
def VenueSelectionConfig.kept (aliases : Aliases) (v : VenueSelectionConfig) (items : List Instrument) :
    List SelectedInstrument :=
  (items.filter fun i => decide (¬ v.Skips i)).map aliases.resolution

theorem kept_singleton (aliases : Aliases) (v : VenueSelectionConfig) (i : Instrument) :
    v.kept aliases [i] = if v.Skips i then [] else [aliases.resolution i] := by
  unfold VenueSelectionConfig.kept
  by_cases hskips : v.Skips i
  · simp [hskips]
  · simp [hskips]

theorem kept_cons (aliases : Aliases) (v : VenueSelectionConfig) (i : Instrument) (rest : List Instrument) :
    v.kept aliases (i :: rest) = v.kept aliases [i] ++ v.kept aliases rest := by
  unfold VenueSelectionConfig.kept
  rw [← List.singleton_append, List.filter_append, List.map_append]

/-- The aliases that a catalog hits. -/
def Aliases.hits (a : Aliases) (items : List Instrument) : List AliasKey :=
  items.flatMap fun i => if (a.resolution i).mappingKind = text "alias" then [i.aliasKey] else []

/-- What the loop over a catalog makes of a pass. -/
def Pass.after (aliases : Aliases) (v : VenueSelectionConfig) (p : Pass) (items : List Instrument) : Pass where
  groups := (v.kept aliases items).foldl (Grouping.add SelectedInstrument.key) p.groups
  hitAliases := p.hitAliases ++ aliases.hits items
  all := p.all ++ items.map aliases.resolution
  seen := p.seen ++ items.map Instrument.exchangeSymbol
  canonicalSeen := p.canonicalSeen ++ (v.kept aliases items).map SelectedInstrument.key
  candidates := p.candidates + items.length
  filteredCandidates := p.filteredCandidates + (v.kept aliases items).length

theorem visit_eq_ok {aliases : Aliases} {v : VenueSelectionConfig} {p q : Pass} {i : Instrument} :
    visit aliases v p i = .ok q ↔ Fits aliases v i ∧ i.exchangeSymbol ∉ p.seen ∧
      (¬ v.Skips i → (aliases.resolution i).key ∉ p.canonicalSeen) ∧ q = p.after aliases v [i] := by
  have hafter : p.after aliases v [i] = { p with
      seen := p.seen ++ [i.exchangeSymbol]
      candidates := p.candidates + 1
      hitAliases := p.hitAliases ++
        if (aliases.resolution i).mappingKind = text "alias" then [i.aliasKey] else []
      all := p.all ++ [aliases.resolution i]
      groups := if v.Skips i then p.groups else
        Grouping.add SelectedInstrument.key p.groups (aliases.resolution i)
      canonicalSeen := if v.Skips i then p.canonicalSeen else p.canonicalSeen ++ [(aliases.resolution i).key]
      filteredCandidates := if v.Skips i then p.filteredCandidates else p.filteredCandidates + 1 } := by
    unfold Pass.after Aliases.hits
    rw [kept_singleton]
    by_cases hskips : v.Skips i
    · simp [hskips]
    · simp [hskips]
  rw [hafter]
  unfold visit
  rw [Check.seq_eq_ok, Check.seq_eq_ok, Check.seq_eq_ok, Check.andThen_eq_ok, Check.failIf_eq_ok,
    Check.failIf_eq_ok, not_or, not_or, not_not, not_not]
  constructor
  · rintro ⟨⟨hexchange, heligible, hversion⟩, hdefinition, hseen, s, hs, h⟩
    have hres := resolve_eq_ok hs
    subst hres
    dsimp only at h
    refine ⟨⟨hexchange, heligible, hversion, hdefinition, hs⟩, hseen, ?_⟩
    by_cases hskips : v.Skips i
    · rw [if_pos hskips] at h
      rw [if_pos hskips, if_pos hskips, if_pos hskips]
      exact ⟨fun hkeep => absurd hskips hkeep, (Except.ok.inj h).symm⟩
    · rw [if_neg hskips, Check.seq_eq_ok, Check.failIf_eq_ok] at h
      rw [if_neg hskips, if_neg hskips, if_neg hskips]
      exact ⟨fun _ => h.1, (Except.ok.inj h.2).symm⟩
  · rintro ⟨hfits, hseen, hkey, rfl⟩
    refine ⟨⟨hfits.exchange, hfits.eligible, hfits.version⟩, hfits.definition, hseen, _, hfits.resolved, ?_⟩
    dsimp only
    by_cases hskips : v.Skips i
    · rw [if_pos hskips, if_pos hskips, if_pos hskips, if_pos hskips]
      rfl
    · rw [if_neg hskips, if_neg hskips, if_neg hskips, if_neg hskips, Check.seq_eq_ok, Check.failIf_eq_ok]
      exact ⟨hkey hskips, rfl⟩

theorem Pass.after_cons (aliases : Aliases) (v : VenueSelectionConfig) (p : Pass) (i : Instrument)
    (rest : List Instrument) : p.after aliases v (i :: rest) = (p.after aliases v [i]).after aliases v rest := by
  unfold Pass.after
  dsimp only
  rw [kept_cons]
  simp [Aliases.hits, Nat.add_comm, Nat.add_left_comm]

/-- When the loop over a catalog succeeds, and what it leaves. -/
theorem visits_eq_ok {aliases : Aliases} {v : VenueSelectionConfig} {p q : Pass} {items : List Instrument}
    (hseen : p.seen.Nodup) (hkeys : p.canonicalSeen.Nodup) :
    visits aliases v p items = .ok q ↔ (∀ i ∈ items, Fits aliases v i) ∧
      (p.seen ++ items.map Instrument.exchangeSymbol).Nodup ∧
      (p.canonicalSeen ++ (v.kept aliases items).map SelectedInstrument.key).Nodup ∧
      q = p.after aliases v items := by
  induction items generalizing p with
  | nil =>
      have hafter : p.after aliases v [] = p := by
        simp [Pass.after, VenueSelectionConfig.kept, Aliases.hits]
      rw [visits, hafter]
      constructor
      · intro h
        exact ⟨fun i hi => absurd hi List.not_mem_nil, by simpa using hseen,
          by simpa [VenueSelectionConfig.kept] using hkeys, (Except.ok.inj h).symm⟩
      · rintro ⟨-, -, -, rfl⟩
        rfl
  | cons i rest ih =>
      have hstep : ∀ {l : List Text} {a : Text}, l.Nodup → ((l ++ [a]).Nodup ↔ a ∉ l) := by
        intro l a hl
        rw [← List.concat_eq_append, List.nodup_concat]
        exact and_iff_left hl
      have hcanonical : (p.after aliases v [i]).canonicalSeen.Nodup ↔
          (¬ v.Skips i → (aliases.resolution i).key ∉ p.canonicalSeen) := by
        unfold Pass.after
        dsimp only
        rw [kept_singleton]
        by_cases hskips : v.Skips i
        · simpa [hskips] using hkeys
        · simpa [hskips] using hstep hkeys
      have hsymbols : (p.after aliases v [i]).seen.Nodup ↔ i.exchangeSymbol ∉ p.seen := by
        unfold Pass.after
        exact hstep hseen
      have hall : (p.after aliases v [i]).seen ++ rest.map Instrument.exchangeSymbol =
          p.seen ++ (i :: rest).map Instrument.exchangeSymbol := by
        simp [Pass.after]
      have hallKeys : (p.after aliases v [i]).canonicalSeen ++ (v.kept aliases rest).map SelectedInstrument.key =
          p.canonicalSeen ++ (v.kept aliases (i :: rest)).map SelectedInstrument.key := by
        rw [kept_cons]
        simp [Pass.after]
      rw [visits, Check.andThen_eq_ok]
      constructor
      · rintro ⟨p', hp', h⟩
        rcases visit_eq_ok.1 hp' with ⟨hfits, hnew, hkey, rfl⟩
        rcases (ih (hsymbols.2 hnew) (hcanonical.2 hkey)).1 h with ⟨hrest, hnodup, hnodupKeys, rfl⟩
        rw [hall] at hnodup
        rw [hallKeys] at hnodupKeys
        refine ⟨?_, hnodup, hnodupKeys, (Pass.after_cons aliases v p i rest).symm⟩
        intro j hj
        rcases List.mem_cons.1 hj with rfl | hj
        · exact hfits
        · exact hrest j hj
      · rintro ⟨hfits, hnodup, hnodupKeys, rfl⟩
        rw [← hall] at hnodup
        rw [← hallKeys] at hnodupKeys
        have hnew := hnodup.of_append_left
        have hkey := hnodupKeys.of_append_left
        refine ⟨p.after aliases v [i], visit_eq_ok.2 ⟨hfits i List.mem_cons_self, hsymbols.1 hnew,
          hcanonical.1 hkey, rfl⟩, ?_⟩
        rw [ih hnew hkey]
        exact ⟨fun j hj => hfits j (List.mem_cons_of_mem _ hj), hnodup, hnodupKeys,
          Pass.after_cons aliases v p i rest⟩

/-! ## All catalogs -/

/-- A catalog without a mistake, that holds what its venue explicitly asks for. -/
structure Listed (aliases : Aliases) (v : VenueSelectionConfig) (items : List Instrument) : Prop where
  fits : ∀ i ∈ items, Fits aliases v i
  symbols : (items.map Instrument.exchangeSymbol).Nodup
  keys : ((v.kept aliases items).map SelectedInstrument.key).Nodup
  includes : ∀ s ∈ v.includes, s ∈ items.map Instrument.exchangeSymbol

/-- The catalog that is walked for a venue; none for a disabled one. -/
def itemsOf (byVenue : List (Text × List Instrument)) (v : VenueSelectionConfig) : List Instrument :=
  if v.mode = Disabled then [] else (byVenue.lookup v.venue).getD []

/-- An enabled venue has a catalog without a mistake. -/
def VenueSelectionConfig.Good (aliases : Aliases) (byVenue : List (Text × List Instrument))
    (v : VenueSelectionConfig) : Prop :=
  v.mode ≠ Disabled → (byVenue.lookup v.venue).isSome = true ∧ Listed aliases v (itemsOf byVenue v)

def VenueSelectionConfig.required (v : VenueSelectionConfig) : List (Text × List Text) :=
  if v.mode = Explicit then [(v.venue, v.includes)] else []

def VenueSelectionConfig.summary (aliases : Aliases) (v : VenueSelectionConfig) (items : List Instrument) :
    VenueSummary :=
  ⟨v.venue, v.mode, items.length, (v.kept aliases items).length, 0⟩

/-- What the loop over the venues makes of a walk. -/
def Walk.after (aliases : Aliases) (items : VenueSelectionConfig → List Instrument) (w : Walk)
    (vs : List VenueSelectionConfig) : Walk where
  groups := (vs.flatMap fun v => v.kept aliases (items v)).foldl (Grouping.add SelectedInstrument.key) w.groups
  hitAliases := w.hitAliases ++ vs.flatMap fun v => aliases.hits (items v)
  all := w.all ++ vs.flatMap fun v => (items v).map aliases.resolution
  rawRequired := w.rawRequired ++ vs.flatMap VenueSelectionConfig.required
  venues := w.venues ++ vs.map fun v => v.summary aliases (items v)
  warnings := w.warnings ++ vs.flatMap fun v => v.stale (items v)

theorem explicit_ne_disabled : Explicit ≠ Disabled := by decide

theorem walkVenue_eq_ok {aliases : Aliases} {byVenue : List (Text × List Instrument)} {w w' : Walk}
    {v : VenueSelectionConfig} :
    walkVenue aliases byVenue w v = .ok w' ↔
      v.Good aliases byVenue ∧ w' = w.after aliases (itemsOf byVenue) [v] := by
  unfold walkVenue VenueSelectionConfig.Good Walk.after
  simp only [List.flatMap_cons, List.flatMap_nil, List.append_nil, List.map_cons, List.map_nil]
  by_cases hdisabled : v.mode = Disabled
  · have hitems : itemsOf byVenue v = [] := if_pos hdisabled
    have hrequired : v.required = [] := if_neg (hdisabled ▸ explicit_ne_disabled.symm)
    have hstale : v.stale [] = [] := if_pos hdisabled
    rw [if_pos hdisabled, hitems, hrequired, hstale]
    constructor
    · intro h
      refine ⟨fun hne => absurd hdisabled hne, ?_⟩
      rw [← Except.ok.inj h]
      simp [VenueSelectionConfig.kept, VenueSelectionConfig.summary, Aliases.hits]
    · rintro ⟨-, rfl⟩
      simp [VenueSelectionConfig.kept, VenueSelectionConfig.summary, Aliases.hits]
  · rw [if_neg hdisabled]
    rcases hlookup : byVenue.lookup v.venue with _ | items
    · constructor
      · intro h
        cases h
      · rintro ⟨hgood, -⟩
        cases (hgood hdisabled).1
    · have hitems : itemsOf byVenue v = items := by
        unfold itemsOf
        rw [if_neg hdisabled, hlookup]
        rfl
      have hstale : v.stale items = (v.excludes.filter fun s => decide (s ∉ items.map Instrument.exchangeSymbol)).map
          fun s => text "stale venue exclude: " ++ v.venue ++ text " " ++ s := if_neg hdisabled
      dsimp only
      rw [hitems, hstale, Check.andThen_eq_ok]
      have hvisits := fun q => @visits_eq_ok aliases v ⟨w.groups, w.hitAliases, w.all, [], [], 0, 0⟩ q items
        List.nodup_nil List.nodup_nil
      constructor
      · rintro ⟨p, hp, h⟩
        rcases (hvisits _).1 hp with ⟨hfits, hsymbols, hkeys, rfl⟩
        rw [Check.seq_eq_ok, Check.checkAll_eq_ok] at h
        rcases h with ⟨hincludes, h⟩
        refine ⟨fun _ => ⟨rfl, hfits, hsymbols, hkeys, fun s hs => ?_⟩, ?_⟩
        · have hmem := Check.failIf_eq_ok.1 (hincludes s hs)
          exact not_not.1 hmem
        · rw [← Except.ok.inj h]
          simp [Pass.after, VenueSelectionConfig.summary, VenueSelectionConfig.required]
      · rintro ⟨hgood, rfl⟩
        rcases (hgood hdisabled).2 with ⟨hfits, hsymbols, hkeys, hincludes⟩
        refine ⟨_, (hvisits _).2 ⟨hfits, hsymbols, hkeys, rfl⟩, ?_⟩
        rw [Check.seq_eq_ok, Check.checkAll_eq_ok]
        refine ⟨fun s hs => Check.failIf_eq_ok.2 fun hmissing => hmissing (hincludes s hs), ?_⟩
        simp [Pass.after, VenueSelectionConfig.summary, VenueSelectionConfig.required]
        rfl

theorem Walk.after_cons (aliases : Aliases) (items : VenueSelectionConfig → List Instrument) (w : Walk)
    (v : VenueSelectionConfig) (rest : List VenueSelectionConfig) :
    w.after aliases items (v :: rest) = (w.after aliases items [v]).after aliases items rest := by
  simp [Walk.after, List.foldl_append]

/-- When the walk succeeds, and what it leaves. -/
theorem walkVenues_eq_ok {aliases : Aliases} {byVenue : List (Text × List Instrument)} {w w' : Walk}
    {vs : List VenueSelectionConfig} :
    walkVenues aliases byVenue w vs = .ok w' ↔
      (∀ v ∈ vs, v.Good aliases byVenue) ∧ w' = w.after aliases (itemsOf byVenue) vs := by
  induction vs generalizing w with
  | nil =>
      have hafter : w.after aliases (itemsOf byVenue) [] = w := by simp [Walk.after]
      rw [walkVenues, hafter]
      constructor
      · intro h
        exact ⟨fun v hv => absurd hv List.not_mem_nil, (Except.ok.inj h).symm⟩
      · rintro ⟨-, rfl⟩
        rfl
  | cons v rest ih =>
      rw [walkVenues, Check.andThen_eq_ok, Walk.after_cons]
      constructor
      · rintro ⟨w₁, hw₁, h⟩
        rcases walkVenue_eq_ok.1 hw₁ with ⟨hgood, rfl⟩
        rcases ih.1 h with ⟨hrest, rfl⟩
        refine ⟨fun u hu => ?_, rfl⟩
        rcases List.mem_cons.1 hu with rfl | hu
        · exact hgood
        · exact hrest u hu
      · rintro ⟨hgood, rfl⟩
        exact ⟨_, walkVenue_eq_ok.2 ⟨hgood v List.mem_cons_self, rfl⟩,
          ih.2 ⟨fun u hu => hgood u (List.mem_cons_of_mem _ hu), rfl⟩⟩

def VenueCatalog.entry (c : VenueCatalog) : Text × List Instrument := (c.venue, c.instruments)

theorem indexCatalogs_eq_ok {byVenue m : List (Text × List Instrument)} {catalogs : List VenueCatalog}
    (h : (byVenue.map Prod.fst).Nodup) :
    indexCatalogs byVenue catalogs = .ok m ↔
      (byVenue.map Prod.fst ++ catalogs.map VenueCatalog.venue).Nodup ∧
        m = byVenue ++ catalogs.map VenueCatalog.entry := by
  induction catalogs generalizing byVenue with
  | nil =>
      rw [indexCatalogs, List.map_nil, List.map_nil, List.append_nil, List.append_nil]
      constructor
      · exact fun heq => ⟨h, (Except.ok.inj heq).symm⟩
      · rintro ⟨-, rfl⟩
        rfl
  | cons c rest ih =>
      have hmap : (byVenue ++ [(c.venue, c.instruments)]).map Prod.fst = byVenue.map Prod.fst ++ [c.venue] := by
        rw [List.map_append]
        rfl
      have hnodup : (byVenue.map Prod.fst ++ [c.venue]).Nodup ↔ c.venue ∉ byVenue.map Prod.fst := by
        rw [← List.concat_eq_append, List.nodup_concat]
        exact and_iff_left h
      have hall : byVenue.map Prod.fst ++ (c :: rest).map VenueCatalog.venue =
          (byVenue.map Prod.fst ++ [c.venue]) ++ rest.map VenueCatalog.venue := by
        rw [List.map_cons, List.append_assoc]
        rfl
      rw [indexCatalogs, Check.seq_eq_ok, Check.failIf_eq_ok, hall]
      have hstep := fun hnew => @ih (byVenue ++ [(c.venue, c.instruments)]) (hmap ▸ hnodup.2 hnew)
      rw [hmap] at hstep
      constructor
      · rintro ⟨hnew, hrest⟩
        rcases (hstep hnew).1 hrest with ⟨hdistinct, rfl⟩
        refine ⟨hdistinct, ?_⟩
        rw [List.append_assoc]
        rfl
      · rintro ⟨hdistinct, rfl⟩
        have hnew := hnodup.1 hdistinct.of_append_left
        refine ⟨hnew, (hstep hnew).2 ⟨hdistinct, ?_⟩⟩
        rw [List.append_assoc]
        rfl

end Universe

end MarketInfo
