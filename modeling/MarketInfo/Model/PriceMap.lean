import MarketInfo.Model.Book

/-! # Price maps

A side of a book as a Go map from price to quantity, together with the order in
which one iteration visits the keys. What the program returns from a map never
depends on that order: it goes through lookups, through the number of keys, or
through the `listing` of the side, best price first, and each of these is
determined by the lookups.
-/

namespace MarketInfo

open Listing

/-- `map[int64]uint64`, from price to quantity. -/
abbrev PriceMap := AList fun _ : Int64 => UInt64

namespace PriceMap

/-- `len(m)`. -/
def len (m : PriceMap) : Nat := m.keys.length

/-- `m[price]`, zero when absent. -/
def get (m : PriceMap) (price : Int64) : UInt64 := (m.lookup price).getD 0

/-- The map a list of levels fills. -/
def ofLevels (levels : List Level) : PriceMap :=
  levels.foldl (fun out level => out.insert level.priceTick level.qtyLot) ∅

/-- One absolute change: quantity zero deletes the price. -/
def put (m : PriceMap) (level : Level) : PriceMap :=
  if level.qtyLot = 0 then m.erase level.priceTick else m.insert level.priceTick level.qtyLot

/-- Absolute changes, in order. -/
def putAll (m : PriceMap) (changes : List Level) : PriceMap := changes.foldl put m

/-- The levels of the given prices. -/
def levelsAt (m : PriceMap) (prices : List Int64) : List Level :=
  prices.map fun price => ⟨price, m.get price⟩

/-- The whole side, best price first. -/
def listing (bids : Bool) (m : PriceMap) : List Level :=
  m.levelsAt (sortBy (better bids) m.keys)

theorem putAll_cons (m : PriceMap) (c : Level) (cs : List Level) :
    m.putAll (c :: cs) = (m.put c).putAll cs := rfl

/-! ## Lookups -/

theorem lookup_put (m : PriceMap) (level : Level) (p : Int64) :
    (m.put level).lookup p =
      if p = level.priceTick then (if level.qtyLot = 0 then none else some level.qtyLot)
      else m.lookup p := by
  unfold put
  by_cases hp : p = level.priceTick
  · subst hp
    split <;> simp
  · rw [if_neg hp]
    split
    · exact AList.lookup_erase_ne hp
    · exact AList.lookup_insert_ne hp

/-- A change either fixes what a price maps to or leaves it alone. -/
theorem lookup_putAll_congr {m n : PriceMap} {p : Int64} (h : m.lookup p = n.lookup p)
    (changes : List Level) : (m.putAll changes).lookup p = (n.putAll changes).lookup p := by
  induction changes generalizing m n with
  | nil => exact h
  | cons c cs ih =>
      refine ih ?_
      rw [lookup_put, lookup_put, h]

/-- Changes applied to both keep a map inside the other. -/
theorem lookup_putAll_sub {m n : PriceMap} {p : Int64}
    (h : ∀ q, m.lookup p = some q → n.lookup p = some q) (changes : List Level) :
    ∀ q, (m.putAll changes).lookup p = some q → (n.putAll changes).lookup p = some q := by
  induction changes generalizing m n with
  | nil => exact h
  | cons c cs ih =>
      refine ih fun q hq => ?_
      rw [lookup_put] at hq ⊢
      split
      · rwa [if_pos ‹_›] at hq
      · rw [if_neg ‹_›] at hq
        exact h q hq

theorem lookup_putAll_of_notMem {m : PriceMap} {p : Int64} {changes : List Level}
    (h : ∀ c ∈ changes, c.priceTick ≠ p) : (m.putAll changes).lookup p = m.lookup p := by
  induction changes generalizing m with
  | nil => rfl
  | cons c cs ih =>
      have hc : p ≠ c.priceTick := fun he => h c (by simp) he.symm
      rw [putAll, List.foldl_cons, ← putAll, ih fun c' hc' => h c' (by simp [hc']), lookup_put,
        if_neg hc]

/-- With distinct prices the change of a price decides its lookup. -/
theorem lookup_putAll_of_mem {m : PriceMap} {changes : List Level} {c : Level}
    (hnd : (changes.map Level.priceTick).Nodup) (hc : c ∈ changes) :
    (m.putAll changes).lookup c.priceTick = if c.qtyLot = 0 then none else some c.qtyLot := by
  induction changes generalizing m with
  | nil => simp at hc
  | cons d ds ih =>
      rw [List.map_cons, List.nodup_cons] at hnd
      rw [putAll, List.foldl_cons, ← putAll]
      rcases List.mem_cons.1 hc with rfl | hc
      · rw [lookup_putAll_of_notMem, lookup_put, if_pos rfl]
        intro c' hc' he
        exact hnd.1 (he ▸ List.mem_map_of_mem hc')
      · exact ih hnd.2 hc

theorem mem_of_lookup {m : PriceMap} {p : Int64} {q : UInt64} (h : m.lookup p = some q) :
    p ∈ m.keys :=
  AList.mem_keys.1 (AList.lookup_isSome.1 (by simp [h]))

theorem exists_lookup {m : PriceMap} {p : Int64} (h : p ∈ m.keys) : ∃ q, m.lookup p = some q :=
  Option.isSome_iff_exists.1 (AList.lookup_isSome.2 (AList.mem_keys.2 h))

theorem mem_keys_iff {m : PriceMap} {p : Int64} : p ∈ m.keys ↔ ∃ q, m.lookup p = some q :=
  ⟨exists_lookup, fun ⟨_, h⟩ => mem_of_lookup h⟩

theorem get_of_lookup {m : PriceMap} {p : Int64} {q : UInt64} (h : m.lookup p = some q) :
    m.get p = q := by
  simp [get, h]

/-! ## Listings -/

theorem mem_levelsAt {m : PriceMap} {prices : List Int64} {l : Level} :
    l ∈ m.levelsAt prices ↔ l.priceTick ∈ prices ∧ m.get l.priceTick = l.qtyLot := by
  simp only [levelsAt, List.mem_map]
  constructor
  · rintro ⟨p, hp, rfl⟩
    exact ⟨hp, rfl⟩
  · rintro ⟨hp, hq⟩
    exact ⟨l.priceTick, hp, by rw [hq]⟩

@[simp] theorem levelsAt_prices (m : PriceMap) (prices : List Int64) :
    (m.levelsAt prices).map Level.priceTick = prices := by
  simp [levelsAt, Function.comp_def]

@[simp] theorem length_levelsAt (m : PriceMap) (prices : List Int64) :
    (m.levelsAt prices).length = prices.length := by
  simp [levelsAt]

theorem mem_listing {bids : Bool} {m : PriceMap} {l : Level} :
    l ∈ listing bids m ↔ m.lookup l.priceTick = some l.qtyLot := by
  rw [listing, mem_levelsAt, mem_sortBy]
  constructor
  · rintro ⟨hp, hq⟩
    obtain ⟨q, hl⟩ := exists_lookup hp
    rw [hl, ← hq, get_of_lookup hl]
  · intro h
    exact ⟨mem_of_lookup h, get_of_lookup h⟩

theorem listing_prices_sorted (bids : Bool) (m : PriceMap) :
    Sorted (rank bids) (sortBy (better bids) m.keys) :=
  sorted_sortBy (better_iff bids) (rank_injective bids) m.keys_nodup

theorem listing_sorted (bids : Bool) (m : PriceMap) : SideSorted bids (listing bids m) := by
  rw [SideSorted, listing, levelsAt_prices]
  exact listing_prices_sorted bids m

@[simp] theorem length_listing (bids : Bool) (m : PriceMap) : (listing bids m).length = m.len := by
  simp [listing, len]

theorem sideSorted_iff {bids : Bool} {l : List Level} :
    SideSorted bids l ↔ Sorted (fun x : Level => rank bids x.priceTick) l := by
  rw [SideSorted, Sorted, List.pairwise_map, Sorted]

/-- A strictly sorted side is determined by its prices and their quantities. -/
theorem sideSorted_ext {bids : Bool} {l m : List Level} (hl : SideSorted bids l)
    (hm : SideSorted bids m) (hmem : ∀ x, x ∈ l ↔ x ∈ m) : l = m :=
  (sideSorted_iff.1 hl).ext (sideSorted_iff.1 hm) hmem

/-- Maps with the same lookups have the same listing. -/
theorem listing_congr {bids : Bool} {m n : PriceMap} (h : ∀ p, m.lookup p = n.lookup p) :
    listing bids m = listing bids n :=
  sideSorted_ext (listing_sorted bids m) (listing_sorted bids n) fun x => by
    rw [mem_listing, mem_listing, h]

theorem len_congr {m n : PriceMap} (h : ∀ p, m.lookup p = n.lookup p) : m.len = n.len := by
  rw [← length_listing true, ← length_listing true, listing_congr h]

/-- A map inside another has no more keys. -/
theorem len_eq_zero_iff {m : PriceMap} : m.len = 0 ↔ ∀ p, m.lookup p = none := by
  rw [len, List.length_eq_zero_iff, List.eq_nil_iff_forall_not_mem]
  refine forall_congr' fun p => ?_
  rw [mem_keys_iff, Option.eq_none_iff_forall_ne_some]
  simp

/-! ## Maps from levels -/

theorem ofLevels_concat (levels : List Level) (l : Level) :
    ofLevels (levels ++ [l]) = (ofLevels levels).insert l.priceTick l.qtyLot := by
  simp [ofLevels]

theorem lookup_ofLevels {levels : List Level} (hnd : (levels.map Level.priceTick).Nodup)
    {p : Int64} {q : UInt64} : (ofLevels levels).lookup p = some q ↔ ⟨p, q⟩ ∈ levels := by
  induction levels using List.reverseRecOn with
  | nil => simp [ofLevels]
  | append_singleton ls l ih =>
      rw [List.map_append, List.nodup_append] at hnd
      obtain ⟨hls, -, hdisj⟩ := hnd
      rw [ofLevels_concat, List.mem_append, List.mem_singleton]
      by_cases hp : p = l.priceTick
      · subst hp
        rw [AList.lookup_insert]
        constructor
        · intro h
          right
          cases l
          simpa using h.symm
        · rintro (h | h)
          · exact absurd rfl (hdisj l.priceTick (List.mem_map.2 ⟨_, h, rfl⟩) l.priceTick (by simp))
          · rw [← h]
      · rw [AList.lookup_insert_ne hp, ih hls]
        refine ⟨Or.inl, ?_⟩
        rintro (h | h)
        · exact h
        · exact absurd (by rw [← h]) hp

theorem nodup_prices {bids : Bool} {levels : List Level} (h : SideSorted bids levels) :
    (levels.map Level.priceTick).Nodup :=
  Sorted.nodup h

/-- Listing the map of a sorted side gives the side back. -/
theorem listing_ofLevels {bids : Bool} {levels : List Level} (h : SideSorted bids levels) :
    listing bids (ofLevels levels) = levels :=
  sideSorted_ext (listing_sorted bids _) h fun x => by
    rw [mem_listing, lookup_ofLevels (nodup_prices h)]

theorem len_ofLevels {bids : Bool} {levels : List Level} (h : SideSorted bids levels) :
    (ofLevels levels).len = levels.length := by
  rw [← length_listing bids, listing_ofLevels h]

end PriceMap

end MarketInfo
