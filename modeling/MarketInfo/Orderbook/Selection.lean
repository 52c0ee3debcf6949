import MarketInfo.Orderbook.Book

/-! # Bounded selection

`sorted` under every order in which an iteration over the map may visit the
prices, and for every limit, negative ones included. The heap holds the best
prices seen so far whatever the order was, so the result is the head of the full
listing of the side.
-/

namespace MarketInfo

open Listing PriceMap

/-- `sorted`, with the prices in the order in which the iteration visits them. -/
def sortedVisiting (visit : List Int64) (side : PriceMap) (bids : Bool) (limit : Int) :
    List Level :=
  if limit ≤ 0 ∨ side.len = 0 then []
  else
    let prices := if (side.len : Int) ≤ limit then visit
      else (BinaryHeap.select (heapLess bids) limit.toNat visit).toList
    side.levelsAt (sortBy (better bids) prices)

/-- What the bounded heap keeps of a visit, sorted: the head of the sorted keys. -/
theorem sortBy_select {visit : List Int64} {side : PriceMap} (hvisit : visit.Perm side.keys)
    (bids : Bool) {limit : Nat} (hlimit : 0 < limit) (hle : limit ≤ side.len) :
    sortBy (better bids) (BinaryHeap.select (heapLess bids) limit visit).toList =
      (sortBy (better bids) side.keys).take limit := by
  have hnodup : visit.Nodup := hvisit.nodup_iff.2 side.keys_nodup
  obtain ⟨-, hsize, rest, hperm, hrest⟩ :=
    BinaryHeap.select_holds (heapLess_iff bids) hlimit visit
  have htake := sortBy_take_of_split (better_iff bids) (rank_injective bids) hnodup hperm
    fun a ha b hb => by have := hrest a ha b hb; omega
  have hvisitLen : visit.length = side.len := hvisit.length_eq
  rw [Array.length_toList, hsize, Nat.min_eq_left (by omega)] at htake
  -- the sorted list of the keys forgets the order of the visit
  rw [htake, sortBy_eq_of_perm (better_iff bids) hvisit fun a _ b _ h => rank_injective bids h]

/-- No order of the visit changes what is selected. -/
theorem sortedVisiting_eq_take {visit : List Int64} {side : PriceMap}
    (hvisit : visit.Perm side.keys) (bids : Bool) (limit : Int) :
    sortedVisiting visit side bids limit = (listing bids side).take limit.toNat := by
  have hlen : (listing bids side).length = side.len := length_listing bids side
  unfold sortedVisiting
  split
  · rename_i hnone
    rcases hnone with hlimit | hempty
    · have hzero : limit.toNat = 0 := by omega
      rw [hzero, List.take_zero]
    · rw [List.eq_nil_of_length_eq_zero (hlen.trans hempty), List.take_nil]
  · rename_i hsome
    push Not at hsome
    split
    · -- no heap: every key is listed
      rename_i hall
      have hsort : sortBy (better bids) visit = sortBy (better bids) side.keys :=
        sortBy_eq_of_perm (better_iff bids) hvisit fun a _ b _ h => rank_injective bids h
      rw [List.take_of_length_le (by omega)]
      simp only [hsort, listing]
    · have hlimit : 0 < limit.toNat := by omega
      have hle : limit.toNat ≤ side.len := by omega
      have hselect := sortBy_select hvisit bids hlimit hle
      simp only [hselect, listing, levelsAt, List.map_take]

/-- The book's own `sorted` is the visit in the order of its keys. -/
theorem sorted_eq_sortedVisiting (side : PriceMap) (bids : Bool) (limit : Nat) :
    sorted side bids limit = sortedVisiting side.keys side bids limit := by
  rw [sorted_eq_take, sortedVisiting_eq_take (List.Perm.refl _), Int.toNat_natCast]

/-- A list of levels is the full ordering of a side: best price first, each level
of the side in it, and nothing else. -/
structure FullOrder (bids : Bool) (side : PriceMap) (levels : List Level) : Prop where
  ordered : SideSorted bids levels
  distinct : levels.Nodup
  exact : ∀ l, l ∈ levels ↔ side.lookup l.priceTick = some l.qtyLot

theorem fullOrder_listing (bids : Bool) (side : PriceMap) :
    FullOrder bids side (listing bids side) where
  ordered := listing_sorted bids side
  distinct := (nodup_prices (listing_sorted bids side)).of_map _
  exact := fun _ => mem_listing

/-- A side has one full ordering only. -/
theorem FullOrder.eq_listing {bids : Bool} {side : PriceMap} {levels : List Level}
    (h : FullOrder bids side levels) : levels = listing bids side :=
  sideSorted_ext h.ordered (listing_sorted bids side) fun l => by rw [h.exact, mem_listing]

/-- For every side, direction, limit and order of the visit, the selection is the
first `limit` levels of the full ordering of the side, which exists and is one. -/
theorem sortedVisiting_eq_take_fullOrder (side : PriceMap) (bids : Bool) (limit : Int)
    (visit : List Int64) (hvisit : visit.Perm side.keys) :
    ∃ full, FullOrder bids side full ∧ (∀ other, FullOrder bids side other → other = full) ∧
      sortedVisiting visit side bids limit = full.take limit.toNat :=
  ⟨listing bids side, fullOrder_listing bids side, fun _ h => h.eq_listing,
    sortedVisiting_eq_take hvisit bids limit⟩

/-- Two of three asks, visited worst price first. -/
theorem sortedVisiting_two_of_three :
    ([3, 1, 2] : List Int64).Perm (PriceMap.ofLevels [⟨1, 5⟩, ⟨2, 6⟩, ⟨3, 7⟩]).keys ∧
    ∃ full, FullOrder false (PriceMap.ofLevels [⟨1, 5⟩, ⟨2, 6⟩, ⟨3, 7⟩]) full ∧
      (∀ other, FullOrder false (PriceMap.ofLevels [⟨1, 5⟩, ⟨2, 6⟩, ⟨3, 7⟩]) other →
        other = full) ∧
      sortedVisiting [3, 1, 2] (PriceMap.ofLevels [⟨1, 5⟩, ⟨2, 6⟩, ⟨3, 7⟩]) false 2 =
        full.take (2 : Int).toNat := by
  have hvisit : ([3, 1, 2] : List Int64).Perm
      (PriceMap.ofLevels [⟨1, 5⟩, ⟨2, 6⟩, ⟨3, 7⟩]).keys := by decide
  exact ⟨hvisit, sortedVisiting_eq_take_fullOrder _ false 2 _ hvisit⟩

end MarketInfo
