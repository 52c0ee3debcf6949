import MarketInfo.Model.Minute

/-! # Level changes

`changes` of the sampler: the absolute changes that turn one side into another,
as sorted prices with their quantities, zero for a level that left. Applied to
the old side they give the new one (`lookup_applyArrays_changes`), and every one
of them changes something (`changes_effective`).
-/

namespace MarketInfo

open Listing PriceMap

/-! ## Definitions -/

/-- The first loop of `changes`: levels that are new or have a new quantity. -/
def changedNow (old now : PriceMap) : List Int64 → PriceMap → PriceMap
  | [], changed => changed
  | price :: rest, changed =>
      if old.lookup price ≠ now.lookup price then
        changedNow old now rest (changed.insert price (now.get price))
      else changedNow old now rest changed

/-- The second loop: levels that left. -/
def changedGone (now : PriceMap) : List Int64 → PriceMap → PriceMap
  | [], changed => changed
  | price :: rest, changed =>
      if now.lookup price = none then changedGone now rest (changed.insert price 0)
      else changedGone now rest changed

def changedMap (previous current : List Level) : PriceMap :=
  let old := ofLevels previous
  let now := ofLevels current
  changedGone now old.keys (changedNow old now now.keys ∅)

def changes (previous current : List Level) (bids : Bool) : List Int64 × List UInt64 :=
  let changed := changedMap previous current
  let prices := sortBy (better bids) changed.keys
  (prices, prices.map changed.get)

/-- Parallel arrays of prices and quantities, applied in order. -/
def applyArrays (side : PriceMap) (prices : List Int64) (quantities : List UInt64) : PriceMap :=
  side.putAll (List.zipWith Level.mk prices quantities)

/-! ## What changed -/

theorem lookup_changedNow {old now changed : PriceMap} {keys : List Int64} {p : Int64} :
    (changedNow old now keys changed).lookup p =
      if p ∈ keys ∧ old.lookup p ≠ now.lookup p then some (now.get p) else changed.lookup p := by
  induction keys generalizing changed with
  | nil => simp [changedNow]
  | cons k ks ih =>
      unfold changedNow
      by_cases hk : old.lookup k = now.lookup k
      · -- an unchanged level is passed over
        rw [if_neg (not_not.2 hk), ih]
        by_cases hp : p = k
        · subst hp
          simp [hk]
        · simp [hp]
      · rw [if_pos hk, ih]
        by_cases hp : p = k
        · subst hp
          simp [hk]
        · simp [hp]

theorem lookup_changedGone {now changed : PriceMap} {keys : List Int64} {p : Int64} :
    (changedGone now keys changed).lookup p =
      if p ∈ keys ∧ now.lookup p = none then some 0 else changed.lookup p := by
  induction keys generalizing changed with
  | nil => simp [changedGone]
  | cons k ks ih =>
      unfold changedGone
      by_cases hk : now.lookup k = none
      · rw [if_pos hk, ih]
        by_cases hp : p = k
        · subst hp
          simp [hk]
        · simp [hp]
      · rw [if_neg hk, ih]
        by_cases hp : p = k
        · subst hp
          simp [hk]
        · simp [hp]

/-- A price is changed exactly when its quantity is, and then to the new one. -/
theorem lookup_changedMap (previous current : List Level) (p : Int64) :
    (changedMap previous current).lookup p =
      if (ofLevels previous).lookup p = (ofLevels current).lookup p then none
      else some ((ofLevels current).get p) := by
  unfold changedMap
  rw [lookup_changedGone, lookup_changedNow]
  cases hnow : (ofLevels current).lookup p with
  | none =>
      cases hold : (ofLevels previous).lookup p with
      | none =>
          have hkey : p ∉ (ofLevels previous).keys := by
            rw [mem_keys_iff]
            simp [hold]
          simp [hkey]
      | some q =>
          have hkey : p ∈ (ofLevels previous).keys := mem_of_lookup hold
          simp [hkey, PriceMap.get, hnow]
  | some q =>
      have hkey : p ∈ (ofLevels current).keys := mem_of_lookup hnow
      simp [hkey]

theorem zipWith_changes (previous current : List Level) (bids : Bool) :
    List.zipWith Level.mk (changes previous current bids).1 (changes previous current bids).2 =
      listing bids (changedMap previous current) := by
  simp only [changes, listing, levelsAt]
  rw [List.zipWith_map_right, List.zipWith_self]

theorem length_changes (previous current : List Level) (bids : Bool) :
    (changes previous current bids).2.length = (changes previous current bids).1.length := by
  simp [changes]

theorem changes_sorted (previous current : List Level) (bids : Bool) :
    Sorted (rank bids) (changes previous current bids).1 :=
  listing_prices_sorted bids _

theorem mem_changes {previous current : List Level} {bids : Bool} {p : Int64} :
    p ∈ (changes previous current bids).1 ↔
      (ofLevels previous).lookup p ≠ (ofLevels current).lookup p := by
  simp only [changes, mem_sortBy, mem_keys_iff, lookup_changedMap]
  split <;> simp_all

/-- Without a changed price the two sides are the same. -/
theorem changes_eq_nil_iff {previous current : List Level} {bids : Bool} :
    (changes previous current bids).1 = [] ↔
      ∀ p, (ofLevels previous).lookup p = (ofLevels current).lookup p := by
  rw [List.eq_nil_iff_forall_not_mem]
  simp only [mem_changes, not_not]

/-- The changes take the old side to the new one. -/
theorem lookup_applyArrays_changes {m : PriceMap} {previous current : List Level} {bids : Bool}
    (hm : ∀ p, m.lookup p = (ofLevels previous).lookup p)
    (hqty : ∀ p, (ofLevels current).lookup p ≠ some 0) (p : Int64) :
    (applyArrays m (changes previous current bids).1 (changes previous current bids).2).lookup p =
      (ofLevels current).lookup p := by
  unfold applyArrays
  rw [zipWith_changes]
  by_cases hsame : (ofLevels previous).lookup p = (ofLevels current).lookup p
  · rw [lookup_putAll_of_notMem, hm, hsame]
    rintro c hc rfl
    have hl := mem_listing.1 hc
    rw [lookup_changedMap, if_pos hsame] at hl
    cases hl
  · have hl := lookup_changedMap previous current p
    rw [if_neg hsame] at hl
    have hput := lookup_putAll_of_mem (m := m) (nodup_prices (listing_sorted bids _))
      (mem_listing.2 hl : (⟨p, (ofLevels current).get p⟩ : Level) ∈ _)
    refine hput.trans ?_
    cases hnow : (ofLevels current).lookup p with
    | none => simp [PriceMap.get, hnow]
    | some q =>
        have hq := hqty p
        rw [hnow] at hq
        have hne : q ≠ 0 := fun h => hq (by rw [h])
        simp [PriceMap.get, hnow, hne]

/-- Each change sets a quantity that was not there: a level is deleted only when
it exists, and set only to a new quantity. -/
theorem changes_effective {previous current : List Level} {bids : Bool}
    (hqty : ∀ p, (ofLevels current).lookup p ≠ some 0) {c : Level}
    (hc : c ∈ List.zipWith Level.mk (changes previous current bids).1
      (changes previous current bids).2) :
    (c.qtyLot = 0 → (ofLevels previous).lookup c.priceTick ≠ none) ∧
      (c.qtyLot ≠ 0 → (ofLevels previous).lookup c.priceTick ≠ some c.qtyLot) := by
  rw [zipWith_changes, mem_listing, lookup_changedMap] at hc
  split at hc
  · cases hc
  · rename_i hne
    have hq : (ofLevels current).get c.priceTick = c.qtyLot := Option.some.inj hc
    unfold PriceMap.get at hq
    cases hnow : (ofLevels current).lookup c.priceTick with
    | none =>
        rw [hnow] at hq hne
        constructor
        · intro _
          exact hne
        · intro h
          exact absurd hq.symm h
    | some q =>
        rw [hnow] at hq hne
        obtain rfl : q = c.qtyLot := hq
        constructor
        · intro h
          exact absurd (by rw [hnow, h]) (hqty c.priceTick)
        · intro _
          exact hne

/-- Every changed price is a price of one of the two sides. -/
theorem mem_changes_or {previous current : List Level} {bids : Bool} {p : Int64}
    (hp : p ∈ (changes previous current bids).1) :
    p ∈ (ofLevels previous).keys ∨ p ∈ (ofLevels current).keys := by
  rw [mem_changes] at hp
  by_contra hno
  push Not at hno
  simp only [mem_keys_iff, not_exists] at hno
  refine hp ?_
  rw [Option.eq_none_iff_forall_ne_some.2 hno.1, Option.eq_none_iff_forall_ne_some.2 hno.2]

/-- Two sides of at most `depth` levels differ in at most twice as many prices. -/
theorem length_changes_le {previous current : List Level} {bids : Bool} :
    (changes previous current bids).1.length ≤ (ofLevels previous).len + (ofLevels current).len := by
  have hsub : (changes previous current bids).1 ⊆ (ofLevels previous).keys ++ (ofLevels current).keys := by
    intro p hp
    exact List.mem_append.2 (mem_changes_or hp)
  have hnd : (changes previous current bids).1.Nodup := (changes_sorted previous current bids).nodup
  have hle := (hnd.subperm hsub).length_le
  simpa [len] using hle

/-! ## Sides that show levels -/

/-- The two sides are those of the levels. -/
def Shows (sides : PriceMap × PriceMap) (bids asks : List Level) : Prop :=
  (∀ p, sides.1.lookup p = (ofLevels bids).lookup p) ∧
    ∀ p, sides.2.lookup p = (ofLevels asks).lookup p

theorem shows_ofLevels (bids asks : List Level) : Shows (ofLevels bids, ofLevels asks) bids asks :=
  ⟨fun _ => rfl, fun _ => rfl⟩

theorem lookup_ofLevels_ne_zero {bids : Bool} {levels : List Level} (hs : SideSorted bids levels)
    (hq : ∀ l ∈ levels, l.qtyLot ≠ 0) (p : Int64) : (ofLevels levels).lookup p ≠ some 0 := by
  intro hp
  exact hq _ ((lookup_ofLevels (nodup_prices hs)).1 hp) rfl

variable {sides : PriceMap × PriceMap} {bids asks bids' asks' : List Level}

/-- The changes of both sides take them from the old levels to the new ones. -/
theorem Shows.step (h : Shows sides bids asks)
    (hb : ∀ p, (ofLevels bids').lookup p ≠ some 0) (ha : ∀ p, (ofLevels asks').lookup p ≠ some 0) :
    Shows
      (applyArrays sides.1 (changes bids bids' true).1 (changes bids bids' true).2,
        applyArrays sides.2 (changes asks asks' false).1 (changes asks asks' false).2)
      bids' asks' :=
  ⟨lookup_applyArrays_changes h.1 hb, lookup_applyArrays_changes h.2 ha⟩

/-- Without changes the sides show the new levels already. -/
theorem Shows.same (h : Shows sides bids asks) (hb : (changes bids bids' true).1 = [])
    (ha : (changes asks asks' false).1 = []) : Shows sides bids' asks' :=
  ⟨fun p => (h.1 p).trans (changes_eq_nil_iff.1 hb p),
    fun p => (h.2 p).trans (changes_eq_nil_iff.1 ha p)⟩

theorem Shows.listing (h : Shows sides bids asks) (hb : SideSorted true bids)
    (ha : SideSorted false asks) : listing true sides.1 = bids ∧ listing false sides.2 = asks := by
  rw [listing_congr h.1, listing_congr h.2]
  exact ⟨listing_ofLevels hb, listing_ofLevels ha⟩

end MarketInfo
