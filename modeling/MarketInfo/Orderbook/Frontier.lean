import MarketInfo.Lib.Transition
import MarketInfo.Orderbook.Book

/-! # A depth-limited book against the true book

The exchange keeps a whole book; the program is fed its best retained levels and
then every later change. What the depth-limited book knows of a side is bounded
by a frontier: the rank up to which it has been told everything, or no bound
when it has been told the whole side. Trimming moves the frontier towards the
top, nothing moves it away, and below it the book may hold levels that were
inserted there while others stay hidden from it.

`Tracks` relates one side of the book to the true side and its frontier. It holds
in every reachable state; whether the top of the book is right depends on how
many of the held levels lie within the frontier (`top_of_tracks`).
-/

namespace MarketInfo

open Listing PriceMap Transition

/-! ## The frontier of one side -/

/-- The price is one the book has been told about. -/
@[reducible] def Within (bids : Bool) (frontier : Option Int) (price : Int64) : Prop :=
  ∀ f ∈ frontier, rank bids price ≤ f

/-- The true levels within the frontier. -/
def known (bids : Bool) (frontier : Option Int) (truth : PriceMap) : List Level :=
  (listing bids truth).filter fun l => decide (Within bids frontier l.priceTick)

@[simp] theorem within_none {bids : Bool} {p : Int64} : Within bids none p := by simp [Within]

@[simp] theorem within_some {bids : Bool} {f : Int} {p : Int64} :
    Within bids (some f) p ↔ rank bids p ≤ f := by simp [Within]

theorem mem_known {bids : Bool} {frontier : Option Int} {truth : PriceMap} {l : Level} :
    l ∈ known bids frontier truth ↔
      truth.lookup l.priceTick = some l.qtyLot ∧ Within bids frontier l.priceTick := by
  rw [known, List.mem_filter, mem_listing, decide_eq_true_eq]

/-- The rank of the last of the best `n` levels. -/
def lastRank (bids : Bool) (n : Nat) (truth : PriceMap) : Option Int :=
  ((listing bids truth).take n).getLast?.map fun l => rank bids l.priceTick

/-- The frontier after a change: more known levels than the book retains move it
to the last one retained. -/
def advance (bids : Bool) (retained : Nat) (frontier : Option Int) (truth : PriceMap) : Option Int :=
  if retained < (known bids frontier truth).length then lastRank bids retained truth else frontier

/-- The frontier a snapshot of the best `retained` levels starts with. -/
def initialFrontier (bids : Bool) (retained : Nat) (truth : PriceMap) : Option Int :=
  if truth.len < retained then none else lastRank bids retained truth

/-- What the held side has to do with the true one. -/
structure Tracks (bids : Bool) (retained : Nat) (held truth : PriceMap) (complete : Bool)
    (frontier : Option Int) : Prop where
  sub : ∀ p q, held.lookup p = some q → truth.lookup p = some q
  agree : ∀ p, Within bids frontier p → held.lookup p = truth.lookup p
  complete : complete = true ↔ frontier = none
  bounded : held.len ≤ retained

variable {bids : Bool} {retained : Nat} {held truth : PriceMap} {complete : Bool}
  {frontier : Option Int}

theorem listing_sortedBy (bids : Bool) (m : PriceMap) :
    Sorted (fun l : Level => rank bids l.priceTick) (listing bids m) :=
  sideSorted_iff.1 (listing_sorted bids m)

/-- Up to the last of the best `n` levels a map and its best `n` levels agree. -/
theorem mem_take_of_lastRank {n : Nat} {f : Int} (h : lastRank bids n truth = some f) {l : Level} :
    l ∈ (listing bids truth).take n ↔ l ∈ listing bids truth ∧ rank bids l.priceTick ≤ f := by
  unfold lastRank at h
  obtain ⟨z, hz, rfl⟩ := Option.map_eq_some_iff.1 h
  exact (listing_sortedBy bids truth).mem_take_iff hz l

theorem lastRank_isSome (bids : Bool) {n : Nat} (hn : 0 < n) (hlen : n ≤ truth.len) :
    ∃ f, lastRank bids n truth = some f := by
  have hne : (listing bids truth).take n ≠ [] := by
    intro h
    have := congrArg List.length h
    simp only [List.length_take, length_listing, List.length_nil] at this
    omega
  exact ⟨_, by rw [lastRank, List.getLast?_eq_some_getLast hne]; rfl⟩

theorem length_known_le (bids : Bool) (frontier : Option Int) (truth : PriceMap) :
    (known bids frontier truth).length ≤ truth.len := by
  rw [← length_listing bids]
  exact List.length_filter_le _ _

theorem length_known_none (bids : Bool) (truth : PriceMap) :
    (known bids none truth).length = truth.len := by
  rw [known, List.filter_eq_self.2 fun l _ => decide_eq_true within_none, length_listing]

theorem length_known_lastRank {n : Nat} {f : Int} (h : lastRank bids n truth = some f)
    (hlen : n ≤ truth.len) : (known bids (some f) truth).length = n := by
  have hsame : known bids (some f) truth = (listing bids truth).take n := by
    refine ((listing_sortedBy bids truth).filter _).ext ((listing_sortedBy bids truth).take n) ?_
    intro l
    rw [mem_take_of_lastRank h, mem_listing]
    exact mem_known.trans (and_congr_right fun _ => within_some)
  rw [hsame, List.length_take, length_listing, Nat.min_eq_left hlen]

/-- Listings that agree within the frontier have the same known levels at their
head. -/
theorem take_eq_of_known {m : PriceMap}
    (hagree : ∀ p, Within bids frontier p → m.lookup p = truth.lookup p) {d : Nat}
    (hd : d ≤ (known bids frontier truth).length ∨ frontier = none) :
    (listing bids m).take d = (listing bids truth).take d := by
  cases frontier with
  | none => rw [listing_congr fun p => hagree p within_none]
  | some f =>
      refine (listing_sortedBy bids m).take_eq_of_agree (listing_sortedBy bids truth) (f := f) ?_ ?_
      · intro l hl
        rw [mem_listing, mem_listing, hagree l.priceTick (within_some.2 hl)]
      · have := hd.resolve_right (by simp)
        simpa [known] using this

/-- The changes reach both sides of the relation before the trim. -/
theorem Tracks.changed (h : Tracks bids retained held truth complete frontier)
    (changes : List Level) :
    (∀ p q, (held.putAll changes).lookup p = some q → (truth.putAll changes).lookup p = some q) ∧
      ∀ p, Within bids frontier p →
        (held.putAll changes).lookup p = (truth.putAll changes).lookup p :=
  ⟨fun p => lookup_putAll_sub (h.sub p) changes,
    fun p hp => lookup_putAll_congr (h.agree p hp) changes⟩

/-- A level within the frontier survives the trim as long as the known levels fit. -/
theorem lookup_trim_of_known {m : PriceMap}
    (hagree : ∀ p, Within bids frontier p → m.lookup p = truth.lookup p)
    (hfit : (known bids frontier truth).length ≤ retained) {p : Int64} (hp : Within bids frontier p) :
    (trim m bids retained).1.lookup p = truth.lookup p := by
  rw [← hagree p hp]
  rcases Option.eq_none_or_eq_some (m.lookup p) with hnone | ⟨q, hq⟩
  · rw [hnone, Option.eq_none_iff_forall_ne_some]
    intro q hq
    exact absurd (lookup_trim_sub hq) (by simp [hnone])
  · rw [hq, lookup_trim]
    cases frontier with
    | none =>
        rw [length_known_none, ← len_congr fun p => hagree p within_none] at hfit
        rw [List.take_of_length_le (by rw [length_listing]; exact hfit), mem_listing]
        exact hq
    | some f =>
        -- the known levels are an initial segment of the side that fits
        have hs := listing_sortedBy bids m
        have hsame : (listing bids m).filter (fun l => decide (rank bids l.priceTick ≤ f)) =
            known bids (some f) truth := by
          refine (hs.filter _).ext ((listing_sortedBy bids truth).filter _) fun l => ?_
          rw [List.mem_filter, mem_listing, decide_eq_true_eq, mem_known, within_some]
          constructor
          · rintro ⟨hl, hr⟩
            exact ⟨by rw [← hagree l.priceTick (within_some.2 hr)]; exact hl, hr⟩
          · rintro ⟨hl, hr⟩
            exact ⟨by rw [hagree l.priceTick (within_some.2 hr)]; exact hl, hr⟩
        have hpf : rank bids p ≤ f := within_some.1 hp
        rw [hs.split f, hsame, List.take_append, List.take_of_length_le hfit]
        refine List.mem_append_left _ ?_
        rw [← hsame]
        simp only [List.mem_filter, mem_listing, decide_eq_true_eq]
        exact ⟨hq, hpf⟩

/-- One change of one side keeps the relation. -/
theorem Tracks.step (h : Tracks bids retained held truth complete frontier) (hret : 0 < retained)
    (changes : List Level) :
    Tracks bids retained (trim (held.putAll changes) bids retained).1 (truth.putAll changes)
      (complete && !decide (retained < (held.putAll changes).len))
      (advance bids retained frontier (truth.putAll changes)) := by
  obtain ⟨hsub, hagree⟩ := h.changed changes
  have hbound : (trim (held.putAll changes) bids retained).1.len ≤ retained := by
    rw [len_trim]
    exact Nat.min_le_left _ _
  have hcount : frontier = none → (known bids frontier (truth.putAll changes)).length =
      (held.putAll changes).len := by
    rintro rfl
    rw [length_known_none]
    exact len_congr fun p => (hagree p within_none).symm
  unfold advance
  split
  · -- the known levels overflow: the best retained ones are the true ones
    rename_i hover
    have hlong := (length_known_le bids frontier (truth.putAll changes))
    obtain ⟨f, hf⟩ := lastRank_isSome bids hret
      (hover.le.trans hlong)
    rw [hf]
    have htake : (listing bids (held.putAll changes)).take retained =
        (listing bids (truth.putAll changes)).take retained :=
      take_eq_of_known hagree (Or.inl hover.le)
    refine ⟨fun p q hq => hsub p q (lookup_trim_sub hq), fun p hp => ?_, ?_, hbound⟩
    · ext q
      rw [lookup_trim, htake, mem_take_of_lastRank hf, mem_listing]
      have hpf : rank bids p ≤ f := within_some.1 hp
      simp [hpf]
    · by_cases hc : frontier = none
      · rw [hcount hc] at hover
        simp [hover]
      · have : complete = false := by
          rw [← Bool.not_eq_true, h.complete]
          exact hc
        simp [this]
  · rename_i hfit
    refine ⟨fun p q hq => hsub p q (lookup_trim_sub hq),
      fun p hp => lookup_trim_of_known hagree (by omega) hp, ?_, hbound⟩
    by_cases hc : frontier = none
    · rw [hcount hc] at hfit
      simp [hc, h.complete.2 hc, hfit]
    · have : complete = false := by
        rw [← Bool.not_eq_true, h.complete]
        exact hc
      simp [this, hc]

/-- The best levels of a whole side, and the flag the snapshot sets. -/
theorem Tracks.init (bids : Bool) (truth : PriceMap) (hret : 0 < retained) :
    Tracks bids retained (ofLevels ((listing bids truth).take retained)) truth
      (decide (((listing bids truth).take retained).length < retained))
      (initialFrontier bids retained truth) := by
  have hsorted : SideSorted bids ((listing bids truth).take retained) :=
    sideSorted_iff.2 ((listing_sortedBy bids truth).take retained)
  have hlook : ∀ p q, (ofLevels ((listing bids truth).take retained)).lookup p = some q ↔
      ⟨p, q⟩ ∈ (listing bids truth).take retained :=
    fun p q => lookup_ofLevels (nodup_prices hsorted)
  have hsub : ∀ p q, (ofLevels ((listing bids truth).take retained)).lookup p = some q →
      truth.lookup p = some q :=
    fun p q hq => mem_listing.1 (List.mem_of_mem_take ((hlook p q).1 hq))
  refine ⟨hsub, fun p hp => ?_, ?_, ?_⟩
  · ext q
    rw [hlook]
    unfold initialFrontier at hp
    split at hp
    · rename_i hlt
      rw [List.take_of_length_le (by rw [length_listing]; exact hlt.le), mem_listing]
    · rename_i hge
      obtain ⟨f, hf⟩ := lastRank_isSome bids hret (not_lt.1 hge)
      rw [mem_take_of_lastRank hf, mem_listing]
      have hpf : rank bids p ≤ f := by simpa [hf] using hp
      simp [hpf]
  · unfold initialFrontier
    rw [decide_eq_true_eq, List.length_take, length_listing]
    split
    · simp
      omega
    · rename_i hge
      obtain ⟨f, hf⟩ := lastRank_isSome bids hret (not_lt.1 hge)
      simp [hf]
      omega
  · rw [len_ofLevels hsorted, List.length_take]
    exact Nat.min_le_left _ _

/-- Enough known levels at the head of a side make its top the true one. -/
theorem top_of_tracks (h : Tracks bids retained held truth complete frontier) {d : Nat}
    (hd : d ≤ (known bids frontier truth).length ∨ frontier = none) :
    (listing bids held).take d = (listing bids truth).take d :=
  take_eq_of_known h.agree hd

end MarketInfo
