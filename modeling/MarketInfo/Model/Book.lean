import MarketInfo.Lib.Listing
import MarketInfo.Model.Time

/-! # Order-book data

Levels, snapshots, minute books and their deltas. Prices are `Int64` ticks and
quantities `UInt64` lots. A side is ordered best first: bids descend, asks
ascend; both directions are one order on the `rank` of a price.
-/

namespace MarketInfo

/-- Option depth, and the maximum depth of the modern encoding. -/
def bookDepth : Nat := 10

def marketBookDepth : Nat := 5

/-- Depth of the anchors needed to replay old data. -/
def legacyBookDepth : Nat := 50

structure Level where
  priceTick : Int64
  qtyLot : UInt64
deriving DecidableEq, Repr

instance : Inhabited Level := ⟨⟨0, 0⟩⟩

structure BookSnapshot where
  instrumentID : UInt32
  sourceTime : Time
  sequence : Int64
  /-- Set on historical replay; live snapshots leave it zero. -/
  storedDepth : UInt8 := 0
  bids : List Level
  asks : List Level
deriving DecidableEq, Repr

/-! ## Price order -/

/-- Smaller rank is the better price of the side. -/
def rank (bids : Bool) (price : Int64) : Int :=
  if bids then -price.toInt else price.toInt

/-- The comparison the source sorts a side with. -/
def better (bids : Bool) (p q : Int64) : Bool :=
  if bids then decide (q < p) else decide (p < q)

theorem rank_injective (bids : Bool) : Function.Injective (rank bids) := by
  intro p q h
  apply Int64.toInt_inj.1
  unfold rank at h
  split at h
  · omega
  · exact h

theorem better_iff (bids : Bool) (p q : Int64) :
    better bids p q = true ↔ rank bids p < rank bids q := by
  cases bids <;> simp [better, rank, Int64.lt_iff_toInt_lt]

theorem rank_lt_bids {p q : Int64} : rank true p < rank true q ↔ q < p := by
  simp [rank, Int64.lt_iff_toInt_lt]

theorem rank_lt_asks {p q : Int64} : rank false p < rank false q ↔ p < q := by
  simp [rank, Int64.lt_iff_toInt_lt]

/-- Best price first, strictly. -/
def SideSorted (bids : Bool) (levels : List Level) : Prop :=
  Listing.Sorted (rank bids) (levels.map Level.priceTick)

/-! ## Snapshot validation -/

/-- The loop body of `validateLevels`, with the level before this one. -/
def validateLevelsFrom (bids : Bool) : Nat → Option Level → List Level → Except String Unit
  | _, _, [] => .ok ()
  | index, previous, level :: rest => do
      Check.failIf (level.priceTick ≤ 0 ∨ level.qtyLot = 0)
        s!"level {index} must have positive price and quantity"
      Check.failIf (bids = true ∧ ∃ p ∈ previous, p.priceTick ≤ level.priceTick)
        "prices are not strictly descending"
      Check.failIf (bids = false ∧ ∃ p ∈ previous, level.priceTick ≤ p.priceTick)
        "prices are not strictly ascending"
      validateLevelsFrom bids (index + 1) (some level) rest

def validateLevels (levels : List Level) (bids : Bool) : Except String Unit :=
  validateLevelsFrom bids 0 none levels

/-- `a[0] >= b[0]` on two price lists, when both have a first price. -/
@[reducible] def Crosses (bids asks : List Level) : Prop :=
  ∃ b ∈ bids.head?, ∃ a ∈ asks.head?, a.priceTick ≤ b.priceTick

def BookSnapshot.validate (s : BookSnapshot) (depth : Nat) : Except String Unit := do
  Check.failIf (s.instrumentID = 0 ∨ s.sourceTime.IsZero)
    "book snapshot requires instrument and source time"
  Check.failIf (depth = 0 ∨ depth < s.bids.length ∨ depth < s.asks.length ∨ s.bids.length = 0 ∨
      s.asks.length = 0)
    s!"book snapshot sides must contain between 1 and {depth} levels"
  Check.wrap "bids" (validateLevels s.bids true)
  Check.wrap "asks" (validateLevels s.asks false)
  Check.failIf (Crosses s.bids s.asks) "book is locked or crossed"

/-- Positive prices and quantities, best price first. -/
structure ValidSide (bids : Bool) (levels : List Level) : Prop where
  positive : ∀ l ∈ levels, 0 < l.priceTick ∧ l.qtyLot ≠ 0
  sorted : SideSorted bids levels

/-- The two order checks of the loop are one comparison of ranks. -/
theorem order_checks_iff {bids : Bool} {previous : Option Level} {level : Level} :
    (¬ (bids = true ∧ ∃ p ∈ previous, p.priceTick ≤ level.priceTick) ∧
      ¬ (bids = false ∧ ∃ p ∈ previous, level.priceTick ≤ p.priceTick)) ↔
      ∀ p ∈ previous, rank bids p.priceTick < rank bids level.priceTick := by
  cases bids with
  | true => simp [rank_lt_bids, Int64.not_le]
  | false => simp [rank_lt_asks, Int64.not_le]

theorem validateLevelsFrom_eq_ok {bids : Bool} {index : Nat} {previous : Option Level}
    {levels : List Level} :
    validateLevelsFrom bids index previous levels = .ok () ↔
      ValidSide bids levels ∧
        ∀ p ∈ previous, ∀ l ∈ levels, rank bids p.priceTick < rank bids l.priceTick := by
  induction levels generalizing index previous with
  | nil => exact ⟨fun _ => ⟨⟨by simp, List.Pairwise.nil⟩, by simp⟩, fun _ => rfl⟩
  | cons level rest ih =>
      simp only [validateLevelsFrom, Check.seq_eq_ok, Check.failIf_eq_ok, ih]
      constructor
      · rintro ⟨hpos, hd, ha, hrest, hnext⟩
        have hprev := order_checks_iff.1 ⟨hd, ha⟩
        have hnext' := hnext level rfl
        refine ⟨⟨?_, ?_⟩, ?_⟩
        · intro l hl
          rcases List.mem_cons.1 hl with rfl | hl
          · push Not at hpos
            exact ⟨Int64.not_le.1 (by simpa using hpos.1), hpos.2⟩
          · exact hrest.positive l hl
        · refine List.pairwise_cons.2 ⟨?_, hrest.sorted⟩
          intro q hq
          obtain ⟨l, hl, rfl⟩ := List.mem_map.1 hq
          exact hnext' l hl
        · intro p hp l hl
          rcases List.mem_cons.1 hl with rfl | hl
          · exact hprev p hp
          · exact (hprev p hp).trans (hnext' l hl)
      · rintro ⟨hside, hprev⟩
        have hpos := hside.positive level (by simp)
        obtain ⟨hhead, htail⟩ := List.pairwise_cons.1 hside.sorted
        obtain ⟨hd, ha⟩ := order_checks_iff.2 fun p hp => hprev p hp level (by simp)
        refine ⟨?_, hd, ha, ⟨fun l hl => hside.positive l (by simp [hl]), htail⟩, ?_⟩
        · rintro (h | h)
          · exact absurd hpos.1 (Int64.not_lt.2 h)
          · exact hpos.2 h
        · rintro p ⟨⟩ l hl
          exact hhead _ (List.mem_map_of_mem hl)

theorem validateLevels_eq_ok {bids : Bool} {levels : List Level} :
    validateLevels levels bids = .ok () ↔ ValidSide bids levels := by
  rw [validateLevels, validateLevelsFrom_eq_ok]
  simp

/-- What `BookSnapshot.validate` accepts. -/
structure ValidSnapshot (s : BookSnapshot) (depth : Nat) : Prop where
  instrument : s.instrumentID ≠ 0
  sourceTime : ¬ s.sourceTime.IsZero
  bids_le : s.bids.length ≤ depth
  asks_le : s.asks.length ≤ depth
  bids_ne : s.bids ≠ []
  asks_ne : s.asks ≠ []
  bids : ValidSide true s.bids
  asks : ValidSide false s.asks
  uncrossed : ¬ Crosses s.bids s.asks

theorem validate_eq_ok {s : BookSnapshot} {depth : Nat} :
    s.validate depth = .ok () ↔ ValidSnapshot s depth := by
  simp only [BookSnapshot.validate, Check.seq_eq_ok, Check.failIf_eq_ok, Check.wrap_eq_ok,
    validateLevels_eq_ok]
  constructor
  · rintro ⟨hid, hdepth, hb, ha, hc⟩
    push Not at hid hdepth
    obtain ⟨-, hbl, hal, hbn, han⟩ := hdepth
    exact ⟨hid.1, hid.2, hbl, hal, List.length_pos_iff.1 (by omega), List.length_pos_iff.1 (by omega),
      hb, ha, hc⟩
  · intro h
    have hb := List.length_pos_iff.2 h.bids_ne
    have ha := List.length_pos_iff.2 h.asks_ne
    have hbl := h.bids_le
    have hal := h.asks_le
    refine ⟨by simp [h.instrument, h.sourceTime], by omega, h.bids, h.asks, h.uncrossed⟩

/-- The best prices of a valid snapshot leave a gap, and with them all prices. -/
theorem ValidSnapshot.gap {s : BookSnapshot} {depth : Nat} (h : ValidSnapshot s depth)
    {b a : Level} (hb : b ∈ s.bids) (ha : a ∈ s.asks) : b.priceTick < a.priceTick := by
  have hbs := h.bids.sorted
  have has := h.asks.sorted
  have hc := h.uncrossed
  unfold SideSorted at hbs has
  cases hbl : s.bids with
  | nil => simp [hbl] at hb
  | cons b0 bs =>
      cases hal : s.asks with
      | nil => simp [hal] at ha
      | cons a0 as =>
          rw [hbl] at hb hbs
          rw [hal] at ha has
          have hc0 : b0.priceTick < a0.priceTick := by
            refine Int64.not_le.1 fun hle => hc ?_
            exact ⟨b0, by simp [hbl], a0, by simp [hal], hle⟩
          have hb0 : b.priceTick ≤ b0.priceTick := by
            rcases List.mem_cons.1 hb with rfl | hb
            · exact Int64.le_refl _
            · exact Int64.le_of_lt
                (rank_lt_bids.1 ((List.pairwise_cons.1 hbs).1 _ (List.mem_map_of_mem hb)))
          have ha0 : a0.priceTick ≤ a.priceTick := by
            rcases List.mem_cons.1 ha with rfl | ha
            · exact Int64.le_refl _
            · exact Int64.le_of_lt
                (rank_lt_asks.1 ((List.pairwise_cons.1 has).1 _ (List.mem_map_of_mem ha)))
          exact Int64.lt_of_le_of_lt hb0 (Int64.lt_of_lt_of_le hc0 ha0)

end MarketInfo
