import MarketInfo.Lib.BinaryHeap
import MarketInfo.Model.PriceMap

/-! # The order book

`orderbook.Book`: two price maps with a bounded number of levels a side, and for
each side a flag saying that the whole side is known.

The bounded-heap selection of `sorted` is reduced to the full listing of the
side (`sorted_eq_take`), and every operation is described by what it does to
lookups and listings.
-/

namespace MarketInfo

open Listing

inductive BookState where
  | connecting
  | valid
  | invalid
  | resyncing
deriving DecidableEq, Repr

structure ChangeSet where
  sourceTime : Time
  sequence : Int64
  bids : List Level
  asks : List Level
deriving DecidableEq, Repr

structure Book where
  instrumentID : UInt32
  retainedDepth : Nat
  state : BookState
  reason : String
  sequence : Int64
  sourceTime : Time
  bids : PriceMap
  asks : PriceMap
  bidSideComplete : Bool
  askSideComplete : Bool

/-! ## Price maps -/

def levelsToMap (levels : List Level) : PriceMap := PriceMap.ofLevels levels

/-- The loop of `validateChanges`, with the prices seen so far. -/
def validateChangesFrom (side : String) : Nat → List Int64 → List Level → Except String Unit
  | _, _, [] => .ok ()
  | index, seen, level :: rest => do
      Check.failIf (level.priceTick ≤ 0) s!"{side} change {index} has non-positive price"
      Check.failIf (level.priceTick ∈ seen) s!"{side} contains duplicate price {level.priceTick}"
      validateChangesFrom side (index + 1) (level.priceTick :: seen) rest

def validateChanges (levels : List Level) (side : String) : Except String Unit :=
  validateChangesFrom side 0 [] levels

structure PreviousValue where
  price : Int64
  qty : Option UInt64

def capture (side : PriceMap) (levels : List Level) : List PreviousValue :=
  levels.map fun level => ⟨level.priceTick, side.lookup level.priceTick⟩

def restore (side : PriceMap) (values : List PreviousValue) : PriceMap :=
  values.foldl (fun m v => match v.qty with
    | some qty => m.insert v.price qty
    | none => m.erase v.price) side

def apply (side : PriceMap) (levels : List Level) : PriceMap := side.putAll levels

def crossed (bids asks : PriceMap) : Bool :=
  if bids.len = 0 ∨ asks.len = 0 then false
  else
    let bestBid := bids.keys.foldl (fun best price => if best < price then price else best) 0
    let bestAsk := asks.keys.foldl (fun best price => if price < best then price else best)
      Int64.maxValue
    decide (bestAsk ≤ bestBid)

/-- `priceHeap.Less`: the worst selected price goes to the root. -/
def heapLess (bids : Bool) (p q : Int64) : Bool :=
  if bids then decide (p < q) else decide (q < p)

def sorted (side : PriceMap) (bids : Bool) (limit : Nat) : List Level :=
  if limit = 0 ∨ side.len = 0 then []
  else
    let prices := if side.len ≤ limit then side.keys
      else (BinaryHeap.select (heapLess bids) limit side.keys).toList
    side.levelsAt (sortBy (better bids) prices)

def trim (side : PriceMap) (bids : Bool) (limit : Nat) : PriceMap × Bool :=
  if side.len ≤ limit then (side, false)
  else
    let levels := sorted side bids side.len
    ((levels.drop limit).foldl (fun m level => m.erase level.priceTick) side, true)

/-! ### What the operations do to a side -/

open PriceMap

theorem heapLess_iff (bids : Bool) (p q : Int64) :
    heapLess bids p q = true ↔ -rank bids p < -rank bids q := by
  have h := better_iff bids q p
  unfold better at h
  unfold heapLess
  rw [h]
  omega

/-- The bounded selection gives the head of the full listing, whatever the
iteration order of the map. -/
theorem sorted_eq_take (side : PriceMap) (bids : Bool) (limit : Nat) :
    sorted side bids limit = (listing bids side).take limit := by
  have hlen : (listing bids side).length = side.len := length_listing bids side
  unfold sorted
  split
  · rename_i h
    rcases h with h | h
    · rw [h, List.take_zero]
    · rw [List.eq_nil_of_length_eq_zero (hlen.trans h), List.take_nil]
  · rename_i h
    push Not at h
    obtain ⟨hlimit, -⟩ := h
    split
    · rename_i hle
      rw [List.take_of_length_le (by omega)]
      rfl
    · rename_i hlt
      obtain ⟨-, hsize, rest, hperm, hrest⟩ :=
        BinaryHeap.select_holds (heapLess_iff bids) (by omega : 0 < limit) side.keys
      have htake := sortBy_take_of_split (better_iff bids) (rank_injective bids) side.keys_nodup
        hperm fun a ha b hb => by have := hrest a ha b hb; omega
      rw [Array.length_toList, hsize, Nat.min_eq_left (by unfold len at hlt; omega)] at htake
      simp only [htake, listing, levelsAt, List.map_take]

theorem lookup_eraseAll {side : PriceMap} {levels : List Level} {p : Int64} :
    (levels.foldl (fun m level => m.erase level.priceTick) side).lookup p =
      if p ∈ levels.map Level.priceTick then none else side.lookup p := by
  induction levels generalizing side with
  | nil => simp
  | cons l ls ih =>
      rw [List.foldl_cons, ih, List.map_cons]
      by_cases hls : p ∈ ls.map Level.priceTick
      · rw [if_pos hls, if_pos (List.mem_cons_of_mem _ hls)]
      · rw [if_neg hls]
        by_cases hp : p = l.priceTick
        · rw [if_pos (by simp [hp]), hp, AList.lookup_erase]
        · rw [if_neg (by simp [hp, hls]), AList.lookup_erase_ne hp]

theorem trim_snd (side : PriceMap) (bids : Bool) (limit : Nat) :
    (trim side bids limit).2 = decide (limit < side.len) := by
  unfold trim
  split <;> simp <;> omega

/-- Trimming keeps the best `limit` levels. -/
theorem listing_trim (side : PriceMap) (bids : Bool) (limit : Nat) :
    listing bids (trim side bids limit).1 = (listing bids side).take limit := by
  unfold trim
  split
  · rename_i hle
    rw [List.take_of_length_le (by rw [length_listing]; exact hle)]
  · have hwhole : sorted side bids side.len = listing bids side := by
      rw [sorted_eq_take, List.take_of_length_le (by simp)]
    have hs := listing_sorted bids side
    have hcat : SideSorted bids ((listing bids side).take limit ++ (listing bids side).drop limit) := by
      rw [List.take_append_drop]
      exact hs
    refine sideSorted_ext (listing_sorted bids _) ?_ fun x => ?_
    · exact sideSorted_iff.2 ((sideSorted_iff.1 hs).take limit)
    · have hx : x ∈ listing bids side ↔ _ := mem_listing
      rw [← List.take_append_drop limit (listing bids side), List.mem_append] at hx
      simp only [hwhole]
      rw [mem_listing, lookup_eraseAll]
      have hdisj : x.priceTick ∈ ((listing bids side).drop limit).map Level.priceTick →
          x ∉ (listing bids side).take limit := by
        intro hd ht
        obtain ⟨y, hy, hyx⟩ := List.mem_map.1 hd
        have hlt : rank bids x.priceTick < rank bids y.priceTick :=
          (List.pairwise_append.1 (sideSorted_iff.1 hcat)).2.2 x ht y hy
        rw [hyx] at hlt
        exact lt_irrefl _ hlt
      split
      · rename_i hd
        simp [hdisj hd]
      · rename_i hd
        rw [← hx]
        refine ⟨fun h => h.elim id fun h => absurd (List.mem_map_of_mem h) hd, Or.inl⟩

theorem len_trim (side : PriceMap) (bids : Bool) (limit : Nat) :
    (trim side bids limit).1.len = min limit side.len := by
  rw [← length_listing bids, listing_trim, List.length_take, length_listing]

theorem lookup_trim {side : PriceMap} {bids : Bool} {limit : Nat} {p : Int64} {q : UInt64} :
    (trim side bids limit).1.lookup p = some q ↔ ⟨p, q⟩ ∈ (listing bids side).take limit := by
  rw [← listing_trim, mem_listing]

theorem lookup_trim_sub {side : PriceMap} {bids : Bool} {limit : Nat} {p : Int64} {q : UInt64}
    (h : (trim side bids limit).1.lookup p = some q) : side.lookup p = some q :=
  mem_listing.1 (List.mem_of_mem_take (lookup_trim.1 h))

/-- The running best bid of `crossed`. -/
theorem foldl_bestBid {x : Int64} {l : List Int64} :
    (∀ p, p ≤ l.foldl (fun best price => if best < price then price else best) x ↔
      p ≤ x ∨ ∃ b ∈ l, p ≤ b) := by
  intro p
  induction l generalizing x with
  | nil => simp
  | cons b bs ih =>
      rw [List.foldl_cons, ih]
      simp only [List.mem_cons, exists_eq_or_imp]
      split <;> grind

/-- The running best ask of `crossed`. -/
theorem foldl_bestAsk {x : Int64} {l : List Int64} :
    (∀ p, l.foldl (fun best price => if price < best then price else best) x ≤ p ↔
      x ≤ p ∨ ∃ a ∈ l, a ≤ p) := by
  intro p
  induction l generalizing x with
  | nil => simp
  | cons b bs ih =>
      rw [List.foldl_cons, ih]
      simp only [List.mem_cons, exists_eq_or_imp]
      split <;> grind

/-- On positive bids the running bounds are the real best prices. -/
theorem crossed_eq_false_iff {bids asks : PriceMap} (hb : ∀ p ∈ bids.keys, 0 < p) :
    crossed bids asks = false ↔ ∀ b ∈ bids.keys, ∀ a ∈ asks.keys, b < a := by
  unfold crossed
  split
  · rename_i h
    unfold len at h
    simp only [List.length_eq_zero_iff] at h
    rcases h with h | h <;> simp [h]
  · rename_i h
    push Not at h
    obtain ⟨hbn, han⟩ := h
    obtain ⟨b0, hb0⟩ := List.exists_mem_of_length_pos (Nat.pos_of_ne_zero hbn)
    obtain ⟨a0, ha0⟩ := List.exists_mem_of_length_pos (Nat.pos_of_ne_zero han)
    simp only [decide_eq_false_iff_not, foldl_bestAsk, foldl_bestBid]
    push Not
    constructor
    · rintro ⟨-, h⟩ b hbm a ham
      exact Int64.not_le.1 ((h b hbm).2 a ham)
    · intro h
      refine ⟨⟨by decide, ?_⟩, ?_⟩
      · intro a ham
        have := h b0 hb0 a ham
        have := hb b0 hb0
        grind
      · intro b hbm
        have := h b hbm a0 ha0
        have := Int64.le_maxValue a0
        exact ⟨by grind, fun a ham => Int64.not_le.2 (h b hbm a ham)⟩

/-! ## The book -/

namespace Book

def new (instrumentID : UInt32) (retainedDepth : Nat) : Except String Book := do
  Check.failIf (instrumentID = 0 ∨ retainedDepth < bookDepth)
    s!"order book requires an instrument and retained depth >= {bookDepth}"
  return { instrumentID, retainedDepth, state := .connecting, reason := "", sequence := 0,
           sourceTime := Time.zero, bids := ∅, asks := ∅, bidSideComplete := false,
           askSideComplete := false }

def applySnapshot (b : Book) (snapshot : BookSnapshot) : Book × Except String Unit :=
  if snapshot.instrumentID ≠ b.instrumentID then (b, .error "snapshot instrument mismatch")
  else
    match snapshot.validate b.retainedDepth with
    | .error e => (b, .error e)
    | .ok () =>
        ({ b with
            bids := levelsToMap snapshot.bids
            asks := levelsToMap snapshot.asks
            bidSideComplete := decide (snapshot.bids.length < b.retainedDepth)
            askSideComplete := decide (snapshot.asks.length < b.retainedDepth)
            sequence := snapshot.sequence
            sourceTime := snapshot.sourceTime.utc
            state := .valid
            reason := "" }, .ok ())

/-- The checks of `ApplyChanges` before it touches a level. -/
def checkChanges (b : Book) (expectedSequence : Int64) (changes : ChangeSet) :
    Except String Unit := do
  Check.failIf (changes.sourceTime.IsZero ∨ changes.sequence ≤ expectedSequence)
    "changes require source time and an increasing sequence"
  validateChanges changes.bids "bids"
  validateChanges changes.asks "asks"
  Check.failIf (b.state ≠ .valid) "order book is not valid"
  Check.failIf (b.sequence ≠ expectedSequence)
    s!"order book sequence changed: have {b.sequence} want {expectedSequence}"

/-- Absolute quantities, applied atomically. -/
def applyChanges (b : Book) (expectedSequence : Int64) (changes : ChangeSet) :
    Book × Except String Unit :=
  match b.checkChanges expectedSequence changes with
  | .error e => (b, .error e)
  | .ok () =>
      let oldBids := capture b.bids changes.bids
      let oldAsks := capture b.asks changes.asks
      let bids := apply b.bids changes.bids
      let asks := apply b.asks changes.asks
      if crossed bids asks = true then
        ({ b with bids := restore bids oldBids, asks := restore asks oldAsks },
          .error "changes would lock or cross the order book")
      else
        let bidTrim := trim bids true b.retainedDepth
        let askTrim := trim asks false b.retainedDepth
        let b := { b with
          bids := bidTrim.1
          asks := askTrim.1
          bidSideComplete := b.bidSideComplete && !bidTrim.2
          askSideComplete := b.askSideComplete && !askTrim.2 }
        if (b.bids.len < bookDepth ∧ b.bidSideComplete = false) ∨
            (b.asks.len < bookDepth ∧ b.askSideComplete = false) then
          ({ b with state := .invalid, reason := "insufficient retained depth" }, .ok ())
        else
          ({ b with sequence := changes.sequence, sourceTime := changes.sourceTime.utc }, .ok ())

def markInvalid (b : Book) (reason : String) : Book := { b with state := .invalid, reason }

def markResyncing (b : Book) (reason : String) : Book := { b with state := .resyncing, reason }

def snapshot (b : Book) (depth : Nat) : Option BookSnapshot :=
  if depth = 0 ∨ b.retainedDepth < depth then none
  else if b.state ≠ .valid ∨ b.bids.len = 0 ∨ b.asks.len = 0 then none
  else some
    { instrumentID := b.instrumentID
      sourceTime := b.sourceTime
      sequence := b.sequence
      bids := sorted b.bids true depth
      asks := sorted b.asks false depth }

/-- One side by its direction. -/
def side (b : Book) (bids : Bool) : PriceMap := if bids then b.bids else b.asks

/-- The completeness flag of one side. -/
def sideComplete (b : Book) (bids : Bool) : Bool :=
  if bids then b.bidSideComplete else b.askSideComplete

end Book

def BookSnapshot.side (s : BookSnapshot) (bids : Bool) : List Level := if bids then s.bids else s.asks

def ChangeSet.side (c : ChangeSet) (bids : Bool) : List Level := if bids then c.bids else c.asks

/-! ### What the operations do to the book -/

theorem validateChangesFrom_eq_ok {side : String} {index : Nat} {seen : List Int64}
    {levels : List Level} :
    validateChangesFrom side index seen levels = .ok () ↔
      (∀ l ∈ levels, 0 < l.priceTick ∧ l.priceTick ∉ seen) ∧
        (levels.map Level.priceTick).Nodup := by
  induction levels generalizing index seen with
  | nil => simp [validateChangesFrom]
  | cons l ls ih =>
      simp only [validateChangesFrom, Check.seq_eq_ok, Check.failIf_eq_ok, ih, List.map_cons,
        List.nodup_cons, List.mem_cons, List.mem_map, not_or, forall_eq_or_imp]
      constructor
      · rintro ⟨hpos, hseen, hrest, hnd⟩
        refine ⟨⟨⟨Int64.not_le.1 hpos, hseen⟩, fun x hx => ⟨(hrest x hx).1, (hrest x hx).2.2⟩⟩, ?_, hnd⟩
        rintro ⟨x, hx, he⟩
        exact (hrest x hx).2.1 he
      · rintro ⟨⟨⟨hpos, hseen⟩, hrest⟩, hl, hnd⟩
        refine ⟨Int64.not_le.2 hpos, hseen, fun x hx => ⟨(hrest x hx).1, ?_, (hrest x hx).2⟩, hnd⟩
        exact fun he => hl ⟨x, hx, he⟩

/-- Positive prices, each at most once. -/
@[reducible] def WellFormedChanges (levels : List Level) : Prop :=
  (∀ l ∈ levels, 0 < l.priceTick) ∧ (levels.map Level.priceTick).Nodup

theorem validateChanges_eq_ok {levels : List Level} {side : String} :
    validateChanges levels side = .ok () ↔ WellFormedChanges levels := by
  rw [validateChanges, validateChangesFrom_eq_ok]
  simp

namespace Book

variable {b b' : Book} {changes : ChangeSet} {expected : Int64}

theorem checkChanges_eq_ok :
    b.checkChanges expected changes = .ok () ↔
      (¬ changes.sourceTime.IsZero ∧ expected < changes.sequence) ∧
        (∀ bids, WellFormedChanges (changes.side bids)) ∧ b.state = .valid ∧ b.sequence = expected := by
  simp only [checkChanges, Check.seq_eq_ok, Check.failIf_eq_ok, validateChanges_eq_ok, not_or,
    Int64.not_le, not_not, Bool.forall_bool, ChangeSet.side, if_true, Bool.false_eq_true, if_false,
    and_assoc]
  tauto

/-- The whole side after the changes, before trimming. -/
def changed (b : Book) (changes : ChangeSet) (bids : Bool) : PriceMap :=
  (b.side bids).putAll (changes.side bids)

/-- The flag `ApplyChanges` leaves. -/
def stillComplete (b : Book) (changes : ChangeSet) (bids : Bool) : Bool :=
  b.sideComplete bids && !decide (b.retainedDepth < (b.changed changes bids).len)

/-- The condition that invalidates the book: some side is shallow and not known
to be whole. -/
@[reducible] def Shallow (b : Book) (changes : ChangeSet) : Prop :=
  ∃ bids, min b.retainedDepth (b.changed changes bids).len < bookDepth ∧
    b.stillComplete changes bids = false

/-- What an `ApplyChanges` that passes its checks and does not cross leaves. -/
structure Applied (b : Book) (changes : ChangeSet) (b' : Book) : Prop where
  instrument : b'.instrumentID = b.instrumentID
  retained : b'.retainedDepth = b.retainedDepth
  side : ∀ bids, b'.side bids = (trim (b.changed changes bids) bids b.retainedDepth).1
  complete : ∀ bids, b'.sideComplete bids = b.stillComplete changes bids
  invalid : b.Shallow changes →
    b'.state = .invalid ∧ b'.sequence = b.sequence ∧ b'.sourceTime = b.sourceTime
  valid : ¬ b.Shallow changes →
    b'.state = b.state ∧ b'.sequence = changes.sequence ∧ b'.sourceTime = changes.sourceTime.utc

theorem applyChanges_of_uncrossed (hok : b.checkChanges expected changes = .ok ())
    (hx : crossed (b.changed changes true) (b.changed changes false) = false) :
    (b.applyChanges expected changes).2 = .ok () ∧
      Applied b changes (b.applyChanges expected changes).1 := by
  have hbids : apply b.bids changes.bids = b.changed changes true := rfl
  have hasks : apply b.asks changes.asks = b.changed changes false := rfl
  have hshallow : b.Shallow changes ↔
      ((trim (b.changed changes true) true b.retainedDepth).1.len < bookDepth ∧
        (b.bidSideComplete && !(trim (b.changed changes true) true b.retainedDepth).2) = false) ∨
      ((trim (b.changed changes false) false b.retainedDepth).1.len < bookDepth ∧
        (b.askSideComplete && !(trim (b.changed changes false) false b.retainedDepth).2) = false) := by
    simp only [Shallow, Bool.exists_bool, stillComplete, sideComplete, len_trim, trim_snd, if_true,
      Bool.false_eq_true, if_false]
    exact or_comm
  unfold applyChanges
  rw [hok]
  simp only [hbids, hasks, hx, Bool.false_eq_true, if_false]
  split
  · rename_i h
    refine ⟨rfl, rfl, rfl, ?_, ?_, fun _ => ⟨rfl, rfl, rfl⟩, fun hn => absurd (hshallow.2 h) hn⟩
    · rintro (_ | _) <;> rfl
    · rintro (_ | _) <;> simp [sideComplete, stillComplete, trim_snd]
  · rename_i h
    refine ⟨rfl, rfl, rfl, ?_, ?_, fun hs => absurd (hshallow.1 hs) h, fun _ => ⟨rfl, rfl, rfl⟩⟩
    · rintro (_ | _) <;> rfl
    · rintro (_ | _) <;> simp [sideComplete, stillComplete, trim_snd]

/-- A rejected change set is not applied. -/
theorem applyChanges_of_error {e : String} (h : b.checkChanges expected changes = .error e) :
    b.applyChanges expected changes = (b, .error e) := by
  unfold applyChanges
  rw [h]

theorem snapshot_of_valid {depth : Nat} (hd : 0 < depth) (hret : depth ≤ b.retainedDepth)
    (hv : b.state = .valid) :
    b.snapshot depth =
      if (b.side true).len = 0 ∨ (b.side false).len = 0 then none
      else some
        { instrumentID := b.instrumentID
          sourceTime := b.sourceTime
          sequence := b.sequence
          bids := (listing true (b.side true)).take depth
          asks := (listing false (b.side false)).take depth } := by
  unfold snapshot
  rw [if_neg (by omega)]
  simp only [hv, ne_eq, not_true_eq_false, false_or, sorted_eq_take]
  rfl

/-- A book with an empty side has no snapshot, and an invalid one has none. -/
theorem snapshot_isSome {depth : Nat} {s : BookSnapshot} (h : b.snapshot depth = some s) :
    b.state = .valid ∧ 0 < depth ∧ depth ≤ b.retainedDepth := by
  unfold snapshot at h
  split at h
  · cases h
  · split at h
    · cases h
    · rename_i h1 h2
      push Not at h1 h2
      exact ⟨h2.1, by omega, by omega⟩

/-- What an accepted snapshot installs. -/
structure Seeded (b : Book) (s : BookSnapshot) (b' : Book) : Prop where
  instrument : b'.instrumentID = b.instrumentID
  retained : b'.retainedDepth = b.retainedDepth
  valid : b'.state = .valid
  side : ∀ bids, b'.side bids = PriceMap.ofLevels (s.side bids)
  complete : ∀ bids, b'.sideComplete bids = decide ((s.side bids).length < b.retainedDepth)
  sequence : b'.sequence = s.sequence
  sourceTime : b'.sourceTime = s.sourceTime.utc

theorem applySnapshot_eq_ok {s : BookSnapshot} :
    (b.applySnapshot s).2 = .ok () ↔
      s.instrumentID = b.instrumentID ∧ ValidSnapshot s b.retainedDepth := by
  rw [← validate_eq_ok]
  unfold applySnapshot
  split
  · simp_all
  · split <;> simp_all

theorem applySnapshot_seeded {s : BookSnapshot} (h : (b.applySnapshot s).2 = .ok ()) :
    Seeded b s (b.applySnapshot s).1 := by
  obtain ⟨hid, hv⟩ := applySnapshot_eq_ok.1 h
  unfold applySnapshot
  rw [if_neg (not_not.2 hid), validate_eq_ok.2 hv]
  refine ⟨rfl, rfl, rfl, ?_, ?_, rfl, rfl⟩
  · rintro (_ | _) <;> rfl
  · rintro (_ | _) <;> rfl

theorem new_eq_ok {instrumentID : UInt32} {retained : Nat} (h : Book.new instrumentID retained = .ok b) :
    instrumentID ≠ 0 ∧ bookDepth ≤ retained ∧ b.instrumentID = instrumentID ∧
      b.retainedDepth = retained := by
  simp only [Book.new, Check.seq_eq_ok, Check.failIf_eq_ok, pure, Except.pure,
    Except.ok.injEq] at h
  obtain ⟨hok, rfl⟩ := h
  push Not at hok
  exact ⟨hok.1, hok.2, rfl, rfl⟩

end Book

end MarketInfo
