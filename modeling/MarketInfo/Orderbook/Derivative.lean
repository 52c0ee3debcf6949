import MarketInfo.Model.Derivative
import MarketInfo.Orderbook.Book

/-! # The derivative order book

`orderbook.DerivativeBook` keeps the whole source book. An update is validated
against copies of both sides and installed only when all of it is good; what
fails leaves the levels alone and makes the book invalid.
-/

namespace MarketInfo

open PriceMap

/-! ## Updates -/

abbrev DerivativeAction := UInt8

namespace DerivativeAction

def new : DerivativeAction := 1
def change : DerivativeAction := 2
def delete : DerivativeAction := 3

end DerivativeAction

structure DerivativeChangeLevel where
  action : DerivativeAction
  priceTick : Int64
  qtyLot : UInt64
deriving DecidableEq, Repr

structure DerivativeUpdate where
  instrumentID : UInt32
  snapshot : Bool
  epoch : UUID
  changeID : UInt64
  prevChangeID : UInt64
  sourceTime : Time
  receivedAt : Time
  bids : List DerivativeChangeLevel
  asks : List DerivativeChangeLevel
deriving DecidableEq, Repr

namespace DerivativeUpdate

def side (u : DerivativeUpdate) (bids : Bool) : List DerivativeChangeLevel :=
  if bids then u.bids else u.asks

/-- The words of one side that go into the digest. -/
def sideWords (levels : List DerivativeChangeLevel) : List UInt64 :=
  UInt64.ofNat levels.length ::
    levels.flatMap fun l => [l.action.toUInt64, l.priceTick.toUInt64, l.qtyLot]

/-- What `derivativeUpdateDigest` writes to SHA-256, without the receive time and
the epoch. -/
def words (u : DerivativeUpdate) : List UInt64 :=
  [u.instrumentID.toUInt64, if u.snapshot then 1 else 0, u.changeID, u.prevChangeID,
    (Int64.ofInt u.sourceTime.unixMilli).toUInt64] ++ sideWords u.bids ++ sideWords u.asks

theorem changeID_of_words {u v : DerivativeUpdate} (h : u.words = v.words) :
    u.changeID = v.changeID ∧ u.instrumentID = v.instrumentID := by
  simp only [words, List.cons_append, List.cons.injEq] at h
  obtain ⟨hid, -, hchange, -⟩ := h
  exact ⟨hchange, UInt32.toUInt64_inj.1 hid⟩

end DerivativeUpdate

/-! ## The book -/

structure DerivativeBook where
  id : UInt32
  signed : Bool
  limit : Nat
  epoch : UUID
  valid : Bool
  reason : DerivativeReason
  sequence : UInt64
  digest : BitVec 256
  source : Time
  received : Time
  snapshotAt : Time
  bids : PriceMap
  asks : PriceMap

/-- A failed update: the reason the book is invalid for, and the error. -/
structure DerivativeFailure where
  reason : DerivativeReason
  message : String
deriving DecidableEq, Repr

/-- `switch l.Action`: the side after one change. -/
def applyDerivativeLevel (snapshot : Bool) (side : PriceMap) (l : DerivativeChangeLevel) :
    Except DerivativeFailure PriceMap :=
  if snapshot = true ∧ l.action ≠ DerivativeAction.new then
    .error ⟨DerivativeReason.parseError, "snapshot action must be new"⟩
  else if l.action = DerivativeAction.new then
    if l.priceTick ∈ side ∨ l.qtyLot = 0 then
      .error ⟨DerivativeReason.parseError, "invalid new level"⟩
    else .ok (side.insert l.priceTick l.qtyLot)
  else if l.action = DerivativeAction.change then
    if l.priceTick ∉ side ∨ l.qtyLot = 0 then
      .error ⟨DerivativeReason.parseError, "invalid change level"⟩
    else .ok (side.insert l.priceTick l.qtyLot)
  else if l.action = DerivativeAction.delete then
    if l.priceTick ∉ side ∨ l.qtyLot ≠ 0 then
      .error ⟨DerivativeReason.parseError, "invalid deletion"⟩
    else .ok (side.erase l.priceTick)
  else .error ⟨DerivativeReason.parseError, "unknown action"⟩

/-- The loop over the changes of one side, with the prices seen so far. -/
def applyDerivativeLevels (signed snapshot : Bool) (side : PriceMap) (seen : List Int64) :
    List DerivativeChangeLevel → Except DerivativeFailure PriceMap
  | [] => .ok side
  | l :: rest => do
      Check.failIf (l.priceTick ∈ seen ∨ (signed = false ∧ l.priceTick ≤ 0))
        (⟨DerivativeReason.parseError, "duplicate or invalid price"⟩ : DerivativeFailure)
      let side ← applyDerivativeLevel snapshot side l
      applyDerivativeLevels signed snapshot side (l.priceTick :: seen) rest

/-- The changes of one side, then the level cap. -/
def applyDerivativeSide (b : DerivativeBook) (snapshot : Bool) (side : PriceMap)
    (changes : List DerivativeChangeLevel) : Except DerivativeFailure PriceMap := do
  let changed ← applyDerivativeLevels b.signed snapshot side [] changes
  Check.failIf (b.limit < changed.len)
    (⟨DerivativeReason.resourceLimit, "full book exceeds memory level cap"⟩ : DerivativeFailure)
  return changed

/-- `ValidateDerivativeSides` on the best level of both sides. -/
def checkBest (b : DerivativeBook) (bids asks : PriceMap) : Except DerivativeFailure Unit :=
  match validateDerivativeSides (sorted bids true 1) (sorted asks false 1) 1 b.signed with
  | .error message => .error ⟨DerivativeReason.parseError, message⟩
  | .ok () => .ok ()

/-- The checks on the place of an update in the stream. -/
def checkPlace (b : DerivativeBook) (u : DerivativeUpdate) : Except DerivativeFailure Unit :=
  if u.snapshot = true then
    Check.failIf (b.valid = true ∨ b.reason ≠ DerivativeReason.notReady)
      ⟨DerivativeReason.sequenceGap, "unexpected snapshot: reset subscription first"⟩
  else
    Check.failIf (b.valid = false ∨ u.prevChangeID ≠ b.sequence ∨ u.changeID ≤ b.sequence)
      ⟨DerivativeReason.sequenceGap, "missing baseline or sequence predecessor"⟩

namespace DerivativeBook

def new (id : UInt32) (signed : Bool) (maxLevels : Nat) : Except String DerivativeBook := do
  Check.failIf (id = 0 ∨ maxLevels < bookDepth ∨ 20000 < maxLevels)
    "invalid derivative book identity/capacity"
  return { id, signed, limit := maxLevels, epoch := 0, valid := false,
           reason := DerivativeReason.notReady, sequence := 0, digest := 0, source := Time.zero,
           received := Time.zero, snapshotAt := Time.zero, bids := ∅, asks := ∅ }

def reset (b : DerivativeBook) (epoch : UUID) : DerivativeBook × Except String Unit :=
  if epoch = 0 then (b, .error "empty connection epoch")
  else if epoch = b.epoch then (b, .error "recovery requires a new subscription epoch")
  else
    ({ b with epoch, valid := false, reason := DerivativeReason.notReady, sequence := 0,
              digest := 0, source := Time.zero, received := Time.zero, snapshotAt := Time.zero,
              bids := ∅, asks := ∅ }, .ok ())

/-- `fail` in `Apply`. -/
def fail (b : DerivativeBook) (e : DerivativeFailure) : DerivativeBook × Except String Unit :=
  ({ b with valid := false, reason := e.reason }, .error e.message)

/-- Both sides after the update, computed on copies. -/
def prepare (b : DerivativeBook) (u : DerivativeUpdate) :
    Except DerivativeFailure (PriceMap × PriceMap) := do
  checkPlace b u
  Check.failIf (¬ b.received.IsZero ∧ u.receivedAt.Before b.received)
    (⟨DerivativeReason.clockDiscontinuity, "receive time went backwards"⟩ : DerivativeFailure)
  Check.failIf (2 * b.limit < u.bids.length ∨ 2 * b.limit < u.asks.length)
    (⟨DerivativeReason.resourceLimit, "update exceeds level budget"⟩ : DerivativeFailure)
  let bids ← applyDerivativeSide b u.snapshot (if u.snapshot then ∅ else b.bids) u.bids
  let asks ← applyDerivativeSide b u.snapshot (if u.snapshot then ∅ else b.asks) u.asks
  checkBest b bids asks
  return (bids, asks)

/-- The state `Apply` leaves when everything passed. -/
def install (b : DerivativeBook) (u : DerivativeUpdate) (digest : BitVec 256)
    (sides : PriceMap × PriceMap) : DerivativeBook :=
  { b with
    bids := sides.1
    asks := sides.2
    sequence := u.changeID
    digest
    source := u.sourceTime.utc
    received := u.receivedAt.utc
    snapshotAt := if u.snapshot then u.receivedAt.utc else b.snapshotAt
    valid := true
    reason := DerivativeReason.ok }

/-- An update that repeats the last change id. -/
@[reducible] def Repeats (b : DerivativeBook) (u : DerivativeUpdate) : Prop :=
  b.valid = true ∧ u.changeID = b.sequence

def apply (sha256 : List UInt64 → BitVec 256) (b : DerivativeBook) (u : DerivativeUpdate) :
    DerivativeBook × Except String Unit :=
  if u.epoch ≠ b.epoch ∨ u.epoch = 0 then (b, .error "stale subscription epoch")
  else if u.instrumentID ≠ b.id ∨ u.sourceTime.IsZero ∨ u.receivedAt.IsZero then
    b.fail ⟨DerivativeReason.parseError, "invalid update identity/provenance"⟩
  else if b.Repeats u then
    if sha256 u.words = b.digest then (b, .ok ())
    else b.fail ⟨DerivativeReason.sequenceGap, "conflicting duplicate change ID"⟩
  else
    match b.prepare u with
    | .error e => b.fail e
    | .ok sides => (b.install u (sha256 u.words) sides, .ok ())

def side (b : DerivativeBook) (bids : Bool) : PriceMap := if bids then b.bids else b.asks

end DerivativeBook

/-! ## What a change does to lookups -/

/-- A side as a function of the price. -/
abbrev SideView := Int64 → Option UInt64

def viewOf (side : PriceMap) : SideView := fun p => side.lookup p

/-- One change: a deletion takes the price away, anything else sets it. -/
def changeView (view : SideView) (l : DerivativeChangeLevel) : SideView :=
  Function.update view l.priceTick (if l.action = DerivativeAction.delete then none else some l.qtyLot)

/-- The side a stream of changes describes, from nothing. -/
def streamView (bids : Bool) (us : List DerivativeUpdate) : SideView :=
  (us.flatMap fun u => u.side bids).foldl changeView fun _ => none

/-- Prices that a book may hold. -/
@[reducible] def GoodLevels (signed : Bool) (side : PriceMap) : Prop :=
  ∀ p q, side.lookup p = some q → q ≠ 0 ∧ (signed = false → 0 < p)

theorem viewOf_insert (side : PriceMap) (p : Int64) (q : UInt64) :
    viewOf (side.insert p q) = Function.update (viewOf side) p (some q) := by
  funext r
  by_cases hr : r = p
  · rw [hr, Function.update_self]
    exact AList.lookup_insert side
  · rw [Function.update_of_ne hr]
    exact AList.lookup_insert_ne hr

theorem viewOf_erase (side : PriceMap) (p : Int64) :
    viewOf (side.erase p) = Function.update (viewOf side) p none := by
  funext r
  by_cases hr : r = p
  · rw [hr, Function.update_self]
    exact AList.lookup_erase p side
  · rw [Function.update_of_ne hr]
    exact AList.lookup_erase_ne hr

theorem goodLevels_update {signed : Bool} {side side' : PriceMap} {p : Int64} {v : Option UInt64}
    (h : viewOf side' = Function.update (viewOf side) p v)
    (hv : ∀ q, v = some q → q ≠ 0 ∧ (signed = false → 0 < p)) (hs : GoodLevels signed side) :
    GoodLevels signed side' := by
  intro r q hr
  change viewOf side' r = some q at hr
  rw [h] at hr
  by_cases hp : r = p
  · rw [hp, Function.update_self] at hr
    rw [hp]
    exact hv q hr
  · rw [Function.update_of_ne hp] at hr
    exact hs r q hr

theorem applyDerivativeLevel_eq_ok {snapshot : Bool} {side side' : PriceMap}
    {l : DerivativeChangeLevel} (h : applyDerivativeLevel snapshot side l = .ok side') :
    viewOf side' = changeView (viewOf side) l ∧
      (l.action ≠ DerivativeAction.delete → l.qtyLot ≠ 0) := by
  unfold applyDerivativeLevel at h
  split at h
  · cases h
  · split at h
    · rename_i hnew
      have hne : l.action ≠ DerivativeAction.delete := by
        rw [hnew]
        decide
      split at h
      · cases h
      · rename_i hgood
        obtain rfl := Except.ok.inj h
        unfold changeView
        rw [if_neg hne]
        exact ⟨viewOf_insert _ _ _, fun _ => (not_or.1 hgood).2⟩
    · split at h
      · rename_i hchange
        have hne : l.action ≠ DerivativeAction.delete := by
          rw [hchange]
          decide
        split at h
        · cases h
        · rename_i hgood
          obtain rfl := Except.ok.inj h
          unfold changeView
          rw [if_neg hne]
          exact ⟨viewOf_insert _ _ _, fun _ => (not_or.1 hgood).2⟩
      · split at h
        · rename_i hdelete
          split at h
          · cases h
          · obtain rfl := Except.ok.inj h
            unfold changeView
            rw [if_pos hdelete]
            exact ⟨viewOf_erase _ _, fun hne => absurd hdelete hne⟩
        · cases h

theorem applyDerivativeLevels_eq_ok {signed snapshot : Bool} {side side' : PriceMap}
    {seen : List Int64} {changes : List DerivativeChangeLevel}
    (h : applyDerivativeLevels signed snapshot side seen changes = .ok side')
    (hs : GoodLevels signed side) :
    viewOf side' = changes.foldl changeView (viewOf side) ∧ GoodLevels signed side' := by
  induction changes generalizing side seen with
  | nil =>
      obtain rfl := Except.ok.inj h
      exact ⟨rfl, hs⟩
  | cons l rest ih =>
      rw [applyDerivativeLevels, Check.seq_eq_ok, Check.failIf_eq_ok, not_or] at h
      obtain ⟨⟨-, hprice⟩, hrest⟩ := h
      obtain ⟨mid, hmid, hrest⟩ := Check.andThen_eq_ok.1 hrest
      obtain ⟨hview, hqty⟩ := applyDerivativeLevel_eq_ok hmid
      have hgood : GoodLevels signed mid := by
        refine goodLevels_update hview ?_ hs
        intro q hq
        split at hq
        · cases hq
        · rename_i hne
          obtain rfl := Option.some.inj hq
          refine ⟨hqty hne, ?_⟩
          intro hsigned
          exact Int64.not_le.1 fun hle => hprice ⟨hsigned, hle⟩
      rw [List.foldl_cons, ← hview]
      exact ih hrest hgood

/-- Both best levels pass, so the sides do not cross. -/
theorem checkBest_eq_ok {b : DerivativeBook} {bids asks : PriceMap}
    (h : checkBest b bids asks = .ok ()) :
    ∀ p ∈ bids.keys, ∀ q ∈ asks.keys, p < q := by
  have hvalid : DerivativeSides (sorted bids true 1) (sorted asks false 1) 1 b.signed := by
    unfold checkBest at h
    split at h
    · cases h
    · rename_i hok
      exact validateDerivativeSides_eq_ok.1 hok
  have huncrossed := hvalid.uncrossed
  rw [sorted_eq_take, sorted_eq_take] at huncrossed
  intro p hp q hq
  by_contra hle
  obtain ⟨bq, hbq⟩ := exists_lookup hp
  obtain ⟨aq, haq⟩ := exists_lookup hq
  have hbid : (⟨p, bq⟩ : Level) ∈ listing true bids := mem_listing.2 hbq
  have hask : (⟨q, aq⟩ : Level) ∈ listing false asks := mem_listing.2 haq
  have hbs := listing_sorted true bids
  have has := listing_sorted false asks
  -- the best levels are at least as close as these two
  cases hb : listing true bids with
  | nil =>
      rw [hb] at hbid
      cases hbid
  | cons b₀ bs =>
      cases ha : listing false asks with
      | nil =>
          rw [ha] at hask
          cases hask
      | cons a₀ as =>
          rw [hb] at hbid hbs huncrossed
          rw [ha] at hask has huncrossed
          have hb₀ : p ≤ b₀.priceTick := by
            rcases List.mem_cons.1 hbid with heq | hmem
            · rw [← heq]
              exact Int64.le_refl p
            · have hlt := (List.pairwise_cons.1 (sideSorted_iff.1 hbs)).1 _ hmem
              exact Int64.le_of_lt (rank_lt_bids.1 hlt)
          have ha₀ : a₀.priceTick ≤ q := by
            rcases List.mem_cons.1 hask with heq | hmem
            · rw [← heq]
              exact Int64.le_refl q
            · have hlt := (List.pairwise_cons.1 (sideSorted_iff.1 has)).1 _ hmem
              exact Int64.le_of_lt (rank_lt_asks.1 hlt)
          refine huncrossed ⟨b₀, rfl, a₀, rfl, ?_⟩
          exact Int64.le_trans ha₀ (Int64.le_trans (Int64.not_lt.1 hle) hb₀)

/-! ## What an accepted update leaves -/

namespace DerivativeBook

variable {sha256 : List UInt64 → BitVec 256} {b : DerivativeBook} {u : DerivativeUpdate}

/-- What holds when `prepare` succeeds. -/
structure Prepared (b : DerivativeBook) (u : DerivativeUpdate) (sides : PriceMap × PriceMap) :
    Prop where
  place : checkPlace b u = .ok ()
  bids : applyDerivativeSide b u.snapshot (if u.snapshot then ∅ else b.bids) u.bids = .ok sides.1
  asks : applyDerivativeSide b u.snapshot (if u.snapshot then ∅ else b.asks) u.asks = .ok sides.2
  best : checkBest b sides.1 sides.2 = .ok ()

theorem prepare_eq_ok {sides : PriceMap × PriceMap} (h : b.prepare u = .ok sides) :
    Prepared b u sides := by
  simp only [prepare, Check.seq_eq_ok] at h
  obtain ⟨hplace, -, -, h⟩ := h
  obtain ⟨bids, hbids, h⟩ := Check.andThen_eq_ok.1 h
  obtain ⟨asks, hasks, h⟩ := Check.andThen_eq_ok.1 h
  rw [Check.seq_eq_ok] at h
  obtain ⟨hbest, h⟩ := h
  obtain rfl := Except.ok.inj h
  exact ⟨hplace, hbids, hasks, hbest⟩

/-- Everything `Apply` can do. -/
inductive Outcome (sha256 : List UInt64 → BitVec 256) (b : DerivativeBook) (u : DerivativeUpdate) :
    DerivativeBook × Except String Unit → Prop where
  | stale (message : String) : u.epoch ≠ b.epoch ∨ u.epoch = 0 → Outcome sha256 b u (b, .error message)
  | failed (e : DerivativeFailure) : u.epoch = b.epoch → e.reason ≠ DerivativeReason.notReady →
      Outcome sha256 b u (b.fail e)
  | repeated : u.epoch = b.epoch → b.Repeats u → Outcome sha256 b u (b, .ok ())
  | installed (sides : PriceMap × PriceMap) : u.epoch = b.epoch → u.epoch ≠ 0 →
      u.instrumentID = b.id → ¬ u.sourceTime.IsZero → ¬ u.receivedAt.IsZero → ¬ b.Repeats u →
      Prepared b u sides → Outcome sha256 b u (b.install u (sha256 u.words) sides, .ok ())

/-- A computation none of whose failures leaves the book ready for a snapshot. -/
@[reducible] def Loud {α : Type} (x : Except DerivativeFailure α) : Prop :=
  ∀ e, x = .error e → e.reason ≠ DerivativeReason.notReady

theorem loud_ok {α : Type} (a : α) : Loud (Except.ok a) := by
  intro e h
  cases h

theorem loud_error {α : Type} {e : DerivativeFailure} (h : e.reason ≠ DerivativeReason.notReady) :
    Loud (Except.error e : Except DerivativeFailure α) := by
  intro e' h'
  obtain rfl := Except.error.inj h'
  exact h

theorem loud_failIf {p : Prop} [Decidable p] {e : DerivativeFailure}
    (h : e.reason ≠ DerivativeReason.notReady) : Loud (Check.failIf p e) := by
  unfold Check.failIf
  split
  · exact loud_error h
  · exact loud_ok ()

theorem loud_bind {α β : Type} {x : Except DerivativeFailure α} {g : α → Except DerivativeFailure β}
    (hx : Loud x) (hg : ∀ a, Loud (g a)) : Loud (x >>= g) := by
  cases x with
  | error e =>
      intro e' h
      obtain rfl := Except.error.inj h
      exact hx e rfl
  | ok a => exact hg a

theorem loud_applyDerivativeLevel (snapshot : Bool) (side : PriceMap) (l : DerivativeChangeLevel) :
    Loud (applyDerivativeLevel snapshot side l) := by
  have hparse : DerivativeReason.parseError ≠ DerivativeReason.notReady := by decide
  unfold applyDerivativeLevel
  split
  · exact loud_error hparse
  · split
    · split
      · exact loud_error hparse
      · exact loud_ok _
    · split
      · split
        · exact loud_error hparse
        · exact loud_ok _
      · split
        · split
          · exact loud_error hparse
          · exact loud_ok _
        · exact loud_error hparse

theorem loud_applyDerivativeLevels (signed snapshot : Bool) (side : PriceMap) (seen : List Int64)
    (changes : List DerivativeChangeLevel) :
    Loud (applyDerivativeLevels signed snapshot side seen changes) := by
  induction changes generalizing side seen with
  | nil => exact loud_ok side
  | cons l rest ih =>
      refine loud_bind (loud_failIf (by decide)) ?_
      intro _
      refine loud_bind (loud_applyDerivativeLevel snapshot side l) ?_
      intro mid
      exact ih mid _

theorem loud_prepare (b : DerivativeBook) (u : DerivativeUpdate) : Loud (b.prepare u) := by
  have hside : ∀ side changes, Loud (applyDerivativeSide b u.snapshot side changes) := by
    intro side changes
    refine loud_bind (loud_applyDerivativeLevels _ _ _ _ _) ?_
    intro changed
    exact loud_bind (loud_failIf (by decide)) fun _ => loud_ok _
  have hplace : Loud (checkPlace b u) := by
    unfold checkPlace
    split
    · exact loud_failIf (by decide)
    · exact loud_failIf (by decide)
  have hbest : ∀ bids asks, Loud (checkBest b bids asks) := by
    intro bids asks
    unfold checkBest
    split
    · exact loud_error (by decide : DerivativeReason.parseError ≠ DerivativeReason.notReady)
    · exact loud_ok ()
  refine loud_bind hplace fun _ => ?_
  refine loud_bind (loud_failIf (by decide)) fun _ => ?_
  refine loud_bind (loud_failIf (by decide)) fun _ => ?_
  refine loud_bind (hside _ _) fun bids => ?_
  refine loud_bind (hside _ _) fun asks => ?_
  exact loud_bind (hbest bids asks) fun _ => loud_ok _

/-- One update does one of the four. -/
theorem apply_outcome (sha256 : List UInt64 → BitVec 256) (b : DerivativeBook)
    (u : DerivativeUpdate) : Outcome sha256 b u (b.apply sha256 u) := by
  unfold apply
  split
  · rename_i hstale
    exact .stale _ hstale
  · rename_i hepoch
    rw [not_or, not_not] at hepoch
    split
    · exact .failed _ hepoch.1 (by decide)
    · rename_i hidentity
      rw [not_or, not_or, not_not] at hidentity
      split
      · rename_i hrepeats
        split
        · exact .repeated hepoch.1 hrepeats
        · exact .failed _ hepoch.1 (by decide)
      · rename_i hrepeats
        split
        · rename_i e he
          exact .failed e hepoch.1 (loud_prepare b u e he)
        · rename_i sides hsides
          exact .installed sides hepoch.1 hepoch.2 hidentity.1 hidentity.2.1 hidentity.2.2 hrepeats
            (prepare_eq_ok hsides)

end DerivativeBook

end MarketInfo
