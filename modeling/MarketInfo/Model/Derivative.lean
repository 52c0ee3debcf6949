import MarketInfo.Model.Minute

/-! # Derivative minutes

Snapshots of derivative books and the minutes they are stored in. A derivative
side is not padded and may be empty, and the price of a signed instrument may be
zero or negative. Every second has a quality slot, valid or not.
-/

namespace MarketInfo

/-! ## Data -/

/-- `uuid.UUID`; zero is `uuid.Nil`. -/
abbrev UUID := BitVec 128

/-- Zero is `DerivativeOK`. -/
abbrev DerivativeReason := UInt8

namespace DerivativeReason

def ok : DerivativeReason := 0
def notReady : DerivativeReason := 1
def disconnected : DerivativeReason := 2
def sequenceGap : DerivativeReason := 3
def parseError : DerivativeReason := 4
def metadataUncertain : DerivativeReason := 5
def samplingLag : DerivativeReason := 6
def anchorMissing : DerivativeReason := 7
def resourceLimit : DerivativeReason := 8
def clockDiscontinuity : DerivativeReason := 9
def marketClosed : DerivativeReason := 10

end DerivativeReason

def derivativeEncodingVersion : UInt8 := 1

def minuteMask : BitVec 64 := (1#64 <<< 60) - 1#64

theorem hasSecond_minuteMask {s : Nat} : HasSecond minuteMask s ↔ s ≤ 59 := by
  by_cases hs : s < 64
  · have hall : ∀ i : Fin 64, HasSecond minuteMask i ↔ (i : Nat) ≤ 59 := by decide
    exact hall ⟨s, hs⟩
  · have hno : ¬ HasSecond minuteMask s := by
      rw [hasSecond_iff, BitVec.getLsbD_of_ge _ _ (by omega)]
      simp
    exact iff_of_false hno (by omega)

structure DerivativeSnapshot where
  instrumentID : UInt32
  sourceTime : Time
  receivedAt : Time
  epoch : UUID
  changeID : UInt64
  bids : List Level
  asks : List Level
deriving DecidableEq, Repr

/-- `model.DerivativeSnapshot{}`. -/
def DerivativeSnapshot.none : DerivativeSnapshot :=
  { instrumentID := 0, sourceTime := Time.zero, receivedAt := Time.zero, epoch := 0, changeID := 0,
    bids := [], asks := [] }

/-- Zero times and ids mean unknown. -/
structure DerivativeQuality where
  sampled : Bool := false
  streamValid : Bool := false
  replayValid : Bool := false
  marketKnown : Bool := false
  marketOpen : Bool := false
  sourceTime : Time := Time.zero
  receivedAt : Time := Time.zero
  capturedAt : Time := Time.zero
  epoch : UUID := 0
  changeID : UInt64 := 0
  lastSnapshotAt : Time := Time.zero
  connectionConfirmedAt : Time := Time.zero
  tradingRuleID : String := ""
  rulePublishedAt : Time := Time.zero
  marketStateAt : Time := Time.zero
  /-- 0 unknown, 1 lifecycle ingress, 2 catalog publication. -/
  marketStateBasis : UInt8 := 0
  reason : DerivativeReason := DerivativeReason.ok
  bidLevels : UInt8 := 0
  askLevels : UInt8 := 0
deriving DecidableEq, Repr

structure DerivativeMinute where
  id : UInt64
  instrumentID : UInt32
  minuteTime : Time
  encodingVersion : UInt8
  storedDepth : UInt8
  signed : Bool
  validBitmap : BitVec 64
  deltaBitmap : BitVec 64
  bids : List Level
  asks : List Level
deriving DecidableEq

structure DerivativeMinuteBatch where
  instrumentID : UInt32
  minuteTime : Time
  signed : Bool
  /-- `none` means second zero was unavailable. -/
  minute : Option DerivativeMinute
  deltas : List BookDelta
  quality : Vector DerivativeQuality 60
deriving DecidableEq

/-! ## Validation -/

/-- `ValidDigest`: a SHA-256 in lower-case hexadecimal. -/
def validDigest (s : String) : Bool :=
  s.utf8ByteSize = 64 && s.toList.all fun c => ('0' ≤ c && c ≤ '9') || ('a' ≤ c && c ≤ 'f')

/-- The loop over the levels of one side, with the level before this one. -/
def derivativeLevelsFrom (bids signed : Bool) : Option Level → List Level → Except String Unit
  | _, [] => .ok ()
  | previous, l :: rest => do
      Check.failIf (l.qtyLot = 0 ∨ (signed = false ∧ l.priceTick ≤ 0)) "invalid derivative level"
      Check.failIf ((bids = true ∧ ∃ p ∈ previous, p.priceTick ≤ l.priceTick) ∨
          (bids = false ∧ ∃ p ∈ previous, l.priceTick ≤ p.priceTick))
        "derivative side is not strictly ordered"
      derivativeLevelsFrom bids signed (some l) rest

def validateDerivativeSides (bids asks : List Level) (depth : Nat) (signed : Bool) :
    Except String Unit := do
  Check.failIf (depth < 1 ∨ depth < bids.length ∨ depth < asks.length) "derivative depth exceeded"
  derivativeLevelsFrom true signed none bids
  derivativeLevelsFrom false signed none asks
  Check.failIf (Crosses bids asks) "derivative book locked or crossed"

def DerivativeSnapshot.validate (s : DerivativeSnapshot) (depth : Nat) (signed : Bool) :
    Except String Unit := do
  Check.failIf (s.instrumentID = 0 ∨ s.sourceTime.IsZero ∨ s.receivedAt.IsZero ∨ s.epoch = 0)
    "derivative snapshot requires identity and provenance"
  validateDerivativeSides s.bids s.asks depth signed

/-- One side of a derivative book: quantities are nonzero, and prices positive
unless signed, best price first. -/
structure DerivativeSide (bids signed : Bool) (levels : List Level) : Prop where
  qty : ∀ l ∈ levels, l.qtyLot ≠ 0
  price : signed = false → ∀ l ∈ levels, 0 < l.priceTick
  sorted : SideSorted bids levels

/-- What `ValidateDerivativeSides` accepts. -/
structure DerivativeSides (bids asks : List Level) (depth : Nat) (signed : Bool) : Prop where
  depth_pos : 1 ≤ depth
  bids_le : bids.length ≤ depth
  asks_le : asks.length ≤ depth
  bidSide : DerivativeSide true signed bids
  askSide : DerivativeSide false signed asks
  uncrossed : ¬ Crosses bids asks

theorem derivativeLevelsFrom_eq_ok {bids signed : Bool} {previous : Option Level}
    {levels : List Level} :
    derivativeLevelsFrom bids signed previous levels = .ok () ↔
      DerivativeSide bids signed levels ∧
        ∀ p ∈ previous, ∀ l ∈ levels, rank bids p.priceTick < rank bids l.priceTick := by
  induction levels generalizing previous with
  | nil =>
      simp only [derivativeLevelsFrom, true_iff]
      exact ⟨⟨by simp, by simp, .nil⟩, by simp⟩
  | cons l rest ih =>
      simp only [derivativeLevelsFrom, Check.seq_eq_ok, Check.failIf_eq_ok, ih, not_or,
        order_checks_iff]
      constructor
      · rintro ⟨⟨hq, hp⟩, hprev, hrest, hnext⟩
        have hnext' := hnext l rfl
        refine ⟨⟨?_, ?_, ?_⟩, ?_⟩
        · exact List.forall_mem_cons.2 ⟨hq, hrest.qty⟩
        · intro hs
          exact List.forall_mem_cons.2 ⟨Int64.not_le.1 fun hle => hp ⟨hs, hle⟩, hrest.price hs⟩
        · refine List.pairwise_cons.2 ⟨?_, hrest.sorted⟩
          intro q hq
          obtain ⟨m, hm, rfl⟩ := List.mem_map.1 hq
          exact hnext' m hm
        · intro p hprevious m hm
          rcases List.mem_cons.1 hm with rfl | hm
          · exact hprev p hprevious
          · exact (hprev p hprevious).trans (hnext' m hm)
      · rintro ⟨hside, hprev⟩
        obtain ⟨hhead, htail⟩ := List.pairwise_cons.1 hside.sorted
        refine ⟨⟨hside.qty l (by simp), ?_⟩, fun p hp => hprev p hp l (by simp), ⟨?_, ?_, htail⟩, ?_⟩
        · rintro ⟨hs, hle⟩
          exact absurd (hside.price hs l (by simp)) (Int64.not_lt.2 hle)
        · exact fun m hm => hside.qty m (by simp [hm])
        · exact fun hs m hm => hside.price hs m (by simp [hm])
        · rintro p ⟨⟩ m hm
          exact hhead _ (List.mem_map_of_mem hm)

theorem validateDerivativeSides_eq_ok {bids asks : List Level} {depth : Nat} {signed : Bool} :
    validateDerivativeSides bids asks depth signed = .ok () ↔
      DerivativeSides bids asks depth signed := by
  simp only [validateDerivativeSides, Check.seq_eq_ok, Check.failIf_eq_ok,
    derivativeLevelsFrom_eq_ok, not_or, not_lt]
  constructor
  · rintro ⟨⟨hd, hbl, hal⟩, ⟨hb, -⟩, ⟨ha, -⟩, hc⟩
    exact ⟨hd, hbl, hal, hb, ha, hc⟩
  · intro h
    exact ⟨⟨h.depth_pos, h.bids_le, h.asks_le⟩, ⟨h.bidSide, by simp⟩, ⟨h.askSide, by simp⟩, h.uncrossed⟩

end MarketInfo
