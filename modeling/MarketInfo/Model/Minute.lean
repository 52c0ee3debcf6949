import MarketInfo.Model.PriceMap

/-! # Minutes of a book

A minute of one instrument: the anchor sides at second zero in fixed arrays of
fifty levels, padded with zero levels, a bitmap of the valid seconds, and the
level changes of later seconds as parallel arrays of prices and quantities.
-/

namespace MarketInfo

/-! ## Bitmaps of seconds -/

/-- `bitmap & (1 << second) != 0`. -/
@[reducible] def HasSecond (bitmap : BitVec 64) (second : Nat) : Prop :=
  bitmap &&& (1#64 <<< second) ≠ 0#64

theorem hasSecond_iff {bitmap : BitVec 64} {second : Nat} :
    HasSecond bitmap second ↔ bitmap.getLsbD second = true := by
  unfold HasSecond
  rw [← BitVec.twoPow_eq, BitVec.and_twoPow]
  by_cases h : bitmap.getLsbD second = true
  · have hlt := BitVec.lt_of_getLsbD h
    have hne : BitVec.twoPow 64 second ≠ 0#64 := by
      intro he
      have hbit := congrArg (fun b => b.getLsbD second) he
      simp [hlt] at hbit
    simp [h, hne]
  · simp [h]

/-- Setting a bit of a second. -/
theorem hasSecond_set {bitmap : BitVec 64} {s t : Nat} (ht : t < 64) :
    HasSecond (bitmap ||| (1#64 <<< t)) s ↔ HasSecond bitmap s ∨ s = t := by
  rw [hasSecond_iff, hasSecond_iff, ← BitVec.twoPow_eq, BitVec.getLsbD_or, BitVec.getLsbD_twoPow]
  simp only [Bool.or_eq_true, Bool.and_eq_true, decide_eq_true_eq]
  constructor
  · rintro (h | ⟨-, h⟩)
    · exact Or.inl h
    · exact Or.inr h.symm
  · rintro (h | h)
    · exact Or.inl h
    · exact Or.inr ⟨ht, h.symm⟩

theorem hasSecond_zero {s : Nat} : ¬ HasSecond 0#64 s := by
  rw [hasSecond_iff]
  simp

/-- `bitmap >> 60 != 0` looks at the bits past second 59. -/
theorem shift_eq_zero_iff {bitmap : BitVec 64} {k : Nat} :
    bitmap >>> k = 0#64 ↔ ∀ s, k ≤ s → ¬ HasSecond bitmap s := by
  simp only [hasSecond_iff, Bool.not_eq_true]
  constructor
  · intro h s hs
    have hbit := congrArg (fun b => b.getLsbD (s - k)) h
    simpa [BitVec.getLsbD_ushiftRight, Nat.add_sub_cancel' hs] using hbit
  · intro h
    refine BitVec.eq_of_getLsbD_eq fun i _ => ?_
    rw [BitVec.getLsbD_ushiftRight, h (k + i) (by omega)]
    simp

theorem bitmap_ext {a b : BitVec 64} (h : ∀ s, HasSecond a s ↔ HasSecond b s) : a = b := by
  refine BitVec.eq_of_getLsbD_eq fun i _ => ?_
  have hi := h i
  rw [hasSecond_iff, hasSecond_iff] at hi
  exact Bool.eq_iff_iff.2 hi

/-- `a &^ b == 0`: every second of `a` is one of `b`. -/
theorem andNot_eq_zero_iff {a b : BitVec 64} :
    a &&& ~~~b = 0#64 ↔ ∀ s, HasSecond a s → HasSecond b s := by
  simp only [hasSecond_iff]
  constructor
  · intro h s ha
    have hlt := BitVec.lt_of_getLsbD ha
    have hbit := congrArg (fun b => b.getLsbD s) h
    simpa [BitVec.getLsbD_and, BitVec.getLsbD_not, ha, hlt] using hbit
  · intro h
    refine BitVec.eq_of_getLsbD_eq fun i hi => ?_
    have himp := h i
    cases ha : a.getLsbD i with
    | false => simp [BitVec.getLsbD_and, ha]
    | true => simp [BitVec.getLsbD_and, BitVec.getLsbD_not, ha, himp ha]

/-! ## Minutes and deltas -/

structure BookDelta where
  minuteID : UInt64
  secondOffset : UInt8
  bidChangePrice : List Int64
  bidChangeQty : List UInt64
  askChangePrice : List Int64
  askChangeQty : List UInt64
deriving DecidableEq, Repr

structure MinuteBook where
  id : UInt64
  instrumentID : UInt32
  minuteTime : Time
  validBitmap : BitVec 64
  storedDepth : UInt8
  bids : Vector Level legacyBookDepth
  asks : Vector Level legacyBookDepth
deriving DecidableEq

structure MinuteBatch where
  minute : MinuteBook
  deltas : List BookDelta
deriving DecidableEq

/-- `Level{}`. -/
def Level.zero : Level := ⟨0, 0⟩

/-- Whether the stored depth is one of the recorded encodings. -/
@[reducible] def KnownDepth (depth : UInt8) : Prop :=
  depth.toNat = marketBookDepth ∨ depth.toNat = bookDepth ∨ depth.toNat = legacyBookDepth

def MinuteBook.validateDepth (m : MinuteBook) : Except String Unit := do
  Check.failIf (¬ KnownDepth m.storedDepth) s!"unsupported stored book depth {m.storedDepth}"
  Check.checkAll
    (fun index =>
      Check.failIf (m.bids.toList.getD index .zero ≠ .zero ∨ m.asks.toList.getD index .zero ≠ .zero)
        s!"nonzero level {index + 1} exceeds stored depth {m.storedDepth}")
    (List.range' m.storedDepth.toNat (legacyBookDepth - m.storedDepth.toNat))

/-! ## Padded sides -/

/-- `copy(array[:], levels)` into a zeroed array. -/
def pack (levels : List Level) : Vector Level legacyBookDepth :=
  ⟨(levels.take legacyBookDepth ++
      List.replicate (legacyBookDepth - levels.length) Level.zero).toArray, by
    simp only [List.size_toArray, List.length_append, List.length_take, List.length_replicate]
    omega⟩

theorem toList_pack {levels : List Level} (h : levels.length ≤ legacyBookDepth) :
    (pack levels).toList =
      levels ++ List.replicate (legacyBookDepth - levels.length) Level.zero := by
  simp only [pack, Vector.toList_mk, List.take_of_length_le h]

/-- A side without its padding. -/
structure Padded (side : Vector Level legacyBookDepth) (levels : List Level) : Prop where
  positive : ∀ l ∈ levels, 0 < l.priceTick ∧ l.qtyLot ≠ 0
  toList : side.toList = levels ++ List.replicate (legacyBookDepth - levels.length) Level.zero

theorem Padded.length_le {side : Vector Level legacyBookDepth} {levels : List Level}
    (h : Padded side levels) : levels.length ≤ legacyBookDepth := by
  have hlen := congrArg List.length h.toList
  rw [Vector.length_toList, List.length_append] at hlen
  omega

theorem padded_pack {levels : List Level} (hlen : levels.length ≤ legacyBookDepth)
    (hpos : ∀ l ∈ levels, 0 < l.priceTick ∧ l.qtyLot ≠ 0) : Padded (pack levels) levels :=
  ⟨hpos, toList_pack hlen⟩

/-- Past its levels a padded side is zero. -/
theorem Padded.getD {side : Vector Level legacyBookDepth} {levels : List Level}
    (h : Padded side levels) (index : Nat) (hi : levels.length ≤ index) :
    side.toList.getD index .zero = .zero := by
  rw [h.toList, List.getD_append_right _ _ _ _ hi]
  by_cases hlt : index - levels.length < legacyBookDepth - levels.length
  · rw [List.getD_eq_getElem _ _ (by simpa using hlt)]
    simp
  · rw [List.getD_eq_default _ _ (by simpa using hlt)]

/-- A padded side is within the stored depth when its levels are. -/
theorem validateDepth_of_padded {m : MinuteBook} {bids asks : List Level}
    (hdepth : KnownDepth m.storedDepth) (hb : Padded m.bids bids) (ha : Padded m.asks asks)
    (hbl : bids.length ≤ m.storedDepth.toNat) (hal : asks.length ≤ m.storedDepth.toNat) :
    m.validateDepth = .ok () := by
  simp only [MinuteBook.validateDepth, Check.seq_eq_ok, Check.failIf_eq_ok, Check.checkAll_eq_ok,
    List.mem_range', not_not]
  refine ⟨hdepth, ?_⟩
  rintro index ⟨i, -, rfl⟩
  have hbz := hb.getD (m.storedDepth.toNat + 1 * i) (by omega)
  have haz := ha.getD (m.storedDepth.toNat + 1 * i) (by omega)
  rw [hbz, haz]
  simp

end MarketInfo
