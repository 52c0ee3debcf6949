import MarketInfo.Orderbook.Derivative

/-! # The number of levels of a derivative book

An update that is installed changes the number of levels by its new and deleted
levels, and one that is not leaves it alone.
-/

namespace MarketInfo

/-- The change in the number of levels that the actions of one side announce. -/
def levelsDelta (changes : List DerivativeChangeLevel) : Int :=
  (changes.map fun l => if l.action = DerivativeAction.new then 1
    else if l.action = DerivativeAction.delete then -1 else 0).sum

namespace PriceMap

theorem len_insert_of_notMem {side : PriceMap} {p : Int64} (q : UInt64) (h : p ∉ side) :
    len (side.insert p q) = side.len + 1 := by
  unfold len
  rw [AList.keys_insert, List.length_cons, List.erase_of_not_mem h]

theorem len_insert_of_mem {side : PriceMap} {p : Int64} (q : UInt64) (h : p ∈ side) :
    len (side.insert p q) = side.len := by
  unfold len
  have hpos : 0 < side.keys.length := List.length_pos_of_mem h
  rw [AList.keys_insert, List.length_cons, List.length_erase_of_mem h]
  omega

theorem len_erase_of_mem {side : PriceMap} {p : Int64} (h : p ∈ side) :
    (len (side.erase p) : Int) = side.len - 1 := by
  unfold len
  have hpos : 0 < side.keys.length := List.length_pos_of_mem h
  rw [AList.keys_erase, List.length_erase_of_mem h]
  omega

end PriceMap

theorem applyDerivativeLevel_len {snapshot : Bool} {side side' : PriceMap} {l : DerivativeChangeLevel}
    (h : applyDerivativeLevel snapshot side l = .ok side') :
    (side'.len : Int) = side.len + levelsDelta [l] ∧
      (snapshot = true → l.action = DerivativeAction.new) := by
  unfold applyDerivativeLevel at h
  split at h
  · cases h
  · rename_i hsnapshot
    have hnew : snapshot = true → l.action = DerivativeAction.new := fun hs =>
      not_not.1 fun hne => hsnapshot ⟨hs, hne⟩
    refine ⟨?_, hnew⟩
    unfold levelsDelta
    split at h
    · rename_i hnew
      split at h
      · cases h
      · rename_i hgood
        obtain rfl := Except.ok.inj h
        rw [PriceMap.len_insert_of_notMem _ (not_or.1 hgood).1]
        simp [hnew]
    · rename_i hnew
      split at h
      · rename_i hchange
        have hdelete : l.action ≠ DerivativeAction.delete := by
          rw [hchange]
          decide
        split at h
        · cases h
        · rename_i hgood
          obtain rfl := Except.ok.inj h
          rw [PriceMap.len_insert_of_mem _ (not_not.1 (not_or.1 hgood).1)]
          simp [hnew, hdelete]
      · split at h
        · rename_i hdelete
          split at h
          · cases h
          · rename_i hgood
            obtain rfl := Except.ok.inj h
            rw [PriceMap.len_erase_of_mem (not_not.1 (not_or.1 hgood).1)]
            rw [hdelete] at hnew
            simp [hnew, hdelete, sub_eq_add_neg]
        · cases h

theorem levelsDelta_cons (l : DerivativeChangeLevel) (rest : List DerivativeChangeLevel) :
    levelsDelta (l :: rest) = levelsDelta [l] + levelsDelta rest := by
  simp [levelsDelta]

theorem applyDerivativeLevels_len {signed snapshot : Bool} {side side' : PriceMap} {seen : List Int64}
    {changes : List DerivativeChangeLevel}
    (h : applyDerivativeLevels signed snapshot side seen changes = .ok side') :
    (side'.len : Int) = side.len + levelsDelta changes ∧
      (snapshot = true → levelsDelta changes = changes.length) := by
  induction changes generalizing side seen with
  | nil =>
      obtain rfl := Except.ok.inj h
      exact ⟨by simp [levelsDelta], fun _ => rfl⟩
  | cons l rest ih =>
      rw [applyDerivativeLevels, Check.seq_eq_ok] at h
      obtain ⟨mid, hmid, hrest⟩ := Check.andThen_eq_ok.1 h.2
      obtain ⟨hfirst, hnew⟩ := applyDerivativeLevel_len hmid
      obtain ⟨hothers, hall⟩ := ih hrest
      rw [levelsDelta_cons]
      refine ⟨by omega, fun hs => ?_⟩
      have hone : levelsDelta [l] = 1 := by simp [levelsDelta, hnew hs]
      rw [hone, hall hs, List.length_cons]
      omega

theorem applyDerivativeSide_len {b : DerivativeBook} {snapshot : Bool} {side side' : PriceMap}
    {changes : List DerivativeChangeLevel} (h : applyDerivativeSide b snapshot side changes = .ok side') :
    (side'.len : Int) = side.len + levelsDelta changes ∧
      (snapshot = true → levelsDelta changes = changes.length) := by
  obtain ⟨changed, hchanged, h⟩ := Check.andThen_eq_ok.1 h
  obtain ⟨-, h⟩ := Check.seq_eq_ok.1 h
  obtain rfl := Except.ok.inj h
  exact applyDerivativeLevels_len hchanged

namespace DerivativeBook

/-- `LevelCount`. -/
def levelCount (b : DerivativeBook) : Int := (b.bids.len + b.asks.len : Nat)

/-- `Invalidate`. -/
def invalidate (b : DerivativeBook) (reason : DerivativeReason) : DerivativeBook :=
  { b with valid := false,
           reason := if reason = DerivativeReason.ok then DerivativeReason.parseError else reason }

@[simp] theorem levelCount_invalidate (b : DerivativeBook) (reason : DerivativeReason) :
    (b.invalidate reason).levelCount = b.levelCount := rfl

/-- The levels an update would leave in a book of `old` levels, by its actions. -/
def estimate (old : Int) (u : DerivativeUpdate) : Int :=
  if u.snapshot then (u.bids.length + u.asks.length : Nat)
  else old + levelsDelta u.bids + levelsDelta u.asks

theorem levelCount_nonneg (b : DerivativeBook) : 0 ≤ b.levelCount := Int.natCast_nonneg _

theorem levelCount_prepared {b : DerivativeBook} {u : DerivativeUpdate} {sides : PriceMap × PriceMap}
    (h : Prepared b u sides) (digest : BitVec 256) :
    (b.install u digest sides).levelCount = estimate b.levelCount u := by
  obtain ⟨hbids, hbidsAll⟩ := applyDerivativeSide_len h.bids
  obtain ⟨hasks, hasksAll⟩ := applyDerivativeSide_len h.asks
  have hcount : (b.install u digest sides).levelCount = sides.1.len + sides.2.len := by
    unfold levelCount install
    exact Nat.cast_add _ _
  have hold : b.levelCount = b.bids.len + b.asks.len := Nat.cast_add _ _
  rw [hcount, estimate]
  cases hs : u.snapshot with
  | true =>
      rw [hs] at hbids hasks hbidsAll hasksAll
      have hempty : ((∅ : PriceMap).len : Int) = 0 := rfl
      simp only [if_true] at hbids hasks ⊢
      rw [hbids, hasks, hbidsAll rfl, hasksAll rfl, hempty, Nat.cast_add]
      omega
  | false =>
      rw [hs] at hbids hasks
      simp only [Bool.false_eq_true, if_false] at hbids hasks ⊢
      rw [hbids, hasks, hold]
      omega

/-- `Apply` leaves the levels alone, or leaves as many as the actions announce. -/
theorem levelCount_apply (sha256 : List UInt64 → BitVec 256) (b : DerivativeBook) (u : DerivativeUpdate) :
    (b.apply sha256 u).1.levelCount = b.levelCount ∨
      (b.apply sha256 u).1.levelCount = estimate b.levelCount u := by
  have houtcome := apply_outcome sha256 b u
  generalize b.apply sha256 u = r at houtcome
  cases houtcome with
  | stale _ _ => exact .inl rfl
  | failed _ _ _ => exact .inl rfl
  | repeated _ _ => exact .inl rfl
  | installed sides _ _ _ _ _ _ hprepared => exact .inr (levelCount_prepared hprepared _)

/-- A book that could be reset is empty. -/
theorem levelCount_reset {b : DerivativeBook} {epoch : UUID} (h : (b.reset epoch).2 = .ok ()) :
    (b.reset epoch).1.levelCount = 0 := by
  unfold reset at h ⊢
  split
  · rename_i hempty
    rw [if_pos hempty] at h
    cases h
  · rename_i hempty
    rw [if_neg hempty] at h
    split
    · rename_i hsame
      rw [if_pos hsame] at h
      cases h
    · rfl

end DerivativeBook

end MarketInfo
