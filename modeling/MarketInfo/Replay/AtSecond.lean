import MarketInfo.Contracts.BookValidation
import MarketInfo.Lib.DeltaLog
import MarketInfo.Sampler.Changes

/-! # Replaying a minute

`replay.AtSecond`: the book of one second, from the anchor and the deltas up to
it. On a batch that `ValidateMinuteBatch` accepts it fails for no second of the
minute and shows the replayed sides exactly at the valid seconds
(`atSecond_of_valid`).
-/

namespace MarketInfo

open Listing PriceMap

/-! ## Definitions -/

def fixedSide (levels : Vector Level legacyBookDepth) : PriceMap :=
  levels.toList.foldl
    (fun out level => if level.priceTick ≠ 0 then out.insert level.priceTick level.qtyLot else out) ∅

/-- `replay.top`: every level of the side, best price first. -/
def top (side : PriceMap) (bids : Bool) : List Level := listing bids side

/-- One delta, applied to both sides. -/
def applyDelta (sides : PriceMap × PriceMap) (d : BookDelta) : PriceMap × PriceMap :=
  (applyArrays sides.1 d.bidChangePrice d.bidChangeQty,
    applyArrays sides.2 d.askChangePrice d.askChangeQty)

/-- The loop of `AtSecond` over the deltas, with the sides and the last second. -/
def replayDeltas (m : MinuteBook) (second : UInt8) :
    PriceMap × PriceMap → UInt8 → List BookDelta → Except String (PriceMap × PriceMap)
  | sides, _, [] => .ok sides
  | sides, lastSecond, delta :: rest => do
      Check.failIf (delta.minuteID ≠ m.id) "delta minute_id mismatch"
      Check.failIf (delta.secondOffset = 0 ∨ 59 < delta.secondOffset ∨ delta.secondOffset ≤ lastSecond)
        "deltas are not ordered by a valid second_offset"
      if second < delta.secondOffset then return sides
      else
        Check.failIf (¬ HasSecond m.validBitmap delta.secondOffset.toNat)
          s!"delta exists for invalid second {delta.secondOffset}"
        Check.failIf (delta.bidChangePrice.length ≠ delta.bidChangeQty.length ∨
            delta.askChangePrice.length ≠ delta.askChangeQty.length)
          "delta price/quantity array length mismatch"
        let sides := applyDelta sides delta
        Check.failIf (m.storedDepth.toNat < sides.1.len ∨ m.storedDepth.toNat < sides.2.len)
          s!"second {delta.secondOffset} exceeds stored depth {m.storedDepth}"
        replayDeltas m second sides delta.secondOffset rest

def atSecond (m : MinuteBook) (deltas : List BookDelta) (second : UInt8) :
    Except String (Option BookSnapshot) := do
  m.validateDepth
  Check.failIf (59 < second) "second offset must be between 0 and 59"
  if ¬ HasSecond m.validBitmap second.toNat then return none
  else
    let sides ← replayDeltas m second (fixedSide m.bids, fixedSide m.asks) 0 deltas
    Check.failIf (m.storedDepth.toNat < sides.1.len ∨ m.storedDepth.toNat < sides.2.len)
      s!"replayed book exceeds stored depth {m.storedDepth}"
    return some
      { instrumentID := m.instrumentID, sourceTime := Time.zero, sequence := 0,
        storedDepth := m.storedDepth, bids := top sides.1 true, asks := top sides.2 false }

/-! ## The log of a batch -/

/-- The deltas by their second. -/
def deltaLog (deltas : List BookDelta) : List (Nat × BookDelta) :=
  deltas.map fun d => (d.secondOffset.toNat, d)

/-- The sides of the anchor. -/
def anchorSides (bids asks : List Level) : PriceMap × PriceMap := (ofLevels bids, ofLevels asks)

/-- The sides at a second. -/
def sidesAt (bids asks : List Level) (deltas : List BookDelta) (second : Nat) : PriceMap × PriceMap :=
  DeltaLog.replayTo applyDelta (anchorSides bids asks) (deltaLog deltas) second

/-- Zero padding puts nothing into a side. -/
theorem fixedSide_of_padded {side : Vector Level legacyBookDepth} {levels : List Level}
    (h : Padded side levels) : fixedSide side = ofLevels levels := by
  have hskip : ∀ (n : Nat) (m : PriceMap), (List.replicate n Level.zero).foldl
      (fun out level => if level.priceTick ≠ 0 then out.insert level.priceTick level.qtyLot else out)
      m = m := by
    intro n m
    induction n with
    | zero => rfl
    | succ n ih => exact ih
  have hfill : ∀ (ls : List Level) (m : PriceMap), (∀ l ∈ ls, 0 < l.priceTick ∧ l.qtyLot ≠ 0) →
      ls.foldl (fun out level => if level.priceTick ≠ 0 then out.insert level.priceTick level.qtyLot
        else out) m = ls.foldl (fun out level => out.insert level.priceTick level.qtyLot) m := by
    intro ls
    induction ls with
    | nil =>
        intro m _
        rfl
    | cons l ls ih =>
        intro m hpos
        have hl : l.priceTick ≠ 0 := by
          have := (hpos l (by simp)).1
          rintro he
          rw [he] at this
          exact absurd this (by decide)
        rw [List.foldl_cons, List.foldl_cons, if_pos hl]
        exact ih _ fun x hx => hpos x (List.mem_cons_of_mem _ hx)
  unfold fixedSide ofLevels
  rw [h.toList, List.foldl_append, hskip, hfill _ _ h.positive]

/-- The keys of a side follow the price set of the validator. -/
theorem keys_applyArrays (side : PriceMap) (prices : List Int64) (quantities : List UInt64) :
    (applyArrays side prices quantities).keys.toFinset =
      applyPriceKeys side.keys.toFinset prices quantities := by
  unfold applyArrays applyPriceKeys putAll
  induction List.zipWith Level.mk prices quantities generalizing side with
  | nil => rfl
  | cons c cs ih =>
      rw [List.foldl_cons, List.foldl_cons, ih]
      congr 1
      unfold put
      ext p
      split
      · rw [AList.keys_erase, List.mem_toFinset, Finset.mem_erase, List.mem_toFinset,
          List.Nodup.mem_erase_iff side.keys_nodup]
      · rw [List.mem_toFinset, Finset.mem_insert, List.mem_toFinset, ← AList.mem_keys,
          AList.mem_insert, AList.mem_keys]

theorem card_keys (side : PriceMap) : side.keys.toFinset.card = side.len :=
  List.toFinset_card_of_nodup side.keys_nodup

theorem keys_ofLevels (levels : List Level) :
    (ofLevels levels).keys.toFinset = (levels.map Level.priceTick).toFinset := by
  induction levels using List.reverseRecOn with
  | nil => rfl
  | append_singleton ls l ih =>
      ext p
      rw [ofLevels_concat, List.mem_toFinset, ← AList.mem_keys, AList.mem_insert, AList.mem_keys,
        ← List.mem_toFinset, ih]
      simp

theorem keys_pricesAfter (sides : PriceMap × PriceMap) (deltas : List BookDelta) :
    pricesAfter sides.1.keys.toFinset sides.2.keys.toFinset deltas =
      ((deltas.foldl applyDelta sides).1.keys.toFinset,
        (deltas.foldl applyDelta sides).2.keys.toFinset) := by
  induction deltas generalizing sides with
  | nil => rfl
  | cons d ds ih =>
      rw [List.foldl_cons, ← ih]
      unfold pricesAfter
      rw [List.foldl_cons]
      simp only [applyDelta, keys_applyArrays]

/-- The sides of a log never exceed the depth the validator bounds them by. -/
theorem fitsDepth_sides {depth : Nat} {sides : PriceMap × PriceMap} {deltas : List BookDelta} :
    FitsDepth depth sides.1.keys.toFinset sides.2.keys.toFinset deltas ↔
      ∀ front d back, deltas = front ++ d :: back →
        ((front ++ [d]).foldl applyDelta sides).1.len ≤ depth ∧
          ((front ++ [d]).foldl applyDelta sides).2.len ≤ depth := by
  unfold FitsDepth
  simp only [keys_pricesAfter, card_keys]

/-! ## Replay of a valid batch -/

/-- The loop reads the deltas up to the second. -/
theorem replayDeltas_eq {m : MinuteBook} {second lastSecond : UInt8} {sides : PriceMap × PriceMap}
    {deltas : List BookDelta}
    (hdeltas : ∀ d ∈ deltas, ValidDelta m d ∧ lastSecond.toNat < d.secondOffset.toNat)
    (hpw : deltas.Pairwise fun a b => a.secondOffset.toNat < b.secondOffset.toNat)
    (hfits : ∀ front d back, deltas = front ++ d :: back →
      ((front ++ [d]).foldl applyDelta sides).1.len ≤ m.storedDepth.toNat ∧
        ((front ++ [d]).foldl applyDelta sides).2.len ≤ m.storedDepth.toNat) :
    replayDeltas m second sides lastSecond deltas =
      .ok (DeltaLog.replayTo applyDelta sides (deltaLog deltas) second.toNat) := by
  induction deltas generalizing sides lastSecond with
  | nil => rfl
  | cons d ds ih =>
      obtain ⟨⟨hd, hlast⟩, hrest⟩ := List.forall_mem_cons.1 hdeltas
      obtain ⟨hcross, hpw⟩ := List.pairwise_cons.1 hpw
      have hzero : d.secondOffset ≠ 0 := by
        intro h
        have := hd.pos
        rw [h] at this
        exact absurd this (by decide)
      have hle : ¬ 59 < d.secondOffset := by
        rw [UInt8.not_lt, UInt8.le_iff_toNat_le]
        exact hd.le
      have hord : ¬ d.secondOffset ≤ lastSecond := by
        rw [UInt8.not_le, UInt8.lt_iff_toNat_lt]
        exact hlast
      unfold replayDeltas
      rw [Check.failIf, if_neg (not_not.2 hd.minuteID), Check.failIf,
        if_neg (by simp [hzero, hle, hord])]
      change (if second < d.secondOffset then _ else _) = _
      by_cases hsec : second < d.secondOffset
      · -- the deltas past the second are not read
        rw [if_pos hsec]
        have hlt : ¬ d.secondOffset.toNat ≤ second.toNat :=
          Nat.not_le.2 (UInt8.lt_iff_toNat_lt.1 hsec)
        simp only [DeltaLog.replayTo, DeltaLog.upTo, deltaLog, List.map_cons]
        rw [List.takeWhile_cons_of_neg (by simpa using hlt)]
        rfl
      · rw [if_neg hsec]
        have hle' : d.secondOffset.toNat ≤ second.toNat :=
          UInt8.le_iff_toNat_le.1 (UInt8.not_lt.1 hsec)
        have hfit := hfits [] d ds rfl
        simp only [List.nil_append, List.foldl_cons, List.foldl_nil] at hfit
        rw [Check.failIf, if_neg (not_not.2 hd.valid), Check.failIf,
          if_neg (by simp [hd.bids_length, hd.asks_length])]
        change (Check.failIf _ _ >>= fun _ => replayDeltas m second (applyDelta sides d)
          d.secondOffset ds) = _
        rw [Check.failIf, if_neg (by omega)]
        change replayDeltas m second (applyDelta sides d) d.secondOffset ds = _
        rw [ih (fun e he => ⟨(hrest e he).1, hcross e he⟩) hpw]
        · simp only [DeltaLog.replayTo, DeltaLog.upTo, deltaLog, List.map_cons]
          rw [List.takeWhile_cons_of_pos (by simpa using hle')]
          rfl
        · intro front e back he
          have := hfits (d :: front) e back (by rw [he]; rfl)
          simpa using this

/-- A log read to a second has applied a prefix of its deltas. -/
theorem foldl_applyDelta (sides : PriceMap × PriceMap) (deltas : List BookDelta) :
    DeltaLog.applyAll applyDelta sides (deltaLog deltas) = deltas.foldl applyDelta sides := by
  unfold DeltaLog.applyAll deltaLog
  rw [List.foldl_map]

/-- Every second of a valid batch keeps to the stored depth. -/
theorem sidesAt_le {batch : MinuteBatch} {bids asks : List Level} (h : ValidBatch batch bids asks)
    (second : Nat) :
    (sidesAt bids asks batch.deltas second).1.len ≤ batch.minute.storedDepth.toNat ∧
      (sidesAt bids asks batch.deltas second).2.len ≤ batch.minute.storedDepth.toNat := by
  have hstart : (anchorSides bids asks).1.len ≤ batch.minute.storedDepth.toNat ∧
      (anchorSides bids asks).2.len ≤ batch.minute.storedDepth.toNat := by
    unfold anchorSides
    rw [len_ofLevels h.snapshot.bids.sorted, len_ofLevels h.snapshot.asks.sorted]
    exact ⟨h.snapshot.bids_le, h.snapshot.asks_le⟩
  obtain ⟨pre, hpre, rest, hall⟩ : ∃ pre : List BookDelta,
      DeltaLog.upTo (deltaLog batch.deltas) second = deltaLog pre ∧
        ∃ rest, batch.deltas = pre ++ rest := by
    refine ⟨batch.deltas.takeWhile fun d => decide (d.secondOffset.toNat ≤ second), ?_,
      batch.deltas.dropWhile fun d => decide (d.secondOffset.toNat ≤ second),
      (List.takeWhile_append_dropWhile).symm⟩
    unfold DeltaLog.upTo deltaLog
    rw [List.takeWhile_map]
    rfl
  unfold sidesAt DeltaLog.replayTo
  rw [hpre, foldl_applyDelta]
  rcases List.eq_nil_or_concat pre with rfl | ⟨front, d, rfl⟩
  · exact hstart
  · rw [List.concat_eq_append] at hall ⊢
    have hfits := h.fits
    rw [← keys_ofLevels, ← keys_ofLevels] at hfits
    exact fitsDepth_sides.1 hfits front d rest (by rw [hall]; simp)

/-- Replay of a batch the validator accepts. -/
theorem atSecond_of_valid {batch : MinuteBatch} {bids asks : List Level}
    (h : ValidBatch batch bids asks) {second : UInt8} (hs : second.toNat ≤ 59) :
    atSecond batch.minute batch.deltas second =
      .ok (if HasSecond batch.minute.validBitmap second.toNat then
        some
          { instrumentID := batch.minute.instrumentID, sourceTime := Time.zero, sequence := 0,
            storedDepth := batch.minute.storedDepth,
            bids := listing true (sidesAt bids asks batch.deltas second.toNat).1,
            asks := listing false (sidesAt bids asks batch.deltas second.toNat).2 }
      else none) := by
  have hmax : ¬ 59 < second := by
    rw [UInt8.not_lt, UInt8.le_iff_toNat_le]
    exact hs
  have hreplay : replayDeltas batch.minute second
      (fixedSide batch.minute.bids, fixedSide batch.minute.asks) 0 batch.deltas =
        .ok (sidesAt bids asks batch.deltas second.toNat) := by
    rw [fixedSide_of_padded h.padBids, fixedSide_of_padded h.padAsks]
    refine replayDeltas_eq (fun d hd => ⟨h.deltas d hd, (h.deltas d hd).pos⟩) h.increasing ?_
    have hfits := h.fits
    rw [← keys_ofLevels, ← keys_ofLevels] at hfits
    exact fitsDepth_sides.1 hfits
  obtain ⟨hb, ha⟩ := sidesAt_le h second.toNat
  unfold atSecond
  rw [h.depth]
  simp only [Check.failIf, hmax, if_false]
  by_cases hbit : HasSecond batch.minute.validBitmap second.toNat
  · rw [if_pos hbit]
    change (if ¬ _ then _ else _) = _
    rw [if_neg (not_not.2 hbit), hreplay]
    change (Check.failIf _ _ >>= fun _ => _) = _
    rw [Check.failIf, if_neg (by omega)]
    rfl
  · rw [if_neg hbit]
    change (if ¬ _ then _ else _) = _
    rw [if_pos hbit]
    rfl

/-- Past the last second of a minute there is nothing to replay. -/
theorem atSecond_of_late {m : MinuteBook} {deltas : List BookDelta} {second : UInt8}
    {r : Option BookSnapshot} (hs : 59 < second.toNat) : atSecond m deltas second ≠ .ok r := by
  intro h
  simp only [atSecond, Check.seq_eq_ok, Check.failIf_eq_ok] at h
  exact h.2.1 (UInt8.lt_iff_toNat_lt.2 hs)

end MarketInfo
