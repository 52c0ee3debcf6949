import MarketInfo.Reserve.Rows

/-! # What the bytes of a row say

Two rows of the reserves are encoded alike only if they are the same row, field by field.
-/

namespace MarketInfo.Reserve

open Preimage

/-! ## Kinds of fields -/

theorem eq_of_rel {α : Type} {a b : Option α} (h : Option.Rel (· = ·) a b) : a = b := by
  cases h with
  | some h => rw [h]
  | none => rfl

theorem eq_of_rel_map {a b : Option UInt8}
    (h : Option.Rel (· = ·) (a.map UInt8.toUInt64) (b.map UInt8.toUInt64)) : a = b :=
  Option.map_injective (fun _ _ => UInt8.toUInt64_inj.1) (eq_of_rel h)

theorem eq_of_all {α : Type} {same : α → α → Prop} (hsame : ∀ a b, same a b → a = b) {as bs : List α}
    (h : List.Forall₂ same as bs) : as = bs := by
  induction h with
  | nil => rfl
  | cons h _ ih => rw [hsame _ _ h, ih]

theorem eq_of_all_map {α β : Type} {same : β → β → Prop} {f : α → β} (hsame : ∀ a b, same (f a) (f b) → a = b)
    {as bs : List α} (h : List.Forall₂ same (as.map f) (bs.map f)) : as = bs := by
  rw [List.forall₂_map_left_iff, List.forall₂_map_right_iff] at h
  exact eq_of_all hsame h

theorem nano_refl : ∀ (s : Shape) (v : s.Val), nanoAlike.same s v v
  | .time, _ | .integer, _ | .decimal, _ | .text, _ | .bool, _ | .uint _, _ | .int _, _ => rfl
  | .pointer _, none => .none
  | .pointer elem, some v => .some (nano_refl elem v)
  | .list _ elem, _ => List.forall₂_same.2 fun v _ => nano_refl elem v
  | .struct _ fields, v => nano_refl fields v
  | .none, _ => trivial
  | .field _ first rest, v => ⟨nano_refl first v.1, nano_refl rest v.2⟩

theorem same_struct (name : Bytes) (fields : Shape) (v w : fields.Val) :
    nanoAlike.same (.struct name fields) v w ↔ nanoAlike.same fields v w := Iff.rfl

theorem same_field (name : Bytes) (first rest : Shape) (v w : first.Val) (v' w' : rest.Val) :
    nanoAlike.same (.field name first rest) (v, v') (w, w') ↔
      nanoAlike.same first v w ∧ nanoAlike.same rest v' w' := Iff.rfl

theorem array_same {n : Nat} {h k : Vector UInt8 n} :
    nanoAlike.same arrayShape (arrayVal h) (arrayVal k) ↔ h = k := by
  constructor
  · intro hsame
    exact Vector.toList_inj.1 (eq_of_all_map (fun _ _ => UInt8.toUInt64_inj.1) hsame)
  · rintro rfl
    exact nano_refl _ _

/-! ## Rows -/

/-- A kind of row has only to tell its values apart. -/
theorem same_iff_of {α : Type} {s : Shape} {val : α → s.Val} (h : ∀ a b, nanoAlike.same s (val a) (val b) → a = b)
    {a b : α} : nanoAlike.same s (val a) (val b) ↔ a = b := by
  constructor
  · exact h a b
  · rintro rfl
    exact nano_refl _ _

theorem Asset.same_iff {a b : Asset} : nanoAlike.same assetShape a.val b.val ↔ a = b := by
  refine same_iff_of ?_
  intro a b h
  obtain ⟨htoken, hdecimals, hamountRaw, hinRebalance, hweightLowD27, hweightSpotD27,
    hweightHighD27, hinitialPriceLowD27, hinitialPriceHighD27, hmaxAuctionSizeRaw,
    hauctionPriceLowD27, hauctionPriceHighD27, -⟩ := h
  cases a
  cases b
  rw [Asset.mk.injEq]
  exact ⟨htoken, eq_of_rel_map hdecimals, eq_of_rel hamountRaw, eq_of_rel hinRebalance,
    eq_of_rel hweightLowD27, eq_of_rel hweightSpotD27, eq_of_rel hweightHighD27,
    eq_of_rel hinitialPriceLowD27, eq_of_rel hinitialPriceHighD27, eq_of_rel hmaxAuctionSizeRaw,
    eq_of_rel hauctionPriceLowD27, eq_of_rel hauctionPriceHighD27⟩

theorem State.same_iff {a b : State} : nanoAlike.same stateShape a.val b.val ↔ a = b := by
  refine same_iff_of ?_
  intro a b h
  -- one rewriting for each field: to take the pair of rows apart as it stands is slow
  unfold State.val stateShape row at h
  simp only [List.foldr] at h
  erw [same_struct] at h
  repeat erw [same_field] at h
  obtain ⟨hchainId, hmanifestHash, hcaptureId, hbatchId, hblockNumber, hblockHash, hblockTime,
    havailableAt, hpayloadHash, hfolio, himplementation, himplementationCodeHash,
    hprotocolVersion, hidentityOk, hstateComplete, hreason, hbaseFeeWei, htotalSupplyRaw,
    hpendingFeeSharesRaw, hshareDecimals, hmintFeeD18, htvlFeePerSecondD18, hdaoFeeRegistry,
    hdaoFeeNumerator, hdaoFeeDenominator, hdaoFeeFloorD18, hminimumMintFeeD18, hdeprecated,
    hsyncStateChangeActive, hasyncStateChangeActive, htrustedFillerRegistry,
    htrustedFillerEnabled, hglobalBidsEnabled, hrebalanceBidsEnabled, hrebalanceNonce,
    hpriceControl, hrebalanceStartedAt, hrebalanceRestrictedUntil, hrebalanceAvailableUntil,
    hrebalanceLimitLowD18, hrebalanceLimitSpotD18, hrebalanceLimitHighD18, hnextAuctionId,
    hauctionId, hauctionRebalanceNonce, hauctionStartTime, hauctionEndTime, hbasket, -⟩ := h
  cases a
  cases b
  rw [State.mk.injEq]
  exact ⟨hchainId, hmanifestHash, hcaptureId, hbatchId, hblockNumber, hblockHash, hblockTime,
    havailableAt, hpayloadHash, hfolio, eq_of_rel himplementation,
    eq_of_rel himplementationCodeHash, hprotocolVersion, hidentityOk, hstateComplete, hreason,
    eq_of_rel hbaseFeeWei, eq_of_rel htotalSupplyRaw, eq_of_rel hpendingFeeSharesRaw,
    eq_of_rel_map hshareDecimals, eq_of_rel hmintFeeD18, eq_of_rel htvlFeePerSecondD18,
    eq_of_rel hdaoFeeRegistry, eq_of_rel hdaoFeeNumerator, eq_of_rel hdaoFeeDenominator,
    eq_of_rel hdaoFeeFloorD18, eq_of_rel hminimumMintFeeD18, eq_of_rel hdeprecated,
    eq_of_rel hsyncStateChangeActive, eq_of_rel hasyncStateChangeActive,
    eq_of_rel htrustedFillerRegistry, eq_of_rel htrustedFillerEnabled,
    eq_of_rel hglobalBidsEnabled, eq_of_rel hrebalanceBidsEnabled, eq_of_rel hrebalanceNonce,
    eq_of_rel_map hpriceControl, eq_of_rel hrebalanceStartedAt,
    eq_of_rel hrebalanceRestrictedUntil, eq_of_rel hrebalanceAvailableUntil,
    eq_of_rel hrebalanceLimitLowD18, eq_of_rel hrebalanceLimitSpotD18,
    eq_of_rel hrebalanceLimitHighD18, eq_of_rel hnextAuctionId, eq_of_rel hauctionId,
    eq_of_rel hauctionRebalanceNonce, eq_of_rel hauctionStartTime, eq_of_rel hauctionEndTime,
    eq_of_all_map (fun _ _ => Asset.same_iff.1) hbasket⟩

theorem Amount.same_iff {a b : Amount} : nanoAlike.same amountShape a.val b.val ↔ a = b := by
  refine same_iff_of ?_
  intro a b h
  obtain ⟨htoken, hamountRaw, -⟩ := h
  cases a
  cases b
  rw [Amount.mk.injEq]
  exact ⟨htoken, eq_of_rel hamountRaw⟩

theorem Leg.same_iff {a b : Leg} : nanoAlike.same legShape a.val b.val ↔ a = b := by
  refine same_iff_of ?_
  intro a b h
  obtain ⟨hlegIndex, hside, hquoteMode, htokenIn, htokenOut, hrequestedRaw, hamountInRaw,
    hamountOutRaw, hpathTokens, hpathPools, hpoolFees, hquoterGasEstimate, havailableAt,
    hpayloadHash, hstatus, -⟩ := h
  cases a
  cases b
  rw [Leg.mk.injEq]
  exact ⟨UInt16.toUInt64_inj.1 hlegIndex, hside, hquoteMode, htokenIn, htokenOut,
    eq_of_rel hrequestedRaw, eq_of_rel hamountInRaw, eq_of_rel hamountOutRaw,
    eq_of_all (fun _ _ => id) hpathTokens, eq_of_all (fun _ _ => id) hpathPools,
    eq_of_all_map (fun _ _ => UInt32.toUInt64_inj.1) hpoolFees, eq_of_rel hquoterGasEstimate,
    havailableAt, hpayloadHash, hstatus⟩

theorem Quote.same_iff {a b : Quote} : nanoAlike.same quoteShape a.val b.val ↔ a = b := by
  refine same_iff_of ?_
  intro a b h
  -- one rewriting for each field: to take the pair of rows apart as it stands is slow
  unfold Quote.val quoteShape row at h
  simp only [List.foldr] at h
  erw [same_struct] at h
  repeat erw [same_field] at h
  obtain ⟨hchainId, hmanifestHash, hcaptureId, hbatchId, hblockNumber, hblockHash, hblockTime,
    havailableAt, hpayloadHash, hfolio, hrouteId, hquoteId, hrouteKind, hbudgetToken,
    hrequestedBudgetRaw, htokenIn, htokenOut, hamountInRaw, hamountOutRaw, hauctionId, hsellToken,
    hbuyToken, hrequestedMaxSellRaw, hauctionSellRaw, hauctionBuyRaw, hauctionPriceD27,
    hgrossSharesRaw, hfeeSharesRaw, hnetSharesRaw, hbasketAmounts, hdexLegs, hsharedPools,
    hexpectedLegs, hsuccessfulLegs, hwithinBudget, hquality, hstatus, hreason, -⟩ := h
  cases a
  cases b
  rw [Quote.mk.injEq]
  exact ⟨hchainId, hmanifestHash, hcaptureId, hbatchId, hblockNumber, hblockHash, hblockTime,
    havailableAt, hpayloadHash, hfolio, hrouteId, hquoteId, hrouteKind, hbudgetToken,
    eq_of_rel hrequestedBudgetRaw, htokenIn, htokenOut, eq_of_rel hamountInRaw,
    eq_of_rel hamountOutRaw, eq_of_rel hauctionId, eq_of_rel hsellToken, eq_of_rel hbuyToken,
    eq_of_rel hrequestedMaxSellRaw, eq_of_rel hauctionSellRaw, eq_of_rel hauctionBuyRaw,
    eq_of_rel hauctionPriceD27, eq_of_rel hgrossSharesRaw, eq_of_rel hfeeSharesRaw,
    eq_of_rel hnetSharesRaw, eq_of_all_map (fun _ _ => Amount.same_iff.1) hbasketAmounts,
    eq_of_all_map (fun _ _ => Leg.same_iff.1) hdexLegs, eq_of_all (fun _ _ => id) hsharedPools,
    UInt16.toUInt64_inj.1 hexpectedLegs, UInt16.toUInt64_inj.1 hsuccessfulLegs,
    eq_of_rel hwithinBudget, hquality, hstatus, hreason⟩

theorem ReceiptRef.same_iff {a b : ReceiptRef} : nanoAlike.same receiptRefShape a.val b.val ↔ a = b := by
  refine same_iff_of ?_
  intro a b h
  obtain ⟨hblockHash, htxHash, hreceiptHash, hcalldataHash, -⟩ := h
  cases a
  cases b
  rw [ReceiptRef.mk.injEq]
  exact ⟨hblockHash, htxHash, hreceiptHash, hcalldataHash⟩

theorem Anchor.same_iff {a b : Anchor} : nanoAlike.same anchorShape a.val b.val ↔ a = b := by
  refine same_iff_of ?_
  intro a b h
  obtain ⟨hchainId, hnumber, hhash, hmanifest, hbatch, hpayload, htime, -⟩ := h
  cases a
  cases b
  rw [Anchor.mk.injEq]
  exact ⟨hchainId, hnumber, array_same.1 hhash, array_same.1 hmanifest, array_same.1 hbatch,
    array_same.1 hpayload, htime⟩

theorem Log.same_iff {a b : Log} : nanoAlike.same logShape a.val b.val ↔ a = b := by
  refine same_iff_of ?_
  intro a b h
  obtain ⟨hanchor, htxHash, htxIndex, hindex, hemitter, htopics, hdata, hevent, hremoved, -⟩ := h
  cases a
  cases b
  rw [Log.mk.injEq]
  exact ⟨Anchor.same_iff.1 hanchor, array_same.1 htxHash, UInt32.toUInt64_inj.1 htxIndex,
    UInt32.toUInt64_inj.1 hindex, array_same.1 hemitter,
    eq_of_all_map (fun _ _ => array_same.1) htopics,
    eq_of_all_map (fun _ _ => UInt8.toUInt64_inj.1) hdata, hevent, hremoved⟩

theorem Member.same_iff {a b : Member} : nanoAlike.same memberShape a.val b.val ↔ a = b := by
  refine same_iff_of ?_
  intro a b h
  obtain ⟨hchain, hblock, htx, hreceipt, hcalldata, -⟩ := h
  cases a
  cases b
  rw [Member.mk.injEq]
  exact ⟨hchain, array_same.1 hblock, array_same.1 htx, array_same.1 hreceipt,
    array_same.1 hcalldata⟩

theorem ReceiptLog.same_iff {a b : ReceiptLog} : nanoAlike.same receiptLogShape a.val b.val ↔ a = b := by
  refine same_iff_of ?_
  intro a b h
  obtain ⟨hlogIndex, hemitter, htopics, hdata, -⟩ := h
  cases a
  cases b
  rw [ReceiptLog.mk.injEq]
  exact ⟨UInt32.toUInt64_inj.1 hlogIndex, hemitter, eq_of_all (fun _ _ => id) htopics, hdata⟩

theorem ReceiptData.same_iff {a b : ReceiptData} : nanoAlike.same receiptDataShape a.val b.val ↔ a = b := by
  refine same_iff_of ?_
  intro a b h
  obtain ⟨hchainId, hblockNumber, hblockHash, hblockTime, htxHash, htxIndex, hreceiptHash,
    hcalldataHash, hcalldata, hlogCount, hlogs, hdataHash, hmaterializedAt, -⟩ := h
  cases a
  cases b
  rw [ReceiptData.mk.injEq]
  exact ⟨hchainId, hblockNumber, hblockHash, hblockTime, htxHash, UInt32.toUInt64_inj.1 htxIndex,
    hreceiptHash, hcalldataHash, hcalldata, UInt32.toUInt64_inj.1 hlogCount,
    eq_of_all_map (fun _ _ => ReceiptLog.same_iff.1) hlogs, hdataHash, hmaterializedAt⟩

end MarketInfo.Reserve
