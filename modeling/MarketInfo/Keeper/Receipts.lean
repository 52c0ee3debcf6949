import MarketInfo.Lib.Check
import MarketInfo.Lib.Facts
import MarketInfo.Model.Time

/-! # Merging receipts

Receipts of one transaction come from several sources, none of which need know every
value. `MergeReceipt` complements the later one from the earlier one and reports where
they conflict.
-/

namespace MarketInfo.Keeper

open Facts

structure NativeTransfer where
  InternalIndex : UInt32
  ValueIndex : UInt32
  Sender : String
  Recipient : String
  AmountSun : Int
  Rejected : Bool
deriving DecidableEq

/-- The columns of a receipt that merging reads or sets. -/
structure TxReceipt where
  BlockNumber : UInt64 := 0
  BlockHash : String := ""
  BlockTime : Time := ⟨0, 0⟩
  TxId : String := ""
  Sender : Option String := none
  OuterTarget : Option String := none
  OuterSelector : Option String := none
  OuterCallValueSun : Option Int := none
  ExecutionResult : String := "unknown"
  BodyComplete : Bool := false
  ReceiptComplete : Bool := false
  FeeSun : Option UInt64 := none
  EnergyUsageTotal : Option UInt64 := none
  EnergyUsage : Option UInt64 := none
  OriginEnergyUsage : Option UInt64 := none
  EnergyFeeSun : Option UInt64 := none
  EnergyPenaltyTotal : Option UInt64 := none
  NetUsage : Option UInt64 := none
  NetFeeSun : Option UInt64 := none
  MultisignFeeSun : Option UInt64 := none
  MemoFeeSun : Option UInt64 := none
  NativeTransferStatus : String := "absent_unknown"
  NativeTransfers : List NativeTransfer := []
  RentalLiquidationLogCount : UInt32 := 0
  OtherLogCount : UInt32 := 0
  CallClass : String := "unknown"
  BodyPayloadHash : Option String := none
deriving DecidableEq

/-- The loop over the optional columns, for one of them. -/
def complement {α : Type} [DecidableEq α] (name : String) : Option α → Option α → Except String (Option α)
  | some x, some y =>
      if x ≠ y then .error ("canonical_receipt_value_conflict_" ++ name) else .ok (some y)
  | x, none => .ok x
  | none, y => .ok y

/-- The loop over the columns of the outer call. -/
def complementCall (a b : TxReceipt) : Except String TxReceipt := do
  let b := { b with Sender := ← complement "Sender" a.Sender b.Sender }
  let b := { b with OuterTarget := ← complement "OuterTarget" a.OuterTarget b.OuterTarget }
  let b := { b with OuterSelector := ← complement "OuterSelector" a.OuterSelector b.OuterSelector }
  let b := { b with
    OuterCallValueSun := ← complement "OuterCallValueSun" a.OuterCallValueSun b.OuterCallValueSun }
  return b

/-- The same loop over what the execution took. -/
def complementCosts (a b : TxReceipt) : Except String TxReceipt := do
  let b := { b with FeeSun := ← complement "FeeSun" a.FeeSun b.FeeSun }
  let b := { b with
    EnergyUsageTotal := ← complement "EnergyUsageTotal" a.EnergyUsageTotal b.EnergyUsageTotal }
  let b := { b with EnergyUsage := ← complement "EnergyUsage" a.EnergyUsage b.EnergyUsage }
  let b := { b with
    OriginEnergyUsage := ← complement "OriginEnergyUsage" a.OriginEnergyUsage b.OriginEnergyUsage }
  let b := { b with EnergyFeeSun := ← complement "EnergyFeeSun" a.EnergyFeeSun b.EnergyFeeSun }
  let b := { b with
    EnergyPenaltyTotal := ← complement "EnergyPenaltyTotal" a.EnergyPenaltyTotal b.EnergyPenaltyTotal }
  let b := { b with NetUsage := ← complement "NetUsage" a.NetUsage b.NetUsage }
  let b := { b with NetFeeSun := ← complement "NetFeeSun" a.NetFeeSun b.NetFeeSun }
  let b := { b with MultisignFeeSun := ← complement "MultisignFeeSun" a.MultisignFeeSun b.MultisignFeeSun }
  let b := { b with MemoFeeSun := ← complement "MemoFeeSun" a.MemoFeeSun b.MemoFeeSun }
  return b

/-- `MergeReceipt`. The transfers are compared as they are frozen. -/
def MergeReceipt (a b : TxReceipt) : Except String TxReceipt := do
  Check.failIf (a.BlockHash ≠ b.BlockHash ∨ a.BlockNumber ≠ b.BlockNumber ∨ a.TxId ≠ b.TxId ∨
    a.BlockTime.unixNano ≠ b.BlockTime.unixNano) "canonical_receipt_anchor_conflict"
  let b ← complementCall a b
  let b ← complementCosts a b
  Check.failIf (a.ExecutionResult ≠ "unknown" ∧ b.ExecutionResult ≠ "unknown" ∧
    a.ExecutionResult ≠ b.ExecutionResult) "canonical_receipt_execution_conflict"
  let b := { b with
    ExecutionResult := if b.ExecutionResult = "unknown" then a.ExecutionResult else b.ExecutionResult }
  Check.failIf (a.BodyComplete ∧ b.BodyComplete ∧ a.CallClass ≠ b.CallClass)
    "canonical_receipt_call_conflict"
  let body := !b.BodyComplete && a.BodyComplete
  let b := { b with
    CallClass := if body then a.CallClass else b.CallClass
    BodyComplete := if body then true else b.BodyComplete
    BodyPayloadHash := if body then a.BodyPayloadHash else b.BodyPayloadHash }
  Check.failIf (a.NativeTransferStatus = "present" ∧ b.NativeTransferStatus = "present" ∧
    a.NativeTransfers ≠ b.NativeTransfers) "canonical_receipt_transfer_conflict"
  let transfers := b.NativeTransferStatus ≠ "present" ∧ a.NativeTransferStatus = "present"
  let b := { b with
    NativeTransferStatus := if transfers then a.NativeTransferStatus else b.NativeTransferStatus
    NativeTransfers := if transfers then a.NativeTransfers else b.NativeTransfers }
  Check.failIf (a.ReceiptComplete ∧ b.ReceiptComplete ∧
    (a.RentalLiquidationLogCount ≠ b.RentalLiquidationLogCount ∨ a.OtherLogCount ≠ b.OtherLogCount))
    "canonical_receipt_log_count_conflict"
  return b

def mergeNext : Option TxReceipt → TxReceipt → Except String (Option TxReceipt)
  | none, rr => .ok (some rr)
  | some prev, rr => some <$> MergeReceipt prev rr

/-- What is done with the receipts of one transaction, in the order in which they are read. -/
def mergeReceipts (receipts : List TxReceipt) : Except String (Option TxReceipt) :=
  receipts.foldlM mergeNext none

/-! ## What a receipt knows -/

/-- The protocol facts of a receipt. The marker of a complete body stands with the class of the
call, that of a complete receipt with the counts of its logs. -/
inductive Fact where
  | anchor
  | sender
  | outerTarget
  | outerSelector
  | outerCallValue
  | fee
  | energyUsageTotal
  | energyUsage
  | originEnergyUsage
  | energyFee
  | energyPenaltyTotal
  | netUsage
  | netFee
  | multisignFee
  | memoFee
  | execution
  | call
  | transfers
  | logCounts
deriving DecidableEq

inductive Known where
  | anchor (hash : String) (number : UInt64) (tx : String) (time : Int)
  | text (s : String)
  | amount (n : Int)
  | count (n : UInt64)
  | transfers (ts : List NativeTransfer)
  | logs (liquidations others : UInt32)
deriving DecidableEq

/-- The value that a receipt knows of a fact. -/
def TxReceipt.facts (r : TxReceipt) : Fact → Option Known
  | .anchor => some (.anchor r.BlockHash r.BlockNumber r.TxId r.BlockTime.unixNano)
  | .sender => r.Sender.map .text
  | .outerTarget => r.OuterTarget.map .text
  | .outerSelector => r.OuterSelector.map .text
  | .outerCallValue => r.OuterCallValueSun.map .amount
  | .fee => r.FeeSun.map .count
  | .energyUsageTotal => r.EnergyUsageTotal.map .count
  | .energyUsage => r.EnergyUsage.map .count
  | .originEnergyUsage => r.OriginEnergyUsage.map .count
  | .energyFee => r.EnergyFeeSun.map .count
  | .energyPenaltyTotal => r.EnergyPenaltyTotal.map .count
  | .netUsage => r.NetUsage.map .count
  | .netFee => r.NetFeeSun.map .count
  | .multisignFee => r.MultisignFeeSun.map .count
  | .memoFee => r.MemoFeeSun.map .count
  | .execution => if r.ExecutionResult = "unknown" then none else some (.text r.ExecutionResult)
  | .call => if r.BodyComplete then some (.text r.CallClass) else none
  | .transfers => if r.NativeTransferStatus = "present" then some (.transfers r.NativeTransfers) else none
  | .logCounts =>
      if r.ReceiptComplete then some (.logs r.RentalLiquidationLogCount r.OtherLogCount) else none

/-! ## One merge -/

theorem complement_eq_ok {α : Type} [DecidableEq α] {name : String} {x y z : Option α} :
    complement name x y = .ok z ↔ (∀ u v, x = some u → y = some v → u = v) ∧ z = y.or x := by
  cases x with
  | none => cases y <;> simp [complement, eq_comm]
  | some u =>
      cases y with
      | none => simp [complement, eq_comm]
      | some v =>
          by_cases huv : u = v
          · simp [complement, huv, eq_comm]
          · simp [complement, huv]

/-- Two values of one fact are the same where both are known. -/
def Agreeing {α : Type} (x y : Option α) : Prop := ∀ u v, x = some u → y = some v → u = v

theorem not_conflict_iff {f g : Fact → Option Known} : ¬ Conflict f g ↔ ∀ s, Agreeing (f s) (g s) := by
  constructor
  · exact fun h s u v hu hv => eq_of_not_conflict h hu hv
  · rintro h ⟨s, x, y, hx, hy, hne⟩
    exact hne (h s x y hx hy)

theorem agreeing_map {α : Type} {f : α → Known} (hf : ∀ u v, f u = f v → u = v) {x y : Option α} :
    Agreeing (x.map f) (y.map f) ↔ Agreeing x y := by
  constructor
  · intro h u v hu hv
    exact hf u v (h (f u) (f v) (by rw [hu]; rfl) (by rw [hv]; rfl))
  · intro h k k' hk hk'
    obtain ⟨u, hu, rfl⟩ := Option.map_eq_some_iff.mp hk
    obtain ⟨v, hv, rfl⟩ := Option.map_eq_some_iff.mp hk'
    rw [h u v hu hv]

theorem agreeing_ite {p q : Prop} [Decidable p] [Decidable q] {x y : Known} :
    Agreeing (if p then some x else none) (if q then some y else none) ↔ (p → q → x = y) := by
  by_cases hp : p <;> by_cases hq : q <;> simp [Agreeing, hp, hq]

theorem complementCall_eq_ok {a b r : TxReceipt} :
    complementCall a b = .ok r ↔
      (Agreeing a.Sender b.Sender ∧ Agreeing a.OuterTarget b.OuterTarget ∧
        Agreeing a.OuterSelector b.OuterSelector ∧ Agreeing a.OuterCallValueSun b.OuterCallValueSun) ∧
      r = { b with
        Sender := b.Sender.or a.Sender
        OuterTarget := b.OuterTarget.or a.OuterTarget
        OuterSelector := b.OuterSelector.or a.OuterSelector
        OuterCallValueSun := b.OuterCallValueSun.or a.OuterCallValueSun } := by
  unfold complementCall
  simp only [Check.andThen_eq_ok, complement_eq_ok]
  constructor
  · rintro ⟨_, ⟨h1, rfl⟩, _, ⟨h2, rfl⟩, _, ⟨h3, rfl⟩, _, ⟨h4, rfl⟩, hr⟩
    exact ⟨⟨h1, h2, h3, h4⟩, (Except.ok.inj hr).symm⟩
  · rintro ⟨⟨h1, h2, h3, h4⟩, rfl⟩
    exact ⟨_, ⟨h1, rfl⟩, _, ⟨h2, rfl⟩, _, ⟨h3, rfl⟩, _, ⟨h4, rfl⟩, rfl⟩

theorem complementCosts_eq_ok {a b r : TxReceipt} :
    complementCosts a b = .ok r ↔
      (Agreeing a.FeeSun b.FeeSun ∧ Agreeing a.EnergyUsageTotal b.EnergyUsageTotal ∧
        Agreeing a.EnergyUsage b.EnergyUsage ∧ Agreeing a.OriginEnergyUsage b.OriginEnergyUsage ∧
        Agreeing a.EnergyFeeSun b.EnergyFeeSun ∧ Agreeing a.EnergyPenaltyTotal b.EnergyPenaltyTotal ∧
        Agreeing a.NetUsage b.NetUsage ∧ Agreeing a.NetFeeSun b.NetFeeSun ∧
        Agreeing a.MultisignFeeSun b.MultisignFeeSun ∧ Agreeing a.MemoFeeSun b.MemoFeeSun) ∧
      r = { b with
        FeeSun := b.FeeSun.or a.FeeSun
        EnergyUsageTotal := b.EnergyUsageTotal.or a.EnergyUsageTotal
        EnergyUsage := b.EnergyUsage.or a.EnergyUsage
        OriginEnergyUsage := b.OriginEnergyUsage.or a.OriginEnergyUsage
        EnergyFeeSun := b.EnergyFeeSun.or a.EnergyFeeSun
        EnergyPenaltyTotal := b.EnergyPenaltyTotal.or a.EnergyPenaltyTotal
        NetUsage := b.NetUsage.or a.NetUsage
        NetFeeSun := b.NetFeeSun.or a.NetFeeSun
        MultisignFeeSun := b.MultisignFeeSun.or a.MultisignFeeSun
        MemoFeeSun := b.MemoFeeSun.or a.MemoFeeSun } := by
  unfold complementCosts
  simp only [Check.andThen_eq_ok, complement_eq_ok]
  constructor
  · rintro ⟨_, ⟨h1, rfl⟩, _, ⟨h2, rfl⟩, _, ⟨h3, rfl⟩, _, ⟨h4, rfl⟩, _, ⟨h5, rfl⟩, _, ⟨h6, rfl⟩,
      _, ⟨h7, rfl⟩, _, ⟨h8, rfl⟩, _, ⟨h9, rfl⟩, _, ⟨h10, rfl⟩, hr⟩
    exact ⟨⟨h1, h2, h3, h4, h5, h6, h7, h8, h9, h10⟩, (Except.ok.inj hr).symm⟩
  · rintro ⟨⟨h1, h2, h3, h4, h5, h6, h7, h8, h9, h10⟩, rfl⟩
    exact ⟨_, ⟨h1, rfl⟩, _, ⟨h2, rfl⟩, _, ⟨h3, rfl⟩, _, ⟨h4, rfl⟩, _, ⟨h5, rfl⟩, _, ⟨h6, rfl⟩,
      _, ⟨h7, rfl⟩, _, ⟨h8, rfl⟩, _, ⟨h9, rfl⟩, _, ⟨h10, rfl⟩, rfl⟩

/-- A merge goes through iff the receipts do not conflict. -/
theorem MergeReceipt_ok_iff {a b : TxReceipt} :
    (∃ r, MergeReceipt a b = .ok r) ↔ ¬ Conflict a.facts b.facts := by
  have hanchor : Agreeing (a.facts .anchor) (b.facts .anchor) ↔
      ¬ (a.BlockHash ≠ b.BlockHash ∨ a.BlockNumber ≠ b.BlockNumber ∨ a.TxId ≠ b.TxId ∨
        a.BlockTime.unixNano ≠ b.BlockTime.unixNano) := by
    simp [Agreeing, TxReceipt.facts]
  have hexecution : Agreeing (a.facts .execution) (b.facts .execution) ↔
      ¬ (a.ExecutionResult ≠ "unknown" ∧ b.ExecutionResult ≠ "unknown" ∧
        a.ExecutionResult ≠ b.ExecutionResult) := by
    by_cases ha : a.ExecutionResult = "unknown" <;> by_cases hb : b.ExecutionResult = "unknown" <;>
      simp [Agreeing, TxReceipt.facts, ha, hb]
  have hcall : Agreeing (a.facts .call) (b.facts .call) ↔
      ¬ (a.BodyComplete ∧ b.BodyComplete ∧ a.CallClass ≠ b.CallClass) := by
    simp only [TxReceipt.facts, agreeing_ite, Known.text.injEq, ne_eq, not_and, not_not]
  have htransfers : Agreeing (a.facts .transfers) (b.facts .transfers) ↔
      ¬ (a.NativeTransferStatus = "present" ∧ b.NativeTransferStatus = "present" ∧
        a.NativeTransfers ≠ b.NativeTransfers) := by
    simp only [TxReceipt.facts, agreeing_ite, Known.transfers.injEq, ne_eq, not_and, not_not]
  have hlogs : Agreeing (a.facts .logCounts) (b.facts .logCounts) ↔
      ¬ (a.ReceiptComplete ∧ b.ReceiptComplete ∧
        (a.RentalLiquidationLogCount ≠ b.RentalLiquidationLogCount ∨ a.OtherLogCount ≠ b.OtherLogCount)) := by
    simp only [TxReceipt.facts, agreeing_ite, Known.logs.injEq, ne_eq, not_and, not_or, not_not]
  have htext : ∀ u v, Known.text u = .text v → u = v := fun _ _ => Known.text.inj
  have hcount : ∀ u v, Known.count u = .count v → u = v := fun _ _ => Known.count.inj
  have hamount : ∀ u v, Known.amount u = .amount v → u = v := fun _ _ => Known.amount.inj
  rw [not_conflict_iff]
  unfold MergeReceipt
  simp only [Check.andThen_eq_ok, Check.failIf_eq_ok, complementCall_eq_ok, complementCosts_eq_ok]
  constructor
  · rintro ⟨r, -, h0, _, ⟨⟨h1, h2, h3, h4⟩, rfl⟩, _, ⟨⟨h5, h6, h7, h8, h9, h10, h11, h12, h13, h14⟩, rfl⟩,
      -, h15, -, h16, -, h17, -, h18, -⟩ s
    cases s with
    | anchor => exact hanchor.mpr h0
    | sender => exact (agreeing_map htext).mpr h1
    | outerTarget => exact (agreeing_map htext).mpr h2
    | outerSelector => exact (agreeing_map htext).mpr h3
    | outerCallValue => exact (agreeing_map hamount).mpr h4
    | fee => exact (agreeing_map hcount).mpr h5
    | energyUsageTotal => exact (agreeing_map hcount).mpr h6
    | energyUsage => exact (agreeing_map hcount).mpr h7
    | originEnergyUsage => exact (agreeing_map hcount).mpr h8
    | energyFee => exact (agreeing_map hcount).mpr h9
    | energyPenaltyTotal => exact (agreeing_map hcount).mpr h10
    | netUsage => exact (agreeing_map hcount).mpr h11
    | netFee => exact (agreeing_map hcount).mpr h12
    | multisignFee => exact (agreeing_map hcount).mpr h13
    | memoFee => exact (agreeing_map hcount).mpr h14
    | execution => exact hexecution.mpr h15
    | call => exact hcall.mpr h16
    | transfers => exact htransfers.mpr h17
    | logCounts => exact hlogs.mpr h18
  · intro h
    have hcalls := And.intro ((agreeing_map htext).mp (h .sender)) (And.intro
      ((agreeing_map htext).mp (h .outerTarget)) (And.intro
      ((agreeing_map htext).mp (h .outerSelector)) ((agreeing_map hamount).mp (h .outerCallValue))))
    have hcosts := fun (s : Fact) (get : TxReceipt → Option UInt64)
      (hs : a.facts s = (get a).map .count ∧ b.facts s = (get b).map .count) =>
        (agreeing_map hcount).mp (hs.1 ▸ hs.2 ▸ h s)
    refine ⟨_, (), hanchor.mp (h .anchor), _, ⟨hcalls, rfl⟩, _, ⟨⟨hcosts .fee (·.FeeSun) ⟨rfl, rfl⟩,
      hcosts .energyUsageTotal (·.EnergyUsageTotal) ⟨rfl, rfl⟩,
      hcosts .energyUsage (·.EnergyUsage) ⟨rfl, rfl⟩,
      hcosts .originEnergyUsage (·.OriginEnergyUsage) ⟨rfl, rfl⟩,
      hcosts .energyFee (·.EnergyFeeSun) ⟨rfl, rfl⟩,
      hcosts .energyPenaltyTotal (·.EnergyPenaltyTotal) ⟨rfl, rfl⟩,
      hcosts .netUsage (·.NetUsage) ⟨rfl, rfl⟩, hcosts .netFee (·.NetFeeSun) ⟨rfl, rfl⟩,
      hcosts .multisignFee (·.MultisignFeeSun) ⟨rfl, rfl⟩,
      hcosts .memoFee (·.MemoFeeSun) ⟨rfl, rfl⟩⟩, rfl⟩,
      (), hexecution.mp (h .execution), (), ?_, (), ?_, (), ?_, rfl⟩
    · exact hcall.mp (h .call)
    · exact htransfers.mp (h .transfers)
    · exact hlogs.mp (h .logCounts)

/-- A merge keeps what the later receipt knows and completes it from the earlier one, but for the
counts of the logs. -/
theorem facts_merge {a b r : TxReceipt} (h : MergeReceipt a b = .ok r) (s : Fact) :
    r.facts s = if s = .logCounts then b.facts s else (b.facts s).or (a.facts s) := by
  unfold MergeReceipt at h
  simp only [Check.andThen_eq_ok, Check.failIf_eq_ok, complementCall_eq_ok, complementCosts_eq_ok] at h
  obtain ⟨-, -, _, ⟨-, rfl⟩, _, ⟨-, rfl⟩, -, -, -, -, -, -, -, -, hr⟩ := h
  obtain rfl := Except.ok.inj hr
  cases s <;> simp only [TxReceipt.facts, reduceCtorEq, if_false, if_true, Option.map_or, Option.some_or]
  case execution =>
    by_cases hb : b.ExecutionResult = "unknown" <;> simp [hb]
  case call =>
    cases a.BodyComplete <;> cases b.BodyComplete <;> simp
  case transfers =>
    by_cases ha : a.NativeTransferStatus = "present" <;> by_cases hb : b.NativeTransferStatus = "present" <;>
      simp [ha, hb]

/-! ## Any order -/

/-- What one receipt knows, another one knows too. -/
def Keeps (r x : TxReceipt) : Prop := ∀ s v, x.facts s = some v → r.facts s = some v

/-- The same facts, or a conflict in both. -/
def SameFacts : Except String (Option TxReceipt) → Except String (Option TxReceipt) → Prop
  | .ok x, .ok y => x.map TxReceipt.facts = y.map TxReceipt.facts
  | .error _, .error _ => True
  | _, _ => False

/-- In any order the receipts merge to the same facts, or conflict, and no merge loses what any of
them knew. -/
def MergesWell (receipts : List TxReceipt) : Prop :=
  ∀ order, order.Perm receipts →
    SameFacts (mergeReceipts order) (mergeReceipts receipts) ∧
      ∀ first, first <+: order → ∀ r, mergeReceipts first = .ok (some r) → ∀ x ∈ first, Keeps r x

/-- A complete receipt and an incomplete one conflict elsewhere. -/
def NoneMixed (receipts : List TxReceipt) : Prop :=
  ∀ c ∈ receipts, ∀ i ∈ receipts, c.ReceiptComplete = true → i.ReceiptComplete = false →
    Conflict c.facts i.facts

theorem logCounts_eq_none_iff {r : TxReceipt} : r.facts .logCounts = none ↔ r.ReceiptComplete = false := by
  cases hcomplete : r.ReceiptComplete <;> simp [TxReceipt.facts, hcomplete]

theorem mergeReceipts_append (first : List TxReceipt) (b : TxReceipt) :
    mergeReceipts (first ++ [b]) = mergeReceipts first >>= fun prev => mergeNext prev b := by
  rw [mergeReceipts, List.foldlM_append, ← mergeReceipts]
  cases mergeReceipts first with
  | error e => rfl
  | ok prev =>
      show List.foldlM mergeNext prev [b] = mergeNext prev b
      rw [List.foldlM_cons]
      cases mergeNext prev b <;> rfl

/-- The merge of receipts that are not mixed sums up what they know, or some of them conflict. -/
theorem mergeReceipts_sums {receipts : List TxReceipt} (hmixed : NoneMixed receipts) :
    match mergeReceipts receipts with
    | .ok none => receipts = []
    | .ok (some r) => receipts ≠ [] ∧ Sums r.facts (receipts.map TxReceipt.facts) ∧
        ∀ x ∈ receipts, ∀ y ∈ receipts, ¬ Conflict x.facts y.facts
    | .error _ => ∃ x ∈ receipts, ∃ y ∈ receipts, Conflict x.facts y.facts := by
  induction receipts using List.reverseRecOn with
  | nil => rfl
  | append_singleton first b ih =>
      have hfirst : NoneMixed first := fun c hc i hi =>
        hmixed c (List.mem_append_left _ hc) i (List.mem_append_left _ hi)
      have hih := ih hfirst
      rw [mergeReceipts_append]
      cases hrun : mergeReceipts first with
      | error e =>
          rw [hrun] at hih
          obtain ⟨x, hx, y, hy, hconflict⟩ := hih
          exact ⟨x, List.mem_append_left _ hx, y, List.mem_append_left _ hy, hconflict⟩
      | ok prev =>
          rw [hrun] at hih
          cases prev with
          | none =>
              obtain rfl : first = [] := hih
              refine ⟨by simp, sums_singleton _, fun x hx y hy => ?_⟩
              obtain rfl := List.mem_singleton.mp hx
              obtain rfl := List.mem_singleton.mp hy
              exact not_conflict_self _
          | some a =>
              obtain ⟨-, hsums, hnone⟩ := hih
              have hconflict : Conflict a.facts b.facts ↔ ∃ x ∈ first, Conflict x.facts b.facts := by
                rw [hsums.conflict_iff]
                simp
              show match some <$> MergeReceipt a b with
                | .ok none => first ++ [b] = []
                | .ok (some r) => first ++ [b] ≠ [] ∧ Sums r.facts ((first ++ [b]).map TxReceipt.facts) ∧
                    ∀ x ∈ first ++ [b], ∀ y ∈ first ++ [b], ¬ Conflict x.facts y.facts
                | .error _ => ∃ x ∈ first ++ [b], ∃ y ∈ first ++ [b], Conflict x.facts y.facts
              cases hmerge : MergeReceipt a b with
              | error e =>
                  have hab : Conflict a.facts b.facts := by
                    by_contra hnot
                    obtain ⟨r, hr⟩ := MergeReceipt_ok_iff.mpr hnot
                    rw [hr] at hmerge
                    cases hmerge
                  obtain ⟨x, hx, hxb⟩ := hconflict.mp hab
                  exact ⟨x, List.mem_append_left _ hx, b, by simp, hxb⟩
              | ok r =>
                  have hab : ¬ Conflict a.facts b.facts := MergeReceipt_ok_iff.mp ⟨r, hmerge⟩
                  have hall : ∀ x ∈ first, ¬ Conflict x.facts b.facts := fun x hx h =>
                    hab (hconflict.mpr ⟨x, hx, h⟩)
                  -- no complete receipt comes before an incomplete one
                  have hfacts : ∀ s, r.facts s = (b.facts s).or (a.facts s) := by
                    intro s
                    rw [facts_merge hmerge s]
                    split
                    · rename_i hs
                      subst hs
                      cases hb : b.facts .logCounts with
                      | some v => rfl
                      | none =>
                          cases ha : a.facts .logCounts with
                          | none => rfl
                          | some v =>
                              obtain ⟨f, hf, hfv⟩ := (hsums .logCounts v).mp ha
                              obtain ⟨c, hc, rfl⟩ := List.mem_map.mp hf
                              have hcomplete : c.ReceiptComplete = true := by
                                by_contra hnot
                                rw [logCounts_eq_none_iff.mpr (by simpa using hnot)] at hfv
                                cases hfv
                              exact absurd (hmixed c (List.mem_append_left _ hc) b (by simp) hcomplete
                                (logCounts_eq_none_iff.mp hb)) (hall c hc)
                    · rfl
                  refine ⟨by simp, ?_, ?_⟩
                  · rw [List.map_append, List.map_singleton]
                    exact hsums.add hab hfacts
                  · intro x hx y hy
                    rcases List.mem_append.mp hx with hx | hx <;> rcases List.mem_append.mp hy with hy | hy
                    · exact hnone x hx y hy
                    · exact List.mem_singleton.mp hy ▸ hall x hx
                    · obtain hxb := List.mem_singleton.mp hx
                      exact fun h => hall y hy (hxb ▸ h.symm)
                    · rw [List.mem_singleton.mp hx, List.mem_singleton.mp hy]
                      exact not_conflict_self _

/-- Receipts merge well iff each that knows the counts of its logs conflicts with each that does
not. -/
theorem mergesWell_iff (receipts : List TxReceipt) : MergesWell receipts ↔ NoneMixed receipts := by
  constructor
  · intro h c hc i hi hcomplete hincomplete
    by_contra hnot
    have hne : i ≠ c := by
      rintro rfl
      rw [hcomplete] at hincomplete
      cases hincomplete
    -- the order that takes the complete one first and the incomplete one next
    have hmem : i ∈ receipts.erase c := (List.mem_erase_of_ne hne).mpr hi
    have horder : (c :: i :: (receipts.erase c).erase i).Perm receipts :=
      ((List.perm_cons_erase hmem).symm.cons c).trans (List.perm_cons_erase hc).symm
    obtain ⟨r, hr⟩ := MergeReceipt_ok_iff.mpr hnot
    have hrun : mergeReceipts [c, i] = .ok (some r) := by
      rw [show [c, i] = [c] ++ [i] from rfl, mergeReceipts_append]
      show some <$> MergeReceipt c i = _
      rw [hr]
      rfl
    have hkeep := (h _ horder).2 [c, i] ⟨_, rfl⟩ r hrun c (by simp)
    have hknown : c.facts .logCounts = some (.logs c.RentalLiquidationLogCount c.OtherLogCount) := by
      simp [TxReceipt.facts, hcomplete]
    have hlost := hkeep .logCounts _ hknown
    rw [facts_merge hr, if_pos rfl, logCounts_eq_none_iff.mpr hincomplete] at hlost
    cases hlost
  · intro hmixed order horder
    have hsame : ∀ x, x ∈ order ↔ x ∈ receipts := fun x => horder.mem_iff
    have horderMixed : NoneMixed order := fun c hc i hi =>
      hmixed c ((hsame c).mp hc) i ((hsame i).mp hi)
    constructor
    · have hleft := mergeReceipts_sums horderMixed
      have hright := mergeReceipts_sums hmixed
      revert hleft hright
      cases mergeReceipts order with
      | error e =>
          rintro ⟨x, hx, y, hy, hconflict⟩ hright
          cases hrun : mergeReceipts receipts with
          | error e' => trivial
          | ok z =>
              rw [hrun] at hright
              cases z with
              | none =>
                  rw [hsame] at hx
                  rw [show receipts = [] from hright] at hx
                  cases hx
              | some r' => exact hright.2.2 x ((hsame x).mp hx) y ((hsame y).mp hy) hconflict
      | ok z =>
          intro hleft hright
          cases hrun : mergeReceipts receipts with
          | error e' =>
              rw [hrun] at hright
              obtain ⟨x, hx, y, hy, hconflict⟩ := hright
              cases z with
              | none =>
                  rw [← hsame, show order = [] from hleft] at hx
                  cases hx
              | some r => exact hleft.2.2 x ((hsame x).mpr hx) y ((hsame y).mpr hy) hconflict
          | ok z' =>
              rw [hrun] at hright
              cases z with
              | none =>
                  have hempty : receipts = [] := by
                    rw [show order = [] from hleft] at horder
                    exact horder.symm.eq_nil
                  cases z' with
                  | none => rfl
                  | some r' => exact absurd hempty hright.1
              | some r =>
                  cases z' with
                  | none =>
                      rw [show receipts = [] from hright] at horder
                      exact absurd horder.eq_nil hleft.1
                  | some r' =>
                      refine congrArg some (hleft.2.1.unique hright.2.1 fun f => ?_)
                      simp only [List.mem_map, hsame]
    · intro first hfirst r hrun x hx s v hv
      have hfirstMixed : NoneMixed first := fun c hc i hi =>
        horderMixed c (hfirst.subset hc) i (hfirst.subset hi)
      have hsums := mergeReceipts_sums hfirstMixed
      rw [hrun] at hsums
      exact (hsums.2.1 s v).mpr ⟨x.facts, List.mem_map.mpr ⟨x, hx, rfl⟩, hv⟩

/-- A receipt with one log of a liquidation, and one of which the logs were not read. -/
theorem mergeReceipts_loses_logCounts :
    ¬ MergesWell [{ ReceiptComplete := true, RentalLiquidationLogCount := 1 }, {}] := by
  intro h
  have hkeep := (h _ (List.Perm.refl _)).2 _ (List.prefix_refl _) {} rfl
    { ReceiptComplete := true, RentalLiquidationLogCount := 1 } (by simp)
  have hlost := hkeep .logCounts (.logs 1 0) rfl
  cases hlost

end MarketInfo.Keeper
