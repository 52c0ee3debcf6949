import MarketInfo.Binance.Sequencing
import MarketInfo.Bybit.Collector
import MarketInfo.Okx.Collector

/-! # The collectors of all exchanges

Each exchange has its own rule for what may follow a snapshot. Whatever of a true
stream is lost, repeated or delivered late, a valid book holds the snapshot and
every later update up to the latest one delivered.
-/

namespace MarketInfo

open Sequencing

theorem Book.new_not_valid {instrumentID : UInt32} {retained : Nat} {b : Book}
    (h : Book.new instrumentID retained = .ok b) :
    b.instrumentID = instrumentID ∧ b.state ≠ .valid := by
  simp only [Book.new, Check.seq_eq_ok] at h
  obtain ⟨-, h⟩ := h
  obtain rfl := Except.ok.inj h
  refine ⟨rfl, ?_⟩
  intro hvalid
  cases hvalid

variable {b : Book}

theorem binance_sequenced {futures : Bool} (hstate : b.state ≠ .valid) {stream : List DepthUpdate}
    (hstream : DepthUpdate.TrueStream futures stream) {msgs : List BinanceMessage}
    (hmsgs : ∀ u, .push u ∈ msgs → u ∈ stream) :
    Collector.machine.Sequenced DepthUpdate.finalUpdateID DepthUpdate.changes stream b
      (Collector.machine.run { collector := Collector.new b futures } msgs) := by
  have hfollows := Collector.follows hstream
  refine Machine.sequenced_of_good hfollows (Machine.good_run hfollows ?_ ⟨⟨rfl, fun _ => hstate⟩, ?_⟩)
  · intro msg hmsg u hu
    cases msg with
    | reset => cases hu
    | snapshot => cases hu
    | push v =>
        obtain rfl := Event.update.inj hu
        exact hmsgs v hmsg
  · refine inv_new ?_ ?_ []
    · rfl
    · exact hstate

theorem okx_sequenced (hstate : b.state ≠ .valid) {stream : List Okx.DepthUpdate}
    (hstream : Okx.DepthUpdate.TrueStream stream) {msgs : List Okx.Collector.Message}
    (hmsgs : ∀ u, .push u ∈ msgs → u.snapshot = true ∨ u.Heartbeat ∨ u ∈ stream) :
    (Okx.Collector.machine b.instrumentID).Sequenced Okx.DepthUpdate.seqID Okx.DepthUpdate.changes
      stream b
      ((Okx.Collector.machine b.instrumentID).run { collector := Okx.Collector.new b } msgs) := by
  have hfollows : (Okx.Collector.machine b.instrumentID).Follows _ _ stream _ :=
    Okx.Collector.follows hstream
  refine Machine.sequenced_of_good hfollows (Machine.good_run hfollows ?_ ⟨⟨rfl, fun _ => hstate⟩, ?_⟩)
  · intro msg hmsg u hu
    cases msg with
    | reset => cases hu
    | push v =>
        change (if v.snapshot = true then _ else if v.Heartbeat then _ else _) = _ at hu
        split at hu
        · cases hu
        · rename_i hchange
          split at hu
          · cases hu
          · rename_i hheartbeat
            obtain rfl := Event.update.inj hu
            rcases hmsgs v hmsg with h | h | h
            · exact absurd h hchange
            · exact absurd h hheartbeat
            · exact h
  · refine inv_new ?_ ?_ []
    · rfl
    · exact hstate

theorem bybit_sequenced (hstate : b.state ≠ .valid) {stream : List Bybit.DepthUpdate}
    (hstream : Bybit.DepthUpdate.TrueStream stream) {msgs : List Bybit.Collector.Message}
    (hmsgs : ∀ u, .push u ∈ msgs → u.snapshot = true ∨ u ∈ stream) :
    (Bybit.Collector.machine b.instrumentID).Sequenced Bybit.DepthUpdate.updateID
      Bybit.DepthUpdate.changes stream b
      ((Bybit.Collector.machine b.instrumentID).run { collector := Bybit.Collector.new b } msgs) := by
  have hfollows : (Bybit.Collector.machine b.instrumentID).Follows _ _ stream _ :=
    Bybit.Collector.follows hstream
  refine Machine.sequenced_of_good hfollows (Machine.good_run hfollows ?_ ⟨rfl, ?_⟩)
  · intro msg hmsg u hu
    cases msg with
    | reset => cases hu
    | push v =>
        change (if v.snapshot = true then _ else _) = _ at hu
        split at hu
        · cases hu
        · rename_i hchange
          obtain rfl := Event.update.inj hu
          exact (hmsgs v hmsg).resolve_left hchange
  · refine inv_new ?_ ?_ []
    · rfl
    · exact hstate

def twoUpdates : List DepthUpdate :=
  [{ firstUpdateID := 8, finalUpdateID := 9, previousUpdateID := 7, sourceTime := ⟨1, 0⟩,
     bids := [⟨99, 2⟩], asks := [] },
   { firstUpdateID := 10, finalUpdateID := 10, previousUpdateID := 9, sourceTime := ⟨2, 0⟩,
     bids := [], asks := [⟨101, 4⟩] }]

def twoUpdatesSnapshot : BookSnapshot :=
  { instrumentID := 7, sourceTime := ⟨1, 0⟩, sequence := 8, bids := [⟨99, 1⟩], asks := [⟨101, 1⟩] }

def twoOkxUpdates : List Okx.DepthUpdate :=
  [{ snapshot := false, previousSeqID := 8, seqID := 9, sourceTime := ⟨1, 0⟩, bids := [⟨99, 2⟩],
     asks := [] },
   { snapshot := false, previousSeqID := 9, seqID := 12, sourceTime := ⟨2, 0⟩, bids := [],
     asks := [⟨101, 4⟩] }]

def twoBybitUpdates : List Bybit.DepthUpdate :=
  [{ snapshot := false, updateID := 9, crossSequence := 3, sourceTime := ⟨1, 0⟩, bids := [⟨99, 2⟩],
     asks := [] },
   { snapshot := false, updateID := 10, crossSequence := 5, sourceTime := ⟨2, 0⟩, bids := [],
     asks := [⟨101, 4⟩] }]

def emptyBook : Book :=
  { instrumentID := 7, retainedDepth := 10, state := .connecting, reason := "", sequence := 0,
    sourceTime := Time.zero, bids := ∅, asks := ∅, bidSideComplete := false,
    askSideComplete := false }

end MarketInfo
