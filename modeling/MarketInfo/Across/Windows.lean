import Mathlib
import MarketInfo.Lib.Spans

/-! # Uncovered windows

`historyUncovered` on 64-bit block numbers, and the loop of `RepairPartialStep`
that calls it again from the block after each window. As long as no covered
interval ends at the largest block number, every call returns what it would
return without a bound on the numbers, and the windows part the uncovered blocks
of the range.
-/

namespace MarketInfo.Across

/-- The largest block number, `math.MaxUint64`. -/
def maxBlock : UInt64 := 0xFFFFFFFFFFFFFFFF

/-- `blockInterval`, from `lo` to `hi`. -/
structure BlockInterval where
  lo : UInt64
  hi : UInt64
deriving DecidableEq, Repr

structure HistoryRange where
  chainId : UInt64
  lo : UInt64
  hi : UInt64
deriving DecidableEq, Repr

def historyRoundBlocks : UInt64 := 64

/-- The loop of `firstUncovered` with its current block. -/
def firstUncovered (n last : UInt64) : List BlockInterval → UInt64
  | [] => n
  | r :: rest =>
      if r.hi < n then firstUncovered n last rest
      else if n < r.lo then n
      else if last < r.hi + 1 then r.hi + 1
      else firstUncovered (r.hi + 1) last rest

def historyUncovered (lo last : UInt64) (covered : List BlockInterval) : Option HistoryRange :=
  let next := firstUncovered lo last covered
  if last < next then none
  else
    let stop := min last (next + min historyRoundBlocks (last - next + 1) - 1)
    match covered.find? fun span => decide (next < span.lo) with
    | some span => some ⟨0, next, min stop (span.lo - 1)⟩
    | none => some ⟨0, next, stop⟩

/-- The windows of one capture in `RepairPartialStep`: each call starts at the
block after the last window. `none` when the fuel runs out first. -/
def repairWindows : Nat → UInt64 → UInt64 → UInt64 → List BlockInterval → Option (List HistoryRange)
  | 0, _, _, _, _ => none
  | fuel + 1, chain, lo, last, decoded =>
      if last < lo then some []
      else match historyUncovered lo last decoded with
        | none => some []
        | some window =>
            let window := { window with chainId := chain }
            if window.hi = maxBlock then some [window]
            else (repairWindows fuel chain (window.hi + 1) last decoded).map (window :: ·)

def BlockInterval.span (r : BlockInterval) : Span := ⟨r.lo.toNat, r.hi.toNat⟩

def HistoryRange.span (w : HistoryRange) : Span := ⟨w.lo.toNat, w.hi.toNat⟩

/-! ## The numbers without a bound -/

theorem ne_maxBlock_iff {n : UInt64} : n ≠ maxBlock ↔ n.toNat + 1 < 2 ^ 64 := by
  have hlt := n.toNat_lt
  have hmax : maxBlock.toNat = 2 ^ 64 - 1 := rfl
  rw [ne_eq, ← UInt64.toNat_inj, hmax]
  omega

theorem toNat_succ {n : UInt64} (h : n ≠ maxBlock) : (n + 1).toNat = n.toNat + 1 := by
  have hlt := ne_maxBlock_iff.mp h
  rw [UInt64.toNat_add, UInt64.toNat_one]
  omega

theorem toNat_firstUncovered {n last : UInt64} {covered : List BlockInterval}
    (hend : ∀ r ∈ covered, r.hi ≠ maxBlock) :
    (firstUncovered n last covered).toNat =
      Span.firstUncovered n.toNat last.toNat (covered.map BlockInterval.span) := by
  induction covered generalizing n with
  | nil => rfl
  | cons r rest ih =>
      have hrest : ∀ q ∈ rest, q.hi ≠ maxBlock := fun q hq => hend q (List.mem_cons_of_mem _ hq)
      have hsucc := toNat_succ (hend r (List.mem_cons_self ..))
      unfold firstUncovered
      simp only [List.map_cons, Span.firstUncovered, BlockInterval.span, UInt64.lt_iff_toNat_lt,
        hsucc]
      split_ifs with hskip hgap hlast
      · exact ih hrest
      · rfl
      · exact hsucc
      · rw [ih hrest, hsucc]

theorem find_span {next : UInt64} (covered : List BlockInterval) :
    (covered.map BlockInterval.span).find? (fun r => decide (next.toNat < r.lo)) =
      (covered.find? fun span => decide (next < span.lo)).map BlockInterval.span := by
  rw [List.find?_map]
  congr 2

/-- No operation of a call leaves the 64 bits. -/
theorem span_historyUncovered {lo last : UInt64} {covered : List BlockInterval}
    (hend : ∀ r ∈ covered, r.hi ≠ maxBlock) (hlast : last ≠ maxBlock) :
    (historyUncovered lo last covered).map HistoryRange.span =
      Span.nextWindow 64 lo.toNat last.toNat (covered.map BlockInterval.span) := by
  have hnext := @toNat_firstUncovered lo last covered hend
  have hbound := ne_maxBlock_iff.mp hlast
  unfold historyUncovered Span.nextWindow
  rw [← hnext]
  generalize firstUncovered lo last covered = next
  simp only [find_span]
  simp only [UInt64.lt_iff_toNat_lt]
  split_ifs with hdone
  · rfl
  · have hle : next ≤ last := UInt64.le_iff_toNat_le.mpr (not_lt.mp hdone)
    have hsub : (last - next).toNat = last.toNat - next.toNat := UInt64.toNat_sub_of_le _ _ hle
    have hsize : (last - next + 1).toNat = last.toNat - next.toNat + 1 := by
      rw [UInt64.toNat_add, hsub, UInt64.toNat_one]
      omega
    have hround : (min historyRoundBlocks (last - next + 1)).toNat =
        min 64 (last.toNat - next.toNat + 1) := by
      rw [UInt64.toNat_min, hsize]
      rfl
    have hsum : (next + min historyRoundBlocks (last - next + 1)).toNat =
        next.toNat + min 64 (last.toNat - next.toNat + 1) := by
      rw [UInt64.toNat_add, hround]
      omega
    have hstop : (next + min historyRoundBlocks (last - next + 1) - 1).toNat =
        next.toNat + min 64 (last.toNat - next.toNat + 1) - 1 := by
      rw [UInt64.toNat_sub_of_le _ _ (UInt64.le_iff_toNat_le.mpr (by
        rw [hsum, UInt64.toNat_one]; omega)), hsum, UInt64.toNat_one]
    cases hfind : covered.find? fun span => decide (next.toNat < span.lo.toNat) with
    | none =>
        simp only [Option.map_some, Option.map_none, Option.getD_none, HistoryRange.span,
          UInt64.toNat_min, hstop]
    | some span =>
        have hafter := List.find?_some hfind
        simp only [decide_eq_true_eq] at hafter
        have hcut : (span.lo - 1).toNat = span.lo.toNat - 1 := by
          rw [UInt64.toNat_sub_of_le _ _ (UInt64.le_iff_toNat_le.mpr (by
            rw [UInt64.toNat_one]; omega)), UInt64.toNat_one]
        simp only [Option.map_some, Option.getD_some, HistoryRange.span, BlockInterval.span,
          UInt64.toNat_min, hstop, hcut]

/-! ## The loop -/

/-- The blocks that no covered interval holds, parted into windows. -/
def PartsUncovered (lo last : UInt64) (covered : List BlockInterval) (ws : List HistoryRange) :
    Prop :=
  Span.Windows 64 lo.toNat last.toNat (covered.map BlockInterval.span) (ws.map HistoryRange.span)

theorem sorted_span {covered : List BlockInterval}
    (hsorted : covered.Pairwise fun a b => a.lo ≤ b.lo) :
    (covered.map BlockInterval.span).Pairwise fun a b => a.lo ≤ b.lo :=
  List.pairwise_map.mpr (hsorted.imp fun h => UInt64.le_iff_toNat_le.mp h)

/-- One block of fuel for each block of the range, and one more. -/
theorem repairWindows_parts {chain lo last : UInt64} {covered : List BlockInterval}
    (hsorted : covered.Pairwise fun a b => a.lo ≤ b.lo)
    (hend : ∀ r ∈ covered, r.hi ≠ maxBlock) (hlast : last ≠ maxBlock) {fuel : Nat}
    (hfuel : last.toNat + 1 - lo.toNat < fuel) :
    ∃ ws, (∀ more, fuel ≤ more → repairWindows more chain lo last covered = some ws) ∧
      PartsUncovered lo last covered ws ∧ ∀ w ∈ ws, w.chainId = chain := by
  induction fuel generalizing lo with
  | zero => omega
  | succ fuel ih =>
      have hcall := @span_historyUncovered lo last covered hend hlast
      have hmore : ∀ more, fuel + 1 ≤ more → ∃ k, more = k + 1 ∧ fuel ≤ k := fun more h =>
        ⟨more - 1, by omega, by omega⟩
      by_cases hempty : last < lo
      · refine ⟨[], fun more h => ?_, ?_, by simp⟩
        · rcases hmore more h with ⟨k, rfl, -⟩
          simp only [repairWindows, hempty, if_true]
        · have := UInt64.lt_iff_toNat_lt.mp hempty
          exact Span.Windows.nil fun k hn hk => by omega
      · cases hw : historyUncovered lo last covered with
        | none =>
            rw [hw, Option.map_none] at hcall
            refine ⟨[], fun more h => ?_, ?_, by simp⟩
            · rcases hmore more h with ⟨k, rfl, -⟩
              simp only [repairWindows, hempty, if_false, hw]
            · exact Span.Windows.nil fun k hn hk => Span.nextWindow_none hcall.symm hn hk
        | some w =>
            rw [hw, Option.map_some] at hcall
            have hwindow := Span.nextWindow_some (by omega) (sorted_span hsorted) hcall.symm
            have hproper : w.lo.toNat ≤ w.hi.toNat := hwindow.proper
            have hstart : lo.toNat ≤ w.lo.toNat := hwindow.start
            have hstop : w.hi.toNat ≤ last.toNat := hwindow.stop
            have hbound := ne_maxBlock_iff.mp hlast
            have hnot : w.hi ≠ maxBlock := ne_maxBlock_iff.mpr (by omega)
            have hsucc := toNat_succ hnot
            -- the next call starts behind the window, so its range is shorter
            rcases @ih (w.hi + 1) (by omega) with ⟨ws, hrun, hparts, hchain⟩
            unfold PartsUncovered at hparts
            rw [hsucc] at hparts
            refine ⟨{ w with chainId := chain } :: ws, fun more h => ?_,
              Span.Windows.cons hwindow hparts, List.forall_mem_cons.mpr ⟨rfl, hchain⟩⟩
            rcases hmore more h with ⟨k, rfl, hk⟩
            simp only [repairWindows, hempty, if_false, hw, hnot, hrun k hk, Option.map_some]

/-- With no covered interval that ends at the largest block, every call is what it
would be without a bound on block numbers, and the calls part the uncovered
blocks of the range. -/
theorem repairWindows_partition {chain lo last : UInt64} {covered : List BlockInterval}
    (hsorted : covered.Pairwise fun a b => a.lo ≤ b.lo)
    (hend : ∀ r ∈ covered, r.hi ≠ maxBlock) (hlast : last ≠ maxBlock) :
    (∀ start, (historyUncovered start last covered).map HistoryRange.span =
      Span.nextWindow 64 start.toNat last.toNat (covered.map BlockInterval.span)) ∧
    ∃ ws, (∀ fuel, last.toNat + 1 - lo.toNat < fuel →
        repairWindows fuel chain lo last covered = some ws) ∧
      PartsUncovered lo last covered ws := by
  constructor
  · exact fun start => span_historyUncovered hend hlast
  · rcases @repairWindows_parts chain lo last covered hsorted hend hlast _
      (Nat.lt_succ_self (last.toNat + 1 - lo.toNat)) with ⟨ws, hrun, hparts, -⟩
    exact ⟨ws, hrun, hparts⟩

/-- Overlapping and nested intervals in the range from 5 to 200. -/
theorem repairWindows_partition_nested :
    (∀ start, (historyUncovered start 200 [⟨10, 20⟩, ⟨12, 15⟩, ⟨18, 30⟩]).map HistoryRange.span =
      Span.nextWindow 64 start.toNat (200 : UInt64).toNat
        ([⟨10, 20⟩, ⟨12, 15⟩, ⟨18, 30⟩].map BlockInterval.span)) ∧
    ∃ ws, (∀ fuel, (200 : UInt64).toNat + 1 - (5 : UInt64).toNat < fuel →
        repairWindows fuel 1 5 200 [⟨10, 20⟩, ⟨12, 15⟩, ⟨18, 30⟩] = some ws) ∧
      PartsUncovered 5 200 [⟨10, 20⟩, ⟨12, 15⟩, ⟨18, 30⟩] ws :=
  repairWindows_partition (by decide) (by decide) (by decide)

example : repairWindows 200 1 5 100 [⟨10, 20⟩, ⟨12, 15⟩, ⟨18, 30⟩] =
    some [⟨1, 5, 9⟩, ⟨1, 31, 94⟩, ⟨1, 95, 100⟩] := by decide

/-- A covered interval that ends at the largest block sends the scan back to block
zero: the window lies outside the range, and the loop gets it again for ever. -/
theorem repairWindows_wraps :
    ([⟨5, maxBlock⟩] : List BlockInterval).Pairwise (fun a b => a.lo ≤ b.lo) ∧
    (10 : UInt64) ≠ maxBlock ∧ historyUncovered 5 10 [⟨5, maxBlock⟩] = some ⟨0, 0, 4⟩ ∧
    ¬ ∃ fuel ws, repairWindows fuel 1 5 10 [⟨5, maxBlock⟩] = some ws ∧
      PartsUncovered 5 10 [⟨5, maxBlock⟩] ws := by
  refine ⟨by decide, by decide, by decide, ?_⟩
  rintro ⟨fuel, ws, hrun, -⟩
  have hcall : historyUncovered 5 10 [⟨5, maxBlock⟩] = some ⟨0, 0, 4⟩ := by decide
  -- the window ends at block 4, so the next call is the same call
  have hnone : repairWindows fuel 1 5 10 [⟨5, maxBlock⟩] = none := by
    clear hrun
    induction fuel with
    | zero => rfl
    | succ fuel ih =>
        have hgo : ¬ (10 : UInt64) < 5 := by decide
        have hmax : (4 : UInt64) ≠ maxBlock := by decide
        have hsucc : (4 : UInt64) + 1 = 5 := by decide
        simp only [repairWindows, hgo, if_false, hcall, hmax, hsucc, ih, Option.map_none]
  rw [hnone] at hrun
  cases hrun

end MarketInfo.Across
