import MarketInfo.Lib.Check
import MarketInfo.Model.Time

/-! # Funding estimates

The store of funding estimates: for each instrument and settlement target the
newest observation. A lookup goes over the stored observations in whatever order
the map gives them, so the order is an argument of it.
-/

namespace MarketInfo.Funding

/-- A decimal number, `coefficient * 10 ^ exponent`. -/
structure Rate where
  coefficient : Int
  exponent : Int
deriving DecidableEq

structure FundingEstimate where
  instrumentID : UInt32
  fundingTime : Time
  rate : Rate
  sourceTime : Time
deriving DecidableEq

/-- `model.FundingEstimate{}`. -/
def FundingEstimate.zero : FundingEstimate := ⟨0, Time.zero, ⟨0, 0⟩, Time.zero⟩

def hour : Int := 60 * Time.minute

/-- `t.Equal(time.UnixMilli(t.UnixMilli()))`. -/
def millisecondPrecise (t : Time) : Prop := t.unixNano = t.unixMilli * Time.millisecond

instance (t : Time) : Decidable (millisecondPrecise t) :=
  inferInstanceAs (Decidable (t.unixNano = t.unixMilli * Time.millisecond))

/-- `t.Sub(u)`, at most the longest duration. -/
def sub (t u : Time) : Int :=
  max (-2 ^ 63) (min (2 ^ 63 - 1) (t.unixNano - u.unixNano))

def FundingEstimate.validate (f : FundingEstimate) : Except String Unit := do
  Check.failIf (f.instrumentID = 0 ∨ f.fundingTime.IsZero ∨ f.sourceTime.IsZero)
    "funding estimate requires instrument, funding_time and source_time"
  Check.failIf (¬ millisecondPrecise f.fundingTime) "funding_time must have millisecond precision"
  Check.failIf (¬ millisecondPrecise f.sourceTime) "source_time must have millisecond precision"
  Check.failIf (f.rate.exponent < -18) "funding estimate exceeds Decimal(38,18) scale"

/-- `estimateKey`: the instrument and the target in milliseconds. -/
def FundingEstimate.key (f : FundingEstimate) : UInt32 × Int :=
  (f.instrumentID, f.fundingTime.unixMilli)

def FundingEstimate.utc (f : FundingEstimate) : FundingEstimate :=
  { f with fundingTime := f.fundingTime.utc, sourceTime := f.sourceTime.utc }

/-- The map of estimates as the list of its values, each under its own key. -/
structure EstimateStore where
  values : List FundingEstimate
  available : UInt32 → Bool
  lastPrune : Time

def newEstimateStore : EstimateStore := ⟨[], fun _ => false, Time.zero⟩

/-- Storing under the key of an estimate. -/
def EstimateStore.set (s : EstimateStore) (f : FundingEstimate) : List FundingEstimate :=
  s.values.filter (fun v => v.key ≠ f.key) ++ [f]

/-- `Put` once the estimate is validated and in UTC. -/
def EstimateStore.keep (s : EstimateStore) (f : FundingEstimate) : EstimateStore :=
  if (s.values.find? fun v => v.key = f.key).any fun previous =>
      previous.sourceTime.After f.sourceTime then s
  else
    let s := { s with
      values := s.set f
      available := Function.update s.available f.instrumentID true }
    if s.lastPrune.IsZero ∨ f.sourceTime.After (s.lastPrune.add hour) then
      { s with
        values := s.values.filter fun v => ¬ v.sourceTime.Before (f.sourceTime.add (-48 * hour))
        lastPrune := f.sourceTime }
    else s

def EstimateStore.put (s : EstimateStore) (f : FundingEstimate) :
    EstimateStore × Except String Unit :=
  match f.validate with
  | .error e => (s, .error e)
  | .ok () => (s.keep f.utc, .ok ())

def EstimateStore.markUnavailable (s : EstimateStore) (instrumentIDs : List UInt32) :
    EstimateStore :=
  { s with available := fun id =>
      if id ≠ 0 ∧ id ∈ instrumentIDs then false else s.available id }

/-! ## Lookup -/

def targetsCutoffHour (cutoff : Time) (f : FundingEstimate) : Bool :=
  (f.fundingTime.utc.truncate hour).Equal (cutoff.truncate hour)

/-- Not after the cutoff, and not older than allowed. -/
def fresh (cutoff : Time) (maxAge : Int) (f : FundingEstimate) : Bool :=
  ¬ f.sourceTime.After cutoff ∧ ¬ (sub cutoff f.sourceTime < 0 ∨ maxAge < sub cutoff f.sourceTime)

/-- The later of the candidate so far and another one; the zero time marks none. -/
def later (best candidate : FundingEstimate) : FundingEstimate :=
  if best.sourceTime.IsZero ∨ candidate.sourceTime.After best.sourceTime then candidate else best

structure Scan where
  latest : FundingEstimate
  settlement : FundingEstimate
  settlementExpected : Bool

def Scan.visit (instrumentID : UInt32) (cutoff : Time) (maxAge : Int) (scan : Scan)
    (candidate : FundingEstimate) : Scan :=
  if candidate.instrumentID ≠ instrumentID then scan
  else
    let scan := { scan with
      settlementExpected := scan.settlementExpected || targetsCutoffHour cutoff candidate }
    if fresh cutoff maxAge candidate then
      { scan with
        latest := later scan.latest candidate
        settlement := if targetsCutoffHour cutoff candidate then later scan.settlement candidate
          else scan.settlement }
    else scan

def found (f : FundingEstimate) : Option FundingEstimate :=
  if f.sourceTime.IsZero then none else some f

/-- `At`, with the map's iteration order. -/
def EstimateStore.at (s : EstimateStore) (order : List FundingEstimate) (instrumentID : UInt32)
    (cutoff : Time) (maxAge : Int) : Option FundingEstimate :=
  if instrumentID = 0 ∨ maxAge ≤ 0 then none
  else if s.available instrumentID = false then none
  else
    let scan := order.foldl (Scan.visit instrumentID cutoff.utc maxAge)
      ⟨.zero, .zero, false⟩
    if scan.settlementExpected then found scan.settlement else found scan.latest

/-! ## Runs -/

inductive Call
  | put (f : FundingEstimate)
  | markUnavailable (instrumentIDs : List UInt32)

def EstimateStore.call (s : EstimateStore) : Call → EstimateStore
  | .put f => (s.put f).1
  | .markUnavailable ids => s.markUnavailable ids

def run (calls : List Call) : EstimateStore := calls.foldl EstimateStore.call newEstimateStore

/-- The observations that were put, in order of arrival. -/
def observations (calls : List Call) : List FundingEstimate :=
  calls.filterMap fun
    | .put f => if f.validate = .ok () then some f.utc else none
    | .markUnavailable _ => none

end MarketInfo.Funding
