import MarketInfo.Lib.Check
import Mathlib.Order.MinMax

/-! # The shared source quota

Processes that use the same source share four timestamps in a file, under a lock.
A request reads and updates them before it is sent, again and again until it is
admitted, and once more after its answer. Each of these updates is one step, and
the steps of all requests follow each other in some order. Times are nanoseconds,
far below the limit of a 64-bit word.
-/

namespace MarketInfo.Across

def second : Int := 1000000000

/-- The configured pace, as `NewSourceQuota` accepts it. -/
structure SourceQuota where
  interval : Int
  burst : Int
  interval_pos : 0 < interval
  burst_pos : 1 ≤ burst
  burst_le : burst ≤ 10

/-- `[4]int64`: the next admission, the end of the provider cooldown, the end of the window of
urgent requests or, negated, the deadline until which they yield, and the failures in a row. -/
structure Timestamps where
  next : Int
  cooldown : Int
  priority : Int
  failures : Nat
deriving DecidableEq

/-- An empty file. -/
def Timestamps.zero : Timestamps := ⟨0, 0, 0, 0⟩

structure Request where
  urgent : Bool
  discovery : Bool
  members : Int
  /-- the time left until the deadline of the context, if it has one -/
  remaining : Option Int
deriving DecidableEq

inductive Answer where
  | admitted
  | wait (d : Int)
  | refused (err : String)
deriving DecidableEq

/-- The window or the deadline that an urgent request finds, once a window that is over has
become a deadline, and a deadline that the source is not ready for has moved. -/
def SourceQuota.yield (q : SourceQuota) (urgent : Bool) (now ready priority : Int) : Int :=
  let priority :=
    if urgent = true ∧ priority > 0 ∧ now ≥ priority then -(max now ready + q.interval)
    else priority
  if urgent = true ∧ priority < 0 ∧ ready ≥ -priority then -(ready + q.interval) else priority

/-- How long the window of an urgent request is. -/
def SourceQuota.lease (q : SourceQuota) (remaining : Option Int) : Int :=
  let lease := min (4 * second) (10 * q.interval)
  match remaining with
  | some left => min lease (max left 0)
  | none => lease

/-- What `Before` does to the timestamps in one turn of its loop. -/
def SourceQuota.attempt (q : SourceQuota) (r : Request) (now : Int) (s : Timestamps) :
    Timestamps × Answer :=
  if r.discovery = true ∧ s.cooldown > now then (s, .refused "rpc_source_cooldown")
  else
    let ready := max s.cooldown s.next
    let priority := q.yield r.urgent now ready s.priority
    let yields : Bool := r.urgent = true ∧ priority < 0
    let ready := if yields ∧ now < -priority then max ready (-priority) else ready
    let priority := if yields ∧ ¬ now < -priority then 0 else priority
    let ready := if r.urgent = false ∧ priority > 0 then max ready priority else ready
    if ready > now then ({ s with priority }, .wait (ready - now))
    else
      let priority :=
        if r.urgent = true ∧ priority = 0 then now + q.lease r.remaining
        else if r.urgent = false then 0
        else priority
      ({ s with next := now + r.members * q.interval, priority }, .admitted)

/-- A turn of `Before`; one that has to wait may be followed by another or be given up. -/
def SourceQuota.before (q : SourceQuota) (r : Request) (now : Int) (s : Timestamps) :
    Timestamps × Answer :=
  if r.members < 1 ∨ r.members > q.burst then
    (s, .refused ("source_quota_batch_exceeds_burst: " ++ toString r.members))
  else q.attempt r now s

/-- How a request ended. Rate limits and network failures back off, an HTTP error for as long
as it asks. -/
inductive Outcome where
  | success
  | backoff (retryAfter : Option Int)
  | other
deriving DecidableEq

/-- The pause after the given number of failures in a row. -/
def pause (failures : Nat) (retryAfter : Option Int) : Int :=
  let pause := 2 ^ (failures - 1) * (5 * second)
  match retryAfter with
  | some retry => max pause (min retry (300 * second))
  | none => pause

def SourceQuota.after (o : Outcome) (now : Int) (s : Timestamps) : Timestamps :=
  match o with
  | .other => s
  | .success => if now ≥ s.cooldown + 60 * second then { s with failures := 0 } else s
  | .backoff retryAfter =>
      let failures := min (s.failures + 1) 4
      { s with failures, cooldown := max s.cooldown (now + pause failures retryAfter) }

/-- A step of one of the requests. -/
inductive Call where
  | before (r : Request) (now : Int)
  | after (o : Outcome) (now : Int)
deriving DecidableEq

def Call.now : Call → Int
  | .before _ now => now
  | .after _ now => now

def SourceQuota.step (q : SourceQuota) (s : Timestamps) : Call → Timestamps
  | .before r now => (q.before r now s).1
  | .after o now => SourceQuota.after o now s

def SourceQuota.run (q : SourceQuota) (s : Timestamps) (calls : List Call) : Timestamps :=
  calls.foldl q.step s

/-- The step admits a request. -/
def SourceQuota.Admits (q : SourceQuota) (s : Timestamps) : Call → Prop
  | .before r now => (q.before r now s).2 = .admitted
  | .after _ _ => False

instance (q : SourceQuota) (s : Timestamps) (c : Call) : Decidable (q.Admits s c) :=
  match c with
  | .before r now => inferInstanceAs (Decidable ((q.before r now s).2 = .admitted))
  | .after _ _ => inferInstanceAs (Decidable False)

/-- The step belongs to an urgent request that is waiting or admitted. -/
def Call.Urgent : Call → Prop
  | .before r _ => r.urgent = true
  | .after _ _ => False

instance (c : Call) : Decidable c.Urgent :=
  match c with
  | .before r _ => inferInstanceAs (Decidable (r.urgent = true))
  | .after _ _ => inferInstanceAs (Decidable False)

/-- The steps admit no background request. -/
def SourceQuota.OnlyUrgent (q : SourceQuota) (s : Timestamps) : List Call → Prop
  | [] => True
  | c :: calls => (q.Admits s c → c.Urgent) ∧ q.OnlyUrgent (q.step s c) calls

def Call.members : Call → Int
  | .before r _ => r.members
  | .after _ _ => 0

/-- The clock after 1970, which no step reads earlier than the one before it. -/
def Ticks (calls : List Call) : Prop :=
  (∀ c ∈ calls, 0 < c.now) ∧ calls.Pairwise fun c d => c.now ≤ d.now

end MarketInfo.Across
