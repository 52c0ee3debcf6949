import MarketInfo.Exchange.Budget
import MarketInfo.Lib.Transition

/-! # The ingress of an options engine

Events are offered from many goroutines under one lock, and one consumer takes them
from a channel. The boundary of each second is made up when an event, or a pulse,
comes after it. A clock reading has a wall time and a monotonic one, in nanoseconds.
-/

namespace MarketInfo.Ingress

def second : Int := 1000000000

structure Reading where
  wall : Int
  mono : Int
deriving DecidableEq

structure Event where
  At : Int
  boundary : Bool
  group : String
  /-- the length of `Stream.Raw` -/
  raw : Nat
deriving DecidableEq

def Event.cost (e : Event) : Int := e.raw + 512

/-- The capacity of the channel. -/
def capacity : Nat := 256

/-- The bytes that one ingress may hold. -/
def byteLimit : Int := 16 * 1024 * 1024

/-- An ingress with its consumer, the budget that it shares with others, which hold `foreign` bytes
of it, and all events that were ever queued. -/
structure System where
  next : Int
  last : Reading
  bytes : Int
  failed : Bool
  queue : List Event
  inHand : Option Event
  budget : Option BufferBudget
  foreign : Int
  queued : List Event
deriving DecidableEq

/-- The first boundary after a time. -/
def firstBoundary (t : Int) : Int := t - t % second + second

def newIngress (now : Reading) (budget : Option BufferBudget) : System :=
  ⟨firstBoundary now.wall, now, 0, false, [], none, budget, (budget.map BufferBudget.used).getD 0, []⟩

def System.fail (s : System) : System := { s with failed := true }

/-- `Reserve`, which a missing budget always grants. -/
def reserveShared (budget : Option BufferBudget) (n : Int) : Option (Option BufferBudget) :=
  match budget with
  | none => some none
  | some b => (b.reserve n).map some

/-- The event is in the channel, with its bytes taken from the budget. -/
def System.enqueue (s : System) (budget : Option BufferBudget) (e : Event) : System :=
  { s with budget, bytes := s.bytes + e.cost, queue := s.queue ++ [e], queued := s.queued ++ [e] }

def System.push (s : System) (e : Event) : Bool × System :=
  if s.bytes + e.cost > byteLimit then (false, s.fail)
  else
    match reserveShared s.budget e.cost with
    | none => (false, s.fail)
    | some budget =>
        if s.queue.length < capacity then (true, s.enqueue budget e) else (false, s.fail)

/-- The boundaries before `now`, at most `fuel` of them. -/
def System.pushBoundaries (now : Int) : Nat → System → Bool × System
  | 0, s => (true, s)
  | fuel + 1, s =>
      if s.next < now then
        match s.push ⟨s.next, true, "", 0⟩ with
        | (false, s) => (false, s)
        | (true, s) => System.pushBoundaries now fuel { s with next := s.next + second }
      else (true, s)

/-- The turns of the loop over the boundaries before `now`. -/
def System.turns (s : System) (now : Int) : Nat := ((now - s.next) / second + 1).toNat

/-- The clock went back, or its two times moved apart. -/
def discontinuous (last now : Reading) : Prop :=
  now.mono < last.mono ∨ now.wall < last.wall ∨
    now.wall - last.wall - (now.mono - last.mono) > 250000000 ∨
      now.wall - last.wall - (now.mono - last.mono) < -250000000

instance (last now : Reading) : Decidable (discontinuous last now) :=
  inferInstanceAs (Decidable (now.mono < last.mono ∨ now.wall < last.wall ∨
    now.wall - last.wall - (now.mono - last.mono) > 250000000 ∨
      now.wall - last.wall - (now.mono - last.mono) < -250000000))

/-- `offerLocked`; `false` is an error. -/
def System.offer (s : System) (now : Reading) (group : String) (raw : Nat) : Bool × System :=
  if s.failed then (false, s)
  else if discontinuous s.last now then (false, s.fail)
  else
    match System.pushBoundaries now.wall (s.turns now.wall) { s with last := now } with
    | (false, s) => (false, s)
    | (true, s) => if group = "tick" then (true, s) else s.push ⟨now.wall, false, group, raw⟩

def System.release (s : System) (n : Int) : System :=
  { s with bytes := s.bytes - n, budget := s.budget.map fun b => b.release n }

def costs (es : List Event) : Int := (es.map Event.cost).sum

inductive Act where
  | offer (now : Reading) (group : String) (raw : Nat)
  | receive
  | consumed
  | stop
  | others (n : Int)
deriving DecidableEq

def System.step (s : System) : Act → Option System
  | .offer now group raw => some (s.offer now group raw).2
  | .receive =>
      match s.inHand, s.queue with
      | none, e :: queue => some { s with inHand := some e, queue }
      | _, _ => none
  | .consumed =>
      match s.inHand with
      | some e => some { s.release e.cost with inHand := none }
      | none => none
  | .stop => some { (s.release (costs s.queue)).fail with queue := [] }
  | .others n =>
      -- the other users of the budget reserve and release
      some { s with
        budget := s.budget.map fun b => { b with used := b.used + n }
        foreign := s.foreign + n }

def System.Step (s : System) (a : Act) (s' : System) : Prop := s.step a = some s'

/-! ## The invariant -/

/-- The times of the boundaries among events. -/
def marks (es : List Event) : List Int := (es.filter Event.boundary).map Event.At

theorem marks_append (es fs : List Event) : marks (es ++ fs) = marks es ++ marks fs := by
  unfold marks
  rw [List.filter_append, List.map_append]

theorem costs_append (es fs : List Event) : costs (es ++ fs) = costs es + costs fs := by
  unfold costs
  rw [List.map_append, List.sum_append]

theorem costs_singleton (e : Event) : costs [e] = e.cost := by
  unfold costs
  simp

/-- An event comes after the boundaries before its time, and before the others. -/
def Ordered (first : Int) (es : List Event) : Prop :=
  ∀ pre e post, es = pre ++ e :: post → e.boundary = false →
    ∀ k : Nat, first + k * second ∈ marks pre ↔ first + k * second < e.At

theorem Ordered.concat {first : Int} {es : List Event} {e : Event} (h : Ordered first es)
    (hlast : e.boundary = false →
      ∀ k : Nat, first + k * second ∈ marks es ↔ first + k * second < e.At) :
    Ordered first (es ++ [e]) := by
  intro pre f post heq hdata k
  rcases List.eq_nil_or_concat post with rfl | ⟨init, l, rfl⟩
  · rcases List.append_inj' heq rfl with ⟨rfl, he⟩
    cases he
    exact hlast hdata k
  · rw [List.concat_eq_append, ← List.cons_append, ← List.append_assoc] at heq
    exact h pre f init (List.append_inj' heq rfl).1 hdata k

/-- The times of the first boundaries. -/
def boundariesFrom (first : Int) (n : Nat) : List Int :=
  (List.range n).map fun k : Nat => first + (k : Int) * second

/-- What holds of an ingress that was made when the first boundary was `first`. -/
structure Inv (first : Int) (s : System) : Prop where
  boundaries : ∃ n : Nat, s.next = first + n * second ∧ marks s.queued = boundariesFrom first n
  passed : ∀ t ∈ marks s.queued, t < s.last.wall
  ordered : Ordered first s.queued
  bytes : s.bytes = costs s.queue + costs s.inHand.toList
  limit : s.bytes ≤ byteLimit
  shared : ∀ b, s.budget = some b → b.used = s.foreign + s.bytes

theorem inv_initial (now : Reading) (budget : Option BufferBudget) :
    Inv (firstBoundary now.wall) (newIngress now budget) where
  boundaries := ⟨0, by simp [newIngress], rfl⟩
  passed := by rintro t ht; cases ht
  ordered := by
    intro pre e post heq
    exact absurd heq.symm (List.append_ne_nil_of_right_ne_nil _ (List.cons_ne_nil _ _))
  bytes := rfl
  limit := by
    show (0 : Int) ≤ byteLimit
    decide
  shared := by
    rintro b hb
    have hb' : budget = some b := hb
    subst hb'
    exact (Int.add_zero _).symm

theorem Event.cost_pos (e : Event) : 0 < e.cost := by
  unfold Event.cost
  omega

theorem cost_nonneg (es : List Event) : 0 ≤ costs es := by
  induction es with
  | nil => exact le_refl _
  | cons e es ih =>
      have hcost := e.cost_pos
      unfold costs at ih ⊢
      rw [List.map_cons, List.sum_cons]
      omega

theorem Inv.fail {first : Int} {s : System} (h : Inv first s) : Inv first s.fail :=
  ⟨h.boundaries, h.passed, h.ordered, h.bytes, h.limit, h.shared⟩

/-- What a push does. -/
theorem push_cases (s : System) (e : Event) :
    s.push e = (false, s.fail) ∨
      ∃ budget, reserveShared s.budget e.cost = some budget ∧ s.bytes + e.cost ≤ byteLimit ∧
        s.push e = (true, s.enqueue budget e) := by
  unfold System.push
  -- three guards: the bytes, the shared budget, the room of the channel
  by_cases hbytes : s.bytes + e.cost > byteLimit
  · exact .inl (if_pos hbytes)
  · rw [if_neg hbytes]
    cases reserveShared s.budget e.cost with
    | none => exact .inl rfl
    | some budget =>
        by_cases hroom : s.queue.length < capacity
        · exact .inr ⟨budget, rfl, not_lt.1 hbytes, if_pos hroom⟩
        · exact .inl (if_neg hroom)

theorem shared_reserve {budget budget' : Option BufferBudget} {n foreign bytes : Int}
    (h : ∀ b, budget = some b → b.used = foreign + bytes) (hreserve : reserveShared budget n = some budget') :
    ∀ b, budget' = some b → b.used = foreign + (bytes + n) := by
  cases budget with
  | none =>
      cases hreserve
      rintro b ⟨⟩
  | some b =>
      simp only [reserveShared, Option.map_eq_some_iff] at hreserve
      rcases hreserve with ⟨b', hb', rfl⟩
      rcases BufferBudget.reserve_eq_some.1 hb' with ⟨-, -, rfl⟩
      rintro _ ⟨⟩
      rw [h b rfl]
      exact Int.add_assoc _ _ _

theorem Inv.enqueue {first : Int} {s : System} (h : Inv first s) {e : Event}
    {budget : Option BufferBudget} (hreserve : reserveShared s.budget e.cost = some budget)
    (hbytes : s.bytes + e.cost ≤ byteLimit) {next : Int}
    (hboundaries : ∃ n : Nat, next = first + n * second ∧
      marks (s.queued ++ [e]) = boundariesFrom first n)
    (hpassed : ∀ t ∈ marks [e], t < s.last.wall)
    (hordered : e.boundary = false →
      ∀ k : Nat, first + k * second ∈ marks s.queued ↔ first + k * second < e.At) :
    Inv first { s.enqueue budget e with next } where
  boundaries := hboundaries
  passed := by
    intro t ht
    have ht' : t ∈ marks (s.queued ++ [e]) := ht
    rw [marks_append, List.mem_append] at ht'
    exact ht'.elim (h.passed t) (hpassed t)
  ordered := h.ordered.concat hordered
  bytes := by
    show s.bytes + e.cost = costs (s.queue ++ [e]) + costs s.inHand.toList
    rw [costs_append, costs_singleton, h.bytes]
    ring
  limit := hbytes
  shared := shared_reserve h.shared hreserve

/-- A data event that comes when all boundaries before it are queued. -/
theorem Inv.push_data {first : Int} {s : System} (h : Inv first s) {e : Event}
    (hdata : e.boundary = false) (hnow : s.last.wall = e.At) (hnext : e.At ≤ s.next) :
    Inv first (s.push e).2 := by
  rcases push_cases s e with heq | ⟨budget, hreserve, hbytes, heq⟩
  · rw [heq]
    exact h.fail
  · rw [heq]
    have hnone : marks [e] = [] := by simp [marks, hdata]
    rcases h.boundaries with ⟨n, hn, hall⟩
    refine h.enqueue hreserve hbytes ⟨n, hn, ?_⟩ ?_ fun _ k => ?_
    · rw [marks_append, hnone, List.append_nil, hall]
    · rw [hnone]
      rintro t ⟨⟩
    · constructor
      · intro hk
        rw [← hnow]
        exact h.passed _ hk
      -- the boundaries before it are among the first `n`, all of which are queued
      · intro hk
        have hlt : first + k * second < first + n * second := by
          rw [← hn]
          exact hk.trans_le hnext
        have hkn : k < n := by
          unfold second at hlt
          omega
        rw [hall]
        exact List.mem_map.2 ⟨k, List.mem_range.2 hkn, rfl⟩

/-- A boundary that is queued, after which the next one is due. -/
theorem Inv.push_boundary {first : Int} {s : System} (h : Inv first s) (hnext : s.next < s.last.wall) :
    s.push ⟨s.next, true, "", 0⟩ = (false, s.fail) ∨
      ∃ budget, s.push ⟨s.next, true, "", 0⟩ = (true, s.enqueue budget ⟨s.next, true, "", 0⟩) ∧
        Inv first { s.enqueue budget ⟨s.next, true, "", 0⟩ with next := s.next + second } := by
  rcases push_cases s ⟨s.next, true, "", 0⟩ with heq | ⟨budget, hreserve, hbytes, heq⟩
  · exact .inl heq
  · rcases h.boundaries with ⟨n, hn, hall⟩
    refine .inr ⟨budget, heq, h.enqueue hreserve hbytes ⟨n + 1, ?_, ?_⟩ ?_ (by rintro ⟨⟩)⟩
    · rw [hn]
      push_cast
      ring
    · unfold boundariesFrom at hall ⊢
      rw [marks_append, hall, List.range_succ, List.map_append, hn]
      rfl
    · intro t ht
      rw [List.mem_singleton.1 (show t ∈ [s.next] from ht)]
      exact hnext

/-- The loop queues boundaries until none is before `now`, or one does not fit. -/
theorem Inv.pushBoundaries {first now : Int} {s : System} (h : Inv first s) (fuel : Nat)
    (hnow : s.last.wall = now) :
    Inv first (s.pushBoundaries now fuel).2 ∧ (s.pushBoundaries now fuel).2.last = s.last ∧
      ((s.pushBoundaries now fuel).1 = false → (s.pushBoundaries now fuel).2.failed = true) ∧
      ((s.pushBoundaries now fuel).1 = true → now ≤ s.next + fuel * second →
        now ≤ (s.pushBoundaries now fuel).2.next) := by
  induction fuel generalizing s with
  | zero =>
      refine ⟨h, rfl, by rintro ⟨⟩, fun _ hle => ?_⟩
      simpa [System.pushBoundaries] using hle
  | succ fuel ih =>
      unfold System.pushBoundaries
      split_ifs with hlt
      · -- one more boundary, or the ingress fails and the loop ends
        rcases h.push_boundary (hnow ▸ hlt) with heq | ⟨budget, heq, h'⟩
        · rw [heq]
          exact ⟨h.fail, rfl, fun _ => rfl, by rintro ⟨⟩⟩
        · rw [heq]
          rcases ih h' hnow with ⟨hinv, hlast, hbad, hgood⟩
          refine ⟨hinv, hlast, hbad, fun hok hle => hgood hok ?_⟩
          show now ≤ s.next + second + fuel * second
          push_cast at hle
          linarith
      · exact ⟨h, rfl, by rintro ⟨⟩, fun _ _ => not_lt.1 hlt⟩

theorem turns_enough (s : System) (now : Int) : now ≤ s.next + s.turns now * second := by
  unfold System.turns second
  omega

/-- An ingress that has not failed has queued all boundaries before the last reading. -/
structure Good (first : Int) (s : System) : Prop extends Inv first s where
  reached : s.failed = false → s.last.wall ≤ s.next

theorem Inv.reads {first : Int} {s : System} (h : Inv first s) {now : Reading}
    (hle : s.last.wall ≤ now.wall) : Inv first { s with last := now } :=
  { h with passed := fun t ht => (h.passed t ht).trans_le hle }

theorem Good.offer {first : Int} {s : System} (h : Good first s) (now : Reading) (group : String)
    (raw : Nat) : Good first (s.offer now group raw).2 := by
  unfold System.offer
  by_cases hfailed : s.failed = true
  · rw [if_pos hfailed]
    exact h
  by_cases hclock : discontinuous s.last now
  · rw [if_neg hfailed, if_pos hclock]
    exact ⟨h.toInv.fail, by rintro ⟨⟩⟩
  · rw [if_neg hfailed, if_neg hclock]
    have hle : s.last.wall ≤ now.wall := by
      unfold discontinuous at hclock
      omega
    have hloop := (h.toInv.reads hle).pushBoundaries (s.turns now.wall) rfl
    revert hloop
    cases System.pushBoundaries now.wall (s.turns now.wall) { s with last := now } with
    | mk fits s' =>
        rintro ⟨hinv, hlast, hbad, hgood⟩
        cases fits with
        | false => exact ⟨hinv, fun hf => absurd ((hbad rfl).symm.trans hf) (by decide)⟩
        | true =>
            have hnext : now.wall ≤ s'.next := hgood rfl (turns_enough s now.wall)
            have hwall : s'.last.wall = now.wall := congrArg Reading.wall hlast
            -- a tick only brings the boundaries up to date
            by_cases hgroup : group = "tick"
            · simp only [hgroup, if_true]
              exact ⟨hinv, fun _ => hwall ▸ hnext⟩
            · simp only [hgroup, if_false]
              refine ⟨hinv.push_data rfl hwall hnext, fun _ => ?_⟩
              rcases push_cases s' ⟨now.wall, false, group, raw⟩ with heq | ⟨budget, -, -, heq⟩
              · rw [heq]
                exact hwall ▸ hnext
              · rw [heq]
                exact hwall ▸ hnext

theorem Inv.release {first : Int} {s s' : System} (h : Inv first s) {n : Int} (hn : 0 ≤ n)
    (hsame : s'.next = s.next ∧ s'.last = s.last ∧ s'.queued = s.queued)
    (hbytes : s'.bytes = s.bytes - n) (hcosts : costs s'.queue + costs s'.inHand.toList + n =
      costs s.queue + costs s.inHand.toList)
    (hbudget : s'.budget = s.budget.map fun b => b.release n) (hforeign : s'.foreign = s.foreign) :
    Inv first s' := by
  rcases hsame with ⟨hnext, hlast, hqueued⟩
  constructor
  · rw [hnext, hqueued]
    exact h.boundaries
  · rw [hqueued, hlast]
    exact h.passed
  · rw [hqueued]
    exact h.ordered
  · have hold := h.bytes
    omega
  · have hlimit := h.limit
    omega
  · intro b hb
    rw [hbudget, Option.map_eq_some_iff] at hb
    rcases hb with ⟨b', hb', rfl⟩
    rw [BufferBudget.release_used, h.shared b' hb', hforeign, hbytes]
    ring

theorem Good.step {first : Int} {s s' : System} {a : Act} (hstep : s.Step a s') (h : Good first s) :
    Good first s' := by
  unfold System.Step System.step at hstep
  cases a with
  | offer now group raw =>
      cases hstep
      exact h.offer now group raw
  | receive =>
      cases hhand : s.inHand with
      | some e => simp [hhand] at hstep
      | none =>
          cases hqueue : s.queue with
          | nil => simp [hhand, hqueue] at hstep
          | cons e queue =>
              simp only [hhand, hqueue] at hstep
              cases hstep
              refine ⟨{ h.toInv with bytes := ?_ }, h.reached⟩
              have hbytes := h.bytes
              rw [hhand, hqueue, ← List.singleton_append, costs_append] at hbytes
              show s.bytes = costs queue + costs [e]
              rw [hbytes]
              simp [costs]
              ring
  | consumed =>
      cases hhand : s.inHand with
      | none => simp [hhand] at hstep
      | some e =>
          simp only [hhand] at hstep
          cases hstep
          refine ⟨h.toInv.release (n := e.cost) e.cost_pos.le ⟨rfl, rfl, rfl⟩ rfl ?_ rfl rfl, h.reached⟩
          rw [hhand]
          show costs s.queue + costs [] + e.cost = costs s.queue + costs [e]
          rw [costs_singleton]
          simp [costs]
  | stop =>
      cases hstep
      refine ⟨h.toInv.release (n := costs s.queue) (cost_nonneg _) ⟨rfl, rfl, rfl⟩ rfl ?_ rfl rfl, by rintro ⟨⟩⟩
      show costs [] + costs s.inHand.toList + costs s.queue = _
      simp [costs]
      ring
  | others n =>
      cases hstep
      refine ⟨{ h.toInv with shared := ?_ }, h.reached⟩
      intro b hb
      rcases Option.map_eq_some_iff.1 hb with ⟨b', hb', rfl⟩
      show b'.used + n = s.foreign + n + s.bytes
      rw [h.shared b' hb']
      ring

theorem good_initial (now : Reading) (budget : Option BufferBudget) :
    Good (firstBoundary now.wall) (newIngress now budget) := by
  refine ⟨inv_initial now budget, fun _ => ?_⟩
  show now.wall ≤ firstBoundary now.wall
  unfold firstBoundary second
  omega

/-! ## Failure -/

theorem offer_failed {s : System} (h : s.failed = true) (now : Reading) (group : String) (raw : Nat) :
    s.offer now group raw = (false, s) := by
  unfold System.offer
  rw [if_pos h]

theorem step_failed {s s' : System} {a : Act} (hstep : s.Step a s') (h : s.failed = true) :
    s'.failed = true ∧ s'.queued = s.queued := by
  unfold System.Step System.step at hstep
  cases a with
  | offer now group raw =>
      simp only [offer_failed h] at hstep
      cases hstep
      exact ⟨h, rfl⟩
  | receive =>
      simp only at hstep
      split at hstep
      · cases hstep
        exact ⟨h, rfl⟩
      · cases hstep
  | consumed =>
      simp only at hstep
      split at hstep
      · cases hstep
        exact ⟨h, rfl⟩
      · cases hstep
  | stop =>
      cases hstep
      exact ⟨rfl, rfl⟩
  | others n =>
      cases hstep
      exact ⟨h, rfl⟩

/-- After a failure nothing more is queued. -/
theorem run_failed {s s' : System} {as : List Act} (hrun : Transition.Run System.Step s as s')
    (h : s.failed = true) : s'.queued = s.queued := by
  have hkept := hrun.invariant (fun t => t.failed = true ∧ t.queued = s.queued) ⟨h, rfl⟩
    fun t a t' hstep ht => ⟨(step_failed hstep ht.1).1, (step_failed hstep ht.1).2.trans ht.2⟩
  exact hkept.2

/-- A data event is queued when the boundaries before its time are, and those from its time on are
not. -/
theorem Ordered.after {first : Int} {es pre post : List Event} {e : Event} (h : Ordered first es)
    (hnodup : (marks es).Nodup) (heq : es = pre ++ e :: post) (hdata : e.boundary = false) {k : Nat}
    (hk : first + k * second ∈ marks post) : e.At ≤ first + k * second := by
  by_contra hlt
  have hpre := (h pre e post heq hdata k).2 (not_le.1 hlt)
  rw [heq, ← List.singleton_append, ← List.append_assoc, marks_append, List.nodup_append] at hnodup
  refine hnodup.2.2 _ ?_ _ hk rfl
  rw [marks_append]
  exact List.mem_append_left _ hpre

theorem nodup_boundaries (first : Int) (n : Nat) : (boundariesFrom first n).Nodup := by
  refine List.nodup_range.map fun a b hab => ?_
  have hab' : first + (a : Int) * second = first + (b : Int) * second := hab
  unfold second at hab'
  omega

/-- Whatever is offered, received and consumed in what order: the boundaries from the first on are
queued once each and in order, as far as the last reading of the clock unless the ingress has
failed; each event is between the boundaries of its second; the bytes are those of the events that
are not consumed, within the limit; and after a failure nothing is queued. -/
theorem ingress_ordered {start : Reading} {budget : Option BufferBudget} {as : List Act} {s : System}
    (hrun : Transition.Run System.Step (newIngress start budget) as s) :
    (∃ n : Nat, marks s.queued = boundariesFrom (firstBoundary start.wall) n ∧
        (s.failed = false → ∀ k : Nat, firstBoundary start.wall + k * second < s.last.wall → k < n)) ∧
      (∀ pre e post, s.queued = pre ++ e :: post → e.boundary = false → ∀ k : Nat,
        (firstBoundary start.wall + k * second ∈ marks pre ↔ firstBoundary start.wall + k * second < e.At) ∧
          (firstBoundary start.wall + k * second ∈ marks post →
            e.At ≤ firstBoundary start.wall + k * second)) ∧
      s.bytes = costs s.queue + costs s.inHand.toList ∧ s.bytes ≤ byteLimit ∧
      (s.failed = true → ∀ bs s', Transition.Run System.Step s bs s' → s'.queued = s.queued) := by
  have h : Good (firstBoundary start.wall) s :=
    hrun.invariant _ (good_initial start budget) fun _ _ _ hstep hgood => hgood.step hstep
  rcases h.boundaries with ⟨n, hn, hall⟩
  refine ⟨⟨n, hall, fun hok k hk => ?_⟩, fun pre e post heq hdata k => ?_, h.bytes, h.limit,
    fun hfailed bs s' hrun' => run_failed hrun' hfailed⟩
  · have hlt := hk.trans_le (h.reached hok)
    rw [hn] at hlt
    unfold second at hlt
    omega
  · refine ⟨h.ordered pre e post heq hdata k, fun hk => ?_⟩
    exact h.ordered.after (hall ▸ nodup_boundaries _ n) heq hdata hk

/-- An event in the first second, one on its boundary, and one two boundaries later. -/
def threeEvents : List Act :=
  [.offer ⟨1500000000, 0⟩ "book" 100, .receive, .offer ⟨2000000000, 500000000⟩ "book" 100, .consumed,
    .offer ⟨4000000000, 2500000000⟩ "trade" 50]

theorem ingress_ordered_threeEvents :
    ∃ s, Transition.Run System.Step (newIngress ⟨1500000000, 0⟩ none) threeEvents s ∧
      marks s.queued = [2000000000, 3000000000] ∧ s.bytes = 2 * 512 + 612 + 562 ∧
        s.bytes = costs s.queue + costs s.inHand.toList := by
  have hrun : ∃ s, Transition.Run System.Step (newIngress ⟨1500000000, 0⟩ none) threeEvents s ∧
      marks s.queued = [2000000000, 3000000000] ∧ s.bytes = 2 * 512 + 612 + 562 :=
    ⟨_, .cons rfl (.cons rfl (.cons rfl (.cons rfl (.cons rfl (.nil _))))), by decide, by decide⟩
  rcases hrun with ⟨s, hrun, hmarks, hbytes⟩
  exact ⟨s, hrun, hmarks, hbytes, (ingress_ordered hrun).2.2.1⟩

end MarketInfo.Ingress
