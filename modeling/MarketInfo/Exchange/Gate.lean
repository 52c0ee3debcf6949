import MarketInfo.Lib.Transition

/-! # The request gate

Callers that share a gate reserve start times under its lock, wait for them outside it,
and look at the cooldown once more before they go. What happens between the locked
sections of the callers is left to the order of the steps. Times are nanoseconds.
-/

namespace MarketInfo.Gate

structure RequestGate where
  interval : Int
  next : Int
  cooldownUntil : Int
deriving DecidableEq

/-- The zero `time.Time`. -/
def zeroTime : Int := -62135596800000000000

def NewRequestGate (interval : Int) : RequestGate :=
  ⟨if interval < 0 then 0 else interval, zeroTime, zeroTime⟩

def later (a b : Int) : Int := if a < b then b else a

/-- The next start time moves past a reserved one. -/
def RequestGate.reserve (g : RequestGate) (ready : Int) : RequestGate :=
  if g.interval > 0 then { g with next := ready + g.interval } else g

/-- The locked section of `Cooldown`. -/
def RequestGate.coolUntil (g : RequestGate) (until_ : Int) : RequestGate :=
  { g with cooldownUntil := later g.cooldownUntil until_, next := later g.next until_ }

/-- Where a caller of `Wait` is: before its call, waiting for the start time that it reserved,
past that time, or back from its call. -/
inductive Caller where
  | outside
  | waiting (ready : Int)
  | woken (ready : Int)
  | returned
deriving DecidableEq

/-- A caller was let through, with the start time that it had reserved, or a cooldown was set. -/
inductive Event where
  | passed (ready now : Int)
  | cooled (until_ : Int)
deriving DecidableEq

structure System where
  clock : Int
  gate : RequestGate
  callers : Nat → Caller
  log : List Event

inductive Act where
  | wait (d : Nat)
  | enter (i : Nat)
  | wake (i : Nat)
  | cancel (i : Nat)
  | check (i : Nat) (cancelled : Bool)
  | cooldown (readAt delay : Int)
deriving DecidableEq

def System.goTo (s : System) (i : Nat) (c : Caller) : System :=
  { s with callers := fun j => if j = i then c else s.callers j }

/-- A caller reserves a start time that is not before `bound`. -/
def System.reserve (s : System) (i : Nat) (bound : Int) : System :=
  let ready := later s.gate.next bound
  { s.goTo i (.waiting ready) with gate := s.gate.reserve ready }

def System.step (s : System) : Act → Option System
  | .wait d => some { s with clock := s.clock + d }
  | .enter i => if s.callers i = .outside then some (s.reserve i s.clock) else none
  | .wake i =>
      match s.callers i with
      | .waiting ready => if ready ≤ s.clock then some (s.goTo i (.woken ready)) else none
      | _ => none
  | .cancel i =>
      match s.callers i with
      | .waiting _ => some (s.goTo i .returned)
      | _ => none
  | .check i cancelled =>
      match s.callers i with
      | .woken ready =>
          if s.gate.cooldownUntil ≤ s.clock then
            if cancelled then some (s.goTo i .returned)
            else some { s.goTo i .returned with log := s.log ++ [.passed ready s.clock] }
          else some (s.reserve i s.gate.cooldownUntil)
      | _ => none
  | .cooldown readAt delay =>
      -- the clock was read before the lock was taken
      if readAt ≤ s.clock then
        if delay ≤ 0 then some s
        else
          some { s with
            gate := s.gate.coolUntil (readAt + delay)
            log := s.log ++ [.cooled (readAt + delay)] }
      else none

def System.Step (s : System) (a : Act) (s' : System) : Prop := s.step a = some s'

def System.initial (interval clock : Int) : System :=
  ⟨clock, NewRequestGate interval, fun _ => .outside, []⟩

/-! ## The invariant -/

def Caller.slot : Caller → Option Int
  | .waiting ready => some ready
  | .woken ready => some ready
  | _ => none

def Event.slot : Event → Option Int
  | .passed ready _ => some ready
  | .cooled _ => none

/-- The start times of the callers that were let through. -/
def System.slots (s : System) : List Int := s.log.filterMap Event.slot

/-- Two start times are an interval apart. -/
def Spaced (d a b : Int) : Prop := a + d ≤ b ∨ b + d ≤ a

theorem Spaced.symm {d a b : Int} (h : Spaced d a b) : Spaced d b a := Or.symm h

theorem spaced_zero (a b : Int) : Spaced 0 a b := by
  unfold Spaced
  omega

theorem le_later_left (a b : Int) : a ≤ later a b := by
  unfold later
  split_ifs <;> omega

theorem le_later_right (a b : Int) : b ≤ later a b := by
  unfold later
  split_ifs <;> omega

/-- Every start time that was reserved, and not given up, is an interval before the next one,
and apart from each other one. -/
structure System.Inv (s : System) : Prop where
  interval : 0 ≤ s.gate.interval
  next : 0 < s.gate.interval → ∀ t ∈ s.slots, t + s.gate.interval ≤ s.gate.next
  held_next : 0 < s.gate.interval → ∀ i t, (s.callers i).slot = some t → t + s.gate.interval ≤ s.gate.next
  apart : s.slots.Pairwise (Spaced s.gate.interval)
  held : ∀ i t, (s.callers i).slot = some t → ∀ u ∈ s.slots, Spaced s.gate.interval t u
  others : ∀ i j, i ≠ j → ∀ t u, (s.callers i).slot = some t → (s.callers j).slot = some u →
    Spaced s.gate.interval t u
  woken : ∀ i t, s.callers i = .woken t → t ≤ s.clock
  cooled : ∀ u, .cooled u ∈ s.log → u ≤ s.gate.cooldownUntil
  log : ∀ pre ready now post, s.log = pre ++ .passed ready now :: post →
    ready ≤ now ∧ ∀ u, .cooled u ∈ pre → u ≤ now

theorem goTo_self (s : System) (i : Nat) (c : Caller) : (s.goTo i c).callers i = c := if_pos rfl

theorem goTo_ne (s : System) {i j : Nat} (c : Caller) (h : j ≠ i) :
    (s.goTo i c).callers j = s.callers j := if_neg h

theorem inv_initial (interval clock : Int) : (System.initial interval clock).Inv where
  interval := by
    show 0 ≤ (if interval < 0 then 0 else interval)
    split_ifs <;> omega
  next := by rintro - t ht; cases ht
  held_next := by rintro - i t ht; cases ht
  apart := List.Pairwise.nil
  held := by rintro i t ht; cases ht
  others := by rintro i j - t u ht; cases ht
  woken := by rintro i t ht; cases ht
  cooled := by rintro u hu; cases hu
  log := by
    intro pre ready now post h
    exact absurd h.symm (List.append_ne_nil_of_right_ne_nil _ (List.cons_ne_nil _ _))

/-- A caller keeps its start time, or gives it up. -/
theorem System.Inv.goTo {s : System} (h : s.Inv) {i : Nat} {c : Caller}
    (hslot : c.slot = none ∨ c.slot = (s.callers i).slot) (hwoken : ∀ t, c = .woken t → t ≤ s.clock) :
    (s.goTo i c).Inv := by
  have hcaller : ∀ j t, ((s.goTo i c).callers j).slot = some t → (s.callers j).slot = some t := by
    intro j t hj
    by_cases hji : j = i
    · subst hji
      rw [goTo_self] at hj
      rcases hslot with hnone | hsame
      · rw [hnone] at hj
        cases hj
      · rw [← hsame, hj]
    · rwa [goTo_ne s c hji] at hj
  exact {
    interval := h.interval
    next := h.next
    held_next := fun hpos j t hj => h.held_next hpos j t (hcaller j t hj)
    apart := h.apart
    held := fun j t hj => h.held j t (hcaller j t hj)
    others := fun j k hjk t u hj hk => h.others j k hjk t u (hcaller j t hj) (hcaller k u hk)
    woken := fun j t hj => by
      by_cases hji : j = i
      · subst hji
        rw [goTo_self] at hj
        exact hwoken t hj
      · rw [goTo_ne s c hji] at hj
        exact h.woken j t hj
    cooled := h.cooled
    log := h.log }

theorem System.Inv.wait {s : System} (h : s.Inv) (d : Nat) : System.Inv { s with clock := s.clock + d } :=
  { h with
    woken := fun i t hi => by
      have hle := h.woken i t hi
      show t ≤ s.clock + d
      omega }

/-- A new start time is apart from all that are held: they are an interval before `next`. -/
theorem System.Inv.spaced_reserved {s : System} (h : s.Inv) {t ready : Int} (hready : s.gate.next ≤ ready)
    (ht : 0 < s.gate.interval → t + s.gate.interval ≤ s.gate.next) : Spaced s.gate.interval ready t := by
  -- with no interval `next` does not move, and every two times are apart
  rcases lt_or_eq_of_le h.interval with hpos | hzero
  · exact .inr ((ht hpos).trans hready)
  · rw [← hzero]
    exact spaced_zero ready t

theorem System.Inv.reserve {s : System} (h : s.Inv) (i : Nat) (bound : Int) : (s.reserve i bound).Inv := by
  have hready : s.gate.next ≤ later s.gate.next bound := le_later_left _ _
  have hinterval : (s.gate.reserve (later s.gate.next bound)).interval = s.gate.interval := by
    unfold RequestGate.reserve
    split_ifs <;> rfl
  have hnext : 0 < s.gate.interval →
      (s.gate.reserve (later s.gate.next bound)).next = later s.gate.next bound + s.gate.interval := by
    intro hpos
    unfold RequestGate.reserve
    rw [if_pos hpos]
  have hcooldown : (s.gate.reserve (later s.gate.next bound)).cooldownUntil = s.gate.cooldownUntil := by
    unfold RequestGate.reserve
    split_ifs <;> rfl
  have hnew : (s.reserve i bound).gate = s.gate.reserve (later s.gate.next bound) := rfl
  -- the caller has its new start time, the others those they had
  have hcaller : ∀ j t, ((s.reserve i bound).callers j).slot = some t →
      (j = i ∧ t = later s.gate.next bound) ∨ (j ≠ i ∧ (s.callers j).slot = some t) := by
    intro j t hj
    by_cases hji : j = i
    · subst hji
      rw [show (s.reserve j bound).callers j = _ from goTo_self s j _] at hj
      exact .inl ⟨rfl, (Option.some.inj hj).symm⟩
    · rw [show (s.reserve i bound).callers j = _ from goTo_ne s _ hji] at hj
      exact .inr ⟨hji, hj⟩
  have hgrow : 0 < s.gate.interval → ∀ t, t + s.gate.interval ≤ s.gate.next →
      t + s.gate.interval ≤ later s.gate.next bound + s.gate.interval := by
    intro hpos t ht
    omega
  constructor
  · rw [hnew, hinterval]
    exact h.interval
  · rw [hnew, hinterval]
    intro hpos t ht
    rw [hnext hpos]
    exact hgrow hpos t (h.next hpos t ht)
  · rw [hnew, hinterval]
    intro hpos j t hj
    rw [hnext hpos]
    rcases hcaller j t hj with ⟨-, rfl⟩ | ⟨-, hj⟩
    · exact le_refl _
    · exact hgrow hpos t (h.held_next hpos j t hj)
  · rw [hnew, hinterval]
    exact h.apart
  · rw [hnew, hinterval]
    intro j t hj u hu
    rcases hcaller j t hj with ⟨-, rfl⟩ | ⟨-, hj⟩
    · exact h.spaced_reserved hready fun hpos => h.next hpos u hu
    · exact h.held j t hj u hu
  · rw [hnew, hinterval]
    intro j k hjk t u hj hk
    rcases hcaller j t hj with ⟨rfl, rfl⟩ | ⟨-, hj⟩
    · rcases hcaller k u hk with ⟨rfl, -⟩ | ⟨-, hk⟩
      · exact absurd rfl hjk
      · exact h.spaced_reserved hready fun hpos => h.held_next hpos k u hk
    · rcases hcaller k u hk with ⟨-, rfl⟩ | ⟨-, hk⟩
      · exact (h.spaced_reserved hready fun hpos => h.held_next hpos j t hj).symm
      · exact h.others j k hjk t u hj hk
  · intro j t hj
    by_cases hji : j = i
    · subst hji
      rw [show (s.reserve j bound).callers j = _ from goTo_self s j _] at hj
      cases hj
    · rw [show (s.reserve i bound).callers j = _ from goTo_ne s _ hji] at hj
      exact h.woken j t hj
  · rw [hnew, hcooldown]
    exact h.cooled
  · exact h.log

/-- The last event of a log is the one that was added, or the event is an earlier one. -/
theorem log_concat {log pre post : List Event} {e f : Event} (h : log ++ [e] = pre ++ f :: post) :
    (log = pre ∧ e = f) ∨ ∃ post', log = pre ++ f :: post' := by
  rcases List.eq_nil_or_concat post with rfl | ⟨init, last, rfl⟩
  · rcases List.append_inj' h rfl with ⟨hlog, he⟩
    exact .inl ⟨hlog, List.head_eq_of_cons_eq he⟩
  · rw [List.concat_eq_append, ← List.cons_append, ← List.append_assoc] at h
    exact .inr ⟨init, (List.append_inj' h rfl).1⟩

theorem System.Inv.pass {s : System} (h : s.Inv) {i : Nat} {ready : Int} (hi : s.callers i = .woken ready)
    (hcool : s.gate.cooldownUntil ≤ s.clock) :
    System.Inv { s.goTo i .returned with log := s.log ++ [.passed ready s.clock] } := by
  have hslot : (s.callers i).slot = some ready := by
    rw [hi]
    rfl
  have hgone := h.goTo (i := i) (c := .returned) (.inl rfl) (by rintro t ⟨⟩)
  -- its start time moves from the held ones to the log
  have hslots : ∀ t, t ∈ (s.log ++ [Event.passed ready s.clock]).filterMap Event.slot ↔
      t ∈ s.slots ∨ t = ready := by
    intro t
    rw [List.filterMap_append, List.mem_append]
    simp [System.slots, Event.slot]
  have hheld : ∀ j t, ((s.goTo i .returned).callers j).slot = some t →
      j ≠ i ∧ (s.callers j).slot = some t := by
    intro j t hj
    by_cases hji : j = i
    · subst hji
      rw [goTo_self] at hj
      cases hj
    · rw [goTo_ne s _ hji] at hj
      exact ⟨hji, hj⟩
  exact { hgone with
    next := fun hpos t ht => by
      rcases (hslots t).1 ht with ht | rfl
      · exact h.next hpos t ht
      · exact h.held_next hpos i t hslot
    apart := by
      show ((s.log ++ [Event.passed ready s.clock]).filterMap Event.slot).Pairwise _
      rw [List.filterMap_append, List.pairwise_append]
      refine ⟨h.apart, List.pairwise_singleton _ _, fun t ht u hu => ?_⟩
      have hu' : u = ready := by simpa [Event.slot] using hu
      subst hu'
      exact (h.held i u hslot t ht).symm
    held := fun j t hj u hu => by
      rcases hheld j t hj with ⟨hji, hkept⟩
      rcases (hslots u).1 hu with hu | rfl
      · exact h.held j t hkept u hu
      · exact h.others j i hji t u hkept hslot
    cooled := fun u hu => by
      rcases List.mem_append.1 hu with hu | hu
      · exact h.cooled u hu
      · cases List.mem_singleton.1 hu
    log := fun pre ready' now post heq => by
      rcases log_concat heq with ⟨rfl, he⟩ | ⟨post', heq'⟩
      · cases he
        exact ⟨h.woken i ready hi, fun u hu => (h.cooled u hu).trans hcool⟩
      · exact h.log pre ready' now post' heq' }

theorem System.Inv.cool {s : System} (h : s.Inv) (u : Int) :
    System.Inv { s with gate := s.gate.coolUntil u, log := s.log ++ [.cooled u] } := by
  have hslots : (s.log ++ [Event.cooled u]).filterMap Event.slot = s.slots := by
    rw [List.filterMap_append]
    exact List.append_nil _
  have hnext : s.gate.next ≤ later s.gate.next u := le_later_left _ _
  constructor
  · exact h.interval
  · intro hpos t ht
    exact (h.next hpos t (hslots ▸ ht)).trans hnext
  · intro hpos i t hi
    exact (h.held_next hpos i t hi).trans hnext
  · show ((s.log ++ [Event.cooled u]).filterMap Event.slot).Pairwise _
    rw [hslots]
    exact h.apart
  · intro i t hi v hv
    exact h.held i t hi v (hslots ▸ hv)
  · exact h.others
  · exact h.woken
  · intro v hv
    rcases List.mem_append.1 hv with hv | hv
    · exact (h.cooled v hv).trans (le_later_left _ _)
    · cases List.mem_singleton.1 hv
      exact le_later_right _ _
  · intro pre ready now post heq
    rcases log_concat heq with ⟨-, he⟩ | ⟨post', heq'⟩
    · cases he
    · exact h.log pre ready now post' heq'

theorem System.Inv.step {s s' : System} {a : Act} (hstep : s.Step a s') (h : s.Inv) : s'.Inv := by
  unfold System.Step System.step at hstep
  cases a with
  | wait d =>
      cases hstep
      exact h.wait d
  | enter i =>
      simp only [Option.ite_none_right_eq_some] at hstep
      rcases hstep with ⟨-, ⟨⟩⟩
      exact h.reserve i s.clock
  | wake i =>
      cases hi : s.callers i with
      | waiting ready =>
          simp only [hi, Option.ite_none_right_eq_some] at hstep
          rcases hstep with ⟨hle, ⟨⟩⟩
          refine h.goTo (.inr (by rw [hi]; rfl)) ?_
          rintro t ⟨⟩
          exact hle
      | _ => simp [hi] at hstep
  | cancel i =>
      cases hi : s.callers i with
      | waiting ready =>
          simp only [hi] at hstep
          cases hstep
          exact h.goTo (.inl rfl) (by rintro t ⟨⟩)
      | _ => simp [hi] at hstep
  | check i cancelled =>
      cases hi : s.callers i with
      | woken ready =>
          simp only [hi] at hstep
          split_ifs at hstep with hcool hcancelled
          · cases hstep
            exact h.goTo (.inl rfl) (by rintro t ⟨⟩)
          · cases hstep
            exact h.pass hi hcool
          · cases hstep
            exact h.reserve i s.gate.cooldownUntil
      | _ => simp [hi] at hstep
  | cooldown readAt delay =>
      simp only at hstep
      split_ifs at hstep with hread hdelay
      · cases hstep
        exact h
      · cases hstep
        exact h.cool (readAt + delay)

/-! ## What a gate promises -/

theorem gate_interval {s s' : System} {a : Act} (hstep : s.Step a s') :
    s'.gate.interval = s.gate.interval := by
  have hreserve : ∀ i bound, (s.reserve i bound).gate.interval = s.gate.interval := by
    intro i bound
    show (s.gate.reserve _).interval = _
    unfold RequestGate.reserve
    split_ifs <;> rfl
  unfold System.Step System.step at hstep
  cases a <;> simp only at hstep <;> (repeat' split at hstep) <;> cases hstep <;>
    first | rfl | exact hreserve _ _

theorem Spaced.mono {d d' a b : Int} (h : Spaced d a b) (hle : d' ≤ d) : Spaced d' a b := by
  unfold Spaced at h ⊢
  omega

/-- The start times of the callers that are let through are an interval apart, each of them goes at
its start time or later, and none before the end of a cooldown that was set before. -/
theorem starts_spaced {interval clock : Int} {as : List Act} {s : System}
    (hrun : Transition.Run System.Step (System.initial interval clock) as s) :
    s.slots.Pairwise (Spaced interval) ∧
      ∀ pre ready now post, s.log = pre ++ .passed ready now :: post →
        ready ≤ now ∧ ∀ u, .cooled u ∈ pre → u ≤ now := by
  have h : s.Inv := hrun.invariant System.Inv (inv_initial interval clock) fun _ _ _ hs hi => hi.step hs
  have hle : interval ≤ s.gate.interval := by
    refine hrun.invariant (fun s => interval ≤ s.gate.interval) ?_ fun _ _ _ hs hi => ?_
    · show interval ≤ (if interval < 0 then 0 else interval)
      split_ifs <;> omega
    · exact hi.trans (gate_interval hs).ge
  exact ⟨h.apart.imp fun hab => hab.mono hle, h.log⟩

/-- The second caller reserves the start time after the first one's, and the first is held up until
then. -/
def lateCaller : List Act :=
  [.enter 0, .enter 1, .wait 10, .wake 0, .wake 1, .check 0 false, .check 1 false]

theorem starts_spaced_lateCaller :
    ∃ s, Transition.Run System.Step (System.initial 10 100) lateCaller s ∧
      s.log = [.passed 100 110, .passed 110 110] ∧ s.slots.Pairwise (Spaced 10) := by
  have hrun : ∃ s, Transition.Run System.Step (System.initial 10 100) lateCaller s ∧
      s.log = [.passed 100 110, .passed 110 110] :=
    ⟨_, .cons rfl (.cons rfl (.cons rfl (.cons rfl (.cons rfl (.cons rfl (.cons rfl (.nil _))))))), rfl⟩
  rcases hrun with ⟨s, hrun, hlog⟩
  exact ⟨s, hrun, hlog, (starts_spaced hrun).1⟩

/-- The instants at which callers go are not: both of these go at once. -/
theorem passages_not_spaced :
    ∃ s ready ready' now, Transition.Run System.Step (System.initial 10 100) lateCaller s ∧
      s.log = [.passed ready now, .passed ready' now] :=
  ⟨_, _, _, _, .cons rfl (.cons rfl (.cons rfl (.cons rfl (.cons rfl (.cons rfl (.cons rfl
    (.nil _))))))), rfl⟩

end MarketInfo.Gate
