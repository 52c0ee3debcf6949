import MarketInfo.Keeper.Dynamic

/-! # Since when an order waits

An order waits from its discovery, and after an admission from that admission. An event, in
whatever order it comes, lets nobody that is known wait from later.
-/

namespace MarketInfo.Keeper.Dynamic

open Json (Text)
open Events (Bytes RawEvent RentalEvent EventRow RawFromRow seedRevision)

variable {generationBytes : Candidate → Bytes}

/-! ## Stamps -/

/-- A clock is past the zero time. -/
theorem UTC_ne_zero {now : Int} (h : 0 ≤ now) : UTC now ≠ zeroTime := by
  have hzero : zeroTime < 0 := by decide
  unfold UTC
  omega

def DynamicWork.since (w : DynamicWork) (key : Text) : Int := (w.Checks.get key).elim zeroTime (·.FairSince)

def DynamicWork.attempted (w : DynamicWork) (key : Text) : Int := (w.Checks.get key).elim zeroTime
    (·.LastAttempt)

/-- A check that is read anew keeps its stamps. -/
theorem getCheck_stamps (w : DynamicWork) (key : Text) (o : DynamicOrder) :
    (w.getCheck generationBytes key o).FairSince = w.since key ∧
      (w.getCheck generationBytes key o).LastAttempt = w.attempted key := by
  unfold DynamicWork.getCheck DynamicWork.since DynamicWork.attempted
  rcases w.Checks.get key with _ | v
  · exact ⟨rfl, rfl⟩
  · dsimp only [Option.elim_some]
    split
    · exact ⟨rfl, rfl⟩
    · split
      · exact ⟨rfl, rfl⟩
      · exact ⟨rfl, rfl⟩

@[simp] theorem getCheck_FairSince (w : DynamicWork) (key : Text) (o : DynamicOrder) :
    (w.getCheck generationBytes key o).FairSince = w.since key := (getCheck_stamps w key o).1

@[simp] theorem getCheck_LastAttempt (w : DynamicWork) (key : Text) (o : DynamicOrder) :
    (w.getCheck generationBytes key o).LastAttempt = w.attempted key := (getCheck_stamps w key o).2

theorem since_setCheck (w : DynamicWork) (key k : Text) (e : DynamicCheck) :
    (w.setCheck key e).since k = if k = key then e.FairSince else w.since k := by
  unfold DynamicWork.setCheck DynamicWork.since
  rw [OrderedMap.get_set]
  split
  · rfl
  · rfl

theorem attempted_setCheck (w : DynamicWork) (key k : Text) (e : DynamicCheck) :
    (w.setCheck key e).attempted k = if k = key then e.LastAttempt else w.attempted k := by
  unfold DynamicWork.setCheck DynamicWork.attempted
  rw [OrderedMap.get_set]
  split
  · rfl
  · rfl

@[simp] theorem since_setOrder (w : DynamicWork) (key : Text) (o : DynamicOrder) :
    (w.setOrder key o).since = w.since := rfl

@[simp] theorem attempted_setOrder (w : DynamicWork) (key : Text) (o : DynamicOrder) :
    (w.setOrder key o).attempted = w.attempted := rfl

structure DynamicWork.Stamped (w : DynamicWork) : Prop where
  keys : ∀ k o, w.Orders.get k = some o → o.Candidate.pair = k
  unknown : ∀ k, w.Orders.get k = none → w.since k = zeroTime ∧ w.attempted k = zeroTime
  seen : ∀ k o, w.Orders.get k = some o → o.FirstSeen ≠ zeroTime ∧ w.since k ≠ zeroTime
  waiting : ∀ k o, w.Orders.get k = some o → w.attempted k = zeroTime → w.since k ≤ o.FirstSeen
  tried : ∀ k, w.attempted k ≠ zeroTime → w.since k = w.attempted k

theorem DynamicWork.Stamped.congr {w w' : DynamicWork} (h : w.Stamped) (horders : w'.Orders = w.Orders)
    (hsince : w'.since = w.since) (hattempted : w'.attempted = w.attempted) : w'.Stamped := by
  obtain ⟨hkeys, hunknown, hseen, hwaiting, htried⟩ := h
  refine ⟨?_, ?_, ?_, ?_, ?_⟩
  · rwa [horders]
  · rwa [horders, hsince, hattempted]
  · rwa [horders, hsince]
  · rwa [horders, hsince, hattempted]
  · rwa [hsince, hattempted]

/-- An order is written with its check. -/
theorem DynamicWork.Stamped.put {w : DynamicWork} (h : w.Stamped) {key : Text} {o : DynamicOrder} {e :
    DynamicCheck}
    (hpair : o.Candidate.pair = key) (hfirst : o.FirstSeen ≠ zeroTime) (hattempted : e.LastAttempt = w.attempted key)
    (hfair : e.FairSince ≠ zeroTime) (hwaiting : w.attempted key = zeroTime → e.FairSince ≤ o.FirstSeen)
    (htried : w.attempted key ≠ zeroTime → e.FairSince = w.attempted key) :
    ((w.setOrder key o).setCheck key e).Stamped := by
  have hget : ∀ k, ((w.setOrder key o).setCheck key e).Orders.get k =
      if k = key then some o else w.Orders.get k := by
    intro k
    show (w.Orders.set key o).get k = _
    rw [OrderedMap.get_set]
    congr
  refine ⟨?_, ?_, ?_, ?_, ?_⟩
  · intro k o' ho'
    rw [hget] at ho'
    split at ho'
    · rename_i hk
      rw [← Option.some.inj ho', hpair, hk]
    · exact h.keys k o' ho'
  · intro k hk
    rw [hget] at hk
    split at hk
    · cases hk
    · rename_i hne
      rw [since_setCheck, attempted_setCheck, if_neg hne, if_neg hne]
      exact h.unknown k hk
  · intro k o' ho'
    rw [hget] at ho'
    rw [since_setCheck]
    split at ho'
    · rename_i hk
      rw [← Option.some.inj ho', if_pos hk]
      exact ⟨hfirst, hfair⟩
    · rename_i hne
      rw [if_neg hne]
      exact h.seen k o' ho'
  · intro k o' ho' hzero
    rw [hget] at ho'
    rw [attempted_setCheck] at hzero
    rw [since_setCheck]
    split at ho'
    · rename_i hk
      rw [if_pos hk, hattempted] at hzero
      rw [← Option.some.inj ho', if_pos hk]
      exact hwaiting hzero
    · rename_i hne
      rw [if_neg hne] at hzero
      rw [if_neg hne]
      exact h.waiting k o' ho' hzero
  · intro k hk
    rw [attempted_setCheck] at hk ⊢
    rw [since_setCheck]
    by_cases hkey : k = key
    · rw [if_pos hkey, hattempted] at hk
      rw [if_pos hkey, if_pos hkey, hattempted]
      exact htried hk
    · rw [if_neg hkey] at hk
      rw [if_neg hkey, if_neg hkey]
      exact h.tried k hk

/-- An order is written again, seen no earlier than it waits. -/
theorem DynamicWork.Stamped.setOrder {w : DynamicWork} (h : w.Stamped) {key : Text} {o : DynamicOrder}
    (hpair : o.Candidate.pair = key) (hfirst : o.FirstSeen ≠ zeroTime) (hfair : w.since key ≠ zeroTime)
    (hwaiting : w.attempted key = zeroTime → w.since key ≤ o.FirstSeen) : (w.setOrder key o).Stamped := by
  have hget : ∀ k, (w.setOrder key o).Orders.get k = if k = key then some o else w.Orders.get k := by
    intro k
    show (w.Orders.set key o).get k = _
    rw [OrderedMap.get_set]
    congr
  refine ⟨?_, ?_, ?_, ?_, h.tried⟩
  · intro k o' ho'
    rw [hget] at ho'
    split at ho'
    · rename_i hk
      rw [← Option.some.inj ho', hpair, hk]
    · exact h.keys k o' ho'
  · intro k hk
    rw [hget] at hk
    split at hk
    · cases hk
    · exact h.unknown k hk
  · intro k o' ho'
    rw [hget] at ho'
    split at ho'
    · rename_i hk
      rw [← Option.some.inj ho', hk]
      exact ⟨hfirst, hfair⟩
    · exact h.seen k o' ho'
  · intro k o' ho' hzero
    rw [hget] at ho'
    split at ho'
    · rename_i hk
      subst hk
      rw [← Option.some.inj ho']
      exact hwaiting hzero
    · exact h.waiting k o' ho' hzero

/-- Nobody is admitted, and nobody known waits from later. -/
structure DynamicWork.Discovers (w w' : DynamicWork) : Prop where
  stamped : w'.Stamped
  attempted : w'.attempted = w.attempted
  since : ∀ k, w.since k ≠ zeroTime → w'.since k ≠ zeroTime ∧ w'.since k ≤ w.since k
  round : w'.Round = w.Round
  next : w'.NextRound = w.NextRound

theorem DynamicWork.Stamped.discovers {w : DynamicWork} (h : w.Stamped) : w.Discovers w :=
  ⟨h, rfl, fun _ hk => ⟨hk, le_refl _⟩, rfl, rfl⟩

theorem DynamicWork.Discovers.trans {w w' w'' : DynamicWork} (h : w.Discovers w') (h' : w'.Discovers w'') :
    w.Discovers w'' where
  stamped := h'.stamped
  attempted := h'.attempted.trans h.attempted
  since := fun k hk => by
    obtain ⟨hknown, hle⟩ := h.since k hk
    obtain ⟨hknown', hle'⟩ := h'.since k hknown
    exact ⟨hknown', hle'.trans hle⟩
  round := h'.round.trans h.round
  next := h'.next.trans h.next

theorem DynamicWork.Stamped.discovers_order {w : DynamicWork} (h : w.Stamped) {key : Text} {o : DynamicOrder}
    (hpair : o.Candidate.pair = key) (hfirst : o.FirstSeen ≠ zeroTime) (hfair : w.since key ≠ zeroTime)
    (hwaiting : w.attempted key = zeroTime → w.since key ≤ o.FirstSeen) : w.Discovers (w.setOrder key o) :=
  ⟨h.setOrder hpair hfirst hfair hwaiting, rfl, fun _ hk => ⟨hk, le_refl _⟩, rfl, rfl⟩

theorem DynamicWork.Stamped.discovers_put {w : DynamicWork} (h : w.Stamped) {key : Text} {o : DynamicOrder}
    {e : DynamicCheck} (hpair : o.Candidate.pair = key) (hfirst : o.FirstSeen ≠ zeroTime)
    (hattempted : e.LastAttempt = w.attempted key) (hfair : e.FairSince ≠ zeroTime)
    (hwaiting : w.attempted key = zeroTime → e.FairSince ≤ o.FirstSeen)
    (htried : w.attempted key ≠ zeroTime → e.FairSince = w.attempted key)
    (hearlier : w.since key ≠ zeroTime → e.FairSince ≤ w.since key) :
    w.Discovers ((w.setOrder key o).setCheck key e) where
  stamped := h.put hpair hfirst hattempted hfair hwaiting htried
  attempted := by
    funext k
    rw [attempted_setCheck]
    split
    · rename_i hk
      rw [hattempted, hk]
    · rfl
  since := fun k hk => by
    rw [since_setCheck]
    split
    · rename_i heq
      rw [heq] at hk ⊢
      exact ⟨hfair, hearlier hk⟩
    · exact ⟨hk, le_refl _⟩
  round := rfl
  next := rfl

theorem DynamicWork.Stamped.discovers_same {w : DynamicWork} (h : w.Stamped) {key : Text} {old o : DynamicOrder}
    (hold : w.Orders.get key = some old) (hpair : o.Candidate.pair = old.Candidate.pair)
    (hseen : o.FirstSeen = old.FirstSeen) : w.Discovers (w.setOrder key o) := by
  obtain ⟨hfirst, hfair⟩ := h.seen key old hold
  refine h.discovers_order (hpair.trans (h.keys key old hold)) (hseen ▸ hfirst) hfair fun hzero => ?_
  rw [hseen]
  exact h.waiting key old hold hzero

/-! ## Discovery -/

theorem seenEarlier_discovers (generationBytes : Candidate → Bytes) {w : DynamicWork} (h : w.Stamped) {key : Text} {old : DynamicOrder}
    (hold : w.Orders.get key = some old) (available : Int) :
    w.Discovers (w.seenEarlier generationBytes key old available).1 ∧
      (w.seenEarlier generationBytes key old available).1.Orders.get key =
        some (w.seenEarlier generationBytes key old available).2 ∧
      (w.seenEarlier generationBytes key old available).2.Candidate = old.Candidate := by
  have hpair := h.keys key old hold
  obtain ⟨hfirst, hfair⟩ := h.seen key old hold
  have hself : (w.setOrder key { old with FirstSeen := available }).Orders.get key =
      some { old with FirstSeen := available } := OrderedMap.get_set_self _ _ _
  unfold DynamicWork.seenEarlier
  split
  · rename_i hearlier
    obtain ⟨hknown, hbefore⟩ := hearlier
    dsimp only
    split
    · rename_i hlower
      obtain ⟨hnew, hlower⟩ := hlower
      rw [getCheck_LastAttempt, attempted_setOrder] at hnew
      rw [getCheck_FairSince, since_setOrder] at hlower
      refine ⟨h.discovers_put hpair hknown ?_ hknown (fun _ => le_refl _) (fun htried => absurd hnew htried) ?_,
        hself, rfl⟩
      · rw [getCheck_LastAttempt, attempted_setOrder]
      · intro _
        rcases hlower with hzero | hlt
        · exact absurd hzero hfair
        · exact le_of_lt hlt
    · rename_i hkept
      refine ⟨h.discovers_order hpair hknown hfair fun hzero => ?_, hself, rfl⟩
      rw [getCheck_LastAttempt, attempted_setOrder, getCheck_FairSince, since_setOrder] at hkept
      by_contra hlt
      exact hkept ⟨hzero, .inr (not_le.1 hlt)⟩
  · exact ⟨h.discovers, hold, rfl⟩

theorem nextCandidate_pair (old : Option Candidate) (same : Bool) (raw : RawEvent) (r : RentalEvent)
    (verified : Option Receipt) (ambiguous closing : Bool) {key : Text} (hnew :
    dynamicPair r.Renter r.Receiver = key)
    (hold : ∀ can, old = some can → can.pair = key) :
    (nextCandidate old same raw r verified ambiguous closing).pair = key := by
  unfold nextCandidate
  dsimp only
  rcases verified.filter verifiedResearchEvent with _ | v
  · cases same with
    | false => exact hnew
    | true =>
        rcases old with _ | can
        · exact hnew
        · exact hold can rfl
  · cases same with
    | false => exact hnew
    | true =>
        rcases old with _ | can
        · exact hnew
        · exact hold can rfl

theorem record_discovers {w : DynamicWork} (h : w.Stamped) {key : Text} {old : Option DynamicOrder}
    (hold : w.Orders.get key = old) (same : Bool) (raw : RawEvent) {r : RentalEvent}
    (hkey : dynamicPair r.Renter r.Receiver = key) (verified : Option Receipt) (ambiguous : Bool) {now : Int}
    (hnow : 0 ≤ now) : w.Discovers (w.record generationBytes key old same raw r verified ambiguous now) := by
  unfold DynamicWork.record
  dsimp only
  generalize hfirst : (if old.elim zeroTime (·.FirstSeen) ≠ zeroTime then old.elim zeroTime (·.FirstSeen)
    else if r.AvailableAt.unixNano ≠ zeroTime then r.AvailableAt.unixNano else UTC now) = first
  have hknown : first ≠ zeroTime := by
    rw [← hfirst]
    split
    · assumption
    · split
      · assumption
      · exact UTC_ne_zero hnow
  -- the order is known from where it was seen first, or nothing waits under its key
  have hwait : w.attempted key = zeroTime → w.since key ≠ zeroTime → w.since key ≤ first := by
    intro hzero hsince
    rcases old with _ | o
    · exact absurd (h.unknown key hold).1 hsince
    · have hseen := (h.seen key o hold).1
      rw [← hfirst, Option.elim_some, if_pos hseen]
      exact h.waiting key o hold hzero
  have hpair := nextCandidate_pair (old.map (·.Candidate)) same raw r verified ambiguous
    (r.EventKind = "liquidate" || r.EventKind = "return" && r.AmountSun = some 0) hkey fun can hcan => by
      obtain ⟨o, rfl, rfl⟩ := Option.map_eq_some_iff.1 hcan
      exact h.keys key o hold
  generalize nextCandidate (old.map (·.Candidate)) same raw r verified ambiguous
    (r.EventKind = "liquidate" || r.EventKind = "return" && r.AmountSun = some 0) = can at hpair ⊢
  generalize horder : Option.elim old _ _ = o
  have ho : o.Candidate.pair = key ∧ o.FirstSeen = first := by
    rw [← horder]
    rcases old with _ | old
    · exact ⟨hpair, rfl⟩
    · dsimp only [Option.elim_some]
      split
      · exact ⟨hpair, rfl⟩
      · exact ⟨hpair, rfl⟩
  simp only [getCheck_FairSince, since_setOrder]
  by_cases hsince : w.since key = zeroTime
  · rw [if_pos hsince]
    refine h.discovers_put ho.1 (ho.2 ▸ hknown) ?_ hknown (fun _ => ho.2.ge) ?_ (absurd hsince)
    · exact getCheck_LastAttempt _ _ _
    · intro htried
      exact absurd ((h.tried key htried).symm.trans hsince) htried
  · rw [if_neg hsince]
    refine h.discovers_put ho.1 (ho.2 ▸ hknown) (getCheck_LastAttempt _ _ _) ?_ ?_ ?_ ?_
    · simpa using hsince
    · intro hzero
      simpa [ho.2] using hwait hzero hsince
    · intro htried
      simpa using h.tried key htried
    · intro _
      simp

theorem applyRow_discovers {w : DynamicWork} (h : w.Stamped) (raw : RawEvent) (r : RentalEvent)
    (verified : Option Receipt) {now : Int} (hnow : 0 ≤ now) :
    w.Discovers (w.applyRow generationBytes raw r verified now) := by
  unfold DynamicWork.applyRow
  dsimp only
  split
  · rename_i hnew
    exact record_discovers h hnew false raw rfl verified false hnow
  · rename_i old hold
    obtain ⟨hearlier, hget, hcan⟩ := seenEarlier_discovers generationBytes h hold r.AvailableAt.unixNano
    generalize w.seenEarlier generationBytes (dynamicPair r.Renter r.Receiver) old r.AvailableAt.unixNano = next
      at hearlier hget hcan ⊢
    have hstamped := hearlier.stamped
    split
    · split
      · exact hearlier
      · exact hearlier.trans (record_discovers hstamped hget true raw rfl verified false hnow)
    · split
      · exact hearlier
      · exact hearlier.trans (hstamped.discovers_same hget rfl rfl)
      · rename_i ambiguous hplace
        exact hearlier.trans (record_discovers hstamped hget false raw rfl verified ambiguous hnow)

theorem dynamicApplyRaw_discovers {w w' : DynamicWork} (h : w.Stamped) {raw : RawEvent} {verified :
    Option Receipt}
    {now : Int} (hnow : 0 ≤ now) (happly : w.dynamicApplyRaw generationBytes raw verified now = .ok w') :
    w.Discovers w' := by
  unfold DynamicWork.dynamicApplyRaw at happly
  rcases hrow : EventRow raw with err | r
  · rw [hrow] at happly
    cases happly
  · rw [hrow] at happly
    rw [← Except.ok.inj happly]
    exact applyRow_discovers h raw r verified hnow

theorem resolveConflict_discovers {w w' : DynamicWork} (h : w.Stamped) {events : List Receipt} {ev : Receipt}
    {now : Int} (hnow : 0 ≤ now) (hresolve : w.resolveConflict generationBytes events ev now = .ok w') :
    w.Discovers w' := by
  unfold DynamicWork.resolveConflict at hresolve
  dsimp only at hresolve
  split at hresolve
  · rw [← Except.ok.inj hresolve]
    exact h.discovers
  · rename_i old hold
    split at hresolve
    · rw [← Except.ok.inj hresolve]
      exact h.discovers
    · split at hresolve
      · cases hresolve
      · rename_i newest hnewest raw hraw
        have hcleared := h.discovers_same (o := { old with
          Conflicts := [], Candidate := { old.Candidate with Ambiguous := false, Verified := false, Origin := raw } })
          hold rfl rfl
        exact hcleared.trans (dynamicApplyRaw_discovers hcleared.stamped hnow hresolve)

end MarketInfo.Keeper.Dynamic
