import MarketInfo.Keeper.Stamps

/-! # Exploration is fair

Nothing but an admission makes an order wait from later, and rounds lie apart, so nobody is
admitted twice while another has waited longer.
-/

namespace MarketInfo.Keeper.Dynamic

open Json (Text)
open Events (Bytes RawEvent ContractBase58)

variable {generationBytes : Candidate → Bytes}

/-! ## Choosing -/

def DynamicWork.Waits (generationBytes : Candidate → Bytes) (w : DynamicWork) (callers : List Bytes) (now : Int)
    (key : Text) : Prop :=
  ∃ o, w.Orders.get key = some o ∧ w.eligible generationBytes callers now key o = true

/-- One waits longer than another. -/
def DynamicWork.Fairer (w : DynamicWork) (a b : Text) : Prop := fairer (w.since a) (w.since b) a b = true

theorem fairer_iff {since since' : Int} {key key' : Text} :
    fairer since since' key key' = true ↔ since < since' ∨ since = since' ∧ key < key' := by
  simp [fairer]

theorem choiceOf_explore {w : DynamicWork} {env : Environment} {now : Int} {key : Text} {o : DynamicOrder}
    {ch : DynamicChoice} :
    w.choiceOf generationBytes env .explore now key o = some ch ↔
      w.eligible generationBytes env.CallersValid now key o = true ∧
        ch = { key := key, order := o, check := w.getCheck generationBytes key o, lane := .explore,
               reason := "oldest_waiting", rank := 3 } := by
  unfold DynamicWork.choiceOf
  dsimp only
  by_cases heligible : w.eligible generationBytes env.CallersValid now key o = true
  · rw [if_neg (by simp [heligible]), if_pos rfl, Option.some.injEq]
    constructor
    · intro h
      exact ⟨heligible, h.symm⟩
    · intro h
      exact h.2.symm
  · rw [if_pos (by simpa using heligible)]
    constructor
    · intro h
      cases h
    · intro h
      exact absurd h.1 heligible

/-- What is chosen in any lane is one of the orders that may be. -/
theorem chooseFrom_mem {w : DynamicWork} {env : Environment} {lane : Lane} {now : Int}
    {entries : List (Text × DynamicOrder)} {ch : DynamicChoice}
    (h : w.chooseFrom generationBytes env lane now entries = some ch) :
    ∃ e ∈ entries, w.choiceOf generationBytes env lane now e.1 e.2 = some ch := by
  have hfold : ∀ (chs : List DynamicChoice) (best : Option DynamicChoice),
      chs.foldl (fun best ch => if best.all (ch.less lane) then some ch else best) best = some ch →
        ch ∈ chs ∨ best = some ch := by
    intro chs
    induction chs with
    | nil => exact fun best hbest => .inr hbest
    | cons a rest ih =>
        intro best hbest
        rcases ih _ hbest with hrest | hhead
        · exact .inl (List.mem_cons_of_mem a hrest)
        · dsimp only at hhead
          split at hhead
          · exact .inl (Option.some.inj hhead ▸ List.mem_cons_self)
          · exact .inr hhead
  rcases hfold _ _ h with hmem | hnone
  · exact List.mem_filterMap.1 hmem
  · cases hnone

theorem choiceOf_spec {w : DynamicWork} {env : Environment} {lane : Lane} {now : Int} {key : Text} {o :
    DynamicOrder}
    {ch : DynamicChoice} (h : w.choiceOf generationBytes env lane now key o = some ch) :
    ch.key = key ∧ ch.order = o ∧ ch.check = w.getCheck generationBytes key o ∧ ch.lane = lane := by
  unfold DynamicWork.choiceOf at h
  dsimp only at h
  split at h
  · cases h
  · split at h
    · rw [← Option.some.inj h]
      exact ⟨rfl, rfl, rfl, rfl⟩
    · split at h
      · cases h
      · split at h
        · rw [← Option.some.inj h]
          exact ⟨rfl, rfl, rfl, rfl⟩
        · obtain ⟨p, -, hp⟩ := Option.map_eq_some_iff.1 h
          split at hp
          · rw [← hp]
            exact ⟨rfl, rfl, rfl, rfl⟩
          · rw [← hp]
            exact ⟨rfl, rfl, rfl, rfl⟩

/-- The pass of the explore lane is that of a leader. -/
theorem foldl_less (lane : Lane) (chs : List DynamicChoice) :
    chs.foldl (fun best ch => if best.all (ch.less lane) then some ch else best) none =
      Leader.leaders (fun _ => some ()) (fun a b => DynamicChoice.less lane a b = true) chs () := by
  induction chs using List.reverseRecOn with
  | nil => rfl
  | append_singleton chs ch ih =>
      rw [List.foldl_append, Leader.leaders_append_singleton, List.foldl_cons, List.foldl_nil, ih]
      unfold Leader.keep
      dsimp only
      generalize Leader.leaders (fun _ => some ()) (fun a b => DynamicChoice.less lane a b = true) chs = best
      rcases hbest : best () with _ | old
      · simp
      · by_cases hless : ch.less lane old = true
        · simp [hless]
        · simp [hless, hbest]

theorem chooseFrom_leads (generationBytes : Candidate → Bytes) {w : DynamicWork} (env : Environment) (now : Int)
    {entries : List
    (Text × DynamicOrder)}
    (hentries : ∀ e ∈ entries, w.Orders.get e.1 = some e.2) :
    Leader.Leads (fun _ : DynamicChoice => some ()) (fun a b => DynamicChoice.less .explore a b = true)
      (entries.filterMap fun e => w.choiceOf generationBytes env .explore now e.1 e.2) ()
      (w.chooseFrom generationBytes env .explore now entries) := by
  unfold DynamicWork.chooseFrom
  rw [foldl_less]
  refine Leader.leads_leaders ?_ ?_ ()
  · intro x y z hxy hyz
    simp only [DynamicChoice.less, if_pos, fairer_iff] at hxy hyz ⊢
    rcases hxy with hxy | ⟨hxy, hkey⟩
    · rcases hyz with hyz | ⟨hyz, -⟩
      · exact .inl (hxy.trans hyz)
      · exact .inl (hyz ▸ hxy)
    · rcases hyz with hyz | ⟨hyz, hkey'⟩
      · exact .inl (hxy ▸ hyz)
      · exact .inr ⟨hxy.trans hyz, hkey.trans hkey'⟩
  · intro a ha b hb
    obtain ⟨e, he, hchoice⟩ := List.mem_filterMap.1 ha
    obtain ⟨e', he', hchoice'⟩ := List.mem_filterMap.1 hb
    obtain ⟨-, rfl⟩ := choiceOf_explore.1 hchoice
    obtain ⟨-, rfl⟩ := choiceOf_explore.1 hchoice'
    simp only [DynamicChoice.less, if_pos, fairer_iff, getCheck_FairSince]
    -- two of one key are one entry
    rcases lt_trichotomy e.1 e'.1 with hlt | heq | hgt
    · rcases lt_trichotomy (w.since e.1) (w.since e'.1) with h | h | h
      · exact .inr (.inl (.inl h))
      · exact .inr (.inl (.inr ⟨h, hlt⟩))
      · exact .inr (.inr (.inl h))
    · have horder : e.2 = e'.2 := by
        have hsame := (hentries e he).symm.trans (heq ▸ hentries e' he')
        exact Option.some.inj hsame
      exact .inl (by rw [heq, horder])
    · rcases lt_trichotomy (w.since e.1) (w.since e'.1) with h | h | h
      · exact .inr (.inl (.inl h))
      · exact .inr (.inr (.inr ⟨h.symm, hgt⟩))
      · exact .inr (.inr (.inl h))

theorem entries_get (w : DynamicWork) : ∀ e ∈ w.Orders.entries, w.Orders.get e.1 = some e.2 :=
  fun _ he => OrderedMap.get_eq_some.2 he

/-- Whoever is chosen to be explored waits, and has waited longer than all others. -/
theorem chooseDynamic_explore {w : DynamicWork} {env : Environment} {now : Int} {ch : DynamicChoice}
    (h : w.chooseDynamic generationBytes env .explore now = some ch) :
    w.Waits generationBytes env.CallersValid now ch.key ∧
      ∀ j, w.Waits generationBytes env.CallersValid now j → j ≠ ch.key → w.Fairer ch.key j := by
  have hleads := chooseFrom_leads generationBytes env now (entries_get w)
  unfold DynamicWork.chooseDynamic at h
  rw [h] at hleads
  obtain ⟨hmem, -, hfirst⟩ := hleads
  obtain ⟨e, he, hchoice⟩ := List.mem_filterMap.1 hmem
  obtain ⟨heligible, hch⟩ := choiceOf_explore.1 hchoice
  have hkey : ch.key = e.1 := by rw [hch]
  refine ⟨⟨e.2, hkey ▸ entries_get w e he, hkey ▸ heligible⟩, ?_⟩
  rintro j ⟨o, ho, hj⟩ hne
  have hother := hfirst _ (List.mem_filterMap.2 ⟨(j, o), OrderedMap.get_eq_some.1 ho, choiceOf_explore.2 ⟨hj, rfl⟩⟩) rfl
  rcases hother with heq | hless
  · exact absurd (congrArg DynamicChoice.key heq) hne
  · simp only [DynamicChoice.less, if_pos, hch, getCheck_FairSince] at hless
    rw [hkey]
    exact hless

/-- The order of the scan does not matter. -/
theorem chooseFrom_perm {w : DynamicWork} {env : Environment} {now : Int} {entries : List (Text × DynamicOrder)}
    (hperm : entries.Perm w.Orders.entries) :
    w.chooseFrom generationBytes env .explore now entries = w.chooseDynamic generationBytes env .explore now := by
  have hleads := chooseFrom_leads generationBytes env now fun e he => entries_get w e (hperm.mem_iff.1 he)
  have hall := chooseFrom_leads generationBytes env now (entries_get w)
  refine hleads.unique ?_ hall fun a _ => (hperm.filterMap _).mem_iff
  intro x y hxy hyx
  simp only [DynamicChoice.less, if_pos, fairer_iff] at hxy hyx
  rcases hxy with hxy | ⟨hxy, hkey⟩
  · rcases hyx with hyx | ⟨hyx, -⟩
    · exact lt_asymm hxy hyx
    · exact absurd hxy (hyx ▸ lt_irrefl _)
  · rcases hyx with hyx | ⟨-, hkey'⟩
    · exact absurd hyx (hxy ▸ lt_irrefl _)
    · exact lt_asymm hkey hkey'

/-! ## Rounds -/

theorem since_setCheck_same {w : DynamicWork} {key : Text} {e : DynamicCheck} (h : e.FairSince = w.since key) :
    (w.setCheck key e).since = w.since := by
  funext k
  rw [since_setCheck]
  split
  · rename_i hk
    rw [h, hk]
  · rfl

theorem attempted_setCheck_same {w : DynamicWork} {key : Text} {e : DynamicCheck} (h :
    e.LastAttempt = w.attempted key) :
    (w.setCheck key e).attempted = w.attempted := by
  funext k
  rw [attempted_setCheck]
  split
  · rename_i hk
    rw [h, hk]
  · rfl

/-- Nobody is admitted or discovered; a round may be over, and then there is a pause. -/
structure DynamicWork.Idles (now : Int) (w w' : DynamicWork) : Prop where
  orders : w'.Orders = w.Orders
  since : w'.since = w.since
  attempted : w'.attempted = w.attempted
  rounds : w'.selected = w.selected ∧ w'.NextRound = w.NextRound ∨ UTC (now + 30 * second) ≤ w'.NextRound

theorem DynamicWork.Idles.refl (now : Int) (w : DynamicWork) : w.Idles now w := ⟨rfl, rfl, rfl, .inl ⟨rfl, rfl⟩⟩

theorem DynamicWork.Idles.trans {now : Int} {w w' w'' : DynamicWork} (h : w.Idles now w') (h' :
    w'.Idles now w'') :
    w.Idles now w'' where
  orders := h'.orders.trans h.orders
  since := h'.since.trans h.since
  attempted := h'.attempted.trans h.attempted
  rounds := by
    rcases h'.rounds with ⟨hselected', hnext'⟩ | hpause
    · rcases h.rounds with ⟨hselected, hnext⟩ | hpause
      · exact .inl ⟨hselected'.trans hselected, hnext'.trans hnext⟩
      · exact .inr (hnext' ▸ hpause)
    · exact .inr hpause

theorem DynamicWork.Stamped.idles {now : Int} {w w' : DynamicWork} (h : w.Stamped) (hidle : w.Idles now w') :
    w'.Stamped :=
  h.congr hidle.orders hidle.since hidle.attempted

theorem idles_setCheck (now : Int) {w : DynamicWork} {key : Text} {e : DynamicCheck} (hfair :
    e.FairSince = w.since key)
    (hattempted : e.LastAttempt = w.attempted key) : w.Idles now (w.setCheck key e) :=
  ⟨rfl, since_setCheck_same hfair, attempted_setCheck_same hattempted, .inl ⟨rfl, rfl⟩⟩

theorem idles_finish (now : Int) (w : DynamicWork) (outcome : String) : w.Idles now
    (w.finishDynamicMember outcome) := by
  refine ⟨rfl, rfl, rfl, .inl ⟨?_, rfl⟩⟩
  unfold DynamicWork.finishDynamicMember DynamicWork.selected
  dsimp only
  rcases w.Round with _ | r
  · rfl
  · dsimp only [Option.map_some, Option.elim_some]
    split
    · rfl
    · rfl

theorem UTC_mono {s t : Int} (h : s ≤ t) : UTC s ≤ UTC t := by
  unfold UTC
  omega

theorem idles_close {now clock : Int} (h : now ≤ clock) (w : DynamicWork) : w.Idles now
    (w.closeDynamicRound clock) := by
  unfold DynamicWork.closeDynamicRound
  split
  · exact ⟨rfl, rfl, rfl, .inr (UTC_mono (by omega))⟩
  · exact .refl now w

theorem idles_suspend {now clock : Int} (h : now ≤ clock) (w : DynamicWork) (outcome : String) :
    w.Idles now (w.suspend outcome clock) := by
  unfold DynamicWork.suspend
  dsimp only
  split
  · exact (idles_finish now w outcome).trans (idles_close h _)
  · exact idles_close h w

theorem idles_start (now : Int) (s : State) {o : DynamicOrder} {e : DynamicCheck} (capture : Nat)
    (hfair : e.FairSince = s.Work.since o.Candidate.pair) (hattempted :
    e.LastAttempt = s.Work.attempted o.Candidate.pair) :
    s.Work.Idles now (s.startDynamicOperation o e capture now).Work := by
  unfold State.startDynamicOperation
  dsimp only
  split
  · exact idles_setCheck now hfair hattempted
  · exact .refl now _

theorem round_start (now : Int) (s : State) (o : DynamicOrder) (e : DynamicCheck) (capture : Nat) :
    (s.startDynamicOperation o e capture now).Work.Round = s.Work.Round ∧
      (s.startDynamicOperation o e capture now).Work.NextRound = s.Work.NextRound := by
  unfold State.startDynamicOperation
  dsimp only
  split
  · exact ⟨rfl, rfl⟩
  · exact ⟨rfl, rfl⟩

theorem idles_continue (now : Int) (s : State) (hs : s.Work.Stamped) {r : DynamicRound} {m : SelectionMember}
    (hr : s.Work.Round = some r) (capture : Nat) :
    s.Work.Idles now (s.continueDynamicSlot generationBytes r m capture now).Work := by
  unfold State.continueDynamicSlot
  dsimp only
  split
  · exact idles_finish now _ _
  · rename_i o ho
    split
    · exact idles_finish now _ _
    · have hget : s.Work.Orders.get (dynamicPair m.Renter m.Receiver) = some o := (Option.filter_eq_some_iff.1 ho).1
      have hpair := hs.keys _ _ hget
      have hround : s.Work.Idles now { s.Work with Round := some { r with Continue := false } } := by
        refine ⟨rfl, rfl, rfl, .inl ⟨?_, rfl⟩⟩
        unfold DynamicWork.selected
        rw [hr]
        rfl
      refine hround.trans (idles_start now { s with Work := _ } capture ?_ ?_)
      · rw [getCheck_FairSince, hpair]
        rfl
      · rw [getCheck_LastAttempt, hpair]
        rfl

/-- What an admission changes. -/
structure DynamicWork.Admits (now : Int) (key : Text) (w w' : DynamicWork) : Prop where
  orders : w'.Orders = w.Orders
  since : ∀ k, w'.since k = if k = key then UTC now else w.since k
  attempted : ∀ k, w'.attempted k = if k = key then UTC now else w.attempted k
  selected : w'.selected = w.selected ++ [key]
  next : w'.NextRound = w.NextRound

theorem admits_admitChoice (now : Int) (s : State) (hs : s.Work.Stamped) (lane : Lane) {choice : DynamicChoice}
    (hchoice : s.Work.Orders.get choice.key = some choice.order) (slot : UInt8) (round capture : Nat) :
    s.Work.Admits now choice.key (s.admitChoice generationBytes lane choice slot round capture now).Work := by
  have hpair := hs.keys _ _ hchoice
  unfold State.admitChoice
  dsimp only
  generalize hmember : ({ SlotNo := slot, Renter := choice.order.Candidate.Renter, .. } : SelectionMember) = m
  generalize hr : s.Work.Round.getD { ID := round, Started := UTC now } = r
  have hselected : r.Selected = s.Work.selected := by
    rw [← hr]
    unfold DynamicWork.selected
    rcases s.Work.Round with _ | r
    · rfl
    · rfl
  generalize he : ({ choice.check with LastAttempt := UTC now, FairSince := UTC now } : DynamicCheck) = e
  have hfair : e.FairSince = UTC now := by rw [← he]
  have hattempted : e.LastAttempt = UTC now := by rw [← he]
  let w : DynamicWork := { s.Work with
    Round := some { r with Slots := slot, Selected := r.Selected ++ [choice.key], Active := some m } }
  have hstart := idles_start now { s with Work := w.setCheck choice.key e } (o := choice.order) (e := e) capture
    (by rw [hpair, since_setCheck, if_pos rfl]) (by rw [hpair, attempted_setCheck, if_pos rfl])
  obtain ⟨hround, hnext⟩ := round_start now { s with Work := w.setCheck choice.key e } choice.order e capture
  refine ⟨hstart.orders, ?_, ?_, ?_, hnext⟩
  · intro k
    refine (congrFun hstart.since k).trans ?_
    rw [since_setCheck, hfair]
    rfl
  · intro k
    refine (congrFun hstart.attempted k).trans ?_
    rw [attempted_setCheck, hattempted]
    rfl
  · unfold DynamicWork.selected at hselected ⊢
    rw [← hselected]
    exact congrArg (fun round : Option DynamicRound => round.elim [] (·.Selected)) hround

theorem chooseEither_spec {w : DynamicWork} {env : Environment} {lane : Lane} {now : Int} {choice :
    DynamicChoice}
    (h : w.chooseEither generationBytes env lane now = some choice) :
    ∃ lane' ch, w.chooseDynamic generationBytes env lane' now = some ch ∧ ch.key = choice.key ∧
      ch.order = choice.order ∧ choice.lane = lane' := by
  have hlane : ∀ lane ch, w.chooseDynamic generationBytes env lane now = some ch → ch.lane = lane := by
    intro lane ch hch
    obtain ⟨e, -, hof⟩ := chooseFrom_mem hch
    exact (choiceOf_spec hof).2.2.2
  unfold DynamicWork.chooseEither at h
  rcases Option.or_eq_some_iff.1 h with hfirst | ⟨-, hother⟩
  · exact ⟨lane, choice, hfirst, rfl, rfl, hlane _ _ hfirst⟩
  · obtain ⟨ch, hch, hsame⟩ := Option.map_eq_some_iff.1 hother
    refine ⟨lane.other, ch, hch, ?_, ?_, ?_⟩
    · rw [← hsame]
    · rw [← hsame]
    · rw [← hsame]
      show ch.lane = lane.other
      exact hlane _ _ hch

/-- What the scheduler does in one turn. -/
theorem scheduleDynamic_cases (s : State) (hs : s.Work.Stamped) (env : Environment) {now clock : Int}
    (hclock : now ≤ clock)
    (round capture : Nat) :
    ((s.scheduleDynamic generationBytes env now clock round capture).2 = none ∧
        s.Work.Idles now (s.scheduleDynamic generationBytes env now clock round capture).1.Work) ∨
      ∃ choice : DynamicChoice, ∃ lane,
        (s.scheduleDynamic generationBytes env now clock round capture).2 = some ⟨choice.key, lane⟩ ∧
          s.Work.NextRound ≤ now ∧
          (∃ ch, s.Work.chooseDynamic generationBytes env lane now = some ch ∧ ch.key = choice.key) ∧
          s.Work.Admits now choice.key (s.scheduleDynamic generationBytes env now clock round capture).1.Work := by
  generalize hturn : s.scheduleDynamic generationBytes env now clock round capture = turn
  have hidle : ∀ s' : State, (s', none) = turn → s.Work.Idles now s'.Work →
      turn.2 = none ∧ s.Work.Idles now turn.1.Work := by
    intro s' hsame hidle
    rw [← hsame]
    exact ⟨rfl, hidle⟩
  unfold State.scheduleDynamic at hturn
  dsimp only at hturn
  split at hturn
  · exact .inl (hidle _ hturn (.refl now _))
  · split at hturn
    · exact .inl (hidle _ hturn (.refl now _))
    · split at hturn
      · exact .inl (hidle _ hturn (.refl now _))
      · rename_i hpause
        split at hturn
        · exact .inl (hidle _ hturn (idles_close hclock _))
        · split at hturn
          · exact .inl (hidle _ hturn (idles_suspend hclock _ _))
          · split at hturn
            · exact .inl (hidle _ hturn (idles_suspend hclock _ _))
            · split at hturn
              · rename_i r m hactive
                obtain ⟨r', hr, hm⟩ := Option.bind_eq_some_iff.1 hactive
                obtain ⟨m', -, hpair⟩ := Option.map_eq_some_iff.1 hm
                obtain ⟨rfl, rfl⟩ := Prod.mk.inj hpair
                split at hturn
                · exact .inl (hidle _ hturn (idles_continue now s hs hr capture))
                · exact .inl (hidle _ hturn (.refl now _))
              · split at hturn
                · exact .inl (hidle _ hturn ⟨rfl, rfl, rfl, .inl ⟨rfl, rfl⟩⟩)
                · split at hturn
                  · -- nobody is to be chosen: the pause counts from `now`
                    have hclosed := idles_close hclock s.Work
                    exact .inl (hidle _ hturn ⟨hclosed.orders, hclosed.since, hclosed.attempted, .inr (le_refl _)⟩)
                  · rename_i choice hchoice
                    obtain ⟨lane, ch, hch, hkey, horder, hlane⟩ := chooseEither_spec hchoice
                    have hget : s.Work.Orders.get choice.key = some choice.order := by
                      obtain ⟨e, he, hof⟩ := chooseFrom_mem hch
                      obtain ⟨hkey', horder', -⟩ := choiceOf_spec hof
                      rw [← hkey, ← horder, hkey', horder']
                      exact entries_get s.Work e he
                    refine .inr ⟨choice, lane, ?_, by omega, ⟨ch, hch, hkey⟩, ?_⟩
                    · rw [← hturn, hlane]
                    · rw [← hturn]
                      exact admits_admitChoice now s hs _ hget _ _ _

/-! ## Completing an operation -/

theorem observed_stamps (rate : Option RentalRate) (op : Operation) (current : DynamicOrder) (clock : Int)
    (e : DynamicCheck) (r : RentalState) :
    (observed rate op current clock e r).FairSince = e.FairSince ∧
      (observed rate op current clock e r).LastAttempt = e.LastAttempt := by
  unfold observed
  split
  · exact ⟨rfl, rfl⟩
  · split
    · exact ⟨rfl, rfl⟩
    · dsimp only
      split
      · exact ⟨rfl, rfl⟩
      · split
        · exact ⟨rfl, rfl⟩
        · exact ⟨rfl, rfl⟩

theorem foldl_observed_stamps (rate : Option RentalRate) (op : Operation) (current : DynamicOrder) (clock : Int)
    (rs : List RentalState) (e : DynamicCheck) :
    (rs.foldl (observed rate op current clock) e).FairSince = e.FairSince ∧
      (rs.foldl (observed rate op current clock) e).LastAttempt = e.LastAttempt := by
  induction rs generalizing e with
  | nil => exact ⟨rfl, rfl⟩
  | cons r rest ih =>
      obtain ⟨hfair, hattempted⟩ := observed_stamps rate op current clock e r
      obtain ⟨hfair', hattempted'⟩ := ih (observed rate op current clock e r)
      exact ⟨hfair'.trans hfair, hattempted'.trans hattempted⟩

theorem idles_complete (generationBytes : Candidate → Bytes) (now : Int) (s : State) (rate : Option RentalRate) (op : Operation) (clock : Int) :
    s.Work.Idles now (s.completeDynamic generationBytes rate op clock).Work := by
  unfold State.completeDynamic
  dsimp only
  split
  · exact .refl now _
  · rename_i r m hactive
    obtain ⟨r', hr, hm⟩ := Option.bind_eq_some_iff.1 hactive
    obtain ⟨m', -, hpair⟩ := Option.map_eq_some_iff.1 hm
    obtain ⟨rfl, rfl⟩ := Prod.mk.inj hpair
    split
    · exact .refl now _
    · split
      · exact idles_finish now _ _
      · rename_i current hcurrent
        split
        · split
          · -- the slot goes on
            refine (idles_setCheck now ?_ ?_).trans ⟨rfl, rfl, rfl, .inl ⟨?_, rfl⟩⟩
            · exact getCheck_FairSince _ _ _
            · exact getCheck_LastAttempt _ _ _
            · show r'.Selected = s.Work.selected
              unfold DynamicWork.selected
              rw [hr]
              rfl
          · refine (idles_setCheck now ?_ ?_).trans (idles_finish now _ _)
            · exact getCheck_FairSince _ _ _
            · exact getCheck_LastAttempt _ _ _
        · refine (idles_setCheck now ?_ ?_).trans (idles_finish now _ _)
          · exact (foldl_observed_stamps _ _ _ _ _ _).1.trans (getCheck_FairSince _ _ _)
          · exact (foldl_observed_stamps _ _ _ _ _ _).2.trans (getCheck_LastAttempt _ _ _)

/-! ## Runs -/

/-- Whoever was admitted and is not of the round was admitted a while before the next one. -/
structure System.Sound (s : System) : Prop where
  stamped : s.state.Work.Stamped
  clock : 0 ≤ s.clock
  past : ∀ k, s.state.Work.attempted k ≤ s.clock
  apart : ∀ k, s.state.Work.attempted k ≠ zeroTime → k ∉ s.state.Work.selected →
    s.state.Work.attempted k + second ≤ s.state.Work.NextRound

theorem sound_start : System.Sound {} where
  stamped := {
    keys := by simp [OrderedMap.get, OrderedMap.empty]
    unknown := fun _ _ => ⟨rfl, rfl⟩
    seen := by simp [OrderedMap.get, OrderedMap.empty]
    waiting := by simp [OrderedMap.get, OrderedMap.empty]
    tried := fun k hk => absurd rfl hk }
  clock := le_refl _
  past := fun k => by
    show zeroTime ≤ 0
    decide
  apart := fun k hk => absurd rfl hk

theorem System.Sound.discovers {s : System} (h : s.Sound) {w : DynamicWork} (hw :
    s.state.Work.Discovers w) {now : Int}
    (hnow : s.clock ≤ now) : System.Sound ⟨{ s.state with Work := w }, now⟩ where
  stamped := hw.stamped
  clock := h.clock.trans hnow
  past := fun k => by
    show w.attempted k ≤ now
    rw [hw.attempted]
    exact (h.past k).trans hnow
  apart := fun k htried hout => by
    show w.attempted k + second ≤ w.NextRound
    have hselected : w.selected = s.state.Work.selected := by
      unfold DynamicWork.selected
      rw [hw.round]
    rw [hw.attempted, hw.next]
    exact h.apart k (hw.attempted ▸ htried) (hselected ▸ hout)

theorem System.Sound.idles {s : System} (h : s.Sound) {state : State} {now clock : Int} (hnow : s.clock ≤ now)
    (hclock : now ≤ clock) (hw : s.state.Work.Idles now state.Work) : System.Sound ⟨state, clock⟩ where
  stamped := h.stamped.idles hw
  clock := (h.clock.trans hnow).trans hclock
  past := fun k => by
    show state.Work.attempted k ≤ clock
    rw [hw.attempted]
    exact (h.past k).trans (hnow.trans hclock)
  apart := fun k htried hout => by
    show state.Work.attempted k + second ≤ state.Work.NextRound
    rw [hw.attempted]
    rcases hw.rounds with ⟨hselected, hnext⟩ | hpause
    · rw [hnext]
      exact h.apart k (hw.attempted ▸ htried) (hselected ▸ hout)
    · have hpast := h.past k
      unfold UTC second at hpause
      unfold second
      omega

theorem System.Sound.admits {s : System} (h : s.Sound) {state : State} {now clock : Int} {key : Text}
    (hnow : s.clock ≤ now) (hclock : now ≤ clock) (hstamped : state.Work.Stamped)
    (hw : s.state.Work.Admits now key state.Work) : System.Sound ⟨state, clock⟩ where
  stamped := hstamped
  clock := (h.clock.trans hnow).trans hclock
  past := fun k => by
    show state.Work.attempted k ≤ clock
    rw [hw.attempted]
    split
    · unfold UTC
      omega
    · exact (h.past k).trans (hnow.trans hclock)
  apart := fun k htried hout => by
    show state.Work.attempted k + second ≤ state.Work.NextRound
    have hother : k ∉ s.state.Work.selected ∧ k ≠ key := by
      have hout' : k ∉ state.Work.selected := hout
      rw [hw.selected, List.mem_append, List.mem_singleton, not_or] at hout'
      exact hout'
    have htried' : state.Work.attempted k ≠ zeroTime := htried
    rw [hw.attempted, if_neg hother.2] at htried' ⊢
    rw [hw.next]
    exact h.apart k htried' hother.1

theorem DynamicWork.Stamped.admits {w w' : DynamicWork} (h : w.Stamped) {now : Int} {key : Text}
    {o : DynamicOrder} (ho : w.Orders.get key = some o) (hnow : 0 ≤ now) (hw : w.Admits now key w') :
    w'.Stamped := by
  have hclock := UTC_ne_zero hnow
  refine ⟨hw.orders ▸ h.keys, ?_, ?_, ?_, ?_⟩
  · intro k hk
    rw [hw.orders] at hk
    have hne : k ≠ key := by
      rintro rfl
      rw [ho] at hk
      cases hk
    rw [hw.since, hw.attempted, if_neg hne, if_neg hne]
    exact h.unknown k hk
  · intro k o' ho'
    rw [hw.orders] at ho'
    refine ⟨(h.seen k o' ho').1, ?_⟩
    rw [hw.since]
    split
    · exact hclock
    · exact (h.seen k o' ho').2
  · intro k o' ho' hzero
    rw [hw.orders] at ho'
    rw [hw.attempted] at hzero
    rw [hw.since]
    split at hzero
    · exact absurd hzero hclock
    · rename_i hne
      rw [if_neg hne]
      exact h.waiting k o' ho' hzero
  · intro k htried
    rw [hw.attempted] at htried ⊢
    rw [hw.since]
    split
    · rfl
    · rename_i hne
      rw [if_neg hne] at htried
      exact h.tried k htried

theorem step_spec {s s' : System} {e : Event} (h : s.Sound) (hstep : Step generationBytes s e s') :
    s'.Sound ∧ s.clock ≤ s'.clock ∧
      ∀ k, (¬ e.admits k → s'.state.Work.attempted k = s.state.Work.attempted k ∧
          (s.state.Work.since k ≠ zeroTime →
            s'.state.Work.since k ≠ zeroTime ∧ s'.state.Work.since k ≤ s.state.Work.since k)) ∧
        (e.admits k → UTC s.clock ≤ s'.state.Work.attempted k) := by
  -- in most steps nobody is admitted
  have hidle : ∀ {now : Int} {w : DynamicWork}, s.state.Work.Idles now w →
      ∀ k, w.attempted k = s.state.Work.attempted k ∧ (s.state.Work.since k ≠ zeroTime →
        w.since k ≠ zeroTime ∧ w.since k ≤ s.state.Work.since k) := by
    intro now w hw k
    rw [hw.attempted, hw.since]
    exact ⟨rfl, fun hk => ⟨hk, le_refl _⟩⟩
  cases hstep with
  | apply raw verified now w hclock happly =>
      have hw := dynamicApplyRaw_discovers h.stamped (h.clock.trans hclock) happly
      exact ⟨h.discovers hw hclock, hclock, fun k => ⟨fun _ => ⟨congrFun hw.attempted k, hw.since k⟩, nofun⟩⟩
  | resolve events ev now w hclock hresolve =>
      have hw := resolveConflict_discovers h.stamped (h.clock.trans hclock) hresolve
      exact ⟨h.discovers hw hclock, hclock, fun k => ⟨fun _ => ⟨congrFun hw.attempted k, hw.since k⟩, nofun⟩⟩
  | retry key o attempts next ho =>
      have hw := idles_setCheck s.clock (w := s.state.Work)
        (e := { s.state.Work.getCheck generationBytes key o with Attempts := attempts, NextSeed := next })
        (getCheck_FairSince _ _ _) (getCheck_LastAttempt _ _ _)
      exact ⟨h.idles (le_refl _) (le_refl _) hw, le_refl _, fun k => ⟨fun _ => hidle hw k, nofun⟩⟩
  | schedule env now clock round capture hclock hclock' =>
      rcases scheduleDynamic_cases s.state h.stamped env hclock' round capture with
        ⟨hnone, hw⟩ | ⟨choice, lane, hsome, -, ⟨ch, hch, hkey⟩, hw⟩
      · refine ⟨h.idles hclock hclock' hw, hclock.trans hclock', fun k => ⟨fun _ => hidle hw k, ?_⟩⟩
        rw [hnone]
        exact nofun
      · obtain ⟨e, he, hof⟩ := chooseFrom_mem hch
        have hget : s.state.Work.Orders.get choice.key = some e.2 := by
          rw [← hkey, (choiceOf_spec hof).1]
          exact entries_get _ e he
        have hstamped := h.stamped.admits hget (h.clock.trans hclock) hw
        refine ⟨h.admits hclock hclock' hstamped hw, hclock.trans hclock', fun k => ?_⟩
        rw [hsome]
        constructor
        · intro hother
          have hne : k ≠ choice.key := fun heq => hother heq.symm
          rw [hw.attempted, hw.since, if_neg hne, if_neg hne]
          exact ⟨rfl, fun hk => ⟨hk, le_refl _⟩⟩
        · rintro rfl
          rw [hw.attempted, if_pos rfl]
          exact UTC_mono hclock
  | complete rate op now hclock =>
      have hw := idles_complete generationBytes now s.state rate op now
      exact ⟨h.idles hclock (le_refl _) hw, hclock, fun k => ⟨fun _ => hidle hw k, nofun⟩⟩
  | rate capture now hclock =>
      have hw := DynamicWork.Idles.refl now s.state.Work
      exact ⟨h.idles hclock (le_refl _) hw, hclock, fun k => ⟨fun _ => hidle hw k, nofun⟩⟩

theorem sound_run {s s' : System} {es : List Event} (hrun : Transition.Run (Step generationBytes) s es s')
    (h : s.Sound) : s'.Sound :=
  hrun.invariant System.Sound h fun _ _ _ hstep hs => (step_spec hs hstep).1

/-- An admission is of the order that was chosen, and not before the pause is over. -/
theorem admission_spec {s s' : System} {env : Environment} {a : Admission} {now : Int} (h : s.Sound)
    (hstep : Step generationBytes s (.schedule env (some a) now) s') :
    s.clock ≤ now ∧ now ≤ s'.clock ∧ s.state.Work.NextRound ≤ now ∧ s.state.Work.Admits now a.key s'.state.Work ∧
      ∃ ch, s.state.Work.chooseDynamic generationBytes env a.lane now = some ch ∧ ch.key = a.key := by
  generalize he : Event.schedule env (some a) now = e at hstep
  cases hstep with
  | schedule env' now' clock round capture hclock hclock' =>
      obtain ⟨rfl, hadmitted, rfl⟩ := Event.schedule.inj he
      rcases scheduleDynamic_cases s.state h.stamped env hclock' round capture with
        ⟨hnone, -⟩ | ⟨choice, lane, hsome, hpause, hch, hw⟩
      · rw [hnone] at hadmitted
        cases hadmitted
      · obtain rfl := Option.some.inj (hadmitted.trans hsome)
        exact ⟨hclock, hclock', hpause, hw, hch⟩
  | apply raw verified now w hclock happly => cases he
  | resolve events ev now w hclock hresolve => cases he
  | retry key o attempts next ho => cases he
  | complete rate op now hclock => cases he
  | rate capture now hclock => cases he

/-- What keeps an order ahead of another that was admitted at `t`. -/
structure System.Ahead (j k : Text) (t : Int) (s : System) : Prop where
  sound : s.Sound
  known : s.state.Work.since j ≠ zeroTime
  waits : s.state.Work.since j < UTC t
  admitted : UTC t ≤ s.state.Work.attempted k
  clock : t ≤ s.clock

theorem ahead_run {j k : Text} {t : Int} {s s' : System} {es : List Event}
    (hrun : Transition.Run (Step generationBytes) s es s') (h : s.Ahead j k t) (hnone :
    ∀ e ∈ es, ¬ e.admits j) :
    s'.Ahead j k t := by
  induction hrun with
  | nil s => exact h
  | @cons s s₁ s₂ e es hstep hrest ih =>
      obtain ⟨hsound, hclock, hstamps⟩ := step_spec h.sound hstep
      obtain ⟨-, hsince⟩ := (hstamps j).1 (hnone e List.mem_cons_self)
      obtain ⟨hknown, hle⟩ := hsince h.known
      have hadmitted : UTC t ≤ s₁.state.Work.attempted k := by
        by_cases hk : e.admits k
        · exact (UTC_mono h.clock).trans ((hstamps k).2 hk)
        · rw [((hstamps k).1 hk).1]
          exact h.admitted
      have hahead : s₁.Ahead j k t := ⟨hsound, hknown, hle.trans_lt h.waits, hadmitted, h.clock.trans hclock⟩
      exact ih hahead fun f hf => hnone f (List.mem_cons_of_mem e hf)

theorem not_selected {w : DynamicWork} {callers : List Bytes} {now : Int} {key : Text}
    (h : w.Waits generationBytes callers now key) : key ∉ w.selected := by
  obtain ⟨o, -, heligible⟩ := h
  unfold DynamicWork.eligible at heligible
  intro hmem
  have hany : w.selected.any (· = key) = true := List.any_eq_true.2 ⟨key, hmem, decide_eq_true rfl⟩
  simp [hany] at heligible

/-- Once another is admitted, whoever was seen before and waits is ahead of it. -/
theorem ahead_of_admission {s s' : System} {env : Environment} {j k : Text} {t : Int} {o : DynamicOrder}
    {lane : Lane}
    {callers : List Bytes} {now : Int} (h : s.Sound)
    (hstep : Step generationBytes s (.schedule env (some ⟨k, lane⟩) t) s') (hne : j ≠ k)
    (ho : s.state.Work.Orders.get j = some o) (hseen : o.FirstSeen < UTC t)
    (hwaits : s'.state.Work.Waits generationBytes callers now j) : s'.Ahead j k t := by
  obtain ⟨-, hclock, hpause, hw, -⟩ := admission_spec h hstep
  have hout : j ∉ s.state.Work.selected := by
    have hout' := not_selected hwaits
    rw [hw.selected] at hout'
    exact fun hmem => hout' (List.mem_append_left _ hmem)
  have hbefore : s.state.Work.since j < UTC t := by
    by_cases hzero : s.state.Work.attempted j = zeroTime
    · exact (h.stamped.waiting j o ho hzero).trans_lt hseen
    · -- it was admitted in an earlier round
      have hapart := h.apart j hzero hout
      rw [h.stamped.tried j hzero]
      unfold second at hapart
      unfold UTC
      omega
  refine ⟨(step_spec h hstep).1, ?_, ?_, ?_, hclock⟩
  · rw [hw.since, if_neg hne]
    exact (h.stamped.seen j o ho).2
  · rw [hw.since, if_neg hne]
    exact hbefore
  · rw [hw.attempted, if_pos rfl]

/-- Whoever is ahead is chosen before. -/
theorem System.Ahead.not_fairer {s : System} {j k : Text} {t : Int} (h : s.Ahead j k t) (ht : 0 ≤ t) :
    ¬ s.state.Work.Fairer k j := by
  have hwaits := h.waits
  have hadmitted := h.admitted
  have htried : s.state.Work.attempted k ≠ zeroTime := by
    have hzero : zeroTime < 0 := by decide
    unfold UTC at hadmitted
    omega
  have hsince := h.sound.stamped.tried k htried
  intro hfairer
  rcases fairer_iff.1 hfairer with hlt | ⟨heq, -⟩
  · omega
  · omega

/-- Between two admissions of one order to be explored, another that was seen before the first
is admitted, if it may be after the first and at the second. What is chosen is before all
others, in whatever order they are looked at. -/
theorem exploration_is_fair (generationBytes : Candidate → Bytes) :
    (∀ (es fs : List Event) (s₀ s₁ s₂ s₃ : System) (env₁ env₂ : Environment) (j k : Text) (t₁ t₂ : Int)
        (o : DynamicOrder),
      Transition.Run (Step generationBytes) {} es s₀ →
      Step generationBytes s₀ (.schedule env₁ (some ⟨k, .explore⟩) t₁) s₁ →
      Transition.Run (Step generationBytes) s₁ fs s₂ →
      Step generationBytes s₂ (.schedule env₂ (some ⟨k, .explore⟩) t₂) s₃ →
      j ≠ k → s₀.state.Work.Orders.get j = some o → o.FirstSeen < UTC t₁ →
      s₁.state.Work.Waits generationBytes env₁.CallersValid t₁ j →
      s₂.state.Work.Waits generationBytes env₂.CallersValid t₂ j → ∃ e ∈ fs, e.admits j) ∧
    (∀ (es : List Event) (s s' : System) (env : Environment) (k : Text) (t : Int),
      Transition.Run (Step generationBytes) {} es s →
      Step generationBytes s (.schedule env (some ⟨k, .explore⟩) t) s' →
      s.state.Work.Waits generationBytes env.CallersValid t k ∧
        ∀ j, s.state.Work.Waits generationBytes env.CallersValid t j → j ≠ k → s.state.Work.Fairer k j) ∧
    ∀ (w : DynamicWork) (env : Environment) (t : Int) (entries : List (Text × DynamicOrder)),
      entries.Perm w.Orders.entries →
      w.chooseFrom generationBytes env .explore t entries = w.chooseDynamic generationBytes env .explore t := by
  refine ⟨?_, ?_, fun w env t entries hperm => chooseFrom_perm hperm⟩
  · intro es fs s₀ s₁ s₂ s₃ env₁ env₂ j k t₁ t₂ o hbefore hfirst hbetween hsecond hne ho hseen hwaits₁ hwaits₂
    have hsound := sound_run hbefore sound_start
    have hahead := ahead_of_admission hsound hfirst hne ho hseen hwaits₁
    by_contra hnone
    push Not at hnone
    -- without an admission the other is still ahead when the first is chosen again
    have hlast := ahead_run hbetween hahead hnone
    obtain ⟨-, -, -, -, ch, hch, hkey⟩ := admission_spec hlast.sound hsecond
    have hfairer := (chooseDynamic_explore hch).2 j hwaits₂ (hkey ▸ hne)
    rw [hkey] at hfairer
    exact hlast.not_fairer (hsound.clock.trans (admission_spec hsound hfirst).1) hfairer
  · intro es s s' env k t hrun hstep
    have hsound := sound_run hrun sound_start
    obtain ⟨-, -, -, -, ch, hch, rfl⟩ := admission_spec hsound hstep
    exact chooseDynamic_explore hch

/-! ## Runs that are played -/

/-- What is given to one step. -/
inductive Input
  | apply (raw : RawEvent) (now : Int)
  | schedule (env : Environment) (now : Int) (round capture : Nat)
  | complete (op : Operation) (now : Int)
  | rate (capture : Nat) (now : Int)

def System.turn (generationBytes : Candidate → Bytes) (s : System) : Input → Option (Event × System)
  | .apply raw now =>
      if s.clock ≤ now then
        (s.state.Work.dynamicApplyRaw generationBytes raw none now).toOption.map fun w =>
          (.apply raw none now, ⟨{ s.state with Work := w }, now⟩)
      else none
  | .schedule env now round capture =>
      let turn := s.state.scheduleDynamic generationBytes env now now round capture
      if s.clock ≤ now then some (.schedule env turn.2 now, ⟨turn.1, now⟩) else none
  | .complete op now =>
      if s.clock ≤ now then some (.complete op now, ⟨s.state.completeDynamic generationBytes none op now, now⟩)
      else none
  | .rate capture now =>
      if s.clock ≤ now then some (.rate capture now, ⟨s.state.completeRentalRate capture now, now⟩) else none

def System.play (generationBytes : Candidate → Bytes) (s : System) : List Input → Option (System × List Event)
  | [] => some (s, [])
  | i :: is =>
      (s.turn generationBytes i).bind fun next =>
        (next.2.play generationBytes is).map fun rest => (rest.1, next.1 :: rest.2)

theorem turn_step {s : System} {i : Input} {next : Event × System} (h : s.turn generationBytes i = some next) :
    Step generationBytes s next.1 next.2 := by
  cases i with
  | apply raw now =>
      obtain ⟨hclock, h⟩ := Option.ite_none_right_eq_some.1 h
      obtain ⟨w, hw, rfl⟩ := Option.map_eq_some_iff.1 h
      refine .apply s raw none now w hclock ?_
      rcases happly : s.state.Work.dynamicApplyRaw generationBytes raw none now with err | w'
      · rw [happly] at hw
        cases hw
      · rw [happly] at hw
        rw [Option.some.inj hw]
  | schedule env now round capture =>
      obtain ⟨hclock, h⟩ := Option.ite_none_right_eq_some.1 h
      rw [← Option.some.inj h]
      exact .schedule s env now now round capture hclock (le_refl now)
  | complete op now =>
      obtain ⟨hclock, h⟩ := Option.ite_none_right_eq_some.1 h
      rw [← Option.some.inj h]
      exact .complete s none op now hclock
  | rate capture now =>
      obtain ⟨hclock, h⟩ := Option.ite_none_right_eq_some.1 h
      rw [← Option.some.inj h]
      exact .rate s capture now hclock

theorem play_run {s : System} {is : List Input} {last : System × List Event}
    (h : s.play generationBytes is = some last) : Transition.Run (Step generationBytes) s last.2 last.1 := by
  induction is generalizing s last with
  | nil =>
      rw [← Option.some.inj h]
      exact .nil s
  | cons i is ih =>
      obtain ⟨next, hnext, h⟩ := Option.bind_eq_some_iff.1 h
      obtain ⟨rest, hrest, rfl⟩ := Option.map_eq_some_iff.1 h
      exact .cons (turn_step hnext) (ih hrest)

/-! Two rents, and a provider that is always current. -/

def rentOf (renter : Char) : RawEvent where
  BlockNumber := 80000000
  BlockTimestamp := 1000000
  ContractAddress := ContractBase58
  Index := 3
  Name := "RentResource"
  Result := fun k =>
    if k = "resourceType" then some (.quoted ['1'])
    else if k = "renter" then some (.quoted (['4', '1'] ++ List.replicate 40 renter))
    else if k = "receiver" then some (.quoted (['4', '1'] ++ List.replicate 40 '2'))
    else if k = "amount" then some (.bare ['9', '0'])
    else if k = "addedAmount" then some (.quoted ['9', '0'])
    else if k = "addedSecurityDeposit" then some (.quoted ['7'])
    else none
  Transaction := List.replicate 64 renter
  Evidence := { ResponseHash := List.replicate 64 'b' }

def rentPair (renter : Char) : Text := ['4', '1'] ++ List.replicate 40 renter ++ ['4', '1'] ++ List.replicate 40 '2'

def currentAt (now : Int) : Environment where
  Opportunities := true
  Active := false
  Started := 0
  Coverage := now
  IdentityStatus := "verified_manifest"
  CallersValid := [List.replicate 21 9]
  Blocked := false
  Exhausted := false
  Rate := none

def failedSeed (slot : UInt8) (renter : UInt8) (capture : Nat) : Operation where
  Kind := "seed"
  Capture := capture
  DynamicSlot := slot
  DynamicRound := 1
  Failed := true
  Candidate :=
    { Renter := 0x41 :: List.replicate 20 renter, Receiver := 0x41 :: List.replicate 20 0x22, LastActivity := 0,
      Origin := rentOf '1' }
  RentalStates := []
  Certified := false

def turnAt (t : Int) (capture : Nat) : Input := .schedule (currentAt (t * second)) (t * second) 1 capture

def playedBefore : List Input :=
  [.apply (rentOf '1') (1000 * second), .apply (rentOf '3') (1001 * second), turnAt 2000 0, .rate 0 (2000 * second)]

def playedBetween : List Input :=
  [.complete (failedSeed 1 0x11 1) (2100 * second), turnAt 2200 2, .complete (failedSeed 2 0x33 2) (2200 * second),
    turnAt 2250 3, turnAt 10000 4, .rate 4 (10000 * second)]

/-- Of two orders the first is explored again only after the second. -/
theorem exploration_is_fair_of_two_rents :
    ∃ s₁ es s₂, Transition.Run (Step fun _ => []) s₁ es s₂ ∧
      (∃ env s₃, Step (fun _ => []) s₂ (.schedule env (some ⟨rentPair '1', .explore⟩) (10100 * second)) s₃) ∧
      ∃ e ∈ es, e.admits (rentPair '3') := by
  have hplay : ((System.play (fun _ => []) {} playedBefore).any fun p =>
      let first := p.1.state.scheduleDynamic (fun _ => []) (currentAt (2100 * second)) (2100 * second)
        (2100 * second) 1 1
      let s₁ : System := ⟨first.1, 2100 * second⟩
      p.1.clock ≤ 2100 * second && first.2 = some ⟨rentPair '1', .explore⟩ &&
      ((p.1.state.Work.Orders.get (rentPair '3')).any fun o => o.FirstSeen < UTC (2100 * second)) &&
      ((s₁.state.Work.Orders.get (rentPair '3')).any fun o =>
        s₁.state.Work.eligible (fun _ => []) (currentAt (2100 * second)).CallersValid (2100 * second) (rentPair '3') o) &&
      (s₁.play (fun _ => []) playedBetween).any fun q =>
        let last := q.1.state.scheduleDynamic (fun _ => []) (currentAt (10100 * second)) (10100 * second)
          (10100 * second) 1 5
        q.1.clock ≤ 10100 * second && last.2 = some ⟨rentPair '1', .explore⟩ &&
        (q.1.state.Work.Orders.get (rentPair '3')).any fun o =>
          q.1.state.Work.eligible (fun _ => []) (currentAt (10100 * second)).CallersValid (10100 * second)
            (rentPair '3') o) = true := by
    decide +kernel
  simp only [Option.any_eq_true, Bool.and_eq_true, decide_eq_true_eq] at hplay
  obtain ⟨p, hp, ⟨⟨⟨hclock, hfirst⟩, o, ho, hseen⟩, o₁, ho₁, hwaits₁⟩, q, hq, ⟨hclock', hlast⟩, o₂, ho₂, hwaits₂⟩ :=
    hplay
  have hstep : Step (fun _ => []) p.1 _ _ := .schedule p.1 (currentAt (2100 * second)) (2100 * second) (2100 * second)
    1 1 hclock (le_refl _)
  have hstep' : Step (fun _ => []) q.1 _ _ := .schedule q.1 (currentAt (10100 * second)) (10100 * second)
    (10100 * second) 1 5 hclock' (le_refl _)
  rw [hfirst] at hstep
  rw [hlast] at hstep'
  refine ⟨_, q.2, q.1, play_run hq, ⟨_, _, hstep'⟩, ?_⟩
  exact (exploration_is_fair fun _ => []).1 p.2 q.2 p.1 _ q.1 _ _ _ (rentPair '3') (rentPair '1') _ _ o (play_run hp)
    hstep (play_run hq) hstep' (by decide) ho hseen ⟨o₁, ho₁, hwaits₁⟩ ⟨o₂, ho₂, hwaits₂⟩

end MarketInfo.Keeper.Dynamic
