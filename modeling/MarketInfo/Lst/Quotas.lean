import MarketInfo.Lst.TransportLaws
import MarketInfo.Lib.Transition

/-! # The quotas of a provider survive restarts

The file is never ahead of the gate, and both account for every admission, also for
one whose slot is reserved only. So a process that starts from the file at any point
keeps to the caps and the spacing of the requests before it.
-/

namespace MarketInfo.Lst

variable {source : Source}

/-- The gap that a process of the configuration keeps at least. -/
def TransportConfig.leastGap (c : TransportConfig) (source : Source) : Int :=
  if source = .binance then 5 * second
  else if c.backfill then max second c.rpcGap
  else max 500000000 c.rpcGap

theorem leastGap_le (t : Transport) (source : Source) (now : Int) :
    t.cfg.leastGap source ≤ t.spacing source now := by
  unfold TransportConfig.leastGap Transport.spacing second
  split_ifs <;> omega

theorem leastGap_pos (c : TransportConfig) (source : Source) : 0 < c.leastGap source := by
  unfold TransportConfig.leastGap second
  split_ifs <;> omega

/-- An admission keeps to the quotas, with the times of those before it cut to the microsecond. -/
structure Admissible (source : Source) (earlier : List Admission) (a : Admission) : Prop where
  least : a.cfg.leastGap source ≤ a.gap
  gap : ∀ b ∈ earlier, b.request.At + b.gap ≤ a.request.At
  quoter : a.request.cls = .quoter → ∀ b ∈ earlier, b.request.cls = .quoter →
    cut b.request.At + second ≤ a.request.At
  logs : a.request.cls = .logs → ∀ b ∈ earlier, b.request.cls = .logs →
    cut b.request.At + 10 * second ≤ a.request.At
  requests : load one (a.request.At - minute) (earlier.map Admission.recorded) + 1 ≤
    a.cfg.cap source
  weighs : source = .binance →
    load weighed (a.request.At - minute) (earlier.map Admission.recorded) + a.request.weight ≤ 60
  funding : a.request.cls = .funding →
    load (ofClass .funding) (a.request.At - minute) (earlier.map Admission.recorded) + 1 ≤ 2 ∧
      load (ofClass .funding) (a.request.At - 5 * minute) (earlier.map Admission.recorded) + 1 ≤ 10
  logRange : a.request.cls = .logs →
    load (ofClass .logs) (a.request.At - 5 * minute) (earlier.map Admission.recorded) + 1 ≤
      a.cfg.logCap

/-- The slot that is reserved but not confirmed. -/
def Phase.pending : Phase → List Admission
  | .reserved a => [a]
  | _ => []

/-- The last record is that of the request on its way, and the others account for the rest. -/
def Fits (source : Source) (s : System) : Prop :=
  match s.phase with
  | .reserved a =>
      (∃ others, s.gate.state.recent = others ++ [a.request] ∧
        Accounts (s.clock - 5 * minute) others s.admissions) ∧
      Admissible source s.admissions a ∧ s.file.cooldownUntil ≤ a.request.At ∧
        s.file.disabled = false
  | .admitted a =>
      ∃ others earlier, s.admissions = earlier ++ [a] ∧
        s.gate.state.recent = others ++ [a.request] ∧
        Accounts (s.clock - 5 * minute) others earlier
  | _ => True

structure Inv (source : Source) (s : System) : Prop where
  next : s.file.nextAt ≤ s.gate.state.nextAt
  cooldown : s.file.cooldownUntil ≤ s.gate.state.cooldownUntil
  disabled : s.file.disabled = true → s.gate.state.disabled = true
  past : ∀ a ∈ s.admissions ++ s.phase.pending, a.request.At ≤ s.clock
  gaps : ∀ a ∈ s.admissions ++ s.phase.pending, a.request.At + a.gap ≤ s.file.nextAt
  gate : Accounts (s.clock - 5 * minute) s.gate.state.recent (s.admissions ++ s.phase.pending)
  file : Accounts (s.clock - 5 * minute) s.file.recent (s.admissions ++ s.phase.pending)
  fits : Fits source s
  paced : ∀ earlier a rest, s.admissions = earlier ++ a :: rest → Admissible source earlier a

theorem inv_initial (cfg : TransportConfig) (clock : Int) :
    Inv source (System.initial cfg clock) := by
  have hnone : ∀ floor, Accounts floor [] [] := fun floor share after _ => le_refl _
  refine ⟨le_refl _, le_refl _, id, ?_, ?_, hnone _, hnone _, trivial, fun earlier a rest heq => ?_⟩
  · exact fun a ha => absurd ha List.not_mem_nil
  · exact fun a ha => absurd ha List.not_mem_nil
  · exact absurd heq.symm (by simp [System.initial])

/-! ## The changes -/

variable {s : System}

/-- A request that is given up, or that was sent and answered. -/
theorem Inv.rest (h : Inv source s) : Inv source { s with phase := .idle } := by
  have hsub : ∀ a ∈ s.admissions ++ Phase.idle.pending, a ∈ s.admissions ++ s.phase.pending :=
    fun a ha => List.mem_append_left _ (by simpa [Phase.pending] using ha)
  have hnone : s.admissions ++ Phase.idle.pending = s.admissions := List.append_nil _
  refine ⟨h.next, h.cooldown, h.disabled, fun a ha => h.past a (hsub a ha),
    fun a ha => h.gaps a (hsub a ha), ?_, ?_, trivial, h.paced⟩
  · change Accounts _ _ (s.admissions ++ Phase.idle.pending)
    rw [hnone]
    exact h.gate.left
  · change Accounts _ _ (s.admissions ++ Phase.idle.pending)
    rw [hnone]
    exact h.file.left

theorem Inv.wait (h : Inv source s) (d : Nat) : Inv source { s with clock := s.clock + d } := by
  have hle : s.clock - 5 * minute ≤ s.clock + d - 5 * minute := by omega
  refine ⟨h.next, h.cooldown, h.disabled, fun a ha => ?_, h.gaps, h.gate.mono hle, h.file.mono hle,
    ?_, h.paced⟩
  · have := h.past a ha
    dsimp only
    omega
  · have hfits := h.fits
    unfold Fits at hfits ⊢
    dsimp only at hfits ⊢
    cases hphase : s.phase with
    | idle => trivial
    | sent => trivial
    | reserved a =>
        rw [hphase] at hfits
        rcases hfits with ⟨⟨others, hrecent, haccounts⟩, hrest⟩
        exact ⟨⟨others, hrecent, haccounts.mono hle⟩, hrest⟩
    | admitted a =>
        rw [hphase] at hfits
        rcases hfits with ⟨others, earlier, hadm, hrecent, haccounts⟩
        exact ⟨others, earlier, hadm, hrecent, haccounts.mono hle⟩

/-- Another process starts from the file. -/
theorem Inv.start (h : Inv source s) (t : Transport) :
    Inv source { s with transport := t, gate := ⟨s.file, false, false⟩, phase := .idle } := by
  have hrest := h.rest
  exact ⟨le_refl _, le_refl _, id, hrest.past, hrest.gaps, hrest.file, hrest.file, trivial, h.paced⟩

/-- Nothing is on its way between a reservation and its answer. -/
def Phase.Quiet (p : Phase) : Prop := p = .idle ∨ p = .sent

theorem fits_of_quiet (h : s.phase.Quiet) : Fits source s := by
  unfold Fits
  rcases h with hp | hp <;> rw [hp] <;> trivial

/-- The gate moves on: no time goes back, and the records account for the admissions still. -/
theorem Inv.setState (h : Inv source s) (hquiet : s.phase.Quiet) {state : HostState}
    (hnext : s.gate.state.nextAt ≤ state.nextAt)
    (hcooldown : s.gate.state.cooldownUntil ≤ state.cooldownUntil)
    (hdisabled : s.gate.state.disabled = true → state.disabled = true)
    (hrecent : Accounts (s.clock - 5 * minute) state.recent (s.admissions ++ s.phase.pending)) :
    Inv source (s.setState state) :=
  ⟨h.next.trans hnext, h.cooldown.trans hcooldown, fun hd => hdisabled (h.disabled hd), h.past,
    h.gaps, hrecent, h.file, fits_of_quiet hquiet, h.paced⟩

theorem save_setState (h : s.gate.broken = false) (state : HostState) :
    (s.setState state).save .ok = { s.setState state with file := state } := by
  unfold System.save System.setState
  dsimp only
  rw [h]
  rfl

/-- The gate is stored, or breaks. -/
theorem Inv.save (h : Inv source s) (hquiet : s.phase.Quiet) (save : Save) :
    Inv source (s.save save) := by
  have hstored : ∀ broken, Inv source
      { s with gate := { s.gate with broken }, file := s.gate.state } := fun broken =>
    ⟨le_refl _, le_refl _, id, h.past, fun a ha => (h.gaps a ha).trans h.next, h.gate, h.gate,
      fits_of_quiet hquiet, h.paced⟩
  unfold System.save
  split_ifs with hbroken
  · exact h
  · cases save with
    | ok => exact hstored s.gate.broken
    | failed renamed =>
        dsimp only
        split_ifs
        · exact hstored true
        · exact ⟨h.next, h.cooldown, h.disabled, h.past, h.gaps, h.gate, h.file,
            fits_of_quiet hquiet, h.paced⟩

/-! ## The steps -/

/-- What passes by the records keeps to the quotas by the admissions. -/
theorem Inv.admissible (h : Inv source s) {cls : Class} {weight : Nat} {recent : List SentRequest}
    (haccounts : Accounts (s.clock - 5 * minute) recent s.admissions)
    (hpasses : Passes source s.transport s.gate s.clock cls weight recent) :
    Admissible source s.admissions
      ⟨⟨s.clock, cls, weight⟩, s.transport.cfg, s.transport.spacing source s.clock⟩ := by
  have hfive : s.clock - 5 * minute ≤ s.clock - minute := by
    unfold minute second
    omega
  -- an admission of the class is recorded, or older than any spacing
  have hspaced : ∀ c d, 0 ≤ d → d ≤ 5 * minute →
      (∀ r ∈ recent, r.cls = c → r.At + d ≤ s.clock) →
      ∀ b ∈ s.admissions, b.request.cls = c → cut b.request.At + d ≤ s.clock := by
    intro c d hd hle hrecords b hb hc
    by_cases hlate : s.clock - 5 * minute < cut b.request.At
    · rcases haccounts.exists hb hlate with ⟨r, hr, hrc, hAt⟩
      have := hrecords r hr (hrc.trans hc)
      omega
    · omega
  refine ⟨leastGap_le s.transport source s.clock, fun b hb => ?_, fun hc => ?_, fun hc => ?_, ?_,
    fun hsource => ?_, fun hc => ?_, fun hc => ?_⟩
  · have hgap := h.gaps b (List.mem_append_left _ hb)
    exact (hgap.trans h.next).trans hpasses.next
  · exact hspaced _ _ (by decide) (by decide) (hpasses.quoter hc)
  · exact hspaced _ _ (by decide) (by decide) (hpasses.logs hc)
  · exact lt_of_le_of_lt (haccounts _ _ hfive) hpasses.requests
  · have := haccounts weighed _ hfive
    have := hpasses.weighs hsource
    dsimp only
    omega
  · have hshare := hpasses.funding hc
    exact ⟨lt_of_le_of_lt (haccounts _ _ hfive) hshare.1,
      lt_of_le_of_lt (haccounts _ _ (le_refl _)) hshare.2⟩
  · exact lt_of_le_of_lt (haccounts _ _ (le_refl _)) (hpasses.logRange hc)

theorem Inv.reserve (h : Inv source s) (hidle : s.phase = .idle) (hbroken : s.gate.broken = false)
    (hopen : s.gate.state.disabled = false) {cls : Class} {weight : Nat}
    (hpasses : Passes source s.transport s.gate s.clock cls weight s.gate.state.recent)
    (save : Save) : Inv source (s.reserve source cls weight save) := by
  have hnone : s.admissions ++ s.phase.pending = s.admissions := by
    rw [hidle]
    exact List.append_nil _
  have haccounts : Accounts (s.clock - 5 * minute) s.gate.state.recent s.admissions := by
    rw [← hnone]
    exact h.gate
  have hadmissible := h.admissible haccounts hpasses
  have hgap : 0 < s.transport.spacing source s.clock :=
    (leastGap_pos s.transport.cfg source).trans_le (leastGap_le s.transport source s.clock)
  unfold System.reserve
  dsimp only
  generalize hr : (⟨s.clock, cls, weight⟩ : SentRequest) = request at hadmissible ⊢
  generalize hg : s.transport.spacing source s.clock = gap at hadmissible hgap ⊢
  have hAt : request.At = s.clock := by rw [← hr]
  -- the record accounts for the admission, should it be confirmed
  have hboth : Accounts (s.clock - 5 * minute) (s.gate.state.recent ++ [request])
      (s.admissions ++ [⟨request, s.transport.cfg, gap⟩]) :=
    haccounts.concat (cut_le _) rfl rfl
  have hnext : s.gate.state.nextAt ≤ s.clock + gap := by
    have := hpasses.next
    omega
  have hset : Inv source (s.setState { s.gate.state with
      recent := s.gate.state.recent ++ [request], nextAt := s.clock + gap }) :=
    h.setState (.inl hidle) hnext (le_refl _) id (by rw [hnone]; exact hboth.left)
  have hsaved := hset.save (.inl hidle) save
  split_ifs with hok
  · subst hok
    rw [save_setState hbroken]
    refine ⟨le_refl _, le_refl _, id, fun a ha => ?_, fun a ha => ?_, hboth, hboth,
      ⟨⟨s.gate.state.recent, rfl, haccounts⟩, hadmissible, ?_, hopen⟩, h.paced⟩
    · rcases List.mem_append.mp ha with ha | ha
      · exact h.past a (List.mem_append_left _ ha)
      · rw [List.mem_singleton.mp ha]
        exact hAt.le
    · rcases List.mem_append.mp ha with ha | ha
      · exact ((h.gaps a (List.mem_append_left _ ha)).trans h.next).trans hnext
      · rw [List.mem_singleton.mp ha]
        dsimp only
        omega
    · dsimp only
      rw [hAt]
      exact hpasses.cooldown
  · exact hsaved

theorem Inv.forget (h : Inv source s) (hidle : s.phase = .idle) : Inv source s.forget :=
  h.setState (.inl hidle) (le_refl _) (le_refl _) id h.gate.filter

theorem Inv.acquire (h : Inv source s) (hidle : s.phase = .idle) (cls : Class) (path : String)
    (save : Save) : Inv source (s.acquire source cls path save) := by
  unfold System.acquire
  split_ifs with hclosed
  · exact h
  · rw [not_or, Bool.not_eq_true, Bool.not_eq_true] at hclosed
    have hkept := h.forget hidle
    dsimp only
    split_ifs with hwaits
    · exact hkept
    · refine hkept.reserve hidle hclosed.1 hclosed.2 ?_ save
      refine passes_of_ready (requestWeight_le source path) (fun r hr => ?_) (not_lt.mp hwaits)
      have hlate := (List.mem_filter.mp hr).2
      exact of_decide_eq_true hlate

/-- An admission that is confirmed is the last one. -/
theorem paced_concat {admissions : List Admission} {a : Admission}
    (hpaced : ∀ earlier b rest, admissions = earlier ++ b :: rest → Admissible source earlier b)
    (ha : Admissible source admissions a) :
    ∀ earlier b rest, admissions ++ [a] = earlier ++ b :: rest → Admissible source earlier b := by
  intro earlier b rest heq
  rcases List.eq_nil_or_concat rest with rfl | ⟨rest, c, rfl⟩
  · rcases List.append_inj' heq rfl with ⟨rfl, hb⟩
    cases hb
    exact ha
  · rw [List.concat_eq_append, ← List.cons_append, ← List.append_assoc] at heq
    rcases List.append_inj' heq rfl with ⟨hinit, -⟩
    exact hpaced earlier b rest hinit

/-- The reservation that holds still is an admission. -/
theorem Inv.confirm (h : Inv source s) {a : Admission} (hphase : s.phase = .reserved a) :
    Inv source { s with
      gate := { s.gate with sentThisProcess := true }
      phase := .admitted a
      admissions := s.admissions ++ [a] } := by
  have hfits := h.fits
  unfold Fits at hfits
  rw [hphase] at hfits
  rcases hfits with ⟨⟨others, hrecent, haccounts⟩, hadmissible, -, -⟩
  have hpending : s.phase.pending = [a] := by
    rw [hphase]
    rfl
  have hlist : (s.admissions ++ [a]) ++ (Phase.admitted a).pending =
      s.admissions ++ s.phase.pending := by
    rw [hpending]
    exact List.append_nil _
  refine ⟨h.next, h.cooldown, h.disabled, fun b hb => h.past b (hlist ▸ hb),
    fun b hb => h.gaps b (hlist ▸ hb), ?_, ?_, ⟨others, s.admissions, rfl, hrecent, haccounts⟩,
    paced_concat h.paced hadmissible⟩
  · dsimp only
    rw [hlist]
    exact h.gate
  · dsimp only
    rw [hlist]
    exact h.file

theorem stampLast_concat (requestedAt : Int) (recent : List SentRequest) (r : SentRequest) :
    stampLast requestedAt (recent ++ [r]) = recent ++ [{ r with At := requestedAt }] := by
  simp [stampLast]

/-- The record of the request on its way gets the time at which it is sent. -/
theorem Inv.send (h : Inv source s) {a : Admission} (hphase : s.phase = .admitted a) {next : Int}
    (hnext : s.gate.state.nextAt ≤ next) :
    Inv source { s.setState { s.gate.state with
      recent := stampLast (cut s.clock) s.gate.state.recent, nextAt := next } with
      phase := .sent } := by
  have hfits := h.fits
  unfold Fits at hfits
  rw [hphase] at hfits
  rcases hfits with ⟨others, earlier, hadmissions, hrecent, haccounts⟩
  have hlist : s.admissions ++ Phase.sent.pending = s.admissions ++ s.phase.pending := by
    rw [hphase]
    rfl
  have hpast : a.request.At ≤ s.clock := by
    refine h.past a (List.mem_append_left _ ?_)
    rw [hadmissions]
    exact List.mem_append_right _ (List.mem_singleton_self a)
  refine ⟨h.next.trans hnext, h.cooldown, h.disabled, fun b hb => h.past b (hlist ▸ hb),
    fun b hb => h.gaps b (hlist ▸ hb), ?_, ?_, trivial, h.paced⟩
  · change Accounts (s.clock - 5 * minute) (stampLast (cut s.clock) s.gate.state.recent)
      (s.admissions ++ [])
    rw [List.append_nil, hadmissions, hrecent, stampLast_concat]
    exact haccounts.concat (cut_mono hpast) rfl rfl
  · change Accounts (s.clock - 5 * minute) s.file.recent (s.admissions ++ Phase.sent.pending)
    rw [hlist]
    exact h.file

theorem cool_le (state : HostState) (time : Int) :
    state.cooldownUntil ≤ (state.cool time).cooldownUntil := le_later_left _ _

/-- An answer changes no record, and takes neither a pause nor a ban back. -/
theorem penalize_grows (t : Transport) (source : Source) (now : Int) (a : Answer)
    (state : HostState) :
    (t.penalize source now a state).recent = state.recent ∧
      state.nextAt ≤ (t.penalize source now a state).nextAt ∧
      state.cooldownUntil ≤ (t.penalize source now a state).cooldownUntil ∧
      (state.disabled = true → (t.penalize source now a state).disabled = true) := by
  unfold Transport.penalize HostState.cool
  dsimp only
  split_ifs <;> refine ⟨rfl, le_later_left _ _, ?_, fun hd => ?_⟩ <;>
    first
      | exact le_refl _
      | exact le_later_left _ _
      | exact (le_later_left _ _).trans (le_later_left _ _)
      | exact hd
      | rfl

theorem Inv.step (h : Inv source s) {a : Act} {s' : System} (hstep : s.Step source a s') :
    Inv source s' := by
  unfold System.Step System.step at hstep
  cases a with
  | wait d =>
      cases hstep
      exact h.wait d
  | start cfg =>
      dsimp only at hstep
      split_ifs at hstep
      cases hstep
      exact h.start _
  | markInitialized =>
      cases hstep
      exact ⟨h.next, h.cooldown, h.disabled, h.past, h.gaps, h.gate, h.file, h.fits, h.paced⟩
  | acquire cls path save =>
      dsimp only at hstep
      split_ifs at hstep with hidle
      cases hstep
      exact h.acquire hidle cls path save
  | confirm =>
      dsimp only at hstep
      split at hstep
      · rename_i a hphase
        split_ifs at hstep
        · cases hstep
          exact h.rest
        · cases hstep
          exact h.confirm hphase
      · cases hstep
  | abandon =>
      dsimp only at hstep
      split at hstep
      · cases hstep
        exact h.rest
      · cases hstep
  | send =>
      dsimp only at hstep
      split at hstep
      · rename_i a hphase
        cases hstep
        exact h.send hphase (le_later_left _ _)
      · cases hstep
  | answer a save =>
      dsimp only at hstep
      split at hstep
      · rename_i hphase
        cases hstep
        rcases penalize_grows s.transport source s.clock a s.gate.state with
          ⟨hrecent, hnext, hcooldown, hdisabled⟩
        have hset := h.setState (.inr hphase) hnext hcooldown hdisabled (hrecent ▸ h.gate)
        exact (hset.save (.inr hphase) save).rest
      · cases hstep
  | cooldown d save =>
      dsimp only at hstep
      split_ifs at hstep with hidle
      cases hstep
      have hset : Inv source (s.setState (s.gate.state.cool (s.clock + max d (5 * minute)))) :=
        h.setState (.inl hidle) (le_refl _) (cool_le _ _) id h.gate
      exact hset.save (.inl hidle) save
  | setWeightLimit limit save =>
      dsimp only at hstep
      split_ifs at hstep with hidle
      cases hstep
      have hset : Inv source (s.setState { s.gate.state with weightLimit := limit }) :=
        h.setState (.inl hidle.1) (le_refl _) (le_refl _) id h.gate
      exact hset.save (.inl hidle.1) save

/-! ## Runs -/

/-- What is stored stays stored. -/
structure Stored (s s' : System) : Prop where
  cooldown : s.file.cooldownUntil ≤ s'.file.cooldownUntil
  disabled : s.file.disabled = true → s'.file.disabled = true

theorem Stored.refl (s : System) : Stored s s := ⟨le_refl _, id⟩

theorem Stored.trans {s s' s'' : System} (h : Stored s s') (h' : Stored s' s'') : Stored s s'' :=
  ⟨h.cooldown.trans h'.cooldown, fun hd => h'.disabled (h.disabled hd)⟩

/-- The file is as it was, or as the gate that is not behind it. -/
theorem Inv.stored_save (h : Inv source s) (state : HostState)
    (hcooldown : s.gate.state.cooldownUntil ≤ state.cooldownUntil)
    (hdisabled : s.gate.state.disabled = true → state.disabled = true) (save : Save) :
    Stored s ((s.setState state).save save) ∧
      ((s.setState state).save save).admissions = s.admissions := by
  have hstate : s.file.cooldownUntil ≤ state.cooldownUntil ∧
      (s.file.disabled = true → state.disabled = true) :=
    ⟨h.cooldown.trans hcooldown, fun hd => hdisabled (h.disabled hd)⟩
  unfold System.save System.setState
  split_ifs
  · exact ⟨⟨le_refl _, id⟩, rfl⟩
  · cases save with
    | ok => exact ⟨⟨hstate.1, hstate.2⟩, rfl⟩
    | failed renamed =>
        dsimp only
        split_ifs
        · exact ⟨⟨hstate.1, hstate.2⟩, rfl⟩
        · exact ⟨⟨le_refl _, id⟩, rfl⟩

theorem Inv.stored_reserve (h : Inv source s) (cls : Class) (weight : Nat) (save : Save) :
    Stored s (s.reserve source cls weight save) ∧
      (s.reserve source cls weight save).admissions = s.admissions := by
  unfold System.reserve
  dsimp only
  generalize hstate : ({ s.gate.state with
    recent := s.gate.state.recent ++ [⟨s.clock, cls, weight⟩],
    nextAt := s.clock + s.transport.spacing source s.clock } : HostState) = state
  have hcooldown : s.gate.state.cooldownUntil ≤ state.cooldownUntil := by rw [← hstate]
  have hdisabled : s.gate.state.disabled = true → state.disabled = true := by
    rw [← hstate]
    exact id
  have hsaved := h.stored_save state hcooldown hdisabled save
  split_ifs
  · exact ⟨⟨hsaved.1.cooldown, hsaved.1.disabled⟩, hsaved.2⟩
  · exact hsaved

/-- A step forgets nothing that is stored, and admits the reserved request at most. -/
theorem Inv.stored_step (h : Inv source s) {a : Act} {s' : System} (hstep : s.Step source a s') :
    Stored s s' ∧ (s'.admissions = s.admissions ∨
      ∃ b, s.phase = .reserved b ∧ s'.admissions = s.admissions ++ [b]) := by
  unfold System.Step System.step at hstep
  cases a with
  | acquire cls path save =>
      dsimp only at hstep
      split_ifs at hstep with hidle
      cases hstep
      unfold System.acquire
      split_ifs
      · exact ⟨Stored.refl _, .inl rfl⟩
      · dsimp only
        split_ifs
        · exact ⟨⟨le_refl _, id⟩, .inl rfl⟩
        · have hreserved := (h.forget hidle).stored_reserve cls (requestWeight source path) save
          exact ⟨⟨hreserved.1.cooldown, hreserved.1.disabled⟩, .inl hreserved.2⟩
  | answer a save =>
      dsimp only at hstep
      split at hstep
      · cases hstep
        rcases penalize_grows s.transport source s.clock a s.gate.state with
          ⟨-, -, hcooldown, hdisabled⟩
        have hsaved := h.stored_save _ hcooldown hdisabled save
        exact ⟨⟨hsaved.1.cooldown, hsaved.1.disabled⟩, .inl hsaved.2⟩
      · cases hstep
  | cooldown d save =>
      dsimp only at hstep
      split_ifs at hstep
      cases hstep
      have hsaved := h.stored_save (s.gate.state.cool (s.clock + max d (5 * minute)))
        (cool_le _ _) id save
      exact ⟨hsaved.1, .inl hsaved.2⟩
  | setWeightLimit limit save =>
      dsimp only at hstep
      split_ifs at hstep
      cases hstep
      have hsaved := h.stored_save { s.gate.state with weightLimit := limit } (le_refl _) id save
      exact ⟨hsaved.1, .inl hsaved.2⟩
  | confirm =>
      dsimp only at hstep
      split at hstep
      · rename_i b hphase
        split_ifs at hstep
        · cases hstep
          exact ⟨⟨le_refl _, id⟩, .inl rfl⟩
        · cases hstep
          exact ⟨⟨le_refl _, id⟩, .inr ⟨b, hphase, rfl⟩⟩
      · cases hstep
  | wait d =>
      cases hstep
      exact ⟨⟨le_refl _, id⟩, .inl rfl⟩
  | markInitialized =>
      cases hstep
      exact ⟨⟨le_refl _, id⟩, .inl rfl⟩
  | _ =>
      dsimp only at hstep
      split at hstep
      all_goals cases hstep
      exact ⟨⟨le_refl _, id⟩, .inl rfl⟩

/-- Of a request that is admitted later, what is stored now is checked. -/
theorem Inv.later_admissions {s s' : System} (h : Inv source s) {as : List Act}
    (hrun : Transition.Run (System.Step source) s as s') :
    ∃ later, s'.admissions = s.admissions ++ later ∧
      ∀ a ∈ later, s.file.cooldownUntil ≤ a.request.At ∧ s.file.disabled = false := by
  induction hrun with
  | nil s => exact ⟨[], (List.append_nil _).symm, fun a ha => absurd ha List.not_mem_nil⟩
  | cons hstep hrest ih =>
      rename_i s₀ s₁ s₂ a as
      rcases h.stored_step hstep with ⟨hstored, hadmits⟩
      rcases ih (h.step hstep) with ⟨later, hlater, hall⟩
      have hkept : ∀ a ∈ later,
          s₀.file.cooldownUntil ≤ a.request.At ∧ s₀.file.disabled = false := by
        intro a ha
        rcases hall a ha with ⟨hcooldown, hopen⟩
        refine ⟨hstored.cooldown.trans hcooldown, Bool.eq_false_of_not_eq_true fun hd => ?_⟩
        rw [hstored.disabled hd] at hopen
        cases hopen
      rcases hadmits with hsame | ⟨b, hphase, hnew⟩
      · exact ⟨later, by rw [hlater, hsame], hkept⟩
      · have hfits := h.fits
        unfold Fits at hfits
        rw [hphase] at hfits
        rcases hfits with ⟨-, -, hcooldown, hopen⟩
        refine ⟨b :: later, by rw [hlater, hnew, List.append_assoc]; rfl, ?_⟩
        rw [List.forall_mem_cons]
        exact ⟨⟨hcooldown, hopen⟩, hkept⟩

/-- Whatever requests, answers, penalties, failed writes and restarts follow each other: each
admission keeps to the caps of every window and to the spacing of its class, with the times of
those before it cut to the microsecond; and none comes within a cooldown, or after a ban, that was
stored before. -/
theorem quotas_survive {cfg : TransportConfig} {clock : Int} {as : List Act} {s : System}
    (hrun : Transition.Run (System.Step source) (System.initial cfg clock) as s) :
    (∀ earlier a rest, s.admissions = earlier ++ a :: rest → Admissible source earlier a) ∧
      ∀ as' s', Transition.Run (System.Step source) s as' s' →
        ∃ later, s'.admissions = s.admissions ++ later ∧
          ∀ a ∈ later, s.file.cooldownUntil ≤ a.request.At ∧ s.file.disabled = false := by
  have h : Inv source s :=
    hrun.invariant (Inv source) (inv_initial cfg clock) fun _ _ _ hstep hinv => hinv.step hstep
  exact ⟨h.paced, fun as' s' hrun' => h.later_admissions hrun'⟩

/-- The original caps and gaps. -/
def plainConfig : TransportConfig := ⟨false, 0, 0, 0, 0, 5 * second⟩

/-- A quoter is let through half a microsecond after a whole one, and another a second after that
whole microsecond. -/
def twoQuoters : List Act :=
  [.wait 100000000500, .markInitialized, .acquire .quoter "/" .ok, .confirm, .send,
    .answer ⟨200, false, false, false, none, 0, none⟩ .ok, .wait 999999500,
    .acquire .quoter "/" .ok, .confirm]

theorem quotas_survive_quoters :
    ∃ s, Transition.Run (System.Step .rpc) (System.initial plainConfig 0) twoQuoters s ∧
      s.admissions.length = 2 ∧
      ∀ earlier a rest, s.admissions = earlier ++ a :: rest → Admissible .rpc earlier a := by
  have hrun : ∃ s, Transition.Run (System.Step .rpc) (System.initial plainConfig 0) twoQuoters s ∧
      s.admissions.length = 2 :=
    ⟨_, .cons rfl (.cons rfl (.cons rfl (.cons rfl (.cons rfl (.cons rfl (.cons rfl (.cons rfl
      (.cons rfl (.nil _))))))))), rfl⟩
  rcases hrun with ⟨s, hrun, hlength⟩
  exact ⟨s, hrun, hlength, (quotas_survive hrun).1⟩

/-- The source bans the client, and the ban cannot be stored. -/
def lostBan : List Act :=
  [.wait 100000000000, .acquire .normal "/" .ok, .confirm, .send,
    .answer ⟨403, false, false, false, none, 0, none⟩ (.failed false)]

def afterRestart : List Act :=
  [.start plainConfig, .wait 2000000000, .acquire .normal "/" .ok, .confirm]

/-- The second quoter comes less than a second after the first; and a ban that was not stored is
gone after a restart. -/
theorem quoter_spacing_undercut :
    (∃ s a b, Transition.Run (System.Step .rpc) (System.initial plainConfig 0) twoQuoters s ∧
      s.admissions = [a, b] ∧ a.request.cls = .quoter ∧ b.request.cls = .quoter ∧
      b.request.At < a.request.At + second) ∧
    ∃ s s', Transition.Run (System.Step .rpc) (System.initial plainConfig 0) lostBan s ∧
      s.gate.state.disabled = true ∧ Transition.Run (System.Step .rpc) s afterRestart s' ∧
      s.admissions.length < s'.admissions.length :=
  ⟨⟨_, _, _, .cons rfl (.cons rfl (.cons rfl (.cons rfl (.cons rfl (.cons rfl (.cons rfl (.cons rfl
    (.cons rfl (.nil _))))))))), rfl, rfl, rfl, by decide⟩,
    _, _, .cons rfl (.cons rfl (.cons rfl (.cons rfl (.cons rfl (.nil _))))), rfl,
    .cons rfl (.cons rfl (.cons rfl (.cons rfl (.nil _)))), by decide⟩

end MarketInfo.Lst
