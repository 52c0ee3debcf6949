import MarketInfo.DexRuntime.OwnerSteps

/-! # The state mirrors the database

Whatever the workers do, whichever of their calls fail, and wherever the process is
stopped and opened again: one worker at a time has the lease on a key, the operations
of a key are applied before another of them is begun, the rows that are applied never
fall behind, and a state with nothing open has the intervals of the current rows.
-/

namespace MarketInfo.DexRuntime

variable {m : Hash} {r r' : Runtime}

/-! ## The steps of a worker -/

theorem key_of_identity {f g : FrozenWrite} (h : f.identity = g.identity) : f.key = g.key :=
  congrArg (fun i => i.2.1) h

theorem find_some {id : Identity} {e : Entry} (h : r.find id = some e) :
    e ∈ r.entries ∧ e.op.id = id := by
  unfold Runtime.find at h
  exact ⟨List.mem_of_find?_eq_some h, by simpa using List.find?_some h⟩

theorem find_none {id : Identity} (h : r.find id = none) : ∀ e ∈ r.entries, e.op.id ≠ id := by
  intro e he
  unfold Runtime.find at h
  simpa using List.find?_eq_none.mp h e he

/-- What the admission finds is the only operation of the key that is to be applied. -/
theorem Inv.found (h : Inv m r) (hmode : r.mode = .running) {k : BlockKey}
    (id : Identity) {e : Entry} (he : e ∈ r.entries) (hkey : e.key = k) (happ : e.applied = false) :
    r.find ((r.pending k).getD id) = some e := by
  have hdown := not_down hmode
  rcases h.pending hdown e he happ with hpending | ⟨hpoisoned, -⟩
  · rw [← hkey, hpending, Option.getD_some]
    cases hfind : r.find e.op.id with
    | none => exact absurd rfl (find_none hfind e he)
    | some x =>
        rcases find_some hfind with ⟨hx, hid⟩
        rw [h.entries.unique x hx e he hid]
  · rw [hmode] at hpoisoned
    cases hpoisoned

theorem Inv.admission (h : Inv m r) (hmode : r.mode = .running) {w : Nat}
    (hstep : r.admission w = some r') : Inv m r' := by
  have hdown := not_down hmode
  unfold Runtime.admission at hstep
  split at hstep
  · rename_i f hw
    have hpoison : Inv m (r.poison.goTo w .idle) :=
      (h.poison hdown).goTo w (fun k hk => by cases hk) trivial
    split_ifs at hstep with hconflict hbusy
    · cases hstep
      exact hpoison
    · cases hstep
      exact h.goTo w (fun k hk => by cases hk) trivial
    · rw [not_or, not_ne_iff, h.stateManifest] at hconflict
      have hfound := fun e he hkey happ =>
        h.found (k := f.key) (e := e) hmode f.identity he hkey happ
      split at hstep
      · -- nothing of the key is to be applied
        rename_i hfind
        cases hstep
        refine h.take hdown hbusy rfl ⟨hconflict.1, fun e he hkey => ?_⟩
        by_contra happ
        rw [hfound e he hkey (Bool.eq_false_of_not_eq_true happ)] at hfind
        cases hfind
      · rename_i e hfind
        have he := find_some hfind
        split_ifs at hstep with hother
        · cases hstep
          exact hpoison
        · cases hstep
          -- the operation has the worker's key, be it pending or the worker's own
          have hkey : e.op.payload.key = f.key := by
            have hid := h.entries.id e he.1
            rw [he.2] at hid
            cases hpending : r.pending f.key with
            | none =>
                rw [hpending, Option.getD_none] at hid
                exact (key_of_identity hid).symm
            | some id =>
                rw [hpending, Option.getD_some] at hid
                rw [← h.marked f.key id hpending, hid]
                rfl
          refine h.take hdown hbusy rfl ⟨h.entries.id e he.1, hkey, h.entries.manifest e he.1, ?_,
            fun x hx hxk happ => ?_⟩
          · by_cases happ : e.applied = true
            · exact .inr (h.entries.reached e he.1 happ)
            · exact .inl ⟨e, he.1, rfl, Bool.eq_false_of_not_eq_true happ⟩
          · rw [hfound x hx hxk happ] at hfind
            rw [Option.some.inj hfind]
  · cases hstep

theorem Inv.inspect (h : Inv m r) {w : Nat} {ok : Bool} (hstep : r.inspect w ok = some r') :
    Inv m r' := by
  unfold Runtime.inspect at hstep
  split at hstep
  · rename_i f hw
    have hknows := h.worker hw
    have hlease : ∀ k, some f.key = some k → (r.workers w).lease = some k := fun k hk => by
      rw [hw]
      exact hk
    have hrelease : Inv m (r.goTo w (.release f)) := h.goTo w hlease trivial
    have hbegin : ∀ x, Inv m (r.goTo w (.begin f { f with expected := x })) := fun x =>
      h.goTo w hlease ⟨hknows.1, rfl, rfl, hknows.2⟩
    split at hstep
    · cases hstep
      exact hrelease
    · split at hstep
      · cases hstep
        exact hbegin f.expected
      · split at hstep
        · cases hstep
          exact hrelease
        · split at hstep
          · cases hstep
            exact hbegin _
          · split at hstep
            · cases hstep
              exact hrelease
            · cases hstep
              exact hbegin f.expected
  · cases hstep

theorem Inv.begin (h : Inv m r) (hmode : r.mode = .running) {w : Nat} {fault : Option Bool}
    (hstep : r.begin w fault = some r') : Inv m r' := by
  have hdown := not_down hmode
  unfold Runtime.begin at hstep
  split at hstep
  · rename_i f selected hw
    rcases h.worker hw with ⟨hmanifest, hblock, hidentity, hsettled⟩
    have hlease : (r.workers w).lease = some f.key := lease_of hw
    have hwait : Inv m (r.goTo w (.release f)) := h.goTo w (fun k hk => hlease.trans hk) trivial
    have hpoison : Inv m (r.poison.goTo w (.release f)) :=
      (h.poison hdown).goTo w (fun k hk => hlease.trans hk) trivial
    split at hstep
    · -- the operation is retained from before, and applied
      rename_i e hfind
      split_ifs at hstep with hsame
      · cases hstep
        rcases find_some hfind with ⟨he, hid⟩
        have heid := h.entries.id e he
        have hekey : e.op.payload.key = f.key := key_of_identity (heid.symm.trans hid)
        have happ := hsettled e he hekey
        have hnone : ∀ x ∈ r.entries, x.key = f.key → x.applied = false → False := by
          intro x hx hxk hxa
          rw [hsettled x hx hxk] at hxa
          cases hxa
        refine (h.pend (k := f.key) (v := some f.identity) (fun id hid => ?_) fun x hx hxk hxa =>
          (hnone x hx hxk hxa).elim).goTo w (fun k hk => hlease.trans hk) ?_
        · cases hid
          rfl
        · exact ⟨heid, hekey, h.entries.manifest e he, .inr (h.entries.reached e he happ),
            fun x hx hxk hxa => (hnone x hx hxk hxa).elim⟩
      · cases hstep
        exact hpoison
    · rename_i hfind
      have hskey : selected.key = f.key := by rw [FrozenWrite.key, hblock, FrozenWrite.key]
      have hsmanifest : selected.block.manifest = m := by rw [hblock, hmanifest]
      -- the worker steps aside while its operation is noted
      have hnote : ∀ {mode : Mode} {pending : BlockKey → Option Identity},
          mode ≠ .down →
          (∀ k id, pending k = some id → id.2.1 = k) →
          (∀ k, k ≠ f.key → pending k = r.pending k) →
          (pending f.key = some f.identity ∨ mode = .poisoned) →
          Inv m (Runtime.goTo { r with
            mode, pending, issued := r.issued + 1,
            entries := r.entries ++ [⟨⟨r.issued + 1, f.identity, selected⟩, false, false⟩] } w
            (.release f)) := by
        intro mode pending hne hmarked hother hself
        refine hwait.note hidentity.symm hsmanifest (find_none (r := r) hfind)
          (fun w' hw' => ?_) hne
          hmarked fun e he happ => ?_
        · have hsingle : w' = w := by
            refine hwait.single w' w f.key (hskey ▸ hw') ?_
            rw [goTo_self]
            rfl
          subst hsingle
          exact ⟨f, goTo_self ..⟩
        · change pending e.key = some e.op.id ∨ (mode = .poisoned ∧ r.inflight e.key = true)
          have hheld : r.inflight f.key = true := h.leased w f.key hlease
          rcases List.mem_append.mp he with hold | hnew
          · have hekey : e.key ≠ f.key := fun hk => by
              rw [hsettled e hold hk] at happ
              cases happ
            rw [hother _ hekey]
            rcases h.pending hdown e hold happ with hpending | ⟨hpoisoned, -⟩
            · exact .inl hpending
            · rw [hmode] at hpoisoned
              cases hpoisoned
          · rw [List.mem_singleton.mp hnew]
            have hekey : (⟨⟨r.issued + 1, f.identity, selected⟩, false, false⟩ : Entry).key =
                f.key := hskey
            rw [hekey]
            exact hself.imp id fun hpoisoned => ⟨hpoisoned, hheld⟩
      dsimp only at hstep
      split at hstep
      · -- the operation is begun
        cases hstep
        have hdone : Inv m (Runtime.goTo { r with
            issued := r.issued + 1,
            pending := Function.update r.pending f.key (some f.identity),
            entries := r.entries ++ [⟨⟨r.issued + 1, f.identity, selected⟩, false, false⟩] } w
            (.release f)) := by
          refine hnote hdown (fun k id hid => ?_) (fun k hk => Function.update_of_ne hk ..)
            (.inl (Function.update_self ..))
          by_cases hk : k = f.key
          · subst hk
            rw [Function.update_self] at hid
            cases hid
            rfl
          · rw [Function.update_of_ne hk] at hid
            exact h.marked k id hid
        rw [← goTo_goTo _ w (.release f)]
        refine hdone.goTo w (fun k hk => ?_) ⟨hidentity.symm, hskey, hsmanifest,
          .inl ⟨_, List.mem_append_right _ (List.mem_singleton_self _), rfl, rfl⟩,
          fun x hx hxk hxa => ?_⟩
        · rw [goTo_self]
          exact hk
        · rcases List.mem_append.mp hx with hold | hnew
          · rw [hsettled x hold hxk] at hxa
            cases hxa
          · rw [List.mem_singleton.mp hnew]
      · -- the operation is durable, but its owner gives up
        cases hstep
        exact hnote (by simp) h.marked (fun _ _ => rfl) (.inr rfl)
      · cases hstep
        exact hpoison
  · cases hstep

theorem Inv.write (h : Inv m r) {w : Nat} {effect ok : Bool}
    (hstep : r.write w effect ok = some r') : Inv m r' := by
  unfold Runtime.write at hstep
  split at hstep
  · rename_i f op hw
    have hholds : Holds m r f op := h.worker hw
    have hlease : (r.workers w).lease = some f.key := lease_of hw
    have hfailed : Inv m (r.goTo w (.settle f op none)) :=
      h.goTo w (fun k hk => hlease.trans hk) hholds
    split at hstep
    · cases hstep
      exact hfailed
    · rename_i rows hput
      -- a worker that has read the row of this key is this worker
      have hwritten : Inv m { r with rows } := by
        refine h.put hput hholds.manifest hholds.known fun w' f' op' b hw' heq => ?_
        have hlease' : (r.workers w').lease = some f.key := by
          rw [hw', ← hholds.key, ← heq]
          rfl
        rw [h.single w' w f.key hlease' hlease, hw] at hw'
        cases hw'
      have hholds' : Holds m { r with rows } f op := hwritten.worker hw
      split_ifs at hstep
      · cases hstep
        exact hwritten.goTo w (fun k hk => hlease.trans hk) ⟨hholds', put_reached hput⟩
      · cases hstep
        exact hwritten.goTo w (fun k hk => hlease.trans hk) hholds'
      · cases hstep
        exact hfailed
  · cases hstep

theorem Inv.reread (h : Inv m r) {w : Nat} {ok : Bool} (hstep : r.reread w ok = some r') :
    Inv m r' := by
  unfold Runtime.reread at hstep
  split at hstep
  · rename_i f op hw
    rcases h.worker hw with ⟨hholds, hreached⟩
    have hlease : (r.workers w).lease = some f.key := lease_of hw
    cases hstep
    refine h.goTo w (fun k hk => hlease.trans ?_) ?_
    · split_ifs at hk <;> exact hk
    · split_ifs
      · cases hrow : r.rows op.payload.key with
        | none => exact hholds
        | some b => exact ⟨hholds, hreached, by rw [← hholds.key, hrow]⟩
      · exact hholds
  · cases hstep

theorem Inv.late (h : Inv m r) {i : Nat} (hstep : r.late i = some r') : Inv m r' := by
  unfold Runtime.late at hstep
  split at hstep
  · cases hstep
  · rename_i e he
    have hmem := List.mem_of_getElem? he
    rcases Option.map_eq_some_iff.mp hstep with ⟨rows, hput, rfl⟩
    by_cases hreached : Reached r.rows e.op.payload.block
    · rw [put_again hput hreached]
      exact h
    · have happ : e.applied = false :=
        Bool.eq_false_of_not_eq_true fun happ => hreached (h.entries.reached e hmem happ)
      refine h.put hput (h.entries.manifest e hmem) (.inl ⟨e, hmem, rfl, happ⟩)
        fun w f op b hw heq => hreached ?_
      -- a worker that has read the row of this key has written it
      rcases h.worker hw with ⟨hholds, hread, -⟩
      rwa [hholds.only e hmem heq.symm happ]

/-- The row that a worker gives to the owner is accepted. -/
theorem Inv.accepted (h : Inv m r) {k : BlockKey} {b : Block} (hb : r.rows k = some b) :
    ∃ s, r.state.apply b = .ok s := by
  rw [← h.rows.key k b hb] at hb
  rcases h.state.apply h.stateManifest h.rows hb with ⟨s, hs, -⟩
  exact ⟨s, hs⟩

theorem Inv.settle (h : Inv m r) (hmode : r.mode = .running) {w : Nat}
    (hstep : r.settle w = some r') : Inv m r' := by
  have hdown := not_down hmode
  unfold Runtime.settle at hstep
  split at hstep
  · -- the outcome is unknown
    rename_i f op hw
    have hholds : Holds m r f op := h.worker hw
    have hlease : (r.workers w).lease = some f.key := lease_of hw
    cases hstep
    have hpend : Inv m { r with pending := Function.update r.pending f.key (some op.id) } := by
      refine h.pend (fun id hid => ?_) fun e he hkey happ => ?_
      · cases hid
        rw [hholds.id, ← hholds.key]
        rfl
      · rw [hholds.only e he hkey happ]
    exact hpend.drop hmode hlease rfl
  · rename_i f op b hw
    rcases h.worker hw with ⟨hholds, hreached, hrow⟩
    have hlease : (r.workers w).lease = some f.key := lease_of hw
    rcases h.accepted hrow with ⟨s, happly⟩
    rw [happly] at hstep
    dsimp only at hstep
    -- its own operation was the only one of the key that was to be applied
    have hdone : ∀ p : Phase, p.lease = none → Inv m (Runtime.goTo { r.hold f.key false with
        state := s, entries := r.entries.map (DexRuntime.mark op),
        pending := Function.update r.pending f.key none } w p) := by
      intro p hp
      have hmark := h.mark (hholds.key ▸ hrow) happly hreached
      have hpend := hmark.pend (k := f.key) (v := none) (fun id hid => by cases hid)
        fun e' he' hkey happ => ?_
      · exact hpend.drop hmode hlease hp
      · rcases List.mem_map.mp he' with ⟨e, he, rfl⟩
        rcases mark_unapplied happ with ⟨hsame, hop⟩
        rw [hsame] at hkey happ
        exact absurd (hholds.only e he hkey happ) hop
    split_ifs at hstep with hretained hown
    all_goals cases hstep
    · exact hdone .idle rfl
    · exact hdone (.admission f) rfl
    · -- the operation is not retained any more
      have hinstall : Inv m { r with state := s } :=
        h.install hrow happly h.entries (fun e he _ => he) (fun e he _ => .inl he) fun _ hj => hj
      exact (hinstall.drop hmode hlease rfl).poison hdown
  · cases hstep

/-! ## Runs -/

/-- The row of the operation that is executed again. -/
theorem Inv.again (h : Inv m r) (hmode : r.mode = .down) {e : Entry}
    (hfind : r.entries.find? (fun e => ¬ e.applied) = some e) {rows : Rows}
    (hput : DexRuntime.put r.rows e.op.payload.block = some rows) : Inv m { r with rows } := by
  have he := List.mem_of_find?_eq_some hfind
  have happ : e.applied = false := by simpa using List.find?_some hfind
  refine h.put hput (h.entries.manifest e he) (.inl ⟨e, he, rfl, happ⟩) fun w f op b hw => ?_
  have hfree := h.free hmode w
  rw [hw] at hfree
  cases hfree

theorem Inv.replay (h : Inv m r) (hmode : r.mode = .down) {effect ok : Bool}
    (hstep : r.replay effect ok = some r') : Inv m r' := by
  unfold Runtime.replay at hstep
  split at hstep
  · cases hstep
  · rename_i e hfind
    split at hstep
    · cases hstep
      exact h.crash
    · rename_i rows hput
      have hwritten := h.again hmode hfind hput
      split_ifs at hstep with hok heffect
      · split at hstep
        · cases hstep
          exact hwritten.crash
        · rename_i actual hrow
          rcases hwritten.accepted hrow with ⟨s, happly⟩
          rw [show r.state.apply actual = .ok s from happly] at hstep
          cases hstep
          exact hwritten.mark hrow happly (put_reached hput)
      · cases hstep
        exact hwritten.crash
      · cases hstep
        exact h.crash

theorem Inv.step (h : Inv m r) {a : Act} (hstep : r.Step a r') : Inv m r' := by
  unfold Runtime.Step Runtime.step at hstep
  cases a with
  | propose w f =>
      dsimp only at hstep
      split_ifs at hstep
      cases hstep
      exact h.goTo w (fun k hk => by cases hk) trivial
  | admission w =>
      dsimp only at hstep
      split_ifs at hstep with hmode
      exact h.admission hmode hstep
  | inspect w ok => exact h.inspect hstep
  | begin w fault =>
      dsimp only at hstep
      split_ifs at hstep with hmode
      exact h.begin hmode hstep
  | release w =>
      dsimp only at hstep
      split at hstep
      · rename_i f hw
        split_ifs at hstep with hmode
        cases hstep
        exact h.drop hmode (by rw [hw]; rfl) rfl
      · cases hstep
  | cancel w =>
      have hidle : Inv m (r.goTo w .idle) := h.goTo w (fun k hk => by cases hk) trivial
      dsimp only at hstep
      split at hstep
      · cases hstep
        exact hidle
      · rename_i f selected hw
        cases hstep
        exact h.goTo w (fun k hk => by rw [hw]; exact hk) trivial
      · split_ifs at hstep
        cases hstep
        exact hidle
      · split_ifs at hstep
        cases hstep
        exact hidle
      · cases hstep
  | write w effect ok => exact h.write hstep
  | reread w ok => exact h.reread hstep
  | late i => exact h.late hstep
  | settle w =>
      dsimp only at hstep
      split_ifs at hstep with hmode
      exact h.settle hmode hstep
  | checkpoint =>
      dsimp only at hstep
      split_ifs at hstep
      cases hstep
      exact h.checkpoint
  | poison =>
      dsimp only at hstep
      split_ifs at hstep with hmode
      cases hstep
      exact h.poison (by rw [hmode]; simp)
  | crash =>
      cases hstep
      exact h.crash
  | replay effect ok =>
      dsimp only at hstep
      split_ifs at hstep with hmode
      exact h.replay hmode hstep
  | opened =>
      dsimp only at hstep
      split_ifs at hstep with hopened
      cases hstep
      exact h.opened hopened.1 fun e he => List.all_eq_true.mp hopened.2 e he

/-- What a conversion leaves: each row of the database was applied to a fresh state, once. -/
def Converted (m : Hash) (rows : Rows) (s : State) : Prop :=
  ∃ binding bs, Steps (State.fresh binding m) bs s ∧ (bs.map key).Nodup ∧ ∀ k, rows k = latest bs k

theorem mem_of_latest {bs : List Block} {k : BlockKey} {b : Block} (h : latest bs k = some b) :
    b ∈ bs := by
  unfold latest at h
  exact List.mem_reverse.mp (List.mem_of_find?_eq_some h)

/-- The only block of a key is its last one. -/
theorem latest_of_mem {bs : List Block} (hnodup : (bs.map key).Nodup) {b : Block} (hb : b ∈ bs) :
    latest bs (key b) = some b := by
  cases hlatest : latest bs (key b) with
  | none =>
      unfold latest at hlatest
      have hnone := List.find?_eq_none.mp hlatest b (List.mem_reverse.mpr hb)
      simp at hnone
  | some c =>
      rw [List.inj_on_of_nodup_map hnodup (mem_of_latest hlatest) hb (key_of_latest hlatest)]

theorem apply_complete {s s' : State} {b : Block} (h : s.apply b = .ok s') :
    b.Complete ∧ b.manifest = s.manifest := by
  unfold State.apply at h
  rcases Check.seq_eq_ok.mp h with ⟨hvalid, -⟩
  rw [Check.failIf_eq_ok] at hvalid
  simp only [not_or, not_ne_iff, Bool.not_eq_false] at hvalid
  rcases hvalid with ⟨hmanifest, hchain, hcommitted, hnumber, hrevision, hhash⟩
  exact ⟨⟨hchain, hnumber, hhash, hrevision, hcommitted⟩, hmanifest⟩

theorem steps_complete {s t : State} {bs cs : List Block} (h : Exact bs s)
    (hsteps : Steps s cs t) : ∀ b ∈ cs, b.Complete ∧ b.manifest = s.manifest := by
  induction hsteps with
  | refl => exact fun b hb => absurd hb List.not_mem_nil
  | apply hprev happly ih =>
      intro b hb
      rcases List.mem_append.mp hb with hb | hb
      · exact ih b hb
      · rcases apply_complete happly with ⟨hcomplete, hmanifest⟩
        rw [List.mem_singleton.mp hb]
        exact ⟨hcomplete, hmanifest.trans (h.steps hprev).2.2.2⟩
  | verify _ ih => exact ih

theorem inv_initial {rows : Rows} {s : State} (h : Converted m rows s) :
    Inv m (Runtime.initial rows s) := by
  rcases h with ⟨binding, bs, hsteps, hnodup, hrows⟩
  rcases (exact_fresh binding m).steps hsteps with ⟨hexact, -, -, hmanifest⟩
  rw [List.nil_append] at hexact
  have hall := steps_complete (exact_fresh binding m) hsteps
  have hmirrors : ∀ done, Mirrors rows [] done s := fun done =>
    ⟨bs, hexact, fun k b hb => ⟨b, (hrows k).trans hb, UInt64.le_refl _⟩,
      fun b hb hfinal => ⟨b, (hrows _).trans (latest_of_mem hnodup hb), hfinal⟩,
      fun k _ => (hrows k).symm⟩
  refine ⟨⟨fun k b hb => ?_, fun k b hb => ?_, fun k b hb => ?_⟩, ⟨?_, ?_, ?_, ?_, ?_⟩, hmanifest,
    hmanifest, hmirrors _, hmirrors _, fun w k hk => ?_, fun w w' k hk => ?_, fun _ _ => rfl,
    fun k id hid => ?_, fun hne => absurd rfl hne, fun _ => trivial⟩
  · exact key_of_latest ((hrows k).symm.trans hb)
  · exact (hall b (mem_of_latest ((hrows k).symm.trans hb))).1
  · exact (hall b (mem_of_latest ((hrows k).symm.trans hb))).2
  all_goals first | (intro e he; cases he) | skip
  · cases hk
  · cases hk
  · cases hid

theorem Inv.run {as : List Act} (h : Inv m r) (hrun : Transition.Run Runtime.Step r as r') :
    Inv m r' :=
  hrun.invariant (Inv m) h fun _ _ _ hstep hinv => hinv.step hstep

/-! ## The rows that are applied -/

theorem admission_rows {w : Nat} (h : r.admission w = some r') : r'.rows = r.rows := by
  unfold Runtime.admission at h
  repeat' split at h
  all_goals cases h <;> rfl

theorem inspect_rows {w : Nat} {ok : Bool} (h : r.inspect w ok = some r') : r'.rows = r.rows := by
  unfold Runtime.inspect at h
  repeat' split at h
  all_goals cases h <;> rfl

theorem begin_rows {w : Nat} {fault : Option Bool} (h : r.begin w fault = some r') :
    r'.rows = r.rows := by
  unfold Runtime.begin at h
  repeat' split at h
  all_goals cases h <;> rfl

theorem settle_rows {w : Nat} (h : r.settle w = some r') : r'.rows = r.rows := by
  unfold Runtime.settle at h
  repeat' split at h
  all_goals cases h <;> rfl

theorem write_grows {w : Nat} {effect ok : Bool} (h : r.write w effect ok = some r') :
    Grows r.rows r'.rows := by
  unfold Runtime.write at h
  split at h
  · split at h
    · cases h
      exact Grows.refl _
    · rename_i rows hput
      split_ifs at h
      · cases h
        exact put_grows hput
      · cases h
        exact put_grows hput
      · cases h
        exact Grows.refl _
  · cases h

theorem late_grows {i : Nat} (h : r.late i = some r') : Grows r.rows r'.rows := by
  unfold Runtime.late at h
  split at h
  · cases h
  · rcases Option.map_eq_some_iff.mp h with ⟨rows, hput, rfl⟩
    exact put_grows hput

theorem replay_grows {effect ok : Bool} (h : r.replay effect ok = some r') :
    Grows r.rows r'.rows := by
  unfold Runtime.replay at h
  split at h
  · cases h
  · split at h
    · cases h
      exact Grows.refl _
    · rename_i rows hput
      have hgrows := put_grows hput
      split_ifs at h
      · split at h
        · cases h
          exact hgrows
        · split at h
          · cases h
            exact hgrows
          · cases h
            exact hgrows
      · cases h
        exact hgrows
      · cases h
        exact Grows.refl _

theorem step_grows {a : Act} (h : r.Step a r') : Grows r.rows r'.rows := by
  have hsame : r'.rows = r.rows → Grows r.rows r'.rows := fun heq => heq ▸ Grows.refl _
  unfold Runtime.Step Runtime.step at h
  cases a with
  | admission w =>
      dsimp only at h
      split_ifs at h
      exact hsame (admission_rows h)
  | inspect w ok => exact hsame (inspect_rows h)
  | begin w fault =>
      dsimp only at h
      split_ifs at h
      exact hsame (begin_rows h)
  | write w effect ok => exact write_grows h
  | reread w ok =>
      refine hsame ?_
      unfold Runtime.reread at h
      dsimp only at h
      split at h
      all_goals cases h <;> rfl
  | late i => exact late_grows h
  | settle w =>
      dsimp only at h
      split_ifs at h
      exact hsame (settle_rows h)
  | replay effect ok =>
      dsimp only at h
      split_ifs at h
      exact replay_grows h
  | crash =>
      cases h
      exact Grows.refl _
  | _ =>
      refine hsame ?_
      dsimp only at h
      repeat' split at h
      all_goals cases h <;> rfl

theorem run_grows {as : List Act} (hrun : Transition.Run Runtime.Step r as r') :
    Grows r.rows r'.rows := by
  induction hrun with
  | nil => exact Grows.refl _
  | cons hstep _ ih => exact (step_grows hstep).trans ih

/-- The row that a step gives to the state. -/
def Runtime.applies (r : Runtime) : Act → Option Block
  | .settle w =>
      match r.workers w with
      | .settle _ _ actual => if r.mode = .running then actual else none
      | _ => none
  | .replay _ ok =>
      match r.entries.find? fun e => ¬ e.applied with
      | some e =>
          if r.mode = .down ∧ ok = true then
            (put r.rows e.op.payload.block).bind fun rows => rows e.op.payload.key
          else none
      | none => none
  | _ => none

/-- A row that is applied is one of the database as the step leaves it. -/
theorem Inv.applies (h : Inv m r) {a : Act} {b : Block} (hb : r.applies a = some b) :
    ∃ rows, Grows r.rows rows ∧ rows (key b) = some b ∧ (∃ s, r.state.apply b = .ok s) ∧
      ∀ r', r.Step a r' → r'.rows = rows := by
  unfold Runtime.applies at hb
  split at hb
  · rename_i w
    split at hb
    · rename_i f op actual hw
      split_ifs at hb with hmode
      subst hb
      rcases h.worker hw with ⟨-, -, hrow⟩
      refine ⟨r.rows, Grows.refl _, ?_, h.accepted hrow, fun r' hstep => ?_⟩
      · rw [h.rows.key _ b hrow, hrow]
      · unfold Runtime.Step Runtime.step at hstep
        dsimp only at hstep
        rw [if_pos hmode] at hstep
        exact settle_rows hstep
    · cases hb
  · rename_i effect ok
    split at hb
    · rename_i e hfind
      split_ifs at hb with hcond
      rcases hcond with ⟨hmode, rfl⟩
      rcases Option.bind_eq_some_iff.mp hb with ⟨rows, hput, hrow⟩
      have hwritten := h.again hmode hfind hput
      refine ⟨rows, put_grows hput, ?_, hwritten.accepted hrow, fun r' hstep => ?_⟩
      · rw [hwritten.rows.key _ b hrow, hrow]
      · unfold Runtime.Step Runtime.step Runtime.replay at hstep
        dsimp only at hstep
        rw [if_pos hmode, hfind] at hstep
        dsimp only at hstep
        rw [hput] at hstep
        dsimp only at hstep
        rw [if_pos rfl, hrow] at hstep
        dsimp only at hstep
        split at hstep
        all_goals
          cases hstep
          rfl
    · cases hb
  · cases hb

/-- The intervals of a state that has every row of the database. -/
theorem Mirrors.covers {rows : Rows} {entries : List Entry} {done : Entry → Bool} {s : State}
    (h : Mirrors rows entries done s) (hrows : RowsOk m rows)
    (hsettled : ∀ k, Settled done entries k) :
    Merged s.coverage ∧ Merged s.finalized ∧
      (∀ n, Covers s.coverage n ↔
        ∃ k b, rows k = some b ∧ b.canonical = true ∧ b.number.toNat = n) ∧
      ∀ n, Covers s.finalized n ↔ ∃ k b, rows k = some b ∧ b.Final ∧ b.number.toNat = n := by
  rcases h with ⟨bs, hexact, -, hfinal, hlatest⟩
  have hfinalized : ∀ n, Covers s.finalized n ↔
      ∃ k b, rows k = some b ∧ b.Final ∧ b.number.toNat = n := by
    intro n
    rw [hexact.final]
    constructor
    · rintro ⟨b, hb, hbf, rfl⟩
      rcases hfinal b hb hbf with ⟨c, hc, hcf⟩
      exact ⟨key b, c, hc, hcf, congrArg UInt64.toNat (number_of_key (hrows.key _ c hc))⟩
    · rintro ⟨k, b, hb, hbf, rfl⟩
      rw [← hlatest k (hsettled k)] at hb
      exact ⟨b, mem_of_latest hb, hbf, rfl⟩
  refine ⟨hexact.coverage, hexact.finalized, fun n => ?_, hfinalized⟩
  have hactive : ∀ k, s.active.get k = (rows k).bind Block.kept := fun k => by
    rw [hexact.active, hlatest k (hsettled k)]
  rw [hexact.covers, recordsAt_pos, hfinalized]
  constructor
  · rintro (⟨k, o, ho, rfl⟩ | ⟨k, b, hb, hbf, rfl⟩)
    · rw [hactive] at ho
      rcases Option.bind_eq_some_iff.mp ho with ⟨b, hb, hkept⟩
      unfold Block.kept at hkept
      split_ifs at hkept with hb'
      cases hkept
      exact ⟨k, b, hb, hb'.1, rfl⟩
    · exact ⟨k, b, hb, hbf.1, rfl⟩
  · rintro ⟨k, b, hb, hcanonical, rfl⟩
    by_cases hbf : b.finality = "finalized"
    · exact .inr ⟨k, b, hb, ⟨hcanonical, hbf⟩, rfl⟩
    · left
      refine ⟨k, b.state, ?_, rfl⟩
      rw [hactive, hb, Option.bind_some, Block.kept, if_pos ⟨hcanonical, hbf⟩]

/-- In every interleaving of publications, with calls that fail and a process that is stopped and
opened again: at most one worker has the lease on a key, and at most one operation of a key is to
be applied; where one is begun, every operation of its key is applied; a row that is applied is
accepted, and is not older than one of its key that was applied before; and where no lease and no
mark is left, the intervals are those of the current rows, the same as a conversion would
compute. -/
theorem runtime_mirrors {rows : Rows} {s : State} (hconverted : Converted m rows s)
    {as : List Act} (hrun : Transition.Run Runtime.Step (Runtime.initial rows s) as r) :
    (∀ w w' k, (r.workers w).lease = some k → (r.workers w').lease = some k → w = w') ∧
      (r.mode = .running → ∀ e ∈ r.entries, ∀ e' ∈ r.entries, e.applied = false →
        e'.applied = false → e.op.payload.key = e'.op.payload.key → e = e') ∧
      (∀ w f selected, r.workers w = .begin f selected →
        ∀ e ∈ r.entries, e.op.payload.key = f.key → e.applied = true) ∧
      (∀ a b, r.applies a = some b → ∃ s', r.state.apply b = .ok s') ∧
      (∀ a b as' r' a' b', r.applies a = some b → Transition.Run Runtime.Step r (a :: as') r' →
        r'.applies a' = some b' → key b' = key b → b.revision ≤ b'.revision) ∧
      (r.mode ≠ .down → (∀ k, r.inflight k = false) → (∀ k, r.pending k = none) →
        (∀ n : UInt64, Covers r.state.coverage n.toNat ↔
          ∃ k b, r.rows k = some b ∧ b.canonical = true ∧ b.number = n) ∧
        (∀ n : UInt64, Covers r.state.finalized n.toNat ↔
          ∃ k b, r.rows k = some b ∧ b.Final ∧ b.number = n) ∧
        ∀ t, Converted m r.rows t →
          r.state.coverage = t.coverage ∧ r.state.finalized = t.finalized) := by
  have h := (inv_initial hconverted).run hrun
  refine ⟨h.single, fun hmode e he e' he' happ happ' hkey => ?_,
    fun w f selected hw e he hkey => ?_, fun a b hb => ?_,
    fun a b as' r' a' b' hb hrun' hb' hkey => ?_, fun hmode hinflight hpending => ?_⟩
  · have hfound := h.found hmode e.op.id he hkey happ
    have hfound' := h.found hmode e.op.id he' rfl happ'
    rw [show e'.key = e'.op.payload.key from rfl, hfound] at hfound'
    exact Option.some.inj hfound'
  · rcases h.worker hw with ⟨-, -, -, hsettled⟩
    exact hsettled e he hkey
  · rcases h.applies hb with ⟨-, -, -, hok, -⟩
    exact hok
  · rcases h.applies hb with ⟨rows₁, -, hrow, -, hleft⟩
    rcases (h.run hrun').applies hb' with ⟨rows₂, hgrows, hrow', -, -⟩
    cases hrun' with
    | cons hstep hrest =>
        have hall : Grows rows₁ rows₂ := by
          rw [← hleft _ hstep]
          exact (run_grows hrest).trans hgrows
        rcases hall _ b hrow with ⟨c, hc, hle, -⟩
        rw [← hkey, hrow'] at hc
        cases hc
        exact hle
  · have hsettled : ∀ k, Settled Entry.applied r.entries k := by
      intro k e he _
      by_contra happ
      rcases h.pending hmode e he (Bool.eq_false_of_not_eq_true happ) with hmark | ⟨-, hheld⟩
      · rw [hpending] at hmark
        cases hmark
      · rw [hinflight] at hheld
        cases hheld
    rcases h.state.covers h.rows hsettled with ⟨hmerged, hmerged', hcover, hfinal⟩
    refine ⟨fun n => ?_, fun n => ?_, fun t ht => ?_⟩
    · rw [hcover]
      simp only [UInt64.toNat_inj]
    · rw [hfinal]
      simp only [UInt64.toNat_inj]
    · have hstate := (inv_initial ht).state
      rcases hstate.covers h.rows (fun k e he => absurd he List.not_mem_nil) with
        ⟨hmergedt, hmergedt', hcovert, hfinalt⟩
      refine ⟨hmerged.ext hmergedt fun n => ?_, hmerged'.ext hmergedt' fun n => ?_⟩
      · rw [hcover]
        exact (hcovert n).symm
      · rw [hfinal]
        exact (hfinalt n).symm

def knownWrite : FrozenWrite :=
  ⟨.batch, knownBlock 5 (hashOf 1) 1 true "pending", hashOf 2, hashOf 3, 0⟩

/-- A batch is written, the answer is lost, and the process is stopped and opened again. -/
def knownCrash : List Act :=
  [.opened, .propose 0 knownWrite, .admission 0, .inspect 0 true, .begin 0 none, .write 0 true false,
    .crash, .replay true true, .opened]

theorem runtime_mirrors_crash :
    ∃ r, Transition.Run Runtime.Step
        (Runtime.initial (fun _ => none) (State.fresh knownBinding (hashOf 9))) knownCrash r ∧
      r.mode = .running ∧ Covers r.state.coverage 5 := by
  have hrun : ∃ r, Transition.Run Runtime.Step
      (Runtime.initial (fun _ => none) (State.fresh knownBinding (hashOf 9))) knownCrash r ∧
      r.mode = .running ∧ (∀ k, r.inflight k = false) ∧ (∀ k, r.pending k = none) ∧
      r.rows (key knownWrite.block) = some knownWrite.block :=
    ⟨_, .cons rfl (.cons rfl (.cons rfl (.cons rfl (.cons rfl (.cons rfl (.cons rfl (.cons rfl
      (.cons rfl (.nil _))))))))), rfl, fun _ => rfl, fun _ => rfl, rfl⟩
  rcases hrun with ⟨r, hrun, hmode, hinflight, hpending, hrow⟩
  have hconverted : Converted (hashOf 9) (fun _ => none) (State.fresh knownBinding (hashOf 9)) :=
    ⟨knownBinding, [], .refl _, List.nodup_nil, fun _ => rfl⟩
  rcases runtime_mirrors hconverted hrun with ⟨-, -, -, -, -, hcovers⟩
  have hopen : r.mode ≠ .down := by
    rw [hmode]
    simp
  rcases hcovers hopen hinflight hpending with ⟨hcoverage, -⟩
  exact ⟨r, hrun, hmode, (hcoverage 5).mpr ⟨_, _, hrow, rfl, rfl⟩⟩

end MarketInfo.DexRuntime
