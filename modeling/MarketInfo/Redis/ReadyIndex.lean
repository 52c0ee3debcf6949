import MarketInfo.Redis.NoLoss

/-! # The ready index, the window and the leases

The ready set lists the sealed batches and the window set committed ones. Every
script changes the indexes together with the state, so this holds whatever is
sent; the scripts of a lease do nothing for an owner who lost it.
-/

namespace MarketInfo

namespace Redis

/-! ## The indexes of one batch -/

structure IndexedAt (s : Store) (k : BatchKey) : Prop where
  ready : s.ready k ≠ none ↔ (s.batchAt k).state = some .sealed
  window : s.window k ≠ none → (s.batchAt k).state = some .committed
  /-- A batch without a digest holds at most a retry time. -/
  blank : (s.batchAt k).digest = none → (s.batchAt k).state = none
  /-- Only tombstones expire. -/
  expiring : (s.batchAt k).expiring = true → Closed (s.batchAt k).state

def Indexed (s : Store) : Prop := ∀ k, IndexedAt s k

theorem indexed_empty : Indexed {} := by
  intro k
  refine ⟨?_, ?_, fun _ => rfl, ?_⟩
  · constructor
    · intro h
      exact absurd rfl h
    · intro h
      cases h
  · intro h
    exact absurd rfl h
  · intro h
    cases h

theorem indexedAt_congr {s s' : Store} {k : BatchKey} (hbatch : s'.batch k = s.batch k)
    (hready : s'.ready k = s.ready k) (hwindow : s'.window k = s.window k) (h : IndexedAt s k) :
    IndexedAt s' k := by
  have hat : s'.batchAt k = s.batchAt k := by
    unfold Store.batchAt
    rw [hbatch]
  refine ⟨?_, ?_, ?_, ?_⟩
  · rw [hready, hat]
    exact h.ready
  · rw [hwindow, hat]
    exact h.window
  · rw [hat]
    exact h.blank
  · rw [hat]
    exact h.expiring

/-- Nothing but one batch and its index entries changed. -/
structure OnlyAt (s s' : Store) (k : BatchKey) : Prop where
  batch : ∀ k', k' ≠ k → s'.batch k' = s.batch k'
  ready : ∀ k', k' ≠ k → s'.ready k' = s.ready k'
  window : ∀ k', k' ≠ k → s'.window k' = s.window k'

theorem indexed_of_onlyAt {s s' : Store} {k : BatchKey} (hs : Indexed s) (h : OnlyAt s s' k)
    (hk : IndexedAt s' k) : Indexed s' := by
  intro k'
  by_cases heq : k' = k
  · rw [heq]
    exact hk
  · exact indexedAt_congr (h.batch k' heq) (h.ready k' heq) (h.window k' heq) (hs k')

/-- A change of the members and the leases alone. -/
theorem indexed_congr {s s' : Store} (hs : Indexed s) (hbatch : s'.batch = s.batch)
    (hready : s'.ready = s.ready) (hwindow : s'.window = s.window) : Indexed s' := by
  intro k
  refine indexedAt_congr ?_ ?_ ?_ (hs k)
  · rw [hbatch]
  · rw [hready]
  · rw [hwindow]

namespace Store

variable (s : Store) (k : BatchKey)

theorem onlyAt_setBatch (b : BatchHash) : OnlyAt s (s.setBatch k b) k := by
  refine ⟨?_, fun _ _ => rfl, fun _ _ => rfl⟩
  intro k' h
  exact Function.update_of_ne h _ _

theorem onlyAt_setReady (score : Option Int) : OnlyAt s (s.setReady k score) k := by
  refine ⟨fun _ _ => rfl, ?_, fun _ _ => rfl⟩
  intro k' h
  exact Function.update_of_ne h _ _

theorem onlyAt_setWindow (score : Option Int) : OnlyAt s (s.setWindow k score) k := by
  refine ⟨fun _ _ => rfl, fun _ _ => rfl, ?_⟩
  intro k' h
  exact Function.update_of_ne h _ _

theorem onlyAt_unlinkBatch : OnlyAt s (s.unlinkBatch k) k := by
  refine ⟨?_, fun _ _ => rfl, fun _ _ => rfl⟩
  intro k' h
  exact Function.update_of_ne h _ _

@[simp] theorem batchAt_setBatch (b : BatchHash) : (s.setBatch k b).batchAt k = b := by
  have h : (s.setBatch k b).batch k = some b := Function.update_self _ _ _
  unfold Store.batchAt
  rw [h]
  rfl

@[simp] theorem batchAt_unlinkBatch : (s.unlinkBatch k).batchAt k = {} := by
  have h : (s.unlinkBatch k).batch k = none := Function.update_self _ _ _
  unfold Store.batchAt
  rw [h]
  rfl

@[simp] theorem ready_setReady (score : Option Int) : (s.setReady k score).ready k = score :=
  Function.update_self _ _ _

@[simp] theorem window_setWindow (score : Option Int) : (s.setWindow k score).window k = score :=
  Function.update_self _ _ _

@[simp] theorem batchAt_setReady (score : Option Int) (k' : BatchKey) :
    (s.setReady k score).batchAt k' = s.batchAt k' := rfl

@[simp] theorem batchAt_setWindow (score : Option Int) (k' : BatchKey) :
    (s.setWindow k score).batchAt k' = s.batchAt k' := rfl

@[simp] theorem batchAt_setLease (owner : Option String) (k' : BatchKey) :
    (s.setLease k owner).batchAt k' = s.batchAt k' := rfl

@[simp] theorem batchAt_unlinkBooks (keys : List BookKey) (k' : BatchKey) :
    (s.unlinkBooks keys).batchAt k' = s.batchAt k' := rfl

end Store

theorem OnlyAt.trans {s s' s'' : Store} {k : BatchKey} (h : OnlyAt s s' k) (h' : OnlyAt s' s'' k) :
    OnlyAt s s'' k := by
  refine ⟨?_, ?_, ?_⟩
  · intro k' hk
    exact (h'.batch k' hk).trans (h.batch k' hk)
  · intro k' hk
    exact (h'.ready k' hk).trans (h.ready k' hk)
  · intro k' hk
    exact (h'.window k' hk).trans (h.window k' hk)

/-! ## The scripts keep the indexes -/

/-- A batch that was neither sealed nor committed is in no index. -/
theorem IndexedAt.absent {s : Store} {k : BatchKey} (h : IndexedAt s k)
    (hsealed : (s.batchAt k).state ≠ some .sealed)
    (hcommitted : (s.batchAt k).state ≠ some .committed) : s.ready k = none ∧ s.window k = none := by
  constructor
  · by_contra hno
    exact hsealed (h.ready.1 hno)
  · by_contra hno
    exact hcommitted (h.window hno)

/-- A batch in no index may have any state but sealed. -/
theorem indexedAt_absent {s : Store} {k : BatchKey} (hready : s.ready k = none)
    (hwindow : s.window k = none) (hsealed : (s.batchAt k).state ≠ some .sealed)
    (hblank : (s.batchAt k).digest = none → (s.batchAt k).state = none)
    (hexp : (s.batchAt k).expiring = true → Closed (s.batchAt k).state) : IndexedAt s k := by
  refine ⟨?_, ?_, hblank, hexp⟩
  · rw [hready]
    constructor
    · intro hno
      exact absurd rfl hno
    · intro hs
      exact absurd hs hsealed
  · rw [hwindow]
    intro hno
    exact absurd rfl hno

/-- An open batch does not expire. -/
theorem IndexedAt.not_expiring {s : Store} {k : BatchKey} (h : IndexedAt s k)
    (hopen : ¬ Closed (s.batchAt k).state) : (s.batchAt k).expiring ≠ true := by
  intro hexp
  exact hopen (h.expiring hexp)

theorem beginScript_indexed {s : Store} (hs : Indexed s) (k : BatchKey) (digest : String)
    (header : Header) : Indexed (beginScript s k digest header).1 := by
  unfold beginScript
  dsimp only
  split
  · exact hs
  · split
    · exact hs
    · split
      · exact hs
      · rename_i hopen
        split
        · rename_i hnone
          refine indexed_of_onlyAt hs (s.onlyAt_setBatch k _) ?_
          have hstate := (hs k).blank hnone
          have habsent : s.ready k = none ∧ s.window k = none := by
            refine (hs k).absent ?_ ?_
            · rw [hstate]
              nofun
            · rw [hstate]
              nofun
          refine indexedAt_absent habsent.1 habsent.2 ?_ ?_ ?_
          · rw [Store.batchAt_setBatch]
            nofun
          · rw [Store.batchAt_setBatch]
            nofun
          · rw [Store.batchAt_setBatch]
            intro hexp
            exact absurd hexp ((hs k).not_expiring hopen)
        · exact hs

theorem memberScript_indexed {s : Store} (hs : Indexed s) (m : BookKey) (k : BatchKey)
    (digest batchDigest : String) (fields : List (String × Bytes)) :
    Indexed (memberScript s m k digest batchDigest fields).1 := by
  unfold memberScript
  dsimp only
  split
  · exact hs
  · split
    · exact hs
    · split
      · exact hs
      · exact indexed_congr hs rfl rfl rfl

theorem sealScript_indexed {s : Store} (hs : Indexed s) (k : BatchKey)
    (members : List (BookKey × String)) (digest : String) (header : Header) (score : Int)
    (token : String) (payloadBytes : Nat) :
    Indexed (sealScript s k members digest header score token payloadBytes).1 := by
  unfold sealScript
  dsimp only
  split
  · exact hs
  · split
    · exact hs
    · split
      · exact hs
      · rename_i hopen
        have hexp := (hs k).not_expiring hopen
        split
        · -- a committed batch stays committed, and in its index
          rename_i hcommitted
          refine indexed_of_onlyAt hs (s.onlyAt_setBatch k _) ⟨?_, ?_, ?_, ?_⟩
          · rw [Store.batchAt_setBatch]
            exact (hs k).ready
          · rw [Store.batchAt_setBatch]
            exact (hs k).window
          · rw [Store.batchAt_setBatch]
            nofun
          · rw [Store.batchAt_setBatch]
            intro h
            exact absurd h hexp
        · rename_i hcommitted
          refine indexed_of_onlyAt hs ((s.onlyAt_setBatch k _).trans (Store.onlyAt_setReady _ k _))
            ⟨?_, ?_, ?_, ?_⟩
          · rw [Store.ready_setReady, Store.batchAt_setReady, Store.batchAt_setBatch]
            exact ⟨fun _ => rfl, fun _ => nofun⟩
          · intro hw
            exact absurd ((hs k).window hw) hcommitted
          · rw [Store.batchAt_setReady, Store.batchAt_setBatch]
            nofun
          · rw [Store.batchAt_setReady, Store.batchAt_setBatch]
            intro h
            exact absurd h hexp

theorem commitBatch_indexed {s : Store} (hs : Indexed s) (k : BatchKey) (digest : String)
    (minute : Int) : Indexed (commitBatch s k digest minute).1 := by
  unfold commitBatch
  dsimp only
  split
  · exact hs
  · rename_i hdigest
    split
    · exact hs
    · rename_i hstate
      have hopen : ¬ Closed (s.batchAt k).state := by
        rintro ⟨st, hst, hclosed⟩
        refine hstate ⟨?_, ?_⟩
        · rintro hs'
          obtain rfl := Option.some.inj (hst.symm.trans hs')
          exact hclosed trivial
        · rintro hs'
          obtain rfl := Option.some.inj (hst.symm.trans hs')
          exact hclosed trivial
      have honly : OnlyAt s ((((s.setBatch k { s.batchAt k with state := some .committed }).setReady k
          none).setWindow k (some minute)).setLease k none) k := by
        have h := ((s.onlyAt_setBatch k { s.batchAt k with state := some .committed }).trans
          (Store.onlyAt_setReady _ k none)).trans (Store.onlyAt_setWindow _ k (some minute))
        exact ⟨h.batch, h.ready, h.window⟩
      refine indexed_of_onlyAt hs honly ⟨?_, ?_, ?_, ?_⟩
      · simp only [Store.batchAt_setLease, Store.batchAt_setWindow, Store.batchAt_setReady,
          Store.batchAt_setBatch]
        constructor
        · intro hno
          exact absurd (Store.ready_setReady _ k none) hno
        · nofun
      · intro _
        simp only [Store.batchAt_setLease, Store.batchAt_setWindow, Store.batchAt_setReady,
          Store.batchAt_setBatch]
      · simp only [Store.batchAt_setLease, Store.batchAt_setWindow, Store.batchAt_setReady,
          Store.batchAt_setBatch]
        intro hnone
        exact absurd (hnone ▸ not_not.1 hdigest) nofun
      · simp only [Store.batchAt_setLease, Store.batchAt_setWindow, Store.batchAt_setReady,
          Store.batchAt_setBatch]
        intro hexp
        exact absurd hexp ((hs k).not_expiring hopen)

theorem releaseScript_indexed {s : Store} (hs : Indexed s) (k : BatchKey) (owner : String)
    (retryAt : Int) : Indexed (releaseScript s k owner retryAt).1 := by
  unfold releaseScript
  split
  · exact hs
  · have honly : OnlyAt s ((s.setBatch k { s.batchAt k with retryAt := some retryAt }).setLease k
        none) k := by
      have h := s.onlyAt_setBatch k { s.batchAt k with retryAt := some retryAt }
      exact ⟨h.batch, h.ready, h.window⟩
    refine indexed_of_onlyAt hs honly ⟨?_, ?_, ?_, ?_⟩
    · rw [Store.batchAt_setLease, Store.batchAt_setBatch]
      exact (hs k).ready
    · rw [Store.batchAt_setLease, Store.batchAt_setBatch]
      exact (hs k).window
    · rw [Store.batchAt_setLease, Store.batchAt_setBatch]
      exact (hs k).blank
    · rw [Store.batchAt_setLease, Store.batchAt_setBatch]
      exact (hs k).expiring

theorem cleanupScript_indexed {s : Store} (hs : Indexed s) (k : BatchKey) (keys : List BookKey) :
    Indexed (cleanupScript s k keys).1 := by
  unfold cleanupScript
  split
  · exact hs
  · rename_i hstate
    have hcommitted := not_not.1 hstate
    have honly : OnlyAt s (((s.setWindow k none).unlinkBatch k).unlinkBooks keys) k := by
      have h := (s.onlyAt_setWindow k none).trans (Store.onlyAt_unlinkBatch _ k)
      exact ⟨h.batch, h.ready, h.window⟩
    have hready : s.ready k = none := by
      by_contra hno
      have hsealed := (hs k).ready.1 hno
      rw [hcommitted] at hsealed
      cases hsealed
    refine indexed_of_onlyAt hs honly (indexedAt_absent hready ?_ ?_ ?_ ?_)
    · exact Store.window_setWindow s k none
    · rw [Store.batchAt_unlinkBooks, Store.batchAt_unlinkBatch]
      nofun
    · rw [Store.batchAt_unlinkBooks, Store.batchAt_unlinkBatch]
      exact fun _ => rfl
    · rw [Store.batchAt_unlinkBooks, Store.batchAt_unlinkBatch]
      nofun

theorem repairReadyScript_indexed {s : Store} (hs : Indexed s) (k : BatchKey) (header : Header)
    (digest : String) (minute : Int) : Indexed (repairReadyScript s k header digest minute).1 := by
  unfold repairReadyScript
  dsimp only
  split
  · exact hs
  · rename_i hsealed
    split
    · exact hs
    · refine indexed_of_onlyAt hs (s.onlyAt_setReady k _) ⟨?_, ?_, ?_, ?_⟩
      · rw [Store.ready_setReady]
        exact ⟨fun _ => not_not.1 hsealed, fun _ => nofun⟩
      · exact (hs k).window
      · exact (hs k).blank
      · exact (hs k).expiring

/-- A tombstone was collecting before, so it is in no index. -/
theorem bury_indexed {s : Store} (hs : Indexed s) {k : BatchKey} {st : BatchState}
    (keys : List BookKey) (hst : ¬ st.Open) (hcollecting : (s.batchAt k).state = some .collecting) :
    Indexed (bury s k st keys) := by
  have honly : OnlyAt s (bury s k st keys) k := by
    have h := s.onlyAt_setBatch k { s.batchAt k with state := some st, expiring := true }
    exact ⟨h.batch, h.ready, h.window⟩
  have hat : (bury s k st keys).batchAt k =
      { s.batchAt k with state := some st, expiring := true } := by
    unfold bury
    rw [Store.batchAt_unlinkBooks, Store.batchAt_setBatch]
  have habsent : s.ready k = none ∧ s.window k = none := by
    refine (hs k).absent ?_ ?_
    · rw [hcollecting]
      nofun
    · rw [hcollecting]
      nofun
  refine indexed_of_onlyAt hs honly (indexedAt_absent habsent.1 habsent.2 ?_ ?_ ?_)
  · rw [hat]
    rintro h
    obtain rfl := Option.some.inj h
    exact hst trivial
  · rw [hat]
    intro hnone
    have hstate := (hs k).blank hnone
    rw [hcollecting] at hstate
    cases hstate
  · rw [hat]
    intro _
    exact ⟨st, rfl, hst⟩

/-- Whatever is sent, the indexes follow the state. -/
theorem exec_indexed {s : Store} (hs : Indexed s) (r : Request) : Indexed (exec s r).1 := by
  cases r with
  | begin k digest header => exact beginScript_indexed hs k digest header
  | member m k digest batchDigest fields =>
      exact memberScript_indexed hs m k digest batchDigest fields
  | finish k members digest header score token payloadBytes =>
      exact sealScript_indexed hs k members digest header score token payloadBytes
  | claim k digest owner now =>
      simp only [exec, claimScript]
      repeat (split; · exact hs)
      split
      · exact indexed_congr hs rfl rfl rfl
      · exact hs
  | lease k owner =>
      simp only [exec, leaseCommand]
      split
      · exact indexed_congr hs rfl rfl rfl
      · exact hs
  | renew k owner =>
      simp only [exec, renewScript]
      split
      · exact hs
      · exact hs
  | release k owner retryAt => exact releaseScript_indexed hs k owner retryAt
  | ack k digest minute => exact commitBatch_indexed hs k digest minute
  | ownedAck k digest minute owner =>
      simp only [exec, ownedAckScript]
      split
      · exact hs
      · exact commitBatch_indexed hs k digest minute
  | cleanup k keys => exact cleanupScript_indexed hs k keys
  | repairReady k header digest minute => exact repairReadyScript_indexed hs k header digest minute
  | abandon k keys =>
      simp only [exec, abandonScript]
      split
      · exact hs
      · rename_i hcollecting
        exact bury_indexed hs keys id (not_not.1 hcollecting)
  | retire k keys header digest =>
      simp only [exec, retireCollectingScript]
      split
      · exact hs
      · rename_i hcollecting
        split
        · exact hs
        · exact bury_indexed hs keys id (not_not.1 hcollecting)

/-! ## Runs -/

variable {f : Format} {U : Set Delivery}

theorem indexed_step {s s' : System} {l : Label} (h : Step f U s l s') (hs : Indexed s.store) :
    Indexed s'.store := by
  cases h with
  | commit => exact hs
  | read => exact hs
  | send => exact hs
  | @run r _ => exact exec_indexed hs r
  | leaseExpires k => exact indexed_congr hs rfl rfl rfl
  | @batchExpires k b hb hexp =>
      -- only tombstones go, and they are in no index
      have hat : s.store.batchAt k = b := by
        unfold Store.batchAt
        rw [hb]
        rfl
      obtain ⟨st, hst, hclosed⟩ := (hs k).expiring (by rw [hat]; exact hexp)
      have habsent : s.store.ready k = none ∧ s.store.window k = none := by
        refine (hs k).absent ?_ ?_
        · intro h
          obtain rfl := Option.some.inj (hst.symm.trans h)
          exact hclosed trivial
        · intro h
          obtain rfl := Option.some.inj (hst.symm.trans h)
          exact hclosed trivial
      refine indexed_of_onlyAt hs (s.store.onlyAt_unlinkBatch k)
        (indexedAt_absent habsent.1 habsent.2 ?_ ?_ ?_)
      · rw [Store.batchAt_unlinkBatch]
        nofun
      · rw [Store.batchAt_unlinkBatch]
        exact fun _ => rfl
      · rw [Store.batchAt_unlinkBatch]
        nofun

/-- The requests of the owner of a lease. -/
inductive OwnedBy (k : BatchKey) (owner : String) : Request → Prop where
  | renew : OwnedBy k owner (.renew k owner)
  | release (retryAt : Int) : OwnedBy k owner (.release k owner retryAt)
  | ownedAck (digest : String) (minute : Int) : OwnedBy k owner (.ownedAck k digest minute owner)

theorem exec_of_lost {s : Store} {k : BatchKey} {owner : String} (hlost : s.lease k ≠ some owner)
    {r : Request} (hr : OwnedBy k owner r) : exec s r = (s, .ok 0) := by
  cases hr with
  | renew => exact if_pos hlost
  | release retryAt => exact if_pos hlost
  | ownedAck digest minute => exact if_pos hlost

/-- Once an index entry is missing, repair puts it back. -/
theorem repairReady_restores {s : Store} {k : BatchKey} {header : Header} {digest : String}
    {minute : Int} (hsealed : (s.batchAt k).state = some .sealed)
    (hheader : (s.batchAt k).header = some header) (hdigest : (s.batchAt k).digest = some digest) :
    (repairReadyScript s k header digest minute).1.ready k = some minute := by
  have hsame : ¬ ((s.batchAt k).header ≠ some header ∨ (s.batchAt k).digest ≠ some digest) := by
    rw [hheader, hdigest]
    rintro (h | h)
    · exact h rfl
    · exact h rfl
  unfold repairReadyScript
  dsimp only
  rw [if_neg (not_not.2 hsealed), if_neg hsame]
  exact Store.ready_setReady s k _

/-- In every state that is reached, the ready set lists exactly the sealed batches
and the window set only committed ones, and a request of an owner who lost the
lease changes nothing. -/
theorem ready_iff_sealed {s : System} {labels : List Label}
    (hrun : Transition.Run (Step f U) {} labels s) :
    (∀ k, s.store.ready k ≠ none ↔ (s.store.batchAt k).state = some .sealed) ∧
      (∀ k, s.store.window k ≠ none → (s.store.batchAt k).state = some .committed) ∧
      ∀ k owner r, s.store.lease k ≠ some owner → OwnedBy k owner r →
        exec s.store r = (s.store, .ok 0) := by
  have hindexed : Indexed s.store := by
    refine hrun.invariant (fun s => Indexed s.store) indexed_empty ?_
    intro s l s' hstep hs
    exact indexed_step hstep hs
  refine ⟨?_, ?_, ?_⟩
  · intro k
    exact (hindexed k).ready
  · intro k
    exact (hindexed k).window
  · intro k owner r hlost hr
    exact exec_of_lost hlost hr

theorem sealedOne_ready_iff_sealed :
    (∀ k, sealedOne.store.ready k ≠ none ↔ (sealedOne.store.batchAt k).state = some .sealed) ∧
      (∀ k, sealedOne.store.window k ≠ none →
        (sealedOne.store.batchAt k).state = some .committed) ∧
      ∀ k owner r, sealedOne.store.lease k ≠ some owner → OwnedBy k owner r →
        exec sealedOne.store r = (sealedOne.store, .ok 0) :=
  ready_iff_sealed sealedOne_run

end Redis

end MarketInfo
