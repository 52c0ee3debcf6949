import MarketInfo.Redis.System

/-! # What a request does

`Effect` says once, for every script, what it can do to the batches and to the
members; the ready set, the window set and the leases do not matter to what is
stored. The invariant of the store is a case analysis over it.
-/

namespace MarketInfo

namespace Redis

/-! ## Effects -/

/-- What running a request did. -/
inductive Effect (s : Store) : Request → Store → Reply → Prop where
  | none {r : Request} {s' : Store} {reply : Reply} : s'.batch = s.batch → s'.book = s.book →
      Effect s r s' reply
  | begun {k : BatchKey} {digest : String} {header : Header} {s' : Store} {reply : Reply} :
      (s.batchAt k).digest = none →
      s'.batch = Function.update s.batch k (some { s.batchAt k with
        digest := some digest, header := some header, state := some .collecting }) →
      s'.book = s.book → Effect s (.begin k digest header) s' reply
  | stored {m : BookKey} {k : BatchKey} {digest batchDigest : String}
      {fields : List (String × Bytes)} {s' : Store} {reply : Reply} :
      (s.bookAt m).digest = none ∨ (s.bookAt m).digest = some digest →
      s'.batch = s.batch →
      s'.book = Function.update s.book m
        (some { digest := some digest, fields := hsetAll (s.bookAt m).fields fields }) →
      Effect s (.member m k digest batchDigest fields) s' reply
  | finished {k : BatchKey} {members : List (BookKey × String)} {digest : String} {header : Header}
      {score : Int} {token : String} {payloadBytes : Nat} {s' : Store} {reply : Reply}
      {b : BatchHash} :
      (s.batchAt k).digest = none ∨ (s.batchAt k).digest = some digest →
      (∀ e ∈ members, (s.bookAt e.1).digest = some e.2) →
      ¬ Closed (s.batchAt k).state →
      b.digest = some digest → b.header = some header → b.expiring = (s.batchAt k).expiring →
      b.state = (if (s.batchAt k).state = some .committed then some .committed else some .sealed) →
      s'.batch = Function.update s.batch k (some b) → s'.book = s.book →
      Effect s (.finish k members digest header score token payloadBytes) s' reply
  | released {k : BatchKey} {owner : String} {retryAt : Int} {s' : Store} {reply : Reply} :
      s'.batch = Function.update s.batch k (some { s.batchAt k with retryAt := some retryAt }) →
      s'.book = s.book → Effect s (.release k owner retryAt) s' reply
  | acked {r : Request} {k : BatchKey} {digest : String} {minute : Int} {s' : Store} {reply : Reply} :
      (r = .ack k digest minute ∨ ∃ owner, r = .ownedAck k digest minute owner) →
      (s.batchAt k).digest = some digest →
      (s.batchAt k).state = some .sealed ∨ (s.batchAt k).state = some .committed →
      s'.batch = Function.update s.batch k (some { s.batchAt k with state := some .committed }) →
      s'.book = s.book → reply = .ok 1 → Effect s r s' reply
  | cleaned {k : BatchKey} {keys : List BookKey} {s' : Store} {reply : Reply} :
      (s.batchAt k).state = some .committed →
      s'.batch = Function.update s.batch k none →
      s'.book = (fun m => if m ∈ keys then none else s.book m) →
      Effect s (.cleanup k keys) s' reply
  | buried {r : Request} {k : BatchKey} {keys : List BookKey} {st : BatchState} {s' : Store}
      {reply : Reply} :
      (r = .abandon k keys ∨ ∃ header digest, r = .retire k keys header digest) → ¬ st.Open →
      (s.batchAt k).state = some .collecting →
      s'.batch = Function.update s.batch k
        (some { s.batchAt k with state := some st, expiring := true }) →
      s'.book = (fun m => if m ∈ keys then none else s.book m) →
      Effect s r s' reply

theorem commitBatch_effect (s : Store) {r : Request} {k : BatchKey} {digest : String} {minute : Int}
    (hr : r = .ack k digest minute ∨ ∃ owner, r = .ownedAck k digest minute owner) :
    Effect s r (commitBatch s k digest minute).1 (commitBatch s k digest minute).2 := by
  unfold commitBatch
  dsimp only
  split
  · exact .none rfl rfl
  · rename_i hdigest
    split
    · exact .none rfl rfl
    · rename_i hstate
      refine .acked hr (not_not.1 hdigest) ?_ rfl rfl rfl
      by_contra hno
      exact hstate (not_or.1 hno)

theorem exec_effect (s : Store) (r : Request) : Effect s r (exec s r).1 (exec s r).2 := by
  cases r with
  | begin k digest header =>
      simp only [exec, beginScript]
      split
      · exact .none rfl rfl
      · split
        · exact .none rfl rfl
        · split
          · exact .none rfl rfl
          · split
            · rename_i hnone
              exact .begun hnone rfl rfl
            · exact .none rfl rfl
  | member m k digest batchDigest fields =>
      simp only [exec, memberScript]
      split
      · exact .none rfl rfl
      · split
        · exact .none rfl rfl
        · split
          · exact .none rfl rfl
          · rename_i hold
            refine .stored ?_ rfl rfl
            by_contra hno
            exact hold (not_or.1 hno)
  | finish k members digest header score token payloadBytes =>
      simp only [exec, sealScript]
      split
      · exact .none rfl rfl
      · rename_i hold
        have hdigest : (s.batchAt k).digest = none ∨ (s.batchAt k).digest = some digest := by
          by_contra hno
          exact hold (not_or.1 hno)
        split
        · exact .none rfl rfl
        · rename_i hmembers
          push Not at hmembers
          split
          · exact .none rfl rfl
          · rename_i hopen
            split
            · rename_i hcommitted
              refine .finished hdigest hmembers hopen ?_ ?_ ?_ ?_ rfl rfl
              · rfl
              · rfl
              · rfl
              · rw [if_pos hcommitted]
                exact hcommitted
            · rename_i hcommitted
              refine .finished hdigest hmembers hopen ?_ ?_ ?_ ?_ rfl rfl
              · rfl
              · rfl
              · rfl
              · rw [if_neg hcommitted]
  | claim k digest owner now =>
      simp only [exec, claimScript]
      repeat (split; · exact .none rfl rfl)
      exact .none rfl rfl
  | lease k owner =>
      simp only [exec, leaseCommand]
      split
      · exact .none rfl rfl
      · exact .none rfl rfl
  | renew k owner =>
      simp only [exec, renewScript]
      split
      · exact .none rfl rfl
      · exact .none rfl rfl
  | release k owner retryAt =>
      simp only [exec, releaseScript]
      split
      · exact .none rfl rfl
      · exact .released rfl rfl
  | ack k digest minute => exact commitBatch_effect s (Or.inl rfl)
  | ownedAck k digest minute owner =>
      simp only [exec, ownedAckScript]
      split
      · exact .none rfl rfl
      · exact commitBatch_effect s (Or.inr ⟨owner, rfl⟩)
  | cleanup k keys =>
      simp only [exec, cleanupScript]
      split
      · exact .none rfl rfl
      · rename_i hstate
        exact .cleaned (not_not.1 hstate) rfl rfl
  | repairReady k header digest minute =>
      simp only [exec, repairReadyScript]
      repeat (split; · exact .none rfl rfl)
      exact .none rfl rfl
  | abandon k keys =>
      simp only [exec, abandonScript]
      split
      · exact .none rfl rfl
      · rename_i hstate
        exact .buried (Or.inl rfl) (by decide : ¬ BatchState.abandoned.Open) (not_not.1 hstate) rfl rfl
  | retire k keys header digest =>
      simp only [exec, retireCollectingScript]
      split
      · exact .none rfl rfl
      · rename_i hstate
        split
        · exact .none rfl rfl
        · exact .buried (Or.inr ⟨header, digest, rfl⟩) (by decide : ¬ BatchState.retired.Open)
            (not_not.1 hstate) rfl rfl

/-! ## Reading after a change -/

theorem batchAt_update {s s' : Store} {k : BatchKey} {v : Option BatchHash}
    (h : s'.batch = Function.update s.batch k v) (k' : BatchKey) :
    s'.batchAt k' = if k' = k then v.getD {} else s.batchAt k' := by
  unfold Store.batchAt
  rw [h]
  by_cases hk : k' = k
  · rw [if_pos hk, hk, Function.update_self]
  · rw [if_neg hk, Function.update_of_ne hk]

theorem batch_of_state {s : Store} {k : BatchKey} {st : BatchState}
    (h : (s.batchAt k).state = some st) : s.batch k = some (s.batchAt k) := by
  unfold Store.batchAt at h ⊢
  cases hb : s.batch k with
  | none =>
      rw [hb] at h
      cases h
  | some b => rfl

/-- A batch that is not changed still holds its header. -/
theorem holds_of_ne {f : Format} {s s' : Store} {k : BatchKey} {v : Option BatchHash} {d : Delivery}
    {st : BatchState} (h : s'.batch = Function.update s.batch k v) (hk : d.batchKey ≠ k) :
    Holds f s' d st ↔ Holds f s d st := by
  have hat := batchAt_update h d.batchKey
  rw [if_neg hk] at hat
  have hpresent : s'.batch d.batchKey = s.batch d.batchKey := by
    rw [h, Function.update_of_ne hk]
  constructor
  · rintro ⟨hp, hd, hh, hs⟩
    rw [hat] at hd hh hs
    rw [hpresent] at hp
    exact ⟨hp, hd, hh, hs⟩
  · rintro ⟨hp, hd, hh, hs⟩
    rw [← hat] at hd hh hs
    rw [← hpresent] at hp
    exact ⟨hp, hd, hh, hs⟩

/-- Members of other batches are not unlinked. -/
theorem complete_unlinked {f : Format} {s s' : Store} {d : Delivery} {k : BatchKey}
    {keys : List BookKey} (hkeys : ∀ m ∈ keys, m.batch = k) (hk : d.batchKey ≠ k)
    (hbook : s'.book = fun m => if m ∈ keys then none else s.book m) (h : Complete f s d) :
    Complete f s' d := by
  intro p hp
  obtain ⟨m, hm, hdigest, hfields⟩ := h p hp
  refine ⟨m, ?_, hdigest, hfields⟩
  rw [hbook]
  dsimp only
  rw [if_neg, hm]
  intro hmem
  exact hk (hkeys _ hmem)

theorem complete_congr {f : Format} {s s' : Store} {d : Delivery} (hbook : s'.book = s.book)
    (h : Complete f s d) : Complete f s' d := by
  unfold Complete
  rw [hbook]
  exact h

/-! ## Hash fields -/

theorem hsetAll_of_notMem {fields : String → Option Bytes} {args : List (String × Bytes)}
    {name : String} (hname : name ∉ args.map Prod.fst) : hsetAll fields args name = fields name := by
  induction args generalizing fields with
  | nil => rfl
  | cons a rest ih =>
      rw [List.map_cons, List.mem_cons, not_or] at hname
      change hsetAll (Function.update fields a.1 (some a.2)) rest name = _
      rw [ih hname.2, Function.update_of_ne hname.1]

/-- A field that is set does not depend on what was there. -/
theorem hsetAll_of_mem {fields fields' : String → Option Bytes} {args : List (String × Bytes)}
    {name : String} (hname : name ∈ args.map Prod.fst) :
    hsetAll fields args name = hsetAll fields' args name := by
  induction args generalizing fields fields' with
  | nil => cases hname
  | cons a rest ih =>
      change hsetAll (Function.update fields a.1 (some a.2)) rest name =
        hsetAll (Function.update fields' a.1 (some a.2)) rest name
      by_cases hrest : name ∈ rest.map Prod.fst
      · exact ih hrest
      · -- the head is the last argument of this name
        rw [List.map_cons, List.mem_cons] at hname
        rw [hsetAll_of_notMem hrest, hsetAll_of_notMem hrest, hname.resolve_right hrest,
          Function.update_self, Function.update_self]

/-- Setting fields that are set already changes nothing. -/
theorem hsetAll_hsetAll (fields : String → Option Bytes) (args : List (String × Bytes)) :
    hsetAll (hsetAll fields args) args = hsetAll fields args := by
  funext name
  by_cases hname : name ∈ args.map Prod.fst
  · exact hsetAll_of_mem hname
  · exact hsetAll_of_notMem hname

end Redis

end MarketInfo
