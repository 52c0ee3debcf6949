import MarketInfo.Redis.Effect

/-! # The delivery buffer loses nothing

A sealed batch stays sealed, with its header and all its members, until an ACK
whose sender had found it committed. The store keeps its invariant under every
request that was sent, in whatever order they run.
-/

namespace MarketInfo

namespace Redis

variable {f : Format} {U : Set Delivery}

/-! ## Batches and deliveries -/

theorem batchOk_at {s : Store} (hs : StoreOk f U s) (k : BatchKey) : BatchOk f U k (s.batchAt k) := by
  unfold Store.batchAt
  cases hb : s.batch k with
  | none => exact .blank rfl rfl rfl rfl
  | some b => exact hs.batch k b hb

/-- A batch with the digest of a delivery holds that delivery. -/
theorem batchOk_digest (hU : Producers f U) {k : BatchKey} {b : BatchHash} (hb : BatchOk f U k b)
    {d : Delivery} (hd : d ∈ U) (hk : d.batchKey = k) (hdigest : b.digest = some d.digest) :
    b.header = some (d.header f) ∧ ∃ st, b.state = some st ∧ (b.expiring = true → ¬ st.Open) := by
  rcases hb with ⟨hnone, -, -, -⟩ | ⟨e, st, he, hek, hedigest, heheader, hstate, hexp⟩
  · rw [hnone] at hdigest
    cases hdigest
  · rw [hedigest] at hdigest
    obtain rfl := hU.unique e he d hd (hek.trans hk.symm) (Option.some.inj hdigest)
    exact ⟨heheader, st, hstate, hexp⟩

/-- A batch without a digest is blank. -/
theorem batchOk_blank {k : BatchKey} {b : BatchHash} (hb : BatchOk f U k b) (hnone : b.digest = none) :
    b.header = none ∧ b.state = none ∧ b.expiring = false := by
  rcases hb with ⟨-, hh, hs, he⟩ | ⟨e, st, -, -, hdigest, -, -, -⟩
  · exact ⟨hh, hs, he⟩
  · rw [hdigest] at hnone
    cases hnone

/-- Deliveries held at one key are one delivery. -/
theorem holds_unique (hU : Producers f U) {s : Store} {d e : Delivery} {st : BatchState} (hd : d ∈ U)
    (he : e ∈ U) (hk : d.batchKey = e.batchKey) (hdigest : (s.batchAt d.batchKey).digest = some d.digest)
    (hhold : Holds f s e st) : d = e := by
  have hed := hhold.digest
  rw [← hk, hdigest] at hed
  exact hU.unique d hd e he hk (Option.some.inj hed)

/-- The stored member of a key and a digest has the content it should. -/
theorem bookOk_stored (hU : Producers f U) {m : BookKey} {h : MemberHash} (hm : BookOk f U m h)
    {d : Delivery} (hd : d ∈ U) {p : Member} (hp : p ∈ f.split d) (hk : d.bookKey p.index = m)
    (hdigest : h.digest = some p.digest) : h.fields = p.stored := by
  obtain ⟨e, he, q, hq, hek, hqd, hqf⟩ := hm
  rw [hqd] at hdigest
  rw [hqf]
  exact hU.content e he d hd q hq p hp (hek.trans hk.symm) (Option.some.inj hdigest)

/-! ## The invariant under a request -/

/-- What an effect does to the batches keeps them in order. -/
theorem batchOk_effect (hU : Producers f U) {s s' : Store} {r : Request} {reply : Reply}
    {mysql : Set Delivery} (hs : StoreOk f U s) (hr : RequestOk f U mysql r)
    (h : Effect s r s' reply) : ∀ k b, s'.batch k = some b → BatchOk f U k b := by
  -- a batch is the changed one or an old one
  have hchange : ∀ {k₀ : BatchKey} {v : Option BatchHash}, s'.batch = Function.update s.batch k₀ v →
      (∀ b, v = some b → BatchOk f U k₀ b) → ∀ k b, s'.batch k = some b → BatchOk f U k b := by
    intro k₀ v hupdate hnew k b hb
    rw [hupdate] at hb
    by_cases hk : k = k₀
    · subst hk
      rw [Function.update_self] at hb
      exact hnew b hb
    · rw [Function.update_of_ne hk] at hb
      exact hs.batch k b hb
  have hold : s'.batch = s.batch → ∀ k b, s'.batch k = some b → BatchOk f U k b := by
    intro heq k b hb
    rw [heq] at hb
    exact hs.batch k b hb
  cases h with
  | none hbatch _ => exact hold hbatch
  | begun hnone hbatch _ =>
      refine hchange hbatch ?_
      rintro b ⟨⟩
      obtain ⟨d, hd, hk, hdigest, hheader⟩ := hr
      obtain ⟨-, -, hexp⟩ := batchOk_blank (batchOk_at hs _) hnone
      refine .ofDelivery d .collecting hd hk.symm (by rw [hdigest]) (by rw [hheader]) rfl ?_
      intro he
      rw [hexp] at he
      cases he
  | stored _ hbatch _ => exact hold hbatch
  | @finished k members digest header score token payloadBytes s' reply b hdigest _ hopen hbd hbh hbe
      hbs hbatch _ =>
      refine hchange hbatch ?_
      rintro b' ⟨⟩
      obtain ⟨d, hd, rfl, -, rfl, rfl⟩ := hr
      -- a batch that can still be sealed does not expire
      have hexp : (s.batchAt d.batchKey).expiring = false := by
        rcases hdigest with hnone | hsome
        · exact (batchOk_blank (batchOk_at hs _) hnone).2.2
        · obtain ⟨-, st, hst, he⟩ := batchOk_digest hU (batchOk_at hs _) hd rfl hsome
          by_contra hno
          exact hopen ⟨st, hst, he (by simpa using hno)⟩
      split at hbs
      · refine .ofDelivery d .committed hd rfl hbd hbh hbs ?_
        intro he
        rw [hbe, hexp] at he
        cases he
      · refine .ofDelivery d .sealed hd rfl hbd hbh hbs ?_
        intro he
        rw [hbe, hexp] at he
        cases he
  | released hbatch _ =>
      refine hchange hbatch ?_
      rintro b ⟨⟩
      rcases batchOk_at hs _ with ⟨h1, h2, h3, h4⟩ | ⟨d, st, hd, hk, h1, h2, h3, h4⟩
      · exact .blank h1 h2 h3 h4
      · exact .ofDelivery d st hd hk h1 h2 h3 h4
  | @acked r k digest minute s' reply hreq hdigest hstate hbatch _ _ =>
      refine hchange hbatch ?_
      rintro b ⟨⟩
      rcases batchOk_at hs k with ⟨h1, -, -, -⟩ | ⟨d, st, hd, hk, h1, h2, h3, h4⟩
      · rw [h1] at hdigest
        cases hdigest
      · refine .ofDelivery d .committed hd hk h1 h2 rfl ?_
        intro he
        have hclosed := h4 he
        rw [h3] at hstate
        rcases hstate with hst | hst
        · obtain rfl := Option.some.inj hst
          exact absurd trivial hclosed
        · obtain rfl := Option.some.inj hst
          exact absurd trivial hclosed
  | cleaned _ hbatch _ =>
      refine hchange hbatch ?_
      rintro b ⟨⟩
  | @buried r k keys st s' reply _ hst hstate hbatch _ =>
      refine hchange hbatch ?_
      rintro b ⟨⟩
      rcases batchOk_at hs k with ⟨-, -, h3, -⟩ | ⟨d, st', hd, hk, h1, h2, -, -⟩
      · rw [h3] at hstate
        cases hstate
      · exact .ofDelivery d st hd hk h1 h2 rfl fun _ => hst

/-- What an effect does to the members keeps their contents in order. -/
theorem bookOk_effect (hU : Producers f U) {s s' : Store} {r : Request} {reply : Reply}
    {mysql : Set Delivery} (hs : StoreOk f U s) (hr : RequestOk f U mysql r)
    (h : Effect s r s' reply) : ∀ m h, s'.book m = some h → BookOk f U m h := by
  have hold : s'.book = s.book → ∀ m h, s'.book m = some h → BookOk f U m h := by
    intro heq m h hm
    rw [heq] at hm
    exact hs.book m h hm
  have hunlink : ∀ keys : List BookKey, s'.book = (fun m => if m ∈ keys then none else s.book m) →
      ∀ m h, s'.book m = some h → BookOk f U m h := by
    intro keys heq m h hm
    rw [heq] at hm
    dsimp only at hm
    split at hm
    · cases hm
    · exact hs.book m h hm
  cases h with
  | none _ hbook => exact hold hbook
  | begun _ _ hbook => exact hold hbook
  | @stored m k digest batchDigest fields s' reply hdigest _ hbook =>
      intro m' h' hm'
      rw [hbook] at hm'
      by_cases hk : m' = m
      · subst hk
        rw [Function.update_self] at hm'
        obtain rfl := Option.some.inj hm'
        obtain ⟨d, hd, p, hp, hkey, -, rfl, -, rfl⟩ := hr
        refine ⟨d, hd, p, hp, hkey.symm, rfl, ?_⟩
        -- the member is new, or it was written with the same content
        unfold Store.bookAt at hdigest ⊢
        cases hbk : s.book m' with
        | none => rfl
        | some old =>
            have hok := hs.book m' old hbk
            rw [hbk] at hdigest
            rcases hdigest with hnone | hsome
            · obtain ⟨e, -, q, -, -, hq, -⟩ := hok
              rw [Option.getD_some, hq] at hnone
              cases hnone
            · change hsetAll old.fields p.fields = _
              rw [bookOk_stored hU hok hd hp hkey.symm hsome]
              exact hsetAll_hsetAll _ _
      · rw [Function.update_of_ne hk] at hm'
        exact hs.book m' h' hm'
  | finished _ _ _ _ _ _ _ _ hbook => exact hold hbook
  | released _ hbook => exact hold hbook
  | acked _ _ _ _ hbook _ => exact hold hbook
  | cleaned _ _ hbook => exact hunlink _ hbook
  | buried _ _ _ _ hbook => exact hunlink _ hbook

/-- A batch whose header and state are kept by an update still holds. -/
theorem holds_of_update {s s' : Store} {k : BatchKey} {b : BatchHash} {d : Delivery}
    {st : BatchState} (hbatch : s'.batch = Function.update s.batch k (some b))
    (hk : d.batchKey = k) :
    Holds f s' d st ↔
      b.digest = some d.digest ∧ b.header = some (d.header f) ∧ b.state = some st := by
  have hat := batchAt_update hbatch d.batchKey
  rw [if_pos hk, Option.getD_some] at hat
  constructor
  · rintro ⟨-, hd, hh, hs⟩
    rw [hat] at hd hh hs
    exact ⟨hd, hh, hs⟩
  · rintro ⟨hd, hh, hs⟩
    rw [← hat] at hd hh hs
    refine ⟨?_, hd, hh, hs⟩
    rw [hbatch, hk, Function.update_self]
    exact Option.some_ne_none b

theorem holds_iff {s : Store} {d : Delivery} {st : BatchState} :
    Holds f s d st ↔ (s.batchAt d.batchKey).digest = some d.digest ∧
      (s.batchAt d.batchKey).header = some (d.header f) ∧
      (s.batchAt d.batchKey).state = some st := by
  constructor
  · rintro ⟨-, hd, hh, hs⟩
    exact ⟨hd, hh, hs⟩
  · rintro ⟨hd, hh, hs⟩
    refine ⟨?_, hd, hh, hs⟩
    rw [batch_of_state hs]
    exact Option.some_ne_none _

theorem holds_congr {s s' : Store} {d : Delivery} {st : BatchState} (hbatch : s'.batch = s.batch) :
    Holds f s' d st ↔ Holds f s d st := by
  rw [holds_iff, holds_iff]
  unfold Store.batchAt
  rw [hbatch]

/-- Sealed and committed batches stay complete. -/
theorem complete_effect (hU : Producers f U) {s s' : Store} {r : Request} {reply : Reply}
    {mysql : Set Delivery} (hs : StoreOk f U s) (hr : RequestOk f U mysql r)
    (h : Effect s r s' reply) :
    ∀ d ∈ U, ∀ st, st = .sealed ∨ st = .committed → Holds f s' d st → Complete f s' d := by
  intro d hd st hst hhold
  -- a batch of another key is as complete as it was
  have hother : ∀ {k : BatchKey} {v : Option BatchHash}, s'.batch = Function.update s.batch k v →
      d.batchKey ≠ k → Complete f s d := by
    intro k v hbatch hk
    exact hs.complete d hd st hst ((holds_of_ne hbatch hk).1 hhold)
  cases h with
  | none hbatch hbook =>
      exact complete_congr hbook (hs.complete d hd st hst ((holds_congr hbatch).1 hhold))
  | @begun k digest header s' reply _ hbatch hbook =>
      by_cases hk : d.batchKey = k
      · -- a batch that just began is not sealed
        have hstate := ((holds_of_update hbatch hk).1 hhold).2.2
        obtain rfl := Option.some.inj hstate
        rcases hst with h | h
        · cases h
        · cases h
      · exact complete_congr hbook (hother hbatch hk)
  | @stored m k digest batchDigest fields s' reply hdigest hbatch hbook =>
      obtain ⟨e, he, q, hq, hm, -, rfl, -, rfl⟩ := hr
      have hold := hs.complete d hd st hst ((holds_congr hbatch).1 hhold)
      intro p hp
      obtain ⟨g, hg, hgd, hgf⟩ := hold p hp
      by_cases hk : d.bookKey p.index = m
      · -- the same member, written again
        have hat : s.bookAt m = g := by
          unfold Store.bookAt
          rw [← hk, hg]
          rfl
        rw [hat, hgd] at hdigest
        have hsame : p.digest = q.digest := by
          rcases hdigest with h | h
          · cases h
          · exact Option.some.inj h
        have hstored : q.stored = p.stored :=
          hU.content e he d hd q hq p hp (by rw [← hm, hk]) hsame.symm
        refine ⟨{ digest := some q.digest, fields := hsetAll g.fields q.fields }, ?_, ?_, ?_⟩
        · rw [hbook, hk, Function.update_self, hat]
        · rw [hsame]
        · dsimp only
          rw [hgf, ← hstored]
          exact hsetAll_hsetAll _ _
      · refine ⟨g, ?_, hgd, hgf⟩
        rw [hbook, Function.update_of_ne hk]
        exact hg
  | @finished k members digest header score token payloadBytes s' reply b _ hmembers _ hbd _ _ _ hbatch
      hbook =>
      obtain ⟨e, he, rfl, rfl, rfl, rfl⟩ := hr
      by_cases hk : d.batchKey = e.batchKey
      · -- the script has compared the digest of every member
        have hdigest := ((holds_of_update hbatch hk).1 hhold).1
        rw [hbd] at hdigest
        obtain rfl := hU.unique d hd e he hk (Option.some.inj hdigest).symm
        refine complete_congr hbook ?_
        intro p hp
        have hp' := hmembers _ (List.mem_map.2 ⟨p, hp, rfl⟩)
        dsimp only at hp'
        unfold Store.bookAt at hp'
        cases hb : s.book (d.bookKey p.index) with
        | none =>
            rw [hb] at hp'
            cases hp'
        | some g =>
            rw [hb] at hp'
            exact ⟨g, rfl, hp', bookOk_stored hU (hs.book _ g hb) hd hp rfl hp'⟩
      · exact complete_congr hbook (hother hbatch hk)
  | @released k owner retryAt s' reply hbatch hbook =>
      by_cases hk : d.batchKey = k
      · have hold := (holds_of_update hbatch hk).1 hhold
        rw [← hk] at hold
        exact complete_congr hbook (hs.complete d hd st hst (holds_iff.2 hold))
      · exact complete_congr hbook (hother hbatch hk)
  | @acked r k digest minute s' reply _ _ hstate hbatch hbook _ =>
      by_cases hk : d.batchKey = k
      · -- it was sealed or committed before
        obtain ⟨hdd, hdh, -⟩ := (holds_of_update hbatch hk).1 hhold
        rw [← hk] at hdd hdh hstate
        refine complete_congr hbook ?_
        rcases hstate with h | h
        · exact hs.complete d hd .sealed (Or.inl rfl) (holds_iff.2 ⟨hdd, hdh, h⟩)
        · exact hs.complete d hd .committed (Or.inr rfl) (holds_iff.2 ⟨hdd, hdh, h⟩)
      · exact complete_congr hbook (hother hbatch hk)
  | @cleaned k keys s' reply _ hbatch hbook =>
      by_cases hk : d.batchKey = k
      · refine absurd ?_ hhold.present
        rw [hbatch, hk, Function.update_self]
      · exact complete_unlinked hr hk hbook (hother hbatch hk)
  | @buried r k keys state s' reply hreq hclosed _ hbatch hbook =>
      by_cases hk : d.batchKey = k
      · -- a tombstone is neither sealed nor committed
        have hstate := ((holds_of_update hbatch hk).1 hhold).2.2
        obtain rfl := Option.some.inj hstate
        rcases hst with rfl | rfl
        · exact absurd trivial hclosed
        · exact absurd trivial hclosed
      · have hkeys : ∀ m ∈ keys, m.batch = k := by
          rcases hreq with rfl | ⟨header, digest, rfl⟩
          · exact hr
          · exact hr
        exact complete_unlinked hkeys hk hbook (hother hbatch hk)

theorem storeOk_exec (hU : Producers f U) {s : Store} {r : Request} {mysql : Set Delivery}
    (hs : StoreOk f U s) (hr : RequestOk f U mysql r) : StoreOk f U (exec s r).1 :=
  ⟨batchOk_effect hU hs hr (exec_effect s r), bookOk_effect hU hs hr (exec_effect s r),
    complete_effect hU hs hr (exec_effect s r)⟩

/-- A tombstone may go at any time. -/
theorem storeOk_unlinkBatch {s : Store} (hs : StoreOk f U s) (k : BatchKey) :
    StoreOk f U (s.unlinkBatch k) := by
  have hbatch : (s.unlinkBatch k).batch = Function.update s.batch k none := rfl
  refine ⟨?_, hs.book, ?_⟩
  · intro k' b hb
    rw [hbatch] at hb
    by_cases hk : k' = k
    · rw [hk, Function.update_self] at hb
      cases hb
    · rw [Function.update_of_ne hk] at hb
      exact hs.batch k' b hb
  · intro d hd st hst hhold
    have hk : d.batchKey ≠ k := by
      intro hk
      refine hhold.present ?_
      rw [hbatch, hk, Function.update_self]
    exact hs.complete d hd st hst ((holds_of_ne hbatch hk).1 hhold)

/-- One step of the system. -/
theorem inv_step (hU : Producers f U) {s s' : System} {l : Label} (h : Step f U s l s')
    (hinv : Inv f U s) : Inv f U s' := by
  cases h with
  | @commit d hd =>
      refine ⟨hinv.store, ?_, hinv.seen, ?_⟩
      · exact Set.insert_subset hd hinv.mysql
      · intro r hr
        exact requestOk_mono (Set.subset_insert d s.mysql) (hinv.sent r hr)
  | @read k b hb =>
      refine ⟨hinv.store, hinv.mysql, ?_, hinv.sent⟩
      rintro e (rfl | he)
      · exact hinv.store.batch k b hb
      · exact hinv.seen e he
  | @send r hsend =>
      have hok := requestOk_of_sends hinv hsend
      refine ⟨hinv.store, hinv.mysql, hinv.seen, ?_⟩
      rintro r' (rfl | hr')
      · exact hok
      · exact hinv.sent r' hr'
  | @run r hr =>
      exact ⟨storeOk_exec hU hinv.store (hinv.sent r hr), hinv.mysql, hinv.seen, hinv.sent⟩
  | leaseExpires k =>
      -- leases are not part of what is stored
      refine ⟨⟨hinv.store.batch, hinv.store.book, ?_⟩, hinv.mysql, hinv.seen, hinv.sent⟩
      intro d hd st hst hhold
      have hsame : (s.store.setLease k none).batch = s.store.batch := rfl
      exact hinv.store.complete d hd st hst ((holds_congr hsame).1 hhold)
  | @batchExpires k b hb hexp =>
      exact ⟨storeOk_unlinkBatch hinv.store k, hinv.mysql, hinv.seen, hinv.sent⟩

/-! ## Sealed batches -/

/-- A sealed batch stays sealed under a request, unless it is an ACK of a
delivery that was found committed. -/
theorem sealed_effect (hU : Producers f U) {s s' : Store} {r : Request} {reply : Reply}
    {mysql : Set Delivery} (hr : RequestOk f U mysql r) (h : Effect s r s' reply) {d : Delivery}
    (hd : d ∈ U) (hsealed : Holds f s d .sealed) :
    Holds f s' d .sealed ∨ (Holds f s' d .committed ∧ d ∈ mysql) := by
  have hstate := hsealed.state
  have hother : ∀ {k : BatchKey} {v : Option BatchHash}, s'.batch = Function.update s.batch k v →
      d.batchKey ≠ k → Holds f s' d .sealed := by
    intro k v hbatch hk
    exact (holds_of_ne hbatch hk).2 hsealed
  cases h with
  | none hbatch _ => exact Or.inl ((holds_congr hbatch).2 hsealed)
  | @begun k digest header s' reply hnone hbatch _ =>
      have hk : d.batchKey ≠ k := by
        rintro rfl
        rw [hsealed.digest] at hnone
        cases hnone
      exact Or.inl (hother hbatch hk)
  | stored _ hbatch _ => exact Or.inl ((holds_congr hbatch).2 hsealed)
  | @finished k members digest header score token payloadBytes s' reply b hdigest _ _ hbd hbh _ hbs
      hbatch _ =>
      left
      by_cases hk : d.batchKey = k
      · -- sealed again, for the same delivery
        obtain ⟨e, he, rfl, -, rfl, rfl⟩ := hr
        rw [← hk, hsealed.digest] at hdigest
        have hsame : d.digest = e.digest := by
          rcases hdigest with h | h
          · cases h
          · exact Option.some.inj h
        obtain rfl := hU.unique d hd e he hk hsame
        refine (holds_of_update hbatch rfl).2 ⟨hbd, hbh, ?_⟩
        rw [hbs, hstate, if_neg (by decide)]
      · exact hother hbatch hk
  | @released k owner retryAt s' reply hbatch _ =>
      left
      by_cases hk : d.batchKey = k
      · refine (holds_of_update hbatch hk).2 ?_
        rw [← hk]
        exact holds_iff.1 hsealed
      · exact hother hbatch hk
  | @acked r k digest minute s' reply hreq hdigest _ hbatch _ _ =>
      by_cases hk : d.batchKey = k
      · right
        rw [← hk, hsealed.digest] at hdigest
        obtain ⟨e, he, hcommitted, hek, hed⟩ :
            ∃ e ∈ U, e ∈ mysql ∧ k = e.batchKey ∧ digest = e.digest := by
          rcases hreq with rfl | ⟨owner, rfl⟩
          · exact hr
          · exact hr
        obtain rfl := hU.unique d hd e he (hk.trans hek) ((Option.some.inj hdigest).trans hed)
        refine ⟨(holds_of_update hbatch hk).2 ?_, hcommitted⟩
        rw [← hk]
        exact ⟨hsealed.digest, hsealed.header, rfl⟩
      · exact Or.inl (hother hbatch hk)
  | @cleaned k keys s' reply hcommitted hbatch _ =>
      have hk : d.batchKey ≠ k := by
        rintro rfl
        rw [hstate] at hcommitted
        cases hcommitted
      exact Or.inl (hother hbatch hk)
  | @buried r k keys st s' reply _ _ hcollecting hbatch _ =>
      have hk : d.batchKey ≠ k := by
        rintro rfl
        rw [hstate] at hcollecting
        cases hcollecting
      exact Or.inl (hother hbatch hk)

/-- A sealed batch stays sealed in a step, unless it becomes committed. -/
theorem sealed_step (hU : Producers f U) {s s' : System} {l : Label} (h : Step f U s l s')
    (hinv : Inv f U s) {d : Delivery} (hd : d ∈ U) (hsealed : Holds f s.store d .sealed) :
    Holds f s'.store d .sealed ∨ (Holds f s'.store d .committed ∧ d ∈ s.mysql) := by
  cases h with
  | commit => exact Or.inl hsealed
  | read => exact Or.inl hsealed
  | send => exact Or.inl hsealed
  | @run r hr => exact sealed_effect hU (hinv.sent r hr) (exec_effect s.store r) hd hsealed
  | leaseExpires k =>
      have hsame : (s.store.setLease k none).batch = s.store.batch := rfl
      exact Or.inl ((holds_congr hsame).2 hsealed)
  | @batchExpires k b hb hexp =>
      -- only tombstones expire
      left
      have hk : d.batchKey ≠ k := by
        rintro rfl
        have hat : s.store.batchAt d.batchKey = b := by
          unfold Store.batchAt
          rw [hb]
          rfl
        obtain ⟨-, st, hst, hclosed⟩ :=
          batchOk_digest hU (batchOk_at hinv.store _) hd rfl hsealed.digest
        rw [hsealed.state] at hst
        obtain rfl := Option.some.inj hst
        exact hclosed (by rw [hat]; exact hexp) trivial
      have hbatch : (s.store.unlinkBatch k).batch = Function.update s.store.batch k none := rfl
      exact (holds_of_ne hbatch hk).2 hsealed

/-! ## Runs -/

/-- The batch has its header and state, loads as the delivery, and has every
member under its key with its digest. -/
structure Kept (f : Format) (s : Store) (d : Delivery) (st : BatchState) : Prop where
  batch : Holds f s d st
  members : Complete f s d
  loads : load f s d.batchKey = .ok d

theorem kept_of_holds (hU : Producers f U) {s : System} (hinv : Inv f U s) {d : Delivery}
    (hd : d ∈ U) {st : BatchState} (hst : st = .sealed ∨ st = .committed)
    (h : Holds f s.store d st) : Kept f s.store d st := by
  have hc := hinv.store.complete d hd st hst h
  exact ⟨h, hc, load_eq hU hd hst h hc⟩

/-- The step of a run at which a batch became committed. -/
structure CommitsAt (f : Format) (U : Set Delivery) (d : Delivery) (s₁ s₂ : System)
    (labels front : List Label) (l : Label) (back : List Label) (s s' : System) : Prop where
  labels : labels = front ++ l :: back
  before : Transition.Run (Step f U) s₁ front s
  step : Step f U s l s'
  after : Transition.Run (Step f U) s' back s₂
  kept : Kept f s.store d .sealed
  verified : d ∈ s.mysql
  committed : Kept f s'.store d .committed

/-- From a state in which it is sealed, a batch is kept to the end of every run,
or to the step that marks it committed. -/
theorem sealed_run (hU : Producers f U) {s₁ s₂ : System} {labels : List Label}
    (hrun : Transition.Run (Step f U) s₁ labels s₂) (hinv : Inv f U s₁) {d : Delivery} (hd : d ∈ U)
    (hsealed : Holds f s₁.store d .sealed) :
    Kept f s₂.store d .sealed ∨
      ∃ front l back s s', CommitsAt f U d s₁ s₂ labels front l back s s' := by
  induction hrun with
  | nil s => exact Or.inl (kept_of_holds hU hinv hd (Or.inl rfl) hsealed)
  | @cons s s' s₂ l labels hstep hrest ih =>
      have hinv' := inv_step hU hstep hinv
      rcases sealed_step hU hstep hinv hd hsealed with hkeep | ⟨hcommitted, hverified⟩
      · rcases ih hinv' hkeep with hkept | ⟨front, l', back, t, t', h⟩
        · exact Or.inl hkept
        · refine Or.inr ⟨l :: front, l', back, t, t', ?_, .cons hstep h.before, h.step, h.after,
            h.kept, h.verified, h.committed⟩
          rw [h.labels]
          rfl
      · refine Or.inr ⟨[], l, labels, s, s', rfl, .nil s, hstep, hrest, ?_, hverified, ?_⟩
        · exact kept_of_holds hU hinv hd (Or.inl rfl) hsealed
        · exact kept_of_holds hU hinv' hd (Or.inr rfl) hcommitted

/-- A seal that Redis answers with success has sealed the batch, or the batch was
marked committed before. -/
theorem finish_seals (s : Store) (d : Delivery) (members : List (BookKey × String)) (score : Int)
    (token : String) (payloadBytes : Nat) (hreply : (exec s
      (.finish d.batchKey members d.digest (d.header f) score token payloadBytes)).2 = .ok 1) :
    Holds f (exec s (.finish d.batchKey members d.digest (d.header f) score token payloadBytes)).1 d
      .sealed ∨ (s.batchAt d.batchKey).state = some .committed := by
  simp only [exec, sealScript] at hreply ⊢
  split at hreply
  · cases hreply
  · rename_i hdigest
    rw [if_neg hdigest]
    split at hreply
    · cases hreply
    · rename_i hmembers
      rw [if_neg hmembers]
      split at hreply
      · cases hreply
      · rename_i hopen
        rw [if_neg hopen]
        split
        · rename_i hcommitted
          exact Or.inr hcommitted
        · left
          refine (holds_of_update rfl rfl).2 ?_
          exact ⟨rfl, rfl, rfl⟩

/-- No interleaving loses a sealed batch. -/
theorem sealed_batch_not_lost (hU : Producers f U) {s₁ s₂ : System} {before after : List Label}
    (hbefore : Transition.Run (Step f U) {} before s₁) (hafter : Transition.Run (Step f U) s₁ after s₂)
    {d : Delivery} (hd : d ∈ U) (hsealed : Holds f s₁.store d .sealed) :
    Kept f s₂.store d .sealed ∨
      ∃ front l back s s', CommitsAt f U d s₁ s₂ after front l back s s' := by
  have hinv : Inv f U s₁ := by
    refine hbefore.invariant (fun s => Inv f U s) inv_init ?_
    intro s l s' hstep hs
    exact inv_step hU hstep hs
  exact sealed_run hU hafter hinv hd hsealed

/-! A delivery of one member that is sealed and, after its lease is gone, committed. -/

def oneMember : Format where
  split d := [{ index := 0, digest := d.digest, fields := [("payload", d.payload)] }]
  read h _ fields := (fields "payload").map fun _ => (0, h.digest)
  join h members := (members.head?.bind fun fields => fields "payload").map (·, h.members)
  sha256 _ := "039058c6f2c0cb492c533b0a4d14ef77cc0f78abccced5287d84a1a2011cfb81"

def oneDelivery : Delivery where
  database := "crypto"
  kind := "cex"
  id := "5f0c"
  service := "cex"
  generation := 1
  minute := 29000000
  digest := "039058c6f2c0cb492c533b0a4d14ef77cc0f78abccced5287d84a1a2011cfb81"
  members := 1
  codec := 1
  payload := [1, 2, 3]

theorem oneMember_producers : Producers oneMember {oneDelivery} := by
  refine ⟨?_, ?_, ?_, ?_, ?_, ?_⟩
  · rintro d rfl e rfl _ _
    rfl
  · rintro d rfl e rfl p hp q hq _ _
    rw [List.mem_singleton.1 hp, List.mem_singleton.1 hq]
  · rintro d rfl n p hp
    obtain rfl := List.mem_singleton.1 (List.mem_of_getElem? hp)
    rfl
  · rintro d rfl
    rfl
  · rintro d rfl
    rfl
  · rintro d rfl
    decide

def beginOne : Request :=
  .begin oneDelivery.batchKey oneDelivery.digest (oneDelivery.header oneMember)

def memberOne : Request :=
  .member (oneDelivery.bookKey 0) oneDelivery.batchKey oneDelivery.digest oneDelivery.digest
    [("payload", oneDelivery.payload)]

def finishOne : Request :=
  .finish oneDelivery.batchKey [(oneDelivery.bookKey 0, oneDelivery.digest)] oneDelivery.digest
    (oneDelivery.header oneMember) oneDelivery.minute "token" 3

def ackOne : Request := .ack oneDelivery.batchKey oneDelivery.digest oneDelivery.minute

def sealedOne : System where
  store := (exec (exec (exec {} beginOne).1 memberOne).1 finishOne).1
  sent := insert finishOne (insert memberOne (insert beginOne ∅))

def ackedOne : System where
  store := (exec (sealedOne.store.setLease oneDelivery.batchKey none) ackOne).1
  mysql := insert oneDelivery ∅
  sent := insert ackOne sealedOne.sent

theorem sealedOne_run : Transition.Run (Step oneMember {oneDelivery}) {}
    [.send beginOne, .run beginOne (.ok 1), .send memberOne, .run memberOne (.ok 1),
      .send finishOne, .run finishOne (.ok 1)] sealedOne := by
  have hmem : oneDelivery ∈ ({oneDelivery} : Set Delivery) := rfl
  have hmember : ∀ s, Sends oneMember {oneDelivery} s memberOne := by
    intro s
    exact @Sends.member oneMember _ s oneDelivery _ hmem (List.mem_singleton.2 rfl)
  refine .cons (.send (.begin hmem)) (.cons (.run (Set.mem_insert _ _)) ?_)
  refine .cons (.send (hmember _)) (.cons (.run (Set.mem_insert _ _)) ?_)
  exact .cons (.send (.finish "token" hmem)) (.cons (.run (Set.mem_insert _ _)) (.nil _))

theorem sealed_oneDelivery_not_lost :
    Kept oneMember ackedOne.store oneDelivery .sealed ∨
      ∃ front l back s s', CommitsAt oneMember {oneDelivery} oneDelivery sealedOne ackedOne
        [.leaseExpires oneDelivery.batchKey, .commit oneDelivery, .send ackOne,
          .run ackOne (.ok 1)] front l back s s' := by
  have hmem : oneDelivery ∈ ({oneDelivery} : Set Delivery) := rfl
  have hafter : Transition.Run (Step oneMember {oneDelivery}) sealedOne
      [.leaseExpires oneDelivery.batchKey, .commit oneDelivery, .send ackOne,
        .run ackOne (.ok 1)] ackedOne := by
    refine .cons (.leaseExpires _) (.cons (.commit hmem) ?_)
    refine .cons (.send (.ack (Set.mem_insert _ _))) (.cons (.run (Set.mem_insert _ _)) (.nil _))
  have hsealed : Holds oneMember sealedOne.store oneDelivery .sealed := by
    refine ⟨?_, ?_, ?_, ?_⟩
    · decide
    · decide
    · decide
    · decide
  exact sealed_batch_not_lost oneMember_producers sealedOne_run hafter hmem hsealed

end Redis

end MarketInfo
