import MarketInfo.DexRuntime.OwnerInvariant

/-! # Every step keeps what the owner keeps

The steps are made of a few changes: a worker goes on, takes or gives up a lease; a
row, an operation or a mark is written; the state takes a row. One lemma says of each
change what the invariant asks for it.
-/

namespace MarketInfo.DexRuntime

variable {m : Hash} {r : Runtime}

/-! ## The changes -/

/-- A worker goes on, with the lease that it had or none. -/
theorem Inv.goTo (h : Inv m r) (w : Nat) {p : Phase}
    (hlease : ∀ k, p.lease = some k → (r.workers w).lease = some k) (hknows : Knows m r p) :
    Inv m (r.goTo w p) := by
  have hold : ∀ w' k, ((r.goTo w p).workers w').lease = some k →
      (r.workers w').lease = some k := by
    intro w' k hk
    by_cases hw : w' = w
    · subst hw
      rw [goTo_self] at hk
      exact hlease k hk
    · rwa [goTo_ne r p hw] at hk
  refine ⟨h.rows, h.entries, h.stateManifest, h.savedManifest, h.state, h.saved,
    fun w' k hk => h.leased w' k (hold w' k hk),
    fun w' w'' k hk hk' => h.single w' w'' k (hold w' k hk) (hold w'' k hk'), h.idle, h.marked,
    h.pending,    fun w' => ?_⟩
  by_cases hw : w' = w
  · subst hw
    rw [goTo_self]
    exact hknows.same rfl rfl
  · rw [goTo_ne r p hw]
    exact (h.knows w').same rfl rfl

/-- An owner that is open is poisoned. -/
theorem Inv.poison (h : Inv m r) (hmode : r.mode ≠ .down) : Inv m r.poison := by
  refine ⟨h.rows, h.entries, h.stateManifest, h.savedManifest, h.state, h.saved, h.leased,
    h.single, fun hdown => ?_, h.marked, fun _ e he happ => ?_, fun w => ?_⟩
  · cases hdown
  · rcases h.pending hmode e he happ with hpending | ⟨-, hinflight⟩
    · exact .inl hpending
    · exact .inr ⟨rfl, hinflight⟩
  · exact (h.knows w).same rfl rfl

/-- A worker takes the lease on a key that nobody holds. -/
theorem Inv.take (h : Inv m r) (hmode : r.mode ≠ .down) {w : Nat} {k : BlockKey} {p : Phase}
    (hfree : r.inflight k ≠ true) (hlease : p.lease = some k) (hknows : Knows m r p) :
    Inv m ((r.hold k true).goTo w p) := by
  have hother : ∀ w' k', w' ≠ w → (((r.hold k true).goTo w p).workers w').lease = some k' →
      (r.workers w').lease = some k' ∧ k' ≠ k := by
    intro w' k' hw hk'
    rw [goTo_ne _ p hw] at hk'
    refine ⟨hk', fun heq => hfree ?_⟩
    rw [← heq]
    exact h.leased w' k' hk'
  have hself : ∀ k', (((r.hold k true).goTo w p).workers w).lease = some k' → k' = k := by
    intro k' hk'
    rw [goTo_self, hlease] at hk'
    exact (Option.some.inj hk').symm
  have hinflight : ∀ k', r.inflight k' = true → (r.hold k true).inflight k' = true := by
    intro k' hk'
    by_cases hk : k' = k
    · rw [hk]
      exact Function.update_self ..
    · exact (Function.update_of_ne hk ..).trans hk'
  refine ⟨h.rows, h.entries, h.stateManifest, h.savedManifest, h.state, h.saved,
    fun w' k' hk' => ?_, fun w' w'' k' hk' hk'' => ?_, fun hdown => absurd hdown hmode,
    h.marked, fun hne e he happ => ?_, fun w' => ?_⟩
  · by_cases hw : w' = w
    · subst hw
      rw [hself k' hk']
      exact Function.update_self ..
    · exact hinflight k' (h.leased w' k' (hother w' k' hw hk').1)
  · by_cases hw : w' = w
    · by_cases hw' : w'' = w
      · rw [hw, hw']
      · subst hw
        exact absurd (hself k' hk') (hother w'' k' hw' hk'').2
    · by_cases hw' : w'' = w
      · subst hw'
        exact absurd (hself k' hk'') (hother w' k' hw hk').2
      · exact h.single w' w'' k' (hother w' k' hw hk').1 (hother w'' k' hw' hk'').1
  · rcases h.pending hne e he happ with hpending | ⟨hpoisoned, hheld⟩
    · exact .inl hpending
    · exact .inr ⟨hpoisoned, hinflight _ hheld⟩
  · by_cases hw : w' = w
    · subst hw
      rw [goTo_self]
      exact hknows.same rfl rfl
    · rw [goTo_ne _ p hw]
      exact (h.knows w').same rfl rfl

/-- A worker gives up its lease. -/
theorem Inv.drop (h : Inv m r) (hmode : r.mode = .running) {w : Nat} {k : BlockKey} {p : Phase}
    (hlease : (r.workers w).lease = some k) (hp : p.lease = none) :
    Inv m ((r.hold k false).goTo w p) := by
  have hother : ∀ w' k', (((r.hold k false).goTo w p).workers w').lease = some k' →
      w' ≠ w ∧ (r.workers w').lease = some k' ∧ k' ≠ k := by
    intro w' k' hk'
    by_cases hw : w' = w
    · subst hw
      rw [goTo_self, hp] at hk'
      cases hk'
    · rw [goTo_ne _ p hw] at hk'
      refine ⟨hw, hk', fun heq => hw ?_⟩
      subst heq
      exact h.single w' w k' hk' hlease
  refine ⟨h.rows, h.entries, h.stateManifest, h.savedManifest, h.state, h.saved,
    fun w' k' hk' => ?_, fun w' w'' k' hk' hk'' => ?_, fun hdown => ?_, h.marked,
    fun hne e he happ => ?_, fun w' => ?_⟩
  · rcases hother w' k' hk' with ⟨-, hold, hne⟩
    exact (Function.update_of_ne hne ..).trans (h.leased w' k' hold)
  · exact h.single w' w'' k' (hother w' k' hk').2.1 (hother w'' k' hk'').2.1
  · have hdown' : r.mode = .down := hdown
    rw [hmode] at hdown'
    cases hdown'
  · rcases h.pending hne e he happ with hpending | ⟨hpoisoned, -⟩
    · exact .inl hpending
    · rw [hmode] at hpoisoned
      cases hpoisoned
  · by_cases hw : w' = w
    · subst hw
      rw [goTo_self]
      exact knows_of_free hp
    · rw [goTo_ne _ p hw]
      exact (h.knows w').same rfl rfl

/-- The pending mark of a key becomes that of the operation that is to be applied. -/
theorem Inv.pend (h : Inv m r) {k : BlockKey} {v : Option Identity}
    (hkey : ∀ id, v = some id → id.2.1 = k)
    (hv : ∀ e ∈ r.entries, e.key = k → e.applied = false → v = some e.op.id) :
    Inv m { r with pending := Function.update r.pending k v } := by
  refine ⟨h.rows, h.entries, h.stateManifest, h.savedManifest, h.state, h.saved, h.leased,
    h.single, h.idle, fun j id hid => ?_, fun hne e he happ => ?_, fun w => ?_⟩
  · dsimp only at hid
    by_cases hj : j = k
    · subst hj
      rw [Function.update_self] at hid
      exact hkey id hid
    · rw [Function.update_of_ne hj] at hid
      exact h.marked j id hid
  · by_cases hk : e.key = k
    · left
      dsimp only
      rw [hk, Function.update_self]
      exact hv e he hk happ
    · dsimp only
      rw [Function.update_of_ne hk]
      exact h.pending hne e he happ
  · exact (h.knows w).same rfl rfl

/-- The row of an operation is written. -/
theorem Inv.put (h : Inv m r) {op : Operation} {rows : Rows}
    (hput : DexRuntime.put r.rows op.payload.block = some rows)
    (hmanifest : op.payload.block.manifest = m)
    (hknown : (∃ e ∈ r.entries, e.op = op ∧ e.applied = false) ∨ Reached r.rows op.payload.block)
    (hfree : ∀ w f op' b, r.workers w = .settle f op' (some b) → f.key ≠ op.payload.key) :
    Inv m { r with rows } := by
  rcases hknown with ⟨e, he, hop, happ⟩ | hreached
  · have hgrows := put_grows hput
    have hsame : ∀ k, k ≠ op.payload.key → rows k = r.rows k := fun k hk => put_other hput hk
    have hekey : e.key = op.payload.key := by rw [Entry.key, hop]
    have hsettled : ∀ done : Entry → Bool, done e ≠ true →
        ∀ k, Settled done r.entries k → rows k = r.rows k := by
      intro done hdone k hk
      refine hsame k fun heq => hdone (hk e he ?_)
      rw [hekey, heq]
    refine ⟨h.rows.put hput hmanifest, ⟨h.entries.id, h.entries.manifest, h.entries.covered,
      fun x hx hxa => (h.entries.reached x hx hxa).grow hgrows, h.entries.unique⟩,
      h.stateManifest, h.savedManifest, h.state.grow hgrows (hsettled _ (by simp [happ])),
      h.saved.grow hgrows (hsettled _ fun hcovered => ?_), h.leased, h.single, h.idle, h.marked,
      h.pending,      fun w => ?_⟩
    · rw [h.entries.covered e he hcovered] at happ
      cases happ
    · refine (h.knows w).frame (fun k _ => ⟨hgrows, fun x hx _ hxa => ⟨x, hx, rfl, hxa⟩,
        fun x hx _ hxa => .inl ⟨x, hx, rfl, hxa⟩⟩) fun f op' b hsettle => ?_
      exact hsame _ (hfree w f op' b hsettle)
  · rw [put_again hput hreached]
    exact h

/-- The state takes the row of a key, whose operations may be applied with it. -/
theorem Inv.install (h : Inv m r) {k : BlockKey} {b : Block} (hb : r.rows k = some b) {s : State}
    (happly : r.state.apply b = .ok s) {entries : List Entry}
    (hok : EntriesOk m r.rows entries)
    (hback : ∀ e ∈ entries, e.applied = false → e ∈ r.entries)
    (hkeep : ∀ e ∈ r.entries, e.applied = false →
      e ∈ entries ∨ (e.key = k ∧ Reached r.rows e.block))
    (hsaved : ∀ j, Settled Entry.covered entries j → Settled Entry.covered r.entries j) :
    Inv m { r with state := s, entries } := by
  have hkey := h.rows.key k b hb
  subst hkey
  rcases h.state.apply h.stateManifest h.rows hb with ⟨s', happly', hmanifest, hmirrors⟩
  rw [happly'] at happly
  cases happly
  refine ⟨h.rows, hok, hmanifest, h.savedManifest,
    hmirrors entries fun j hj hsettled e he hkey => ?_, h.saved.entries hsaved, h.leased, h.single, h.idle, h.marked, fun hne e he happ =>
      h.pending hne e (hback e he happ) happ, fun w => ?_⟩
  · by_contra happ
    have hfalse := Bool.eq_false_of_not_eq_true happ
    rcases hkeep e he hfalse with hin | ⟨heq, -⟩
    · exact happ (hsettled e hin hkey)
    · exact hj (hkey.symm.trans heq)
  · refine (h.knows w).frame (fun j _ => ⟨Grows.refl _, fun e he _ happ =>
      ⟨e, hback e he happ, rfl, happ⟩, fun e he _ happ => ?_⟩) fun _ _ _ _ => rfl
    rcases hkeep e he happ with hin | ⟨-, hreached⟩
    · exact .inl ⟨e, hin, rfl, happ⟩
    · exact .inr hreached

theorem mark_op (op : Operation) (e : Entry) : (mark op e).op = e.op := by
  unfold mark
  split_ifs <;> rfl

theorem mark_covered (op : Operation) (e : Entry) : (mark op e).covered = e.covered := by
  unfold mark
  split_ifs <;> rfl

theorem mark_unapplied {op : Operation} {e : Entry} (h : (mark op e).applied = false) :
    mark op e = e ∧ e.op ≠ op := by
  unfold mark at h ⊢
  split_ifs at h ⊢ with hop
  exact ⟨rfl, hop⟩

theorem EntriesOk.mark {rows : Rows} {entries : List Entry} (h : EntriesOk m rows entries)
    {op : Operation} (hreached : Reached rows op.payload.block) :
    EntriesOk m rows (entries.map (mark op)) := by
  refine h.image (DexRuntime.mark op) (mark_op op) (fun e' he' => ?_) (fun e he hcovered => ?_)
    fun e he happ => ?_
  · rcases List.mem_map.mp he' with ⟨e, he, heq⟩
    exact ⟨e, he, heq.symm⟩
  · rw [mark_covered] at hcovered
    have happ := h.covered e he hcovered
    unfold DexRuntime.mark
    split_ifs
    · rfl
    · exact happ
  · unfold DexRuntime.mark at happ
    split_ifs at happ with hop
    · rwa [Entry.block, hop]
    · exact h.reached e he happ

/-- The state takes the row of an operation, which is marked as applied. -/
theorem Inv.mark (h : Inv m r) {op : Operation} {b : Block} (hb : r.rows op.payload.key = some b)
    {s : State} (happly : r.state.apply b = .ok s) (hreached : Reached r.rows op.payload.block) :
    Inv m { r with state := s, entries := r.entries.map (mark op) } := by
  refine h.install hb happly (h.entries.mark hreached) (fun e' he' happ => ?_)
    (fun e he happ => ?_) fun j hj e he hkey => ?_
  · rcases List.mem_map.mp he' with ⟨e, he, rfl⟩
    rw [(mark_unapplied happ).1]
    exact he
  · by_cases hop : e.op = op
    · right
      rw [Entry.key, Entry.block, hop]
      exact ⟨rfl, hreached⟩
    · left
      refine List.mem_map.mpr ⟨e, he, ?_⟩
      unfold DexRuntime.mark
      rw [if_neg hop]
  · have hcovered := hj (DexRuntime.mark op e) (List.mem_map_of_mem he)
      (by rw [Entry.key, mark_op, ← hkey, Entry.key])
    rwa [mark_covered] at hcovered

/-- An operation is noted while its worker is on the way to give up the lease. -/
theorem Inv.note (h : Inv m r) {op : Operation} (hid : op.id = op.payload.identity)
    (hmanifest : op.payload.block.manifest = m) (hnew : ∀ e ∈ r.entries, e.op.id ≠ op.id)
    (hfree : ∀ w, (r.workers w).lease = some op.payload.key → ∃ f, r.workers w = .release f)
    {issued : Nat} {mode : Mode} {pending : BlockKey → Option Identity}
    (hdown : mode ≠ .down) (hmarked : ∀ k id, pending k = some id → id.2.1 = k)
    (hpending : ∀ e ∈ r.entries ++ [⟨op, false, false⟩], e.applied = false →
      pending e.key = some e.op.id ∨ (mode = .poisoned ∧ r.inflight e.key = true)) :
    Inv m { r with mode, pending, issued, entries := r.entries ++ [⟨op, false, false⟩] } := by
  have hmem : ∀ e ∈ r.entries ++ [⟨op, false, false⟩],
      e ∈ r.entries ∨ e = (⟨op, false, false⟩ : Entry) := fun e he => by
    rcases List.mem_append.mp he with he | he
    · exact .inl he
    · exact .inr (List.mem_singleton.mp he)
  have hsettled : ∀ (done : Entry → Bool) k,
      Settled done (r.entries ++ [⟨op, false, false⟩]) k → Settled done r.entries k :=
    fun done k hk e he => hk e (List.mem_append_left _ he)
  refine ⟨h.rows, ⟨fun e he => ?_, fun e he => ?_, fun e he hcovered => ?_, fun e he happ => ?_,
    fun e he x hx heq => ?_⟩, h.stateManifest, h.savedManifest, h.state.entries (hsettled _),
    h.saved.entries (hsettled _), h.leased, h.single, fun heq => absurd heq hdown, hmarked,
    fun _ e he happ => hpending e he happ, fun w => ?_⟩
  · rcases hmem e he with hold | rfl
    · exact h.entries.id e hold
    · exact hid
  · rcases hmem e he with hold | rfl
    · exact h.entries.manifest e hold
    · exact hmanifest
  · rcases hmem e he with hold | rfl
    · exact h.entries.covered e hold hcovered
    · cases hcovered
  · rcases hmem e he with hold | rfl
    · exact h.entries.reached e hold happ
    · cases happ
  · rcases hmem e he with hold | rfl
    · rcases hmem x hx with hold' | rfl
      · exact h.entries.unique e hold x hold' heq
      · exact absurd heq (hnew e hold)
    · rcases hmem x hx with hold' | rfl
      · exact absurd heq.symm (hnew x hold')
      · rfl
  · by_cases hlease : (r.workers w).lease = some op.payload.key
    · rcases hfree w hlease with ⟨f, hf⟩
      change Knows m _ (r.workers w)
      rw [hf]
      trivial
    · refine (h.knows w).frame (fun k hk => ⟨Grows.refl _, fun e he hkey happ => ?_,
        fun e he _ happ => .inl ⟨e, List.mem_append_left _ he, rfl, happ⟩⟩) fun _ _ _ _ => rfl
      rcases hmem e he with hold | rfl
      · exact ⟨e, hold, rfl, happ⟩
      · exact absurd (hk.trans (congrArg some hkey.symm)) hlease

/-- What the entry of an operation becomes at a checkpoint. -/
theorem mem_checkpoint {e' : Entry} (h : e' ∈ r.checkpoint.entries) :
    ∃ e ∈ r.entries, e.covered = false ∧ e' = { e with covered := e.applied } := by
  rcases List.mem_map.mp h with ⟨e, he, rfl⟩
  rcases List.mem_filter.mp he with ⟨he, hcovered⟩
  exact ⟨e, he, by simpa using hcovered, rfl⟩

theorem checkpoint_mem {e : Entry} (h : e ∈ r.entries) (hcovered : e.covered = false) :
    { e with covered := e.applied } ∈ r.checkpoint.entries :=
  List.mem_map_of_mem (List.mem_filter.mpr ⟨h, by simpa using hcovered⟩)

theorem Inv.checkpoint (h : Inv m r) : Inv m r.checkpoint := by
  -- an entry is gone only when it was covered, and so applied
  have hsettled : ∀ done : Entry → Bool, (∀ e : Entry, done { e with covered := e.applied } = true →
      e.applied = true) → ∀ k, Settled done r.checkpoint.entries k →
        Settled Entry.applied r.entries k := by
    intro done hdone k hk e he hkey
    by_cases hcovered : e.covered = true
    · exact h.entries.covered e he hcovered
    · exact hdone e (hk _ (checkpoint_mem he (Bool.eq_false_of_not_eq_true hcovered)) hkey)
  have hkeep : ∀ e ∈ r.entries, e.applied = false →
      { e with covered := e.applied } ∈ r.checkpoint.entries := by
    intro e he happ
    refine checkpoint_mem he (Bool.eq_false_of_not_eq_true fun hcovered => ?_)
    rw [h.entries.covered e he hcovered] at happ
    cases happ
  refine ⟨h.rows, ?_, h.stateManifest, h.stateManifest,
    h.state.entries (hsettled _ fun _ happ => happ),
    h.state.entries (hsettled _ fun _ happ => happ), h.leased, h.single, h.idle, h.marked, fun hne e' he' happ => ?_, fun w => ?_⟩
  · refine h.entries.image (fun e => { e with covered := e.applied }) (fun _ => rfl)
      (fun e' he' => ?_) (fun _ _ hcovered => hcovered) h.entries.reached
    rcases mem_checkpoint he' with ⟨e, he, -, heq⟩
    exact ⟨e, he, heq⟩
  · rcases mem_checkpoint he' with ⟨e, he, -, rfl⟩
    exact h.pending hne e he happ
  · refine (h.knows w).frame (fun k _ => ⟨Grows.refl _, fun e' he' _ happ => ?_,
      fun e he _ happ => .inl ⟨_, hkeep e he happ, rfl, happ⟩⟩) fun _ _ _ _ => rfl
    rcases mem_checkpoint he' with ⟨e, he, -, rfl⟩
    exact ⟨e, he, rfl, happ⟩

theorem Inv.crash (h : Inv m r) : Inv m r.crash := by
  have hsettled : ∀ done : Entry → Bool, (∀ e : Entry, done { e with applied := e.covered } = true →
      e.covered = true) → ∀ k, Settled done r.crash.entries k →
        Settled Entry.covered r.entries k :=
    fun done hdone k hk e he hkey => hdone e (hk _ (List.mem_map_of_mem he) hkey)
  refine ⟨h.rows, ?_, h.savedManifest, h.savedManifest,
    h.saved.entries (hsettled _ fun _ hcovered => hcovered),
    h.saved.entries (hsettled _ fun _ hcovered => hcovered), fun w k hk => ?_,
    fun w w' k hk => ?_, fun _ _ => rfl, fun k id hid => ?_, fun hne => absurd rfl hne,
    fun _ => trivial⟩
  · refine h.entries.image (fun e => { e with applied := e.covered }) (fun _ => rfl)
      (fun e' he' => ?_) (fun _ _ hcovered => hcovered)
      fun e he hcovered => h.entries.reached e he (h.entries.covered e he hcovered)
    rcases List.mem_map.mp he' with ⟨e, he, heq⟩
    exact ⟨e, he, heq.symm⟩
  · cases hk
  · cases hk
  · cases hid

/-- Nobody holds a lease of an owner that is down. -/
theorem Inv.free (h : Inv m r) (hmode : r.mode = .down) (w : Nat) : (r.workers w).lease = none := by
  cases hlease : (r.workers w).lease with
  | none => rfl
  | some k =>
      have hheld := h.leased w k hlease
      rw [h.idle hmode k] at hheld
      cases hheld

theorem Inv.opened (h : Inv m r) (hmode : r.mode = .down)
    (happlied : ∀ e ∈ r.entries, e.applied = true) : Inv m { r with mode := .running } := by
  refine ⟨h.rows, h.entries, h.stateManifest, h.savedManifest, h.state, h.saved, h.leased,
    h.single, fun hdown => ?_, h.marked, fun _ e he happ => ?_,
    fun w => knows_of_free (h.free hmode w)⟩
  · cases hdown
  · rw [happlied e he] at happ
    cases happ

end MarketInfo.DexRuntime
