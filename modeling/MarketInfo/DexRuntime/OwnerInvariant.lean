import MarketInfo.DexRuntime.Owner

/-! # What the owner, its workers and the database keep

The database only grows: a row's revision never falls, and a final row stays final.
An operation that is not applied is known to its key's pending mark, so that the next
lease on the key executes it first. The state holds what the database holds of every
key whose operations are all applied, and so does the checkpoint of every key whose
operations it covers.
-/

namespace MarketInfo.DexRuntime

/-! ## The database -/

/-- No row falls behind, and a final one stays final. -/
def Grows (rows rows' : Rows) : Prop :=
  ∀ k b, rows k = some b →
    ∃ c, rows' k = some c ∧ b.revision ≤ c.revision ∧ (b.Final → c.Final)

theorem Grows.refl (rows : Rows) : Grows rows rows := fun _ b h =>
  ⟨b, h, UInt64.le_refl _, id⟩

theorem Grows.trans {rows rows' rows'' : Rows} (h : Grows rows rows') (h' : Grows rows' rows'') :
    Grows rows rows'' := by
  intro k b hb
  rcases h k b hb with ⟨c, hc, hle, hfinal⟩
  rcases h' k c hc with ⟨d, hd, hle', hfinal'⟩
  exact ⟨d, hd, UInt64.le_trans hle hle', fun hb => hfinal' (hfinal hb)⟩

structure RowsOk (m : Hash) (rows : Rows) : Prop where
  key : ∀ k b, rows k = some b → DexRuntime.key b = k
  complete : ∀ k b, rows k = some b → b.Complete
  manifest : ∀ k b, rows k = some b → b.manifest = m

/-- The database has the revision of a block, or a newer one. -/
def Reached (rows : Rows) (b : Block) : Prop :=
  ∃ c, rows (key b) = some c ∧ b.revision ≤ c.revision

theorem Reached.grow {rows rows' : Rows} {b : Block} (h : Reached rows b)
    (hgrows : Grows rows rows') : Reached rows' b := by
  rcases h with ⟨c, hc, hle⟩
  rcases hgrows _ c hc with ⟨d, hd, hle', -⟩
  exact ⟨d, hd, UInt64.le_trans hle hle'⟩

/-- What a write does: it installs a newer revision, or keeps the row that it finds. -/
theorem put_cases {rows rows' : Rows} {b : Block} (h : put rows b = some rows') :
    b.Complete ∧
      ((rows' = rows ∧ Reached rows b) ∨
        (rows' = Function.update rows (key b) (some b) ∧
          ∀ prev, rows (key b) = some prev →
            prev.revision < b.revision ∧ (prev.Final → b.Final))) := by
  unfold put at h
  split_ifs at h with hcomplete
  refine ⟨hcomplete.1, ?_⟩
  cases hprev : rows (key b) with
  | none =>
      rw [hprev] at h
      exact .inr ⟨(Option.some.inj h).symm, fun prev hp => by cases hp⟩
  | some prev =>
      rw [hprev] at h
      dsimp only at h
      split_ifs at h with hlt heq hsame hfinal hmanifest
      · exact .inl ⟨(Option.some.inj h).symm, prev, hprev, UInt64.le_of_lt hlt⟩
      · exact .inl ⟨(Option.some.inj h).symm, prev, hprev, heq ▸ UInt64.le_refl _⟩
      · refine .inr ⟨(Option.some.inj h).symm, fun q hq => ?_⟩
        cases hq
        have hle : prev.revision ≤ b.revision := UInt64.not_lt.mp hlt
        refine ⟨UInt64.lt_of_le_of_ne hle (Ne.symm heq), fun hp => ?_⟩
        by_contra hb
        exact hfinal ⟨hp.2, hb⟩

theorem put_grows {rows rows' : Rows} {b : Block} (h : put rows b = some rows') :
    Grows rows rows' := by
  rcases (put_cases h).2 with ⟨rfl, -⟩ | ⟨rfl, hprev⟩
  · exact Grows.refl rows'
  · intro k c hc
    by_cases hk : k = key b
    · subst hk
      rcases hprev c hc with ⟨hlt, hfinal⟩
      exact ⟨b, Function.update_self .., UInt64.le_of_lt hlt, hfinal⟩
    · exact ⟨c, by rw [Function.update_of_ne hk, hc], UInt64.le_refl _, id⟩

theorem put_reached {rows rows' : Rows} {b : Block} (h : put rows b = some rows') :
    Reached rows' b := by
  rcases (put_cases h).2 with ⟨rfl, hreached⟩ | ⟨rfl, -⟩
  · exact hreached
  · exact ⟨b, Function.update_self .., UInt64.le_refl _⟩

theorem put_other {rows rows' : Rows} {b : Block} (h : put rows b = some rows') {k : BlockKey}
    (hk : k ≠ key b) : rows' k = rows k := by
  rcases (put_cases h).2 with ⟨rfl, -⟩ | ⟨rfl, -⟩
  · rfl
  · exact Function.update_of_ne hk ..

/-- A write that was made before changes nothing. -/
theorem put_again {rows rows' : Rows} {b : Block} (h : put rows b = some rows')
    (hreached : Reached rows b) : rows' = rows := by
  rcases (put_cases h).2 with ⟨rfl, -⟩ | ⟨-, hprev⟩
  · rfl
  · rcases hreached with ⟨c, hc, hle⟩
    exact absurd (hprev c hc).1 (UInt64.not_lt.mpr hle)

theorem RowsOk.put {m : Hash} {rows rows' : Rows} {b : Block} (h : RowsOk m rows)
    (hput : put rows b = some rows') (hb : b.manifest = m) : RowsOk m rows' := by
  rcases put_cases hput with ⟨hcomplete, ⟨rfl, -⟩ | ⟨rfl, -⟩⟩
  · exact h
  · have hcases : ∀ k c, Function.update rows (DexRuntime.key b) (some b) k = some c →
        (k = DexRuntime.key b ∧ c = b) ∨ rows k = some c := by
      intro k c hc
      by_cases hk : k = DexRuntime.key b
      · subst hk
        rw [Function.update_self] at hc
        exact .inl ⟨rfl, (Option.some.inj hc).symm⟩
      · rw [Function.update_of_ne hk] at hc
        exact .inr hc
    refine ⟨fun k c hc => ?_, fun k c hc => ?_, fun k c hc => ?_⟩ <;>
      rcases hcases k c hc with ⟨rfl, rfl⟩ | hold
    · rfl
    · exact h.key k c hold
    · exact hcomplete
    · exact h.complete k c hold
    · exact hb
    · exact h.manifest k c hold

/-! ## The operations -/

def Entry.block (e : Entry) : Block := e.op.payload.block

def Entry.key (e : Entry) : BlockKey := e.op.payload.key

structure EntriesOk (m : Hash) (rows : Rows) (entries : List Entry) : Prop where
  id : ∀ e ∈ entries, e.op.id = e.op.payload.identity
  manifest : ∀ e ∈ entries, e.block.manifest = m
  covered : ∀ e ∈ entries, e.covered = true → e.applied = true
  reached : ∀ e ∈ entries, e.applied = true → Reached rows e.block
  unique : ∀ e ∈ entries, ∀ e' ∈ entries, e.op.id = e'.op.id → e = e'

/-- Operations of the list, with other marks: none is covered without being applied, or applied
without its row. -/
theorem EntriesOk.image {m : Hash} {rows : Rows} {entries entries' : List Entry}
    (h : EntriesOk m rows entries) (g : Entry → Entry) (hop : ∀ e, (g e).op = e.op)
    (hmem : ∀ e' ∈ entries', ∃ e ∈ entries, e' = g e)
    (hcovered : ∀ e ∈ entries, (g e).covered = true → (g e).applied = true)
    (hreached : ∀ e ∈ entries, (g e).applied = true → Reached rows e.block) :
    EntriesOk m rows entries' := by
  refine ⟨fun e' he' => ?_, fun e' he' => ?_, fun e' he' => ?_, fun e' he' => ?_,
    fun e' he' x' hx' hid => ?_⟩ <;> rcases hmem e' he' with ⟨e, he, rfl⟩
  · rw [hop]
    exact h.id e he
  · rw [Entry.block, hop]
    exact h.manifest e he
  · exact hcovered e he
  · rw [Entry.block, hop]
    exact hreached e he
  · rcases hmem x' hx' with ⟨x, hx, rfl⟩
    rw [hop, hop] at hid
    rw [h.unique e he x hx hid]

/-- Every operation on a key has been dealt with. -/
def Settled (done : Entry → Bool) (entries : List Entry) (k : BlockKey) : Prop :=
  ∀ e ∈ entries, e.key = k → done e = true

/-- A state built from blocks that the database has, or had an older revision of. Of a key whose
operations are done it has the row. -/
def Mirrors (rows : Rows) (entries : List Entry) (done : Entry → Bool) (s : State) : Prop :=
  ∃ bs, Exact bs s ∧
    (∀ k b, latest bs k = some b → ∃ c, rows k = some c ∧ b.revision ≤ c.revision) ∧
    (∀ b ∈ bs, b.Final → ∃ c, rows (key b) = some c ∧ c.Final) ∧
    ∀ k, Settled done entries k → latest bs k = rows k

theorem Mirrors.entries {rows : Rows} {entries entries' : List Entry} {done done' : Entry → Bool}
    {s : State} (h : Mirrors rows entries done s)
    (hsettled : ∀ k, Settled done' entries' k → Settled done entries k) :
    Mirrors rows entries' done' s := by
  rcases h with ⟨bs, hexact, hle, hfinal, hlatest⟩
  exact ⟨bs, hexact, hle, hfinal, fun k hk => hlatest k (hsettled k hk)⟩

theorem Mirrors.grow {rows rows' : Rows} {entries : List Entry} {done : Entry → Bool} {s : State}
    (h : Mirrors rows entries done s) (hgrows : Grows rows rows')
    (hsame : ∀ k, Settled done entries k → rows' k = rows k) : Mirrors rows' entries done s := by
  rcases h with ⟨bs, hexact, hle, hfinal, hlatest⟩
  refine ⟨bs, hexact, fun k b hb => ?_, fun b hb hbf => ?_, fun k hk => ?_⟩
  · rcases hle k b hb with ⟨c, hc, hbc⟩
    rcases hgrows k c hc with ⟨d, hd, hcd, -⟩
    exact ⟨d, hd, UInt64.le_trans hbc hcd⟩
  · rcases hfinal b hb hbf with ⟨c, hc, hcf⟩
    rcases hgrows _ c hc with ⟨d, hd, -, hdf⟩
    exact ⟨d, hd, hdf hcf⟩
  · rw [hlatest k hk, hsame k hk]

/-- The height of a record counts it. -/
theorem Recorded.counted {bs : List Block} {s : State} (h : Recorded bs s) {b : Block}
    (hexist : (s.active.get (key b)).isSome = true) :
    0 < (s.heights.get (heightKey b.number)).getD 0 := by
  rcases Option.isSome_iff_exists.mp hexist with ⟨o, ho⟩
  have hcount : (s.heights.get (heightKey b.number)).getD 0 = s.recordsAt b.number.toNat :=
    h.count _
  rw [hcount]
  exact recordsAt_pos.mpr ⟨key b, o, ho, h.number ho⟩

/-- A block is accepted that is complete and not older than the last one of its key. -/
theorem Exact.apply_ok {bs : List Block} {s : State} {b : Block} (h : Exact bs s)
    (hmanifest : b.manifest = s.manifest) (hcomplete : b.Complete)
    (hle : ∀ c, latest bs (key b) = some c → c.revision ≤ b.revision) :
    ∃ s', s.apply b = .ok s' ∧ s'.manifest = s.manifest := by
  rcases hcomplete with ⟨hchain, hnumber, hhash, hrevision, hcommitted⟩
  have hrec : ∃ t n, s.record b ((s.heights.get (heightKey b.number)).getD 0) = .ok (t, n) := by
    unfold State.record
    dsimp only
    split_ifs with hactive hexist hexist hzero hone
    · exact ⟨_, _, rfl⟩
    · exact ⟨_, _, rfl⟩
    · exact absurd hzero (h.toRecorded.counted hexist).ne'
    · exact ⟨_, _, rfl⟩
    · exact ⟨_, _, rfl⟩
    · exact ⟨_, _, rfl⟩
  rcases hrec with ⟨t, n, hrec⟩
  have hvalid : ¬ (b.manifest ≠ s.manifest ∨ b.chainID ≠ 1 ∨ b.committed = false ∨ b.number = 0 ∨
      b.revision = 0 ∨ b.hash = 0) := by
    have hhash' : b.hash ≠ 0 := hhash
    rw [hcommitted]
    tauto
  have hregress : ¬ (s.active.get (key b)).any (fun old => b.revision < old.revision) = true := by
    rw [h.active]
    cases hlatest : latest bs (key b) with
    | none => simp
    | some c =>
        have hc := UInt64.not_lt.mpr (hle c hlatest)
        rw [Option.bind_some, Block.kept]
        split_ifs
        · simpa [Block.state] using hc
        · simp
  have hheight : ¬ ((s.active.get (key b)).isSome = true ∧
      s.heights.get (heightKey b.number) = none) := by
    rintro ⟨hexist, hnone⟩
    have hpos := h.toRecorded.counted hexist
    rw [hnone] at hpos
    exact absurd hpos (lt_irrefl 0)
  refine ⟨t.cover b n, ?_, ?_⟩
  · unfold State.apply
    rw [Check.seq_eq_ok, Check.seq_eq_ok, Check.seq_eq_ok]
    exact ⟨Check.failIf_eq_ok.mpr hvalid, Check.failIf_eq_ok.mpr hregress,
      Check.failIf_eq_ok.mpr hheight, Check.andThen_eq_ok.mpr ⟨(t, n), hrec, rfl⟩⟩
  · rcases h.toRecorded.record hrec with ⟨-, -, -, hbeside⟩
    exact hbeside.manifest

/-- The state takes the row of a key, and then has what the database has of that key. -/
theorem Mirrors.apply {rows : Rows} {entries : List Entry} {s : State} {m : Hash} {b : Block}
    (h : Mirrors rows entries Entry.applied s) (hs : s.manifest = m) (hrows : RowsOk m rows)
    (hb : rows (key b) = some b) :
    ∃ s', s.apply b = .ok s' ∧ s'.manifest = m ∧
      ∀ entries', (∀ k, k ≠ key b → Settled Entry.applied entries' k →
        Settled Entry.applied entries k) → Mirrors rows entries' Entry.applied s' := by
  rcases h with ⟨bs, hexact, hle, hfinal, hlatest⟩
  have hrevision : ∀ c, latest bs (key b) = some c → c.revision ≤ b.revision := by
    intro c hc
    rcases hle _ c hc with ⟨d, hd, hcd⟩
    rw [hb] at hd
    cases hd
    exact hcd
  have hmanifest : b.manifest = s.manifest := by rw [hs, hrows.manifest _ b hb]
  rcases hexact.apply_ok hmanifest (hrows.complete _ b hb) hrevision with ⟨s', happly, hkept⟩
  refine ⟨s', happly, hkept.trans hs, fun entries' hsettled => ⟨bs ++ [b], hexact.apply happly,
    fun k c hc => ?_, fun c hc hcf => ?_, fun k hk => ?_⟩⟩
  · rw [latest_append] at hc
    split_ifs at hc with hkey
    · cases hc
      exact ⟨b, hkey ▸ hb, UInt64.le_refl _⟩
    · exact hle k c hc
  · rcases List.mem_append.mp hc with hc | hc
    · exact hfinal c hc hcf
    · rw [List.mem_singleton.mp hc] at hcf ⊢
      exact ⟨b, hb, hcf⟩
  · rw [latest_append]
    split_ifs with hkey
    · rw [← hkey, hb]
    · exact hlatest k (hsettled k (Ne.symm hkey) hk)

/-! ## The workers -/

/-- An operation that a worker executes: it is to be applied, or its row is there already; and
nothing else of its key is to be applied. -/
structure Holds (m : Hash) (r : Runtime) (f : FrozenWrite) (op : Operation) : Prop where
  id : op.id = op.payload.identity
  key : op.payload.key = f.key
  manifest : op.payload.block.manifest = m
  known : (∃ e ∈ r.entries, e.op = op ∧ e.applied = false) ∨ Reached r.rows op.payload.block
  only : ∀ e ∈ r.entries, e.key = f.key → e.applied = false → e.op = op

/-- What a worker knows in its phase. -/
def Knows (m : Hash) (r : Runtime) : Phase → Prop
  | .inspect f => f.block.manifest = m ∧ Settled Entry.applied r.entries f.key
  | .begin f selected =>
      f.block.manifest = m ∧ selected.block = f.block ∧ selected.identity = f.identity ∧
        Settled Entry.applied r.entries f.key
  | .write f op => Holds m r f op
  | .reread f op => Holds m r f op ∧ Reached r.rows op.payload.block
  | .settle f op none => Holds m r f op
  | .settle f op (some b) =>
      Holds m r f op ∧ Reached r.rows op.payload.block ∧ r.rows f.key = some b
  | _ => True

structure Inv (m : Hash) (r : Runtime) : Prop where
  rows : RowsOk m r.rows
  entries : EntriesOk m r.rows r.entries
  stateManifest : r.state.manifest = m
  savedManifest : r.saved.manifest = m
  state : Mirrors r.rows r.entries Entry.applied r.state
  saved : Mirrors r.rows r.entries Entry.covered r.saved
  leased : ∀ w k, (r.workers w).lease = some k → r.inflight k = true
  single : ∀ w w' k, (r.workers w).lease = some k → (r.workers w').lease = some k → w = w'
  idle : r.mode = .down → ∀ k, r.inflight k = false
  marked : ∀ k id, r.pending k = some id → id.2.1 = k
  pending : r.mode ≠ .down → ∀ e ∈ r.entries, e.applied = false →
    r.pending e.key = some e.op.id ∨ (r.mode = .poisoned ∧ r.inflight e.key = true)
  knows : ∀ w, Knows m r (r.workers w)

/-- A worker without a lease knows nothing. -/
theorem knows_of_free {m : Hash} {r : Runtime} {p : Phase} (h : p.lease = none) : Knows m r p := by
  cases p with
  | idle => trivial
  | admission f => trivial
  | _ => cases h

/-- The operations of a key that are to be applied are the same, up to those whose row is there. -/
structure Frame (r r' : Runtime) (k : BlockKey) : Prop where
  rows : Grows r.rows r'.rows
  back : ∀ e' ∈ r'.entries, e'.key = k → e'.applied = false →
    ∃ e ∈ r.entries, e.op = e'.op ∧ e.applied = false
  keep : ∀ e ∈ r.entries, e.key = k → e.applied = false →
    (∃ e' ∈ r'.entries, e'.op = e.op ∧ e'.applied = false) ∨ Reached r'.rows e.block

theorem Frame.same {r r' : Runtime} (k : BlockKey) (hrows : r'.rows = r.rows)
    (hentries : r'.entries = r.entries) : Frame r r' k := by
  refine ⟨hrows ▸ Grows.refl _, fun e he _ happ => ?_, fun e he _ happ => .inl ?_⟩
  · exact ⟨e, hentries ▸ he, rfl, happ⟩
  · exact ⟨e, hentries ▸ he, rfl, happ⟩

theorem Frame.settled {r r' : Runtime} {k : BlockKey} (h : Frame r r' k)
    (hsettled : Settled Entry.applied r.entries k) : Settled Entry.applied r'.entries k := by
  intro e' he' hkey
  by_contra happ
  rcases h.back e' he' hkey (Bool.eq_false_of_not_eq_true happ) with ⟨e, he, hop, hfalse⟩
  have hekey : e.key = k := by rw [Entry.key, hop, ← hkey, Entry.key]
  rw [hsettled e he hekey] at hfalse
  cases hfalse

theorem Holds.frame {m : Hash} {r r' : Runtime} {f : FrozenWrite} {op : Operation}
    (h : Holds m r f op) (hframe : Frame r r' f.key) : Holds m r' f op := by
  refine ⟨h.id, h.key, h.manifest, ?_, fun e' he' hkey happ => ?_⟩
  · rcases h.known with ⟨e, he, rfl, happ⟩ | hreached
    · exact hframe.keep e he h.key happ
    · exact .inr (hreached.grow hframe.rows)
  · rcases hframe.back e' he' hkey happ with ⟨e, he, hop, hfalse⟩
    rw [← hop]
    refine h.only e he ?_ hfalse
    rw [Entry.key, hop, ← hkey, Entry.key]

/-- What a worker knows stays true where its key keeps its operations and its row. -/
theorem Knows.frame {m : Hash} {r r' : Runtime} {p : Phase} (h : Knows m r p)
    (hframe : ∀ k, p.lease = some k → Frame r r' k)
    (hrow : ∀ f op b, p = .settle f op (some b) → r'.rows f.key = r.rows f.key) :
    Knows m r' p := by
  cases p with
  | idle => trivial
  | admission f => trivial
  | release f => trivial
  | inspect f => exact ⟨h.1, (hframe _ rfl).settled h.2⟩
  | begin f selected => exact ⟨h.1, h.2.1, h.2.2.1, (hframe _ rfl).settled h.2.2.2⟩
  | write f op => exact Holds.frame h (hframe _ rfl)
  | reread f op =>
      have hf := hframe _ rfl
      exact ⟨h.1.frame hf, h.2.grow hf.rows⟩
  | settle f op actual =>
      have hf := hframe _ rfl
      cases actual with
      | none => exact Holds.frame h hf
      | some b => exact ⟨h.1.frame hf, h.2.1.grow hf.rows, (hrow f op b rfl).trans h.2.2⟩

/-- What a worker knows is about the rows and the operations only. -/
theorem Knows.same {m : Hash} {r r' : Runtime} {p : Phase} (h : Knows m r p)
    (hrows : r'.rows = r.rows) (hentries : r'.entries = r.entries) : Knows m r' p :=
  h.frame (fun k _ => Frame.same k hrows hentries) fun f _ _ _ => congrFun hrows f.key

/-- What the worker that holds the lease knows. -/
theorem Inv.worker {m : Hash} {r : Runtime} (h : Inv m r) {w : Nat} {p : Phase}
    (hw : r.workers w = p) : Knows m r p := by
  rw [← hw]
  exact h.knows w

theorem lease_of {r : Runtime} {w : Nat} {p : Phase} (hw : r.workers w = p) :
    (r.workers w).lease = p.lease := by
  rw [hw]

theorem not_down {r : Runtime} (h : r.mode = .running) : r.mode ≠ .down := by
  rw [h]
  simp

@[simp] theorem goTo_self (r : Runtime) (w : Nat) (p : Phase) : (r.goTo w p).workers w = p :=
  Function.update_self ..

theorem goTo_ne (r : Runtime) {w w' : Nat} (p : Phase) (h : w' ≠ w) :
    (r.goTo w p).workers w' = r.workers w' := Function.update_of_ne h ..

theorem goTo_goTo (r : Runtime) (w : Nat) (p q : Phase) : (r.goTo w p).goTo w q = r.goTo w q := by
  simp [Runtime.goTo]

end MarketInfo.DexRuntime
