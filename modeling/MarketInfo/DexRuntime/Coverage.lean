import MarketInfo.DexRuntime.State

/-! # The coverage is exact

Whatever blocks are accepted and in whatever order, each height's count is the
number of its records, and the covered heights are those with a record or with a
final block. The proof keeps the records, the counts and both interval lists in
one invariant, which a step on the records and a step on the intervals preserve.
-/

namespace MarketInfo.DexRuntime

/-- How many active records the height has. -/
def State.recordsAt (s : State) (n : Nat) : Nat :=
  s.active.count fun r => r.number.toNat = n

/-- The last of the blocks with a key. -/
def latest (bs : List Block) (k : BlockKey) : Option Block :=
  bs.reverse.find? fun b => key b = k

/-- What the records keep of a block. -/
def Block.kept (b : Block) : Option BlockState := if b.Active then some b.state else none

@[simp] theorem latest_nil (k : BlockKey) : latest [] k = none := rfl

theorem latest_append (bs : List Block) (b : Block) (k : BlockKey) :
    latest (bs ++ [b]) k = if key b = k then some b else latest bs k := by
  unfold latest
  rw [List.reverse_append, List.reverse_singleton, List.singleton_append, List.find?_cons]
  split_ifs with hk <;> simp [hk]

theorem number_of_key {b c : Block} (h : key b = key c) : b.number = c.number := by
  have hfst := congrArg (fun k => (ofLex k).1) h
  exact UInt64.toNat_inj.mp hfst

theorem key_of_latest {bs : List Block} {k : BlockKey} {b : Block} (h : latest bs k = some b) :
    key b = k := by
  unfold latest at h
  simpa using List.find?_some h

/-- What the records are about: each holds what its key's last block left. -/
structure Recorded (bs : List Block) (s : State) : Prop where
  active : ∀ k, s.active.get k = (latest bs k).bind Block.kept
  heights : ∀ n, s.heights.get n = if s.recordsAt n = 0 then none else some (s.recordsAt n)

theorem Recorded.number {bs : List Block} {s : State} (h : Recorded bs s) {k : BlockKey}
    {r : BlockState} (hget : s.active.get k = some r) : r.number.toNat = (ofLex k).1 := by
  rw [h.active] at hget
  rcases Option.bind_eq_some_iff.mp hget with ⟨b, hb, hkept⟩
  unfold Block.kept at hkept
  split_ifs at hkept
  cases hkept
  rw [← key_of_latest hb]
  rfl

theorem Recorded.count {bs : List Block} {s : State} (h : Recorded bs s) (n : Nat) :
    (s.heights.get n).getD 0 = s.recordsAt n := by
  rw [h.heights]
  split_ifs with hzero
  · rw [hzero]
    rfl
  · rfl

theorem Recorded.active_append {bs : List Block} {s : State} (h : Recorded bs s) {b : Block}
    {m : OrderedMap BlockKey BlockState}
    (hget : ∀ k, m.get k = if k = key b then b.kept else s.active.get k) (k : BlockKey) :
    m.get k = (latest (bs ++ [b]) k).bind Block.kept := by
  rw [hget, latest_append, h.active]
  by_cases hk : k = key b
  · rw [if_pos hk, if_pos hk.symm, Option.bind_some]
  · rw [if_neg hk, if_neg (Ne.symm hk)]

/-- What a step on the records leaves as it was. -/
structure Beside (s s' : State) : Prop where
  version : s'.version = s.version
  binding : s'.binding = s.binding
  manifest : s'.manifest = s.manifest
  verified : s'.verified = s.verified
  coverage : s'.coverage = s.coverage
  finalized : s'.finalized = s.finalized

theorem recordsAt_set_new {s : State} {b : Block} (h : s.active.get (key b) = none)
    (heights : OrderedMap Nat Nat) (n : Nat) :
    State.recordsAt { s with active := s.active.set (key b) b.state, heights } n =
      s.recordsAt n + if n = b.number.toNat then 1 else 0 := by
  unfold State.recordsAt
  dsimp only
  rw [OrderedMap.count_set_new h]
  unfold Block.state
  by_cases hn : n = b.number.toNat
  · simp [hn]
  · simp [hn, Ne.symm hn]

theorem recordsAt_delete {s : State} {b : Block} {o : BlockState}
    (h : s.active.get (key b) = some o) (hnumber : o.number = b.number)
    (heights : OrderedMap Nat Nat) (n : Nat) :
    (State.recordsAt { s with active := s.active.delete (key b), heights } n +
      if n = b.number.toNat then 1 else 0) = s.recordsAt n := by
  have hdelete := OrderedMap.count_delete_mem h fun r => r.number.toNat = n
  unfold State.recordsAt
  dsimp only
  rw [← hdelete, hnumber]
  by_cases hn : n = b.number.toNat
  · simp [hn]
  · simp [hn, Ne.symm hn]

/-- A record goes, and its height counts one less. -/
theorem Recorded.withdrawn {bs : List Block} {s : State} {b : Block} {o : BlockState}
    (h : Recorded bs s) (ho : s.active.get (key b) = some o) (hnumber : o.number = b.number)
    (hactive : ¬ b.Active) (heights : OrderedMap Nat Nat)
    (hheights : ∀ k, heights.get k =
      if k = heightKey b.number then
        if s.recordsAt b.number.toNat - 1 = 0 then none
        else some (s.recordsAt b.number.toNat - 1)
      else s.heights.get k) :
    Recorded (bs ++ [b]) { s with active := s.active.delete (key b), heights } ∧
      s.recordsAt b.number.toNat - 1 =
        State.recordsAt { s with active := s.active.delete (key b), heights } b.number.toNat ∧
      ∀ k, k ≠ b.number.toNat →
        State.recordsAt { s with active := s.active.delete (key b), heights } k =
          s.recordsAt k := by
  have hat := recordsAt_delete ho hnumber heights
  have hself := hat b.number.toNat
  rw [if_pos rfl] at hself
  have hother : ∀ k, k ≠ b.number.toNat →
      State.recordsAt { s with active := s.active.delete (key b), heights } k =
        s.recordsAt k := fun k hk => by
    have hk' := hat k
    rwa [if_neg hk] at hk'
  refine ⟨⟨h.active_append fun k => ?_, fun k => ?_⟩, by omega, hother⟩
  · rw [OrderedMap.get_delete, Block.kept, if_neg hactive]
  · dsimp only
    rw [hheights, heightKey]
    by_cases hk : k = b.number.toNat
    · have hcount : State.recordsAt { s with active := s.active.delete (key b), heights } k =
          s.recordsAt b.number.toNat - 1 := by
        rw [hk]
        omega
      rw [hcount, if_pos hk]
    · rw [if_neg hk, hother k hk, h.heights]

/-- A step on the records keeps them and the counts in step, and returns the new count. -/
theorem Recorded.record {bs : List Block} {s s' : State} {b : Block} {n : Nat} (h : Recorded bs s)
    (hrec : s.record b ((s.heights.get (heightKey b.number)).getD 0) = .ok (s', n)) :
    Recorded (bs ++ [b]) s' ∧ n = s'.recordsAt b.number.toNat ∧
      (∀ k, k ≠ b.number.toNat → s'.recordsAt k = s.recordsAt k) ∧ Beside s s' := by
  have hcount : (s.heights.get (heightKey b.number)).getD 0 = s.recordsAt b.number.toNat :=
    h.count _
  have hnumber : ∀ o, s.active.get (key b) = some o → o.number = b.number := fun o ho =>
    UInt64.toNat_inj.mp (h.number ho)
  rw [hcount] at hrec
  unfold State.record at hrec
  dsimp only at hrec
  split_ifs at hrec with hactive hexist hexist hzero hone
  · -- a newer revision of a record
    cases hrec
    rcases Option.isSome_iff_exists.mp hexist with ⟨o, ho⟩
    have hsame : ∀ k, State.recordsAt { s with active := s.active.set (key b) b.state } k =
        s.recordsAt k := fun k =>
      OrderedMap.count_set_same ho (by rw [hnumber o ho]; rfl)
    refine ⟨⟨h.active_append fun k => ?_, fun k => ?_⟩, (hsame _).symm, fun k _ => hsame k,
      ⟨rfl, rfl, rfl, rfl, rfl, rfl⟩⟩
    · rw [OrderedMap.get_set, Block.kept, if_pos hactive]
    · rw [hsame]
      exact h.heights k
  · -- the first sighting of a key
    cases hrec
    have hnew : s.active.get (key b) = none := by simpa using hexist
    have hat := recordsAt_set_new hnew
      (s.heights.set (heightKey b.number) (s.recordsAt b.number.toNat + 1))
    refine ⟨⟨h.active_append fun k => ?_, fun k => ?_⟩, ?_, fun k hk => ?_,
      ⟨rfl, rfl, rfl, rfl, rfl, rfl⟩⟩
    · rw [OrderedMap.get_set, Block.kept, if_pos hactive]
    · rw [hat, OrderedMap.get_set, h.heights]
      unfold heightKey
      by_cases hk : k = b.number.toNat
      · subst hk
        simp
      · simp [hk]
    · rw [hat, if_pos rfl]
    · rw [hat, if_neg hk, Nat.add_zero]
  · -- the only record of its height goes
    cases hrec
    rcases Option.isSome_iff_exists.mp hexist with ⟨o, ho⟩
    have hkept := h.withdrawn ho (hnumber o ho) hactive (s.heights.delete _) fun k => by
      rw [OrderedMap.get_delete, if_pos hone]
    exact ⟨hkept.1, hkept.2.1, hkept.2.2, ⟨rfl, rfl, rfl, rfl, rfl, rfl⟩⟩
  · -- one of several records of its height goes
    cases hrec
    rcases Option.isSome_iff_exists.mp hexist with ⟨o, ho⟩
    have hkept := h.withdrawn ho (hnumber o ho) hactive (s.heights.set _ _) fun k => by
      rw [OrderedMap.get_set, if_neg hone]
    exact ⟨hkept.1, hkept.2.1, hkept.2.2, ⟨rfl, rfl, rfl, rfl, rfl, rfl⟩⟩
  · -- a block without a record that leaves none
    cases hrec
    have hnone : s.active.get (key b) = none := by simpa using hexist
    refine ⟨⟨h.active_append fun k => ?_, h.heights⟩, rfl, fun _ _ => rfl,
      ⟨rfl, rfl, rfl, rfl, rfl, rfl⟩⟩
    rw [Block.kept, if_neg hactive]
    split_ifs with hk
    · rw [hk, hnone]
    · rfl

/-- What an accepted block went through. -/
theorem apply_eq_ok {s s' : State} {b : Block} (h : s.apply b = .ok s') :
    b.number ≠ 0 ∧ (∀ old ∈ s.active.get (key b), old.revision ≤ b.revision) ∧
      ∃ t n, s.record b ((s.heights.get (heightKey b.number)).getD 0) = .ok (t, n) ∧
        t.cover b n = s' := by
  unfold State.apply at h
  rcases Check.seq_eq_ok.mp h with ⟨hvalid, h⟩
  rcases Check.seq_eq_ok.mp h with ⟨hrevision, h⟩
  rcases Check.seq_eq_ok.mp h with ⟨-, h⟩
  rcases Check.andThen_eq_ok.mp h with ⟨⟨t, n⟩, hrec, hcover⟩
  rw [Check.failIf_eq_ok] at hvalid hrevision
  refine ⟨fun hzero => hvalid (by tauto), fun old hold => ?_, t, n, hrec,
    by simpa [pure, Except.pure] using hcover⟩
  by_contra hlt
  refine hrevision ?_
  rw [Option.mem_def.mp hold, Option.any_some, decide_eq_true_iff]
  rwa [UInt64.not_le] at hlt

theorem recordsAt_pos {s : State} {n : Nat} :
    0 < s.recordsAt n ↔ ∃ k r, s.active.get k = some r ∧ r.number.toNat = n := by
  unfold State.recordsAt
  rw [OrderedMap.count_pos]
  simp only [decide_eq_true_eq]

/-- The records, the counts and the intervals in step. -/
structure Exact (bs : List Block) (s : State) : Prop extends Recorded bs s where
  coverage : Merged s.coverage
  finalized : Merged s.finalized
  final : ∀ n, Covers s.finalized n ↔ ∃ b ∈ bs, b.Final ∧ b.number.toNat = n
  covers : ∀ n, Covers s.coverage n ↔ 0 < s.recordsAt n ∨ Covers s.finalized n

/-- A block that is canonical leaves a record or makes its height final. -/
theorem Recorded.canonical {bs : List Block} {s : State} {b : Block}
    (h : Recorded (bs ++ [b]) s) (hcanonical : b.canonical = true) :
    0 < s.recordsAt b.number.toNat ∨ b.Final := by
  by_cases hfinal : b.finality = "finalized"
  · exact .inr ⟨hcanonical, hfinal⟩
  · left
    refine recordsAt_pos.mpr ⟨key b, b.state, ?_, rfl⟩
    rw [h.active, latest_append, if_pos rfl, Option.bind_some, Block.kept,
      if_pos ⟨hcanonical, hfinal⟩]

theorem Exact.apply {bs : List Block} {s s' : State} {b : Block} (h : Exact bs s)
    (happly : s.apply b = .ok s') : Exact (bs ++ [b]) s' := by
  rcases apply_eq_ok happly with ⟨hnumber, -, t, n, hrec, rfl⟩
  rcases h.toRecorded.record hrec with ⟨hrecorded, hn, hother, hbeside⟩
  have hpos : 0 < b.number.toNat := by
    have hne : b.number.toNat ≠ (0 : UInt64).toNat := fun heq => hnumber (UInt64.toNat_inj.mp heq)
    rw [UInt64.toNat_zero] at hne
    omega
  -- the heights that are final after the block
  have hfin : Merged (t.cover b n).finalized ∧ ∀ k, Covers (t.cover b n).finalized k ↔
      b.Final ∧ k = b.number.toNat ∨ Covers s.finalized k := by
    unfold State.cover
    dsimp only
    rw [hbeside.finalized]
    split_ifs with hfinal
    · rcases add_spec h.finalized hpos with ⟨hmerged, hadd⟩
      exact ⟨hmerged, fun k => by rw [hadd]; tauto⟩
    · exact ⟨h.finalized, fun k => by tauto⟩
  have hat : ∀ k, (t.cover b n).recordsAt k = t.recordsAt k := fun _ => rfl
  -- the height counts as covered exactly when it has a record or is final
  have hcond : (b.canonical = true ∨ n > 0 ∨
      contains (t.cover b n).finalized b.number = true) ↔
      0 < t.recordsAt b.number.toNat ∨ Covers (t.cover b n).finalized b.number.toNat := by
    rw [contains_iff hfin.1, hn]
    constructor
    · rintro (hcanonical | hrest)
      · rcases hrecorded.canonical hcanonical with hrecords | hfinal
        · exact .inl hrecords
        · exact .inr ((hfin.2 _).mpr (.inl ⟨hfinal, rfl⟩))
      · exact hrest
    · exact .inr
  have hcover : Merged (t.cover b n).coverage ∧ ∀ k, Covers (t.cover b n).coverage k ↔
      (k = b.number.toNat ∧ (0 < t.recordsAt k ∨ Covers (t.cover b n).finalized k)) ∨
        k ≠ b.number.toNat ∧ Covers s.coverage k := by
    have hdef : (t.cover b n).coverage =
        if b.canonical = true ∨ n > 0 ∨ contains (t.cover b n).finalized b.number = true then
          add t.coverage b.number
        else remove t.coverage b.number := rfl
    rw [hdef, hbeside.coverage]
    split_ifs with hkeeps
    · rw [hcond] at hkeeps
      rcases add_spec h.coverage hpos with ⟨hmerged, hadd⟩
      refine ⟨hmerged, fun k => ?_⟩
      rw [hadd]
      by_cases hk : k = b.number.toNat
      · subst hk
        tauto
      · tauto
    · rw [hcond] at hkeeps
      rcases remove_spec h.coverage b.number with ⟨hmerged, hremove⟩
      refine ⟨hmerged, fun k => ?_⟩
      rw [hremove]
      by_cases hk : k = b.number.toNat
      · subst hk
        tauto
      · tauto
  refine ⟨⟨hrecorded.active, hrecorded.heights⟩, hcover.1, hfin.1, fun k => ?_, fun k => ?_⟩
  · rw [hfin.2, h.final]
    simp only [List.mem_append, List.mem_singleton, or_and_right, exists_or, exists_eq_left]
    rw [or_comm, eq_comm (a := k)]
  · rw [hcover.2, hat]
    by_cases hk : k = b.number.toNat
    · simp [hk]
    · rw [hother k hk, hfin.2, h.covers]
      simp [hk]

theorem exact_fresh (binding : Binding) (manifest : Hash) :
    Exact [] (State.fresh binding manifest) :=
  ⟨⟨fun _ => rfl, fun _ => rfl⟩, merged_nil, merged_nil, fun n => by simp [State.fresh],
    fun n => by
      have hzero : (State.fresh binding manifest).recordsAt n = 0 := rfl
      rw [hzero]
      simp [State.fresh]⟩

/-- A run keeps everything in step, and the marks of the state as they are. -/
theorem Exact.steps {bs cs : List Block} {s t : State} (hsteps : Steps s cs t) (h : Exact bs s) :
    Exact (bs ++ cs) t ∧ t.version = s.version ∧ t.binding = s.binding ∧
      t.manifest = s.manifest := by
  induction hsteps with
  | refl => exact ⟨by rwa [List.append_nil], rfl, rfl, rfl⟩
  | apply _ happly ih =>
      rcases ih with ⟨hexact, hversion, hbinding, hmanifest⟩
      rcases apply_eq_ok happly with ⟨-, -, t', n, hrec, rfl⟩
      rcases hexact.toRecorded.record hrec with ⟨-, -, -, hbeside⟩
      rw [← List.append_assoc]
      exact ⟨hexact.apply happly, hbeside.version.trans hversion, hbeside.binding.trans hbinding,
        hbeside.manifest.trans hmanifest⟩
  | verify _ ih =>
      rcases ih with ⟨hexact, hkept⟩
      exact ⟨⟨⟨hexact.active, hexact.heights⟩, hexact.coverage, hexact.finalized, hexact.final,
        hexact.covers⟩, hkept⟩

/-- A height left out between two covered ones. -/
def Interrupted (C : Nat → Prop) : Prop := ∃ lo mid hi, lo < mid ∧ mid < hi ∧ C lo ∧ ¬ C mid ∧ C hi

theorem Exact.gap {bs : List Block} {s : State} (h : Exact bs s) :
    (Interrupted (Covers s.coverage) → Span.FirstGap (Covers s.coverage) s.gap.toNat) ∧
      (¬ Interrupted (Covers s.coverage) → s.gap = 0) := by
  have hmerged := h.coverage
  unfold State.gap
  cases hcov : s.coverage with
  | nil =>
      refine ⟨?_, fun _ => rfl⟩
      rintro ⟨lo, mid, hi, -, -, hlo, -⟩
      exact absurd hlo (covers_nil lo)
  | cons r rest =>
      cases rest with
      | nil =>
          refine ⟨?_, fun _ => rfl⟩
          rintro ⟨lo, mid, hi, hlm, hmh, hlo, hmid, hhi⟩
          exact absurd (Span.covered_between hlo hhi hlm.le hmh.le) hmid
      | cons q rest =>
          rw [hcov] at hmerged
          rcases merged_cons.mp hmerged with ⟨⟨-, hle⟩, hlater, hrest⟩
          have hlt := hlater q (List.mem_cons_self ..)
          have hsucc : (r.To + 1).toNat = r.To.toNat + 1 := toNat_succ (b := q.From) (by omega)
          have hfirst : Span.FirstGap (Covers (r :: q :: rest)) (r.To + 1).toNat := by
            rw [hsucc]
            exact hmerged.1.firstGap
          refine ⟨fun _ => hfirst, fun hnot => absurd ?_ hnot⟩
          rcases hfirst with ⟨lo, hi, hlo, hmid, hlt, hhi⟩
          exact ⟨lo, _, hi, hmid.1.1, hlt, hlo.1, hmid.1.2, hhi⟩

theorem Exact.holds {bs : List Block} {s : State} (h : Exact bs s) {r : Interval}
    (hr : r ∈ s.finalized) : s.holds r = true := by
  rcases h.coverage.split fun c => holds_iff c r.To with ⟨pre, post, heq, hat, hpre, hpost⟩
  have hordered := h.finalized.ordered hr
  -- the whole interval is covered, so one interval of the coverage holds it
  have hrun : ∀ k, r.From.toNat ≤ k → k ≤ r.To.toNat → Covers s.coverage k := fun k hlo hhi =>
    (h.covers k).mpr (.inr ⟨r.span, List.mem_map_of_mem hr, hlo, hhi⟩)
  rcases h.coverage.1.covered_run hordered.2 hrun with ⟨x, hx, hlo, hhi⟩
  rcases List.mem_map.mp hx with ⟨c, hc, rfl⟩
  have hmerged := h.coverage
  have hcpost : c ∈ post := by
    rw [heq] at hc
    rcases List.mem_append.mp hc with hc | hc
    · exact absurd hhi (not_le.mpr (hpre c hc))
    · exact hc
  unfold State.holds
  simp only [ge_iff_le, hat]
  rw [heq] at hmerged ⊢
  cases post with
  | nil => cases hcpost
  | cons d post =>
      have hsome : (pre ++ d :: post)[pre.length]? = some d := by simp
      simp only [hsome, decide_eq_true_eq, UInt64.le_iff_toNat_le]
      rcases merged_cons.mp (merged_append.mp hmerged).2.1 with ⟨⟨-, hle⟩, hlater, -⟩
      rcases List.mem_cons.mp hcpost with rfl | hc
      · exact hlo
      · have := hlater c hc
        have : c.From.toNat ≤ r.From.toNat := hlo
        omega

theorem Exact.validate {bs : List Block} {s : State} (h : Exact bs s) (hversion : s.version = 1)
    (hverified : s.verified = true) : s.validate s.binding s.manifest = .ok () := by
  unfold State.validate
  rw [Check.seq_eq_ok, Check.failIf_eq_ok, Check.failIf_eq_ok]
  refine ⟨?_, ?_⟩
  · simp [hversion, hverified, h.coverage.valid, h.finalized.valid]
  · rw [Bool.not_eq_false, List.all_eq_true]
    exact fun r hr => h.holds hr

/-- After any blocks that are accepted, in any order: each height's count is the number of its
records, which are what the last blocks of the keys left; the covered heights are those with a
record or a final block; the final ones stay; both lists are merged; the gap is the first height
left out; and the state is valid. -/
theorem coverage_exact {binding : Binding} {manifest : Hash} {bs : List Block} {s : State}
    (hsteps : Steps (State.fresh binding manifest) bs s) :
    (∀ n : UInt64, (s.heights.get (heightKey n)).getD 0 = s.recordsAt n.toNat) ∧
      (∀ k, s.active.get k = (latest bs k).bind Block.kept) ∧
      (∀ n : UInt64, Covers s.coverage n.toNat ↔
        (∃ k r, s.active.get k = some r ∧ r.number = n) ∨ ∃ b ∈ bs, b.Final ∧ b.number = n) ∧
      (∀ n : UInt64, Covers s.finalized n.toNat ↔ ∃ b ∈ bs, b.Final ∧ b.number = n) ∧
      (∀ cs t, Steps s cs t → ∀ n, Covers s.finalized n → Covers t.finalized n) ∧
      Merged s.coverage ∧ Merged s.finalized ∧
      (Interrupted (Covers s.coverage) → Span.FirstGap (Covers s.coverage) s.gap.toNat) ∧
      (¬ Interrupted (Covers s.coverage) → s.gap = 0) ∧
      (s.verified = true → s.validate binding manifest = .ok ()) := by
  rcases (exact_fresh binding manifest).steps hsteps with ⟨h, hversion, hbinding, hmanifest⟩
  rw [List.nil_append] at h
  have hfinal : ∀ n : UInt64, Covers s.finalized n.toNat ↔
      ∃ b ∈ bs, b.Final ∧ b.number = n := fun n => by
    rw [h.final]
    simp only [UInt64.toNat_inj]
  refine ⟨fun n => h.count _, h.active, fun n => ?_, hfinal, fun cs t hcs n hn => ?_, h.coverage,
    h.finalized, h.gap.1, h.gap.2, fun hverified => ?_⟩
  · rw [h.covers, recordsAt_pos, hfinal]
    simp only [UInt64.toNat_inj]
  · rw [(h.steps hcs).1.final]
    rcases (h.final n).mp hn with ⟨b, hb, hfin⟩
    exact ⟨b, List.mem_append_left _ hb, hfin⟩
  · rw [← show s.binding = binding from hbinding, ← show s.manifest = manifest from hmanifest]
    exact h.validate hversion hverified

def knownBinding : Binding :=
  ⟨"dex", "market", "server", "scope", "schema", "producer", "holder", "epoch", 1, 1⟩

def knownBlock (number : UInt64) (hash : Hash) (revision : UInt64) (canonical : Bool)
    (finality : String) : Block :=
  ⟨1, number, hash, hashOf 9, ⟨0, 0⟩, canonical, finality, revision, true⟩

/-- Two hashes at height five, one withdrawn again, and height seven final. -/
def knownReorg : List Block :=
  [knownBlock 5 (hashOf 1) 1 true "pending", knownBlock 5 (hashOf 2) 1 true "pending",
    knownBlock 5 (hashOf 1) 2 false "orphaned", knownBlock 7 (hashOf 3) 1 true "finalized"]

theorem coverage_exact_reorg :
    ∃ s, Steps (State.fresh knownBinding (hashOf 9)) knownReorg s ∧ s.recordsAt 5 = 1 ∧ s.gap = 6 ∧
      s.validate knownBinding (hashOf 9) = .ok () := by
  have hsteps : ∃ s, Steps (State.fresh knownBinding (hashOf 9)) knownReorg s ∧ s.recordsAt 5 = 1 ∧
      s.gap = 6 ∧ s.verified = true :=
    ⟨_, .verify (.apply (.apply (.apply (.apply (.refl _) rfl) rfl) rfl) rfl), rfl, rfl, rfl⟩
  rcases hsteps with ⟨s, hsteps, hrecords, hgap, hverified⟩
  rcases coverage_exact hsteps with ⟨-, -, -, -, -, -, -, -, -, hvalid⟩
  exact ⟨s, hsteps, hrecords, hgap, hvalid hverified⟩

end MarketInfo.DexRuntime
