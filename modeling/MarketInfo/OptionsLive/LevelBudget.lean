import MarketInfo.OptionsLive.CatalogEngine

/-! # The level budget of the catalog engines

What the shared budget has in use is what the engines have recorded, and what is
reserved for updates on their way. Only two facts carry this: what an engine
records of an instrument is the number of levels of its book, and an update never
leaves more levels than it reserved.
-/

namespace MarketInfo

namespace OptionsLive

open Ledger (total held)

/-! ## What an engine records -/

/-- The counts of an engine are those of its books. -/
structure Engine.Tracked (e : Engine) : Prop where
  count : ∀ id b, e.books.lookup id = some b → e.levelsOf id = b.levelCount
  recorded : ∀ id, e.books.lookup id = none → e.levels.lookup id = none
  specs : ∀ id, e.specs.lookup id = none ↔ e.books.lookup id = none

/-- What is still recorded when a worker ends. -/
def Engine.Recorded (e : Engine) : Prop :=
  ∀ id n, e.levels.lookup id = some n → ∃ b, e.books.lookup id = some b ∧ n = b.levelCount

theorem levelsOf_of_lookup {e : Engine} {id : UInt32} {n : Int} (h : e.levels.lookup id = some n) :
    e.levelsOf id = n := by
  rw [Engine.levelsOf, h]
  rfl

theorem Engine.Tracked.to_recorded {e : Engine} (h : e.Tracked) : e.Recorded := by
  intro id n hn
  rcases hb : e.books.lookup id with _ | b
  · rw [h.recorded id hb] at hn
    cases hn
  · refine ⟨b, rfl, ?_⟩
    rw [← h.count id b hb, levelsOf_of_lookup hn]

theorem Engine.Tracked.levelsOf_nonneg {e : Engine} (h : e.Tracked) (id : UInt32) : 0 ≤ e.levelsOf id := by
  rcases hb : e.books.lookup id with _ | b
  · rw [Engine.levelsOf, h.recorded id hb]
    exact le_refl 0
  · rw [h.count id b hb]
    exact b.levelCount_nonneg

/-- The levels an engine has recorded. -/
def Engine.recordedLevels (e : Engine) : Int := total (fun n : Int => n) e.levels

theorem held_levels (e : Engine) (id : UInt32) : held (fun n : Int => n) e.levels id = e.levelsOf id := by
  unfold held Engine.levelsOf
  rcases e.levels.lookup id with _ | n
  · rfl
  · rfl

theorem total_erase_levels (e : Engine) (id : UInt32) :
    total (fun n : Int => n) (e.levels.erase id) = e.recordedLevels - e.levelsOf id := by
  rw [Ledger.total_erase, held_levels]
  rfl

/-! ## Events that keep every count -/

/-- The same contracts and counts, and books with as many levels. -/
structure SameLevels (e e' : Engine) : Prop where
  levels : e'.levels = e.levels
  specs : e'.specs = e.specs
  counts : ∀ id, (e'.books.lookup id).map DerivativeBook.levelCount =
    (e.books.lookup id).map DerivativeBook.levelCount

theorem SameLevels.refl (e : Engine) : SameLevels e e := ⟨rfl, rfl, fun _ => rfl⟩

theorem SameLevels.trans {e e' e'' : Engine} (h : SameLevels e e') (h' : SameLevels e' e'') :
    SameLevels e e'' :=
  ⟨h'.levels.trans h.levels, h'.specs.trans h.specs, fun id => (h'.counts id).trans (h.counts id)⟩

theorem SameLevels.tracked {e e' : Engine} (h : SameLevels e e') (ht : e.Tracked) : e'.Tracked := by
  have hnone : ∀ id, e'.books.lookup id = none ↔ e.books.lookup id = none := by
    intro id
    rw [← Option.map_eq_none_iff (f := DerivativeBook.levelCount), h.counts id, Option.map_eq_none_iff]
  constructor
  · intro id b' hb'
    have hcount := h.counts id
    rw [hb'] at hcount
    obtain ⟨b, hb, hsame⟩ := Option.map_eq_some_iff.1 hcount.symm
    have htracked := ht.count id b hb
    unfold Engine.levelsOf at htracked ⊢
    rw [h.levels, htracked, hsame]
  · intro id hid
    rw [h.levels]
    exact ht.recorded id ((hnone id).1 hid)
  · intro id
    rw [h.specs, hnone]
    exact ht.specs id

theorem SameLevels.recordedLevels {e e' : Engine} (h : SameLevels e e') :
    e'.recordedLevels = e.recordedLevels := by
  unfold Engine.recordedLevels
  rw [h.levels]

theorem sameLevels_invalidate (e : Engine) (reason : DerivativeReason) (id : UInt32) :
    SameLevels e (e.invalidate reason id) := by
  unfold Engine.invalidate
  rcases hb : e.books.lookup id with _ | b
  · exact .refl e
  · refine ⟨rfl, rfl, ?_⟩
    intro id'
    show ((e.books.insert id (b.invalidate reason)).lookup id').map _ = _
    by_cases hid : id' = id
    · rw [hid, AList.lookup_insert, hb]
      rfl
    · rw [AList.lookup_insert_ne hid]

theorem sameLevels_handleState (e : Engine) (s : CatalogState) : SameLevels e (e.handleState s) := by
  have hinvalidate : ∀ (p : Prop) [Decidable p] (e' : Engine), SameLevels e'
      (if p then e'.invalidate DerivativeReason.metadataUncertain s.instrumentID else e') := by
    intro p _ e'
    split
    · exact sameLevels_invalidate _ _ _
    · exact .refl e'
  unfold Engine.handleState
  split
  · exact .refl e
  · have hclosed := (hinvalidate (s.known = false ∨ s.opened = false) e).trans
      (hinvalidate (s.known = true ∧ s.opened = true ∧
        (((e.states.lookup s.instrumentID).getD ⟨0, false, false⟩).known = false ∨
          ((e.states.lookup s.instrumentID).getD ⟨0, false, false⟩).opened = false)) _)
    exact ⟨hclosed.levels, hclosed.specs, hclosed.counts⟩

theorem sameLevels_foldl {α : Type} {f : Engine → α → Engine} (h : ∀ e a, SameLevels e (f e a))
    (as : List α) (e : Engine) : SameLevels e (as.foldl f e) := by
  induction as generalizing e with
  | nil => exact .refl e
  | cons a as ih => exact (h e a).trans (ih (f e a))

theorem sameLevels_handleGate (e : Engine) (g : CatalogGate) : SameLevels e (e.handleGate g) := by
  have hgate : SameLevels e { e with gate := g } := ⟨rfl, rfl, fun _ => rfl⟩
  refine hgate.trans (sameLevels_foldl ?_ _ _)
  intro e' s
  unfold Engine.regate
  dsimp only
  split
  · exact sameLevels_invalidate _ _ _
  · split
    · exact sameLevels_invalidate _ _ _
    · exact .refl e'

theorem sameLevels_confirm (e : Engine) (id : UInt32) (received : Time) :
    SameLevels e (e.confirm id received) := ⟨rfl, rfl, fun _ => rfl⟩

theorem sameLevels_handleStream (e : Engine) (id : UInt32) (kind : StreamKind) (received : Time) :
    SameLevels e (e.handleStream id kind received) := by
  have hsame := sameLevels_confirm e id received
  have hset : ∀ ready, SameLevels (e.confirm id received)
      { e.confirm id received with
        connections := (e.confirm id received).connections.insert id
          { (e.confirm id received).connectionOf id with ready := ready } } :=
    fun _ => ⟨rfl, rfl, fun _ => rfl⟩
  cases kind with
  | ready => exact hsame.trans (hset true)
  | subscribed => exact hsame.trans (hset true)
  | heartbeat => exact hsame
  | disconnected => exact hsame.trans ((hset false).trans (sameLevels_invalidate _ _ _))
  | unsubscribed => exact hsame.trans ((hset false).trans (sameLevels_invalidate _ _ _))

theorem sameLevels_switchMembers (time : Time) (swaps : List CatalogSwap) (e : Engine) :
    SameLevels e (Engine.switchMembers time e swaps).1 := by
  induction swaps generalizing e with
  | nil => exact ⟨rfl, rfl, fun _ => rfl⟩
  | cons s rest ih =>
      unfold Engine.switchMembers
      split
      · exact ⟨rfl, rfl, fun _ => rfl⟩
      · split
        · exact ⟨rfl, rfl, fun _ => rfl⟩
        · split
          · exact ⟨rfl, rfl, fun _ => rfl⟩
          · have hmembers : SameLevels e
                { e with members := s.members, warm := e.warm.filter fun id => id ∉ s.members } :=
              ⟨rfl, rfl, fun _ => rfl⟩
            exact hmembers.trans (ih _)

theorem sameLevels_boundary (e : Engine) (time : Time) : SameLevels e (e.boundary time).1 := by
  unfold Engine.boundary
  split
  · exact .refl e
  · have hswitch := sameLevels_switchMembers time e.swaps { e with next := e.next.add Time.second }
    have hnext : SameLevels e { e with next := e.next.add Time.second } := ⟨rfl, rfl, fun _ => rfl⟩
    generalize Engine.switchMembers time { e with next := e.next.add Time.second } e.swaps = r at hswitch
    obtain ⟨e', err | ⟨⟩⟩ := r
    · exact hnext.trans hswitch
    · dsimp only
      split
      · exact (hnext.trans hswitch).trans ⟨rfl, rfl, fun _ => rfl⟩
      · exact hnext.trans hswitch

theorem sameLevels_sampleMembers (e : Engine) (time : Time) (late : Bool) :
    SameLevels e (e.sampleMembers time late) := by
  unfold Engine.sampleMembers
  split
  · exact .refl e
  · refine sameLevels_foldl ?_ _ _
    intro e' id
    unfold Engine.checkLiveness
    dsimp only
    split
    · have hquiet : SameLevels e' { e' with
          connections := e'.connections.insert id { e'.connectionOf id with ready := false } } :=
        ⟨rfl, rfl, fun _ => rfl⟩
      exact hquiet.trans (sameLevels_invalidate _ _ _)
    · exact .refl e'

/-! ## New books -/

theorem levelCount_new {id : UInt32} {maxLevels : Nat} {b : DerivativeBook}
    (h : DerivativeBook.new id false maxLevels = .ok b) : b.levelCount = 0 := by
  obtain ⟨-, h⟩ := Check.seq_eq_ok.1 h
  obtain rfl := Except.ok.inj h
  rfl

theorem tracked_addSpec {e : Engine} (h : e.Tracked) (spec : ContractSpec) :
    (e.addSpec spec).1.Tracked ∧ (e.addSpec spec).1.levels = e.levels := by
  unfold Engine.addSpec
  rcases hspec : e.specs.lookup spec.id with _ | known
  · rcases hnew : DerivativeBook.new spec.id false e.maxLevels with err | b
    · exact ⟨h, rfl⟩
    · refine ⟨?_, rfl⟩
      have hbook : e.books.lookup spec.id = none := (h.specs spec.id).1 hspec
      have hnone : e.levels.lookup spec.id = none := h.recorded spec.id hbook
      constructor
      · intro id b' hb'
        change (e.books.insert spec.id b).lookup id = some b' at hb'
        show e.levelsOf id = b'.levelCount
        by_cases hid : id = spec.id
        · rw [hid, AList.lookup_insert] at hb'
          obtain rfl := Option.some.inj hb'
          rw [hid, levelCount_new hnew, Engine.levelsOf, hnone]
          rfl
        · rw [AList.lookup_insert_ne hid] at hb'
          exact h.count id b' hb'
      · intro id hid
        change (e.books.insert spec.id b).lookup id = none at hid
        by_cases heq : id = spec.id
        · rw [heq, AList.lookup_insert] at hid
          cases hid
        · rw [AList.lookup_insert_ne heq] at hid
          exact h.recorded id hid
      · intro id
        show (e.specs.insert spec.id spec).lookup id = none ↔ (e.books.insert spec.id b).lookup id = none
        by_cases hid : id = spec.id
        · rw [hid, AList.lookup_insert, AList.lookup_insert]
          simp
        · rw [AList.lookup_insert_ne hid, AList.lookup_insert_ne hid]
          exact h.specs id
  · exact ⟨h, rfl⟩

theorem tracked_addSpecs {e : Engine} (h : e.Tracked) (specs : List ContractSpec) :
    (e.addSpecs specs).1.Tracked ∧ (e.addSpecs specs).1.levels = e.levels := by
  induction specs generalizing e with
  | nil => exact ⟨h, rfl⟩
  | cons spec rest ih =>
      unfold Engine.addSpecs
      obtain ⟨hfirst, hlevels⟩ := tracked_addSpec h spec
      generalize e.addSpec spec = r at hfirst hlevels
      obtain ⟨e', err | ⟨⟩⟩ := r
      · exact ⟨hfirst, hlevels⟩
      · obtain ⟨hrest, hsame⟩ := ih hfirst
        exact ⟨hrest, hsame.trans hlevels⟩

theorem tracked_handleSpec {e : Engine} (h : e.Tracked) (spec : ContractSpec) :
    (e.handleSpec spec).1.Tracked ∧ (e.handleSpec spec).1.levels = e.levels :=
  tracked_addSpec (e := { e with warm := spec.id :: e.warm }) ⟨h.count, h.recorded, h.specs⟩ spec

theorem tracked_handleSwap {e : Engine} (h : e.Tracked) (s : CatalogSwap) :
    (e.handleSwap s).1.Tracked ∧ (e.handleSwap s).1.levels = e.levels := by
  unfold Engine.handleSwap
  split
  · exact ⟨h, rfl⟩
  · obtain ⟨hspecs, hlevels⟩ := tracked_addSpecs h s.specs
    generalize e.addSpecs s.specs = r at hspecs hlevels
    obtain ⟨e', err | ⟨⟩⟩ := r
    · exact ⟨hspecs, hlevels⟩
    · exact ⟨⟨hspecs.count, hspecs.recorded, hspecs.specs⟩, hlevels⟩

/-! ## Events that change counts -/

theorem tracked_drop {e : Engine} (h : e.Tracked) (id : UInt32) : (e.drop id).Tracked := by
  constructor
  · intro id' b hb
    change (e.books.erase id).lookup id' = some b at hb
    show ((e.levels.erase id).lookup id').getD 0 = b.levelCount
    by_cases hid : id' = id
    · rw [hid, AList.lookup_erase] at hb
      cases hb
    · rw [AList.lookup_erase_ne hid] at hb ⊢
      exact h.count id' b hb
  · intro id' hb
    change (e.books.erase id).lookup id' = none at hb
    show (e.levels.erase id).lookup id' = none
    by_cases hid : id' = id
    · rw [hid, AList.lookup_erase]
    · rw [AList.lookup_erase_ne hid] at hb ⊢
      exact h.recorded id' hb
  · intro id'
    show (e.specs.erase id).lookup id' = none ↔ (e.books.erase id).lookup id' = none
    by_cases hid : id' = id
    · rw [hid, AList.lookup_erase, AList.lookup_erase]
      simp
    · rw [AList.lookup_erase_ne hid, AList.lookup_erase_ne hid]
      exact h.specs id'

/-- A count that was released is not recorded any more. -/
theorem recorded_erase {e : Engine} (h : e.Recorded) (id : UInt32) :
    Engine.Recorded { e with levels := e.levels.erase id } := by
  intro id' n hn
  change (e.levels.erase id).lookup id' = some n at hn
  by_cases hid : id' = id
  · rw [hid, AList.lookup_erase] at hn
    cases hn
  · rw [AList.lookup_erase_ne hid] at hn
    exact h id' n hn

/-- A book that cannot be reset ends the worker, with nothing recorded for it. -/
theorem recorded_connected {e : Engine} (h : e.Tracked) (id : UInt32) (epoch : UUID) (received : Time) :
    (e.connected id epoch received).1.Recorded := by
  have hrest := recorded_erase h.to_recorded id
  unfold Engine.connected
  dsimp only
  rcases hb : e.books.lookup id with _ | b
  · exact hrest
  · intro id' n hn
    obtain ⟨b', hb', hcount⟩ := hrest id' n hn
    refine ⟨b', ?_, hcount⟩
    show (e.books.insert id (b.reset epoch).1).lookup id' = some b'
    rw [AList.lookup_insert_ne, hb']
    rintro rfl
    change (e.levels.erase id').lookup id' = some n at hn
    rw [AList.lookup_erase] at hn
    cases hn

theorem tracked_connected {e : Engine} (h : e.Tracked) {id : UInt32} (hid : e.books.lookup id ≠ none)
    (epoch : UUID) (received : Time) (hok : (e.connected id epoch received).2 = .ok ()) :
    (e.connected id epoch received).1.Tracked := by
  unfold Engine.connected at hok ⊢
  dsimp only at hok ⊢
  rcases hb : e.books.lookup id with _ | b
  · exact absurd hb hid
  · rw [hb] at hok
    dsimp only at hok ⊢
    have hempty := DerivativeBook.levelCount_reset hok
    constructor
    · intro id' b' hb'
      change (e.books.insert id (b.reset epoch).1).lookup id' = some b' at hb'
      show ((e.levels.erase id).lookup id').getD 0 = b'.levelCount
      by_cases heq : id' = id
      · rw [heq, AList.lookup_insert] at hb'
        obtain rfl := Option.some.inj hb'
        rw [heq, AList.lookup_erase, hempty]
        rfl
      · rw [AList.lookup_insert_ne heq] at hb'
        rw [AList.lookup_erase_ne heq]
        exact h.count id' b' hb'
    · intro id' hb'
      change (e.books.insert id (b.reset epoch).1).lookup id' = none at hb'
      show (e.levels.erase id).lookup id' = none
      by_cases heq : id' = id
      · rw [heq, AList.lookup_erase]
      · rw [AList.lookup_insert_ne heq] at hb'
        rw [AList.lookup_erase_ne heq]
        exact h.recorded id' hb'
    · intro id'
      show e.specs.lookup id' = none ↔ (e.books.insert id (b.reset epoch).1).lookup id' = none
      by_cases heq : id' = id
      · rw [heq, AList.lookup_insert, h.specs id, hb]
        simp
      · rw [AList.lookup_insert_ne heq]
        exact h.specs id'

theorem levels_connected (e : Engine) (id : UInt32) (epoch : UUID) (received : Time) :
    (e.connected id epoch received).1.levels = e.levels.erase id := by
  unfold Engine.connected
  dsimp only
  split
  · rfl
  · rfl

theorem extraLevels_nonneg (old : Int) (u : DerivativeUpdate) : 0 ≤ Engine.extraLevels old u :=
  le_max_left _ _

theorem tracked_settle (sha256 : List UInt64 → BitVec 256) {e : Engine} (h : e.Tracked) {id : UInt32}
    (hid : e.books.lookup id ≠ none) (u : DerivativeUpdate) :
    (e.settle sha256 id u (Engine.extraLevels (e.levelsOf id) u)).1.Tracked ∧
      (e.settle sha256 id u (Engine.extraLevels (e.levelsOf id) u)).1.recordedLevels +
          (e.settle sha256 id u (Engine.extraLevels (e.levelsOf id) u)).2 =
        e.recordedLevels + Engine.extraLevels (e.levelsOf id) u ∧
      0 ≤ (e.settle sha256 id u (Engine.extraLevels (e.levelsOf id) u)).2 := by
  unfold Engine.settle
  rcases hb : e.books.lookup id with _ | b
  · exact absurd hb hid
  · have hold := h.count id b hb
    dsimp only
    refine ⟨?_, ?_, ?_⟩
    · constructor
      · intro id' b' hb'
        change (e.books.insert id (b.apply sha256 u).1).lookup id' = some b' at hb'
        show ((e.levels.insert id (b.apply sha256 u).1.levelCount).lookup id').getD 0 = b'.levelCount
        by_cases heq : id' = id
        · rw [heq, AList.lookup_insert] at hb' ⊢
          obtain rfl := Option.some.inj hb'
          rfl
        · rw [AList.lookup_insert_ne heq] at hb' ⊢
          exact h.count id' b' hb'
      · intro id' hb'
        change (e.books.insert id (b.apply sha256 u).1).lookup id' = none at hb'
        show (e.levels.insert id (b.apply sha256 u).1.levelCount).lookup id' = none
        by_cases heq : id' = id
        · rw [heq, AList.lookup_insert] at hb'
          cases hb'
        · rw [AList.lookup_insert_ne heq] at hb' ⊢
          exact h.recorded id' hb'
      · intro id'
        show e.specs.lookup id' = none ↔ (e.books.insert id (b.apply sha256 u).1).lookup id' = none
        by_cases heq : id' = id
        · rw [heq, AList.lookup_insert, h.specs id, hb]
          simp
        · rw [AList.lookup_insert_ne heq]
          exact h.specs id'
    · show total (fun n : Int => n) (e.levels.insert id (b.apply sha256 u).1.levelCount) + _ = _
      rw [Ledger.total_insert, held_levels]
      change e.recordedLevels - e.levelsOf id + _ + _ = _
      omega
    · -- what the actions announce was reserved, and anything else leaves the book alone
      have hextra : DerivativeBook.estimate (e.levelsOf id) u - e.levelsOf id ≤
          Engine.extraLevels (e.levelsOf id) u := le_max_right _ _
      have hnonneg := extraLevels_nonneg (e.levelsOf id) u
      rcases DerivativeBook.levelCount_apply sha256 b u with hsame | hmoved
      · omega
      · rw [← hold] at hmoved
        omega

/-! ## Steps of a worker -/

namespace Worker

/-- What the worker has reserved and not recorded yet. -/
def reserved (w : Worker) : Int :=
  match w.phase with
  | .applying _ _ extra => extra
  | _ => 0

/-- All a worker has taken from the budget. -/
def holds (w : Worker) : Int := w.engine.recordedLevels + w.reserved

/-- The invariant of a worker, phase by phase. -/
inductive Inv : Worker → Prop
  | idle (e : Engine) : e.Tracked → Inv ⟨e, .idle⟩
  | applying (e : Engine) (id : UInt32) (u : DerivativeUpdate) : e.Tracked → e.books.lookup id ≠ none →
      Inv ⟨e, .applying id u (Engine.extraLevels (e.levelsOf id) u)⟩
  | pruning (e : Engine) (time : Time) : e.Tracked → Inv ⟨e, .pruning time⟩
  | exiting (e : Engine) : e.Recorded → Inv ⟨e, .exiting⟩
  | exited (e : Engine) : e.levels = ∅ → Inv ⟨e, .exited⟩

end Worker

/-- A step that keeps the invariant and moves in the budget what the worker takes or
gives back. -/
structure Moves (s s' : BufferBudget × Worker) : Prop where
  inv : s'.2.Inv
  used : s'.1.used - s.1.used = s'.2.holds - s.2.holds
  limit : s'.1.limit = s.1.limit
  fits : s.1.used ≤ s.1.limit → s'.1.used ≤ s'.1.limit

theorem moves_free (budget : BufferBudget) {w w' : Worker} (hinv : w'.Inv) (h : w'.holds = w.holds) :
    Moves (budget, w) (budget, w') := by
  refine ⟨hinv, ?_, rfl, fun hfits => hfits⟩
  show budget.used - budget.used = w'.holds - w.holds
  rw [h, sub_self, sub_self]

theorem moves_release (budget : BufferBudget) {w w' : Worker} {n : Int} (hinv : w'.Inv) (hn : 0 ≤ n)
    (h : w'.holds = w.holds - n) : Moves (budget, w) (budget.release n, w') := by
  refine ⟨hinv, ?_, rfl, ?_⟩
  · show budget.used - n - budget.used = w'.holds - w.holds
    omega
  · intro hfits
    change budget.used ≤ budget.limit at hfits
    show budget.used - n ≤ budget.limit
    omega

theorem inv_worker {r : Handled} (h : r.1.Recorded) (hok : r.2 = .ok () → r.1.Tracked) : r.worker.Inv := by
  obtain ⟨e, err | ⟨⟩⟩ := r
  · exact .exiting e h
  · exact .idle e (hok rfl)

theorem holds_worker (r : Handled) : r.worker.holds = r.1.recordedLevels := by
  obtain ⟨e, err | ⟨⟩⟩ := r
  · exact add_zero _
  · exact add_zero _

/-- An event that keeps the counts needs no budget. -/
theorem moves_handled (budget : BufferBudget) {e : Engine} {r : Handled}
    (h : r.1.Tracked ∧ r.1.levels = e.levels) : Moves (budget, ⟨e, .idle⟩) (budget, r.worker) := by
  refine moves_free budget (inv_worker h.1.to_recorded fun _ => h.1) ?_
  rw [holds_worker]
  unfold Worker.holds Engine.recordedLevels
  rw [h.2]
  exact (add_zero _).symm

theorem moves_sameLevels (budget : BufferBudget) {e e' : Engine} (h : e.Tracked) (hsame : SameLevels e e') :
    Moves (budget, ⟨e, .idle⟩) (budget, ⟨e', .idle⟩) := by
  refine moves_free budget (.idle e' (hsame.tracked h)) ?_
  show e'.recordedLevels + 0 = e.recordedLevels + 0
  rw [hsame.recordedLevels]

/-- A count goes, and its levels go back. -/
theorem holds_erased {e e' : Engine} {id : UInt32} (h : e'.levels = e.levels.erase id) :
    e'.recordedLevels = e.recordedLevels - e.levelsOf id := by
  unfold Engine.recordedLevels
  rw [h]
  exact total_erase_levels e id

theorem moves_connected (budget : BufferBudget) {e : Engine} (h : e.Tracked) {id : UInt32}
    (hid : e.books.lookup id ≠ none) (epoch : UUID) (received : Time) :
    Moves (budget, ⟨e, .idle⟩)
      (budget.release (e.levelsOf id), (e.connected id epoch received).worker) := by
  have hinv : (e.connected id epoch received).worker.Inv :=
    inv_worker (recorded_connected h id epoch received) (tracked_connected h hid epoch received)
  refine moves_release budget hinv (h.levelsOf_nonneg id) ?_
  rw [holds_worker, holds_erased (levels_connected e id epoch received)]
  show _ = e.recordedLevels + 0 - e.levelsOf id
  rw [add_zero]

theorem moves_reserve {budget budget' : BufferBudget} {e : Engine} (h : e.Tracked) {id : UInt32}
    (hid : e.books.lookup id ≠ none) (u : DerivativeUpdate) (received : Time)
    (hreserve : budget.reserve (Engine.extraLevels (e.levelsOf id) u) = some budget') :
    Moves (budget, ⟨e, .idle⟩)
      (budget', ⟨e.confirm id received, .applying id u (Engine.extraLevels (e.levelsOf id) u)⟩) := by
  obtain ⟨-, hfits, rfl⟩ := BufferBudget.reserve_eq_some.1 hreserve
  have hsame := sameLevels_confirm e id received
  refine ⟨.applying (e.confirm id received) id u (hsame.tracked h) hid, ?_, rfl, fun _ => hfits⟩
  show budget.used + Engine.extraLevels (e.levelsOf id) u - budget.used =
    (e.confirm id received).recordedLevels + Engine.extraLevels (e.levelsOf id) u - (e.recordedLevels + 0)
  rw [hsame.recordedLevels]
  omega

theorem moves_boundary (budget : BufferBudget) {e : Engine} (h : e.Tracked) (time : Time) :
    Moves (budget, ⟨e, .idle⟩)
      (budget, match e.boundary time with
        | (e, .error _) => ⟨e, .exiting⟩
        | (e, .ok ()) => ⟨e, .pruning time⟩) := by
  have hsame := sameLevels_boundary e time
  generalize e.boundary time = r at hsame
  have hlevels := hsame.recordedLevels
  have htracked := hsame.tracked h
  obtain ⟨e', err | ⟨⟩⟩ := r
  · refine moves_free budget (.exiting e' htracked.to_recorded) ?_
    show e'.recordedLevels + 0 = e.recordedLevels + 0
    rw [hlevels]
  · refine moves_free budget (.pruning e' time htracked) ?_
    show e'.recordedLevels + 0 = e.recordedLevels + 0
    rw [hlevels]

theorem moves_exiting_release (budget : BufferBudget) {e : Engine} (h : e.Recorded) {id : UInt32} {n : Int}
    (hn : e.levels.lookup id = some n) :
    Moves (budget, ⟨e, .exiting⟩)
      (budget.release n, ⟨{ e with levels := e.levels.erase id }, .exiting⟩) := by
  obtain ⟨b, -, hcount⟩ := h id n hn
  have hnonneg : 0 ≤ n := by
    rw [hcount]
    exact b.levelCount_nonneg
  refine moves_release budget (.exiting _ (recorded_erase h id)) hnonneg ?_
  show Engine.recordedLevels { e with levels := e.levels.erase id } + 0 = e.recordedLevels + 0 - n
  have herased : Engine.recordedLevels { e with levels := e.levels.erase id } =
      e.recordedLevels - e.levelsOf id := holds_erased rfl
  rw [herased, levelsOf_of_lookup hn]
  omega

/-- Every step of a worker is balanced. -/
theorem WorkerStep.moves {sha256 : List UInt64 → BitVec 256} {s s' : BufferBudget × Worker}
    (h : WorkerStep sha256 s s') (hinv : s.2.Inv) : Moves s s' := by
  cases h with
  | spec budget e spec =>
      rcases hinv with ⟨_, ht⟩
      exact moves_handled budget (tracked_handleSpec ht spec)
  | state budget e st =>
      rcases hinv with ⟨_, ht⟩
      exact moves_sameLevels budget ht (sameLevels_handleState e st)
  | gate budget e g =>
      rcases hinv with ⟨_, ht⟩
      exact moves_sameLevels budget ht (sameLevels_handleGate e g)
  | swap budget e sw =>
      rcases hinv with ⟨_, ht⟩
      exact moves_handled budget (tracked_handleSwap ht sw)
  | stream budget e id kind received =>
      rcases hinv with ⟨_, ht⟩
      exact moves_sameLevels budget ht (sameLevels_handleStream e id kind received)
  | connected budget e id epoch received hspec =>
      rcases hinv with ⟨_, ht⟩
      exact moves_connected budget ht (fun hid => hspec ((ht.specs id).2 hid)) epoch received
  | malformed budget e id received =>
      rcases hinv with ⟨_, ht⟩
      exact moves_sameLevels budget ht ((sameLevels_confirm e id received).trans (sameLevels_invalidate _ _ _))
  | reserve budget budget' e id u received hspec hreserve =>
      rcases hinv with ⟨_, ht⟩
      exact moves_reserve ht (fun hid => hspec ((ht.specs id).2 hid)) u received hreserve
  | refuse budget e id u received =>
      rcases hinv with ⟨_, ht⟩
      exact moves_sameLevels budget ht ((sameLevels_confirm e id received).trans (sameLevels_invalidate _ _ _))
  | settle budget e id u extra =>
      rcases hinv with _ | ⟨_, _, _, ht, hid⟩
      obtain ⟨htracked, hholds, hback⟩ := tracked_settle sha256 ht hid u
      refine moves_release budget (.idle _ htracked) hback ?_
      show (e.settle sha256 id u (Engine.extraLevels (e.levelsOf id) u)).1.recordedLevels + 0 =
        e.recordedLevels + Engine.extraLevels (e.levelsOf id) u - _
      omega
  | boundary budget e time =>
      rcases hinv with ⟨_, ht⟩
      exact moves_boundary budget ht time
  | prune budget e time id =>
      rcases hinv with _ | _ | ⟨_, _, ht⟩
      refine moves_release budget (.pruning _ time (tracked_drop ht id)) (ht.levelsOf_nonneg id) ?_
      show (e.drop id).recordedLevels + 0 = e.recordedLevels + 0 - e.levelsOf id
      have herased : (e.drop id).recordedLevels = e.recordedLevels - e.levelsOf id := holds_erased rfl
      omega
  | sampled budget e time late failed =>
      rcases hinv with _ | _ | ⟨_, _, ht⟩
      have hsame := sameLevels_sampleMembers e time late
      have hlevels := hsame.recordedLevels
      cases failed with
      | true =>
          refine moves_free budget (.exiting _ (hsame.tracked ht).to_recorded) ?_
          show (e.sampleMembers time late).recordedLevels + 0 = e.recordedLevels + 0
          rw [hlevels]
      | false =>
          refine moves_free budget (.idle _ (hsame.tracked ht)) ?_
          show (e.sampleMembers time late).recordedLevels + 0 = e.recordedLevels + 0
          rw [hlevels]
  | stop budget e =>
      rcases hinv with ⟨_, ht⟩
      exact moves_free budget (.exiting e ht.to_recorded) rfl
  | release budget e id n hn =>
      rcases hinv with _ | _ | _ | ⟨_, hr⟩
      exact moves_exiting_release budget hr hn
  | exit budget e hempty => exact moves_free budget (.exited e hempty) rfl

/-! ## Runs -/

/-- The budget is balanced by the workers. -/
structure Workers.Balanced (limit : Int) (s : Workers) : Prop where
  limit : s.budget.limit = limit
  used : s.budget.used = (s.workers.map Worker.holds).sum
  fits : s.budget.used ≤ s.budget.limit
  workers : ∀ w ∈ s.workers, w.Inv

theorem tracked_newCatalogEngine {maxLevels : Nat} {next : Time} {members : List UInt32}
    {specs : List ContractSpec} {e : Engine}
    (h : newCatalogEngine maxLevels next members specs = (e, .ok ())) : e.Tracked ∧ e.levels = ∅ := by
  have hempty : Engine.Tracked { maxLevels, next, members } := by
    constructor
    · intro id b hb
      cases hb
    · intro id _
      rfl
    · intro id
      show AList.lookup id ∅ = none ↔ AList.lookup id ∅ = none
      rw [AList.lookup_empty, AList.lookup_empty]
      simp
  have hadded := tracked_addSpecs hempty specs
  unfold newCatalogEngine at h
  rw [h] at hadded
  exact hadded

theorem Step.balanced {sha256 : List UInt64 → BitVec 256} {limit : Int} {s s' : Workers} {a : Unit}
    (h : Step sha256 s a s') (hs : s.Balanced limit) : s'.Balanced limit := by
  cases h with
  | start maxLevels next members specs e hnew =>
      obtain ⟨htracked, hempty⟩ := tracked_newCatalogEngine hnew
      refine ⟨hs.limit, ?_, hs.fits, ?_⟩
      · have hnone : Worker.holds ⟨e, .idle⟩ = 0 := by
          unfold Worker.holds Engine.recordedLevels
          rw [hempty]
          rfl
        show s.budget.used = ((s.workers ++ [(⟨e, .idle⟩ : Worker)]).map Worker.holds).sum
        rw [List.map_append, List.sum_append, List.map_singleton, List.sum_singleton, hnone, add_zero]
        exact hs.used
      · intro w hw
        rcases List.mem_append.1 hw with hold | hnew
        · exact hs.workers w hold
        · rw [List.mem_singleton.1 hnew]
          exact .idle e htracked
  | work i w w' budget hw hstep =>
      have hmoves := hstep.moves (hs.workers w (List.mem_of_getElem? hw))
      have hused := hmoves.used
      have hfits := hmoves.fits hs.fits
      dsimp only at hused hfits
      refine ⟨hmoves.limit.trans hs.limit, ?_, hfits, ?_⟩
      · show budget.used = ((s.workers.set i w').map Worker.holds).sum
        rw [Ledger.sum_set _ _ i hw, ← hs.used]
        omega
      · intro v hv
        rcases List.mem_or_eq_of_mem_set hv with hold | rfl
        · exact hs.workers v hold
        · exact hmoves.inv

theorem balanced_run {sha256 : List UInt64 → BitVec 256} {limit : Int} {s : Workers} {as : List Unit}
    (hlimit : 0 ≤ limit) (h : Transition.Run (Step sha256) ⟨⟨limit, 0⟩, []⟩ as s) : s.Balanced limit := by
  refine h.invariant (Workers.Balanced limit) ⟨rfl, rfl, hlimit, fun w hw => nomatch hw⟩ ?_
  intro s a s' hstep hs
  exact hstep.balanced hs

theorem Worker.Inv.recorded {w : Worker} (h : w.Inv) : w.engine.Recorded := by
  cases h with
  | idle e ht => exact ht.to_recorded
  | applying e id u ht => exact ht.to_recorded
  | pruning e time ht => exact ht.to_recorded
  | exiting e hr => exact hr
  | exited e hempty =>
      intro id n hn
      dsimp only at hn
      rw [hempty] at hn
      cases hn

theorem Worker.Inv.tracked {w : Worker} (h : w.Inv) (hexiting : w.phase ≠ .exiting)
    (hexited : w.phase ≠ .exited) : w.engine.Tracked := by
  cases h with
  | idle e ht => exact ht
  | applying e id u ht => exact ht
  | pruning e time ht => exact ht
  | exiting e hr => exact absurd rfl hexiting
  | exited e hempty => exact absurd rfl hexited

def bitcoinCall : ContractSpec := ⟨1, "btc_usd", ⟨1_800_000_000, 0⟩⟩

/-- The engine of a shard with one contract. -/
def callEngine : Engine := (newCatalogEngine 10 ⟨1_700_000_000, 0⟩ [1] [bitcoinCall]).1

/-- A snapshot with one level a side. -/
def callSnapshot : DerivativeUpdate where
  instrumentID := 1
  snapshot := true
  epoch := 7
  changeID := 1
  prevChangeID := 0
  sourceTime := ⟨1_700_000_000, 0⟩
  receivedAt := ⟨1_700_000_000, 0⟩
  bids := [⟨DerivativeAction.new, 1, 5⟩]
  asks := [⟨DerivativeAction.new, 2, 5⟩]

/-- The engine once it is connected. -/
def callConnected : Engine := (callEngine.connected 1 7 ⟨1_700_000_000, 0⟩).1

/-- The snapshot is reserved and not applied yet. -/
def callReserved : Workers :=
  ⟨⟨20, 2⟩, [⟨callConnected.confirm 1 ⟨1_700_000_001, 0⟩, .applying 1 callSnapshot 2⟩]⟩

theorem run_callReserved : Transition.Run (Step fun _ => 0) ⟨⟨20, 0⟩, []⟩ [(), (), ()] callReserved :=
  .cons (.start _ 10 ⟨1_700_000_000, 0⟩ [1] [bitcoinCall] callEngine rfl)
    (.cons (.work _ 0 ⟨callEngine, .idle⟩ ⟨callConnected, .idle⟩ ⟨20, 0⟩ rfl
        (.connected ⟨20, 0⟩ callEngine 1 7 ⟨1_700_000_000, 0⟩ (by decide)))
      (.cons (.work _ 0 ⟨callConnected, .idle⟩ _ ⟨20, 2⟩ rfl
          (.reserve ⟨20, 0⟩ ⟨20, 2⟩ callConnected 1 callSnapshot ⟨1_700_000_001, 0⟩ (by decide) rfl))
        (.nil _)))

end OptionsLive

end MarketInfo
