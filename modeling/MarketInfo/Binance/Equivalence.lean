import MarketInfo.Binance.Activation

/-! # The activated book against the direct one

After the activation the live book and the direct one hold the same levels. They
stay the same as long as their completeness flags are (`agree_of_countTells`);
where a flag differs, deleting that side makes one of them invalid
(`clearing_tells`).
-/

namespace MarketInfo

open Listing PriceMap Transition

namespace BookTarget

variable {t : BookTarget} {c d : Collector} {u : DepthUpdate} {snapshot : BookSnapshot}

/-! ## The seeded book -/

/-- What the live book is, in terms of the direct one. -/
theorem Activated.seeded (h : Activated t d) :
    (∀ bids p, (t.book.side bids).lookup p = (d.book.side bids).lookup p) ∧
      (∀ bids, t.book.sideComplete bids = decide ((d.book.side bids).len < binanceDepth)) ∧
      Collector.Following { d with book := t.book } ∧ t.book.retainedDepth = binanceDepth ∧
      t.book.instrumentID = d.book.instrumentID ∧ t.book.sourceTime = d.book.sourceTime := by
  obtain ⟨b, s, hret, hs, hb⟩ := h.book
  have hdepth : 0 < binanceDepth := by decide
  have hwhole : ∀ bids, s.side bids = listing bids (d.book.side bids) := by
    intro bids
    have htake : (listing bids (d.book.side bids)).take binanceDepth = listing bids (d.book.side bids) :=
      List.take_of_length_le (by rw [length_listing, ← h.retained]; exact h.following.sound.bounded bids)
    rw [Book.snapshot_of_valid hdepth h.retained.ge h.following.valid] at hs
    split at hs
    · cases hs
    · cases hs
      cases bids
      · exact htake
      · exact htake
  have hfields : s.sequence = d.book.sequence ∧ s.sourceTime = d.book.sourceTime ∧
      s.instrumentID = d.book.instrumentID := by
    rw [Book.snapshot_of_valid hdepth h.retained.ge h.following.valid] at hs
    split at hs
    · cases hs
    · cases hs
      exact ⟨rfl, rfl, rfl⟩
  have hok : (b.applySnapshot s).2 = .ok () := by rw [hb]
  have hseed := Book.applySnapshot_seeded hok
  obtain ⟨hid, hvalid⟩ := Book.applySnapshot_eq_ok.1 hok
  have hsound := hseed.sound hvalid (by rw [← hid]; exact hvalid.instrument)
    (by rw [hret]; decide)
  rw [hb] at hseed hsound
  have hlook : ∀ bids p, (t.book.side bids).lookup p = (d.book.side bids).lookup p := by
    intro bids p
    ext q
    rw [hseed.side, hwhole, lookup_ofLevels (nodup_prices (listing_sorted bids _)), mem_listing]
  refine ⟨hlook, fun bids => ?_, ⟨h.following.futures, h.following.hasSnapshot, hseed.valid, ?_,
    hsound, h.following.positive⟩, hseed.retained.trans hret, ?_, ?_⟩
  · rw [hseed.complete, hwhole, length_listing, hret]
  · exact (hseed.sequence.trans hfields.1).trans h.following.sequence
  · exact (hseed.instrument.trans hid.symm).trans hfields.2.2
  · rw [hseed.sourceTime, hfields.2.1, h.following.sound.utc]

/-! ## Equal flags -/

/-- The live book and the direct one in lock-step: both valid and the same, or
the target given up and both invalid. -/
def InStep (t : BookTarget) (d : Collector) : Prop :=
  (t.stage = .live ∧ t.collector = some { d with book := t.book } ∧ Book.Same t.book d.book ∧
      d.hasSnapshot = true ∧ d.book.state = .valid) ∨
    (t.stage = .waiting ∧ t.book.state ≠ .valid ∧ d.book.state ≠ .valid ∧
      ∀ bids p, (t.book.side bids).lookup p = (d.book.side bids).lookup p)

theorem InStep.agree (h : InStep t d) : Agree t.book d.book := by
  rcases h with ⟨-, -, hs, -, -⟩ | ⟨-, hv, hv', hl⟩
  · exact ⟨hs.lookup, by rw [hs.state]⟩
  · exact ⟨hl, iff_of_false hv hv'⟩

theorem collector_eq (hs : Collector.Same c d) : c = { d with book := c.book } := by
  cases c
  cases d
  obtain ⟨-, rfl, rfl, rfl, rfl⟩ := hs
  rfl

/-- What an update does to a live target, by what its push does. -/
theorem receive_live (h : t.stage = .live) (hc : t.collector = some c) (u : DepthUpdate) :
    t.receive u =
      let pushed := { t with collector := some (c.push u).1, book := (c.push u).1.book }
      match (c.push u).2 with
      | .error e => pushed.retry e
      | .ok () => pushed := by
  unfold receive processEvent
  rcases hr : (c.push u).2 with e | ⟨⟩
  · simp only [h, hc, hr, ne_eq, not_true_eq_false, reduceCtorEq, or_self, if_false, if_true]
  · simp only [h, hc, hr, ne_eq, not_true_eq_false, reduceCtorEq, or_self, if_false, if_true,
      false_and]

theorem InStep.receive (h : InStep t d) (u : DepthUpdate) : InStep (t.receive u) (d.push u).1 := by
  rcases h with ⟨hl, hc, hs, hsnap, hv⟩ | ⟨hw, hv, hv', hlook⟩
  · have hsame : Collector.Same { d with book := t.book } d := ⟨hs, rfl, rfl, rfl, rfl⟩
    obtain ⟨hpush, hres⟩ := hsame.push u
    rw [receive_live hl hc, hres]
    dsimp only
    rcases hr : (d.push u).2 with e | ⟨⟩
    · right
      refine ⟨rfl, by simp [retry, Book.markResyncing], ?_, hpush.book.lookup⟩
      rcases Collector.push_cases (u := u) hsnap with ⟨hok, -, -⟩ | ⟨hok, -, -⟩ | ⟨-, hbad⟩
      · rw [hr] at hok
        cases hok
      · rw [hr] at hok
        cases hok
      · exact hbad
    · left
      refine ⟨hl, congrArg some (collector_eq hpush), hpush.book, ?_, ?_⟩
      · rcases Collector.push_cases (u := u) hsnap with ⟨-, -, hk⟩ | ⟨-, hp, -⟩ | ⟨⟨e, he⟩, -⟩
        · exact hk.hasSnapshot.trans hsnap
        · rw [hp.result]
          exact hsnap
        · rw [hr] at he
          cases he
      · rcases Collector.push_cases (u := u) hsnap with ⟨-, -, hk⟩ | ⟨-, -, hv'⟩ | ⟨⟨e, he⟩, -⟩
        · rw [hk.book, hv]
        · exact hv'
        · rw [hr] at he
          cases he
  · rw [receive_waiting hw]
    obtain ⟨hbad, hside⟩ := Collector.push_frozen (u := u) hv'
    exact .inr ⟨hw, hv, hbad, fun bids p => by rw [hside]; exact hlook bids p⟩

theorem Activated.inStep (h : Activated t d) (htells : CountTells d.book) : InStep t d := by
  obtain ⟨hlook, hcomp, hf, hret, hid, htime⟩ := h.seeded
  refine .inl ⟨h.stage, h.collector, ?_, h.following.hasSnapshot, h.following.valid⟩
  exact ⟨hid, hret.trans h.retained.symm, hf.valid.trans h.following.valid.symm,
    hf.sequence.trans h.following.sequence.symm, htime, hlook,
    fun bids => (hcomp bids).trans (htells bids).symm⟩

theorem agree_of_countTells (h : Activated t d) (htells : CountTells d.book)
    (later : List DepthUpdate) : Agree (runFn receive t later).book (d.follow later).book :=
  (runFn_simulation (h.inStep htells) (fun _ _ u hs => InStep.receive hs u) later).agree

/-! ## No later update -/

/-- Past the last update id nothing is pushed. -/
theorem push_of_maxValue (hsnap : c.hasSnapshot = true) (hacc : c.firstAccepted = true)
    (hmax : c.lastUpdateID = Int64.maxValue) (u : DepthUpdate) : c.push u = (c, .ok ()) := by
  unfold Collector.push
  rw [if_neg (by simp [hsnap]), if_pos (by rw [hmax]; exact Int64.le_maxValue _),
    if_neg (by simp [hacc])]

theorem agree_of_maxValue (h : Activated t d) (hmax : d.lastUpdateID = Int64.maxValue)
    (later : List DepthUpdate) : Agree (runFn receive t later).book (d.follow later).book := by
  have hrun : runFn receive t later = t ∧ d.follow later = d := by
    induction later with
    | nil => exact ⟨rfl, rfl⟩
    | cons u us ih =>
        have ht : t.receive u = t := by
          have hpush := push_of_maxValue (c := { d with book := t.book }) h.following.hasSnapshot
            h.accepted hmax u
          rw [receive_live h.stage h.collector, hpush]
          dsimp only
          rw [← h.collector]
        have hd : (d.push u).1 = d := by
          rw [push_of_maxValue h.following.hasSnapshot h.accepted hmax]
        rw [runFn_cons, ht, Collector.follow, List.foldl_cons, hd]
        exact ih
  rw [hrun.1, hrun.2]
  obtain ⟨hlook, -, hf, -⟩ := h.seeded
  exact ⟨hlook, iff_of_true hf.valid h.following.valid⟩

/-! ## Different flags -/

/-- The next update, deleting every level of one side. -/
def clearing (d : Collector) (bids : Bool) : DepthUpdate :=
  let zeros := (listing bids (d.book.side bids)).map fun l => ⟨l.priceTick, 0⟩
  { firstUpdateID := d.lastUpdateID + 1
    finalUpdateID := d.lastUpdateID + 1
    previousUpdateID := d.lastUpdateID
    sourceTime := ⟨1, 0⟩
    bids := if bids then zeros else []
    asks := if bids then [] else zeros }

theorem clearing_side (d : Collector) (bids : Bool) :
    (clearing d bids).changes.side bids =
        (listing bids (d.book.side bids)).map (fun l => ⟨l.priceTick, 0⟩) ∧
      (clearing d bids).changes.side (!bids) = [] := by
  cases bids <;> exact ⟨rfl, rfl⟩

theorem clearing_timed {bids : Bool} : ¬ (clearing d bids).changes.sourceTime.IsZero := by
  change ¬ (⟨1, 0⟩ : Time).IsZero
  decide

theorem lt_add_one_of_ne_max {n : Int64} (h : n ≠ Int64.maxValue) : n < n + 1 := by
  have hle := Int64.toInt_lt n
  have hge := Int64.le_toInt n
  have hne : n.toInt ≠ 2 ^ 63 - 1 := by
    intro he
    exact h (Int64.toInt_inj.1 he)
  rw [Int64.lt_iff_toInt_lt, Int64.toInt_add]
  have h1 : Int64.toInt 1 = 1 := rfl
  rw [h1, Int.bmod_eq_of_le (by omega) (by omega)]
  omega

theorem crossed_of_empty {bids asks : PriceMap} (h : bids.len = 0 ∨ asks.len = 0) :
    crossed bids asks = false := by
  unfold crossed
  rw [if_pos h]

/-- After the clearing update a book is valid exactly when it knew the side whole. -/
theorem push_clearing (hc : c.Following) (hacc : c.firstAccepted = true)
    (hret : c.book.retainedDepth = binanceDepth) (hlast : c.lastUpdateID ≠ Int64.maxValue)
    (hid : c.lastUpdateID = d.lastUpdateID) {bids : Bool}
    (hlook : ∀ p, (c.book.side bids).lookup p = (d.book.side bids).lookup p)
    (hwf : ∀ s, WellFormedChanges ((clearing d bids).changes.side s)) :
    (c.push (clearing d bids)).1.book.state = .valid ↔ c.book.sideComplete bids = true := by
  obtain ⟨hzeros, hnone⟩ := clearing_side d bids
  have hlater : c.lastUpdateID < (clearing d bids).finalUpdateID := by
    have := lt_add_one_of_ne_max hlast
    rw [hid] at this ⊢
    exact this
  have hempty : (c.book.changed (clearing d bids).changes bids).len = 0 := by
    rw [len_eq_zero_iff]
    intro p
    unfold Book.changed
    rw [hzeros]
    by_cases hp : p ∈ (listing bids (d.book.side bids)).map Level.priceTick
    · obtain ⟨l, hl, rfl⟩ := List.mem_map.1 hp
      have hz : (⟨l.priceTick, 0⟩ : Level) ∈
          (listing bids (d.book.side bids)).map fun l => (⟨l.priceTick, 0⟩ : Level) :=
        List.mem_map_of_mem hl
      have hnd : (((listing bids (d.book.side bids)).map fun l =>
          (⟨l.priceTick, 0⟩ : Level)).map Level.priceTick).Nodup := by
        rw [← hzeros]
        exact (hwf bids).2
      rw [lookup_putAll_of_mem hnd hz]
      rfl
    · rw [lookup_putAll_of_notMem, hlook, Option.eq_none_iff_forall_ne_some]
      · intro q hq
        exact hp (List.mem_map_of_mem (mem_listing.2 hq : (⟨p, q⟩ : Level) ∈ _))
      · intro x hx
        obtain ⟨l, hl, rfl⟩ := List.mem_map.1 hx
        intro he
        exact hp (List.mem_map.2 ⟨l, hl, he⟩)
  have hother : c.book.changed (clearing d bids).changes (!bids) = c.book.side (!bids) := by
    unfold Book.changed
    rw [hnone]
    rfl
  have hcheck : c.book.checkChanges c.lastUpdateID (clearing d bids).changes = .ok () :=
    Book.checkChanges_eq_ok.2 ⟨⟨clearing_timed, hlater⟩, hwf, hc.valid, hc.sequence⟩
  have hx : crossed (c.book.changed (clearing d bids).changes true)
      (c.book.changed (clearing d bids).changes false) = false := by
    cases bids
    · exact crossed_of_empty (.inr hempty)
    · exact crossed_of_empty (.inl hempty)
  obtain ⟨hok, happ⟩ := Book.applyChanges_of_uncrossed hcheck hx
  have hstate : (c.push (clearing d bids)).1.book =
      (c.book.applyChanges c.lastUpdateID (clearing d bids).changes).1 := by
    have hcont : c.continuity (clearing d bids) = .ok () := by
      unfold Collector.continuity
      rw [if_neg (by simp [hacc]), hc.futures]
      simp [clearing, hid]
    rw [(Collector.push_of_applied hc.hasSnapshot hlater hcont hok).1]
  have hshallow : c.book.Shallow (clearing d bids).changes ↔ c.book.sideComplete bids = false := by
    constructor
    · rintro ⟨s, hlt, hs⟩
      by_cases hsb : s = bids
      · subst hsb
        simpa [Book.stillComplete, hempty] using hs
      · -- the other side is as it was, and that was deep enough
        obtain rfl : s = !bids := by cases s <;> cases bids <;> simp_all
        have hbound := hc.sound.bounded (!bids)
        rw [hother] at hlt
        have hdeep := hc.sound.deep hc.valid (!bids) (by omega)
        unfold Book.stillComplete at hs
        rw [hother, hdeep] at hs
        simp at hs
        omega
    · intro hf
      exact ⟨bids, by rw [hempty, Nat.min_zero]; decide, by simp [Book.stillComplete, hf]⟩
  rw [hstate]
  by_cases hs : c.book.Shallow (clearing d bids).changes
  · rw [(happ.invalid hs).1, hshallow.1 hs]
    simp
  · rw [(happ.valid hs).1, hc.valid]
    simpa using fun hf => hs (hshallow.2 hf)

theorem parsed_clearing (hd : d.Following) (hlast : d.lastUpdateID ≠ Int64.maxValue) (bids : Bool) :
    (clearing d bids).Parsed := by
  have hlt := lt_add_one_of_ne_max hlast
  have hpos := hd.positive
  have hzeros : WellFormedChanges
      ((listing bids (d.book.side bids)).map fun l => (⟨l.priceTick, 0⟩ : Level)) := by
    constructor
    · intro x hx
      obtain ⟨l, hl, rfl⟩ := List.mem_map.1 hx
      exact (hd.sound.positive bids _ _ (mem_listing.1 hl)).1
    · rw [List.map_map]
      exact nodup_prices (listing_sorted bids (d.book.side bids))
  refine ⟨?_, Int64.le_refl _, hpos, Int.one_pos, ?_, ?_⟩
  · exact Int64.lt_trans hpos hlt
  · cases bids
    · exact ⟨by simp [clearing], by simp [clearing]⟩
    · exact hzeros
  · cases bids
    · exact hzeros
    · exact ⟨by simp [clearing], by simp [clearing]⟩

/-- Where a recomputed flag is not that of the scratch book, one update tells the
two books apart. -/
theorem clearing_tells (h : Activated t d) (hlast : d.lastUpdateID ≠ Int64.maxValue) {bids : Bool}
    (hflag : d.book.sideComplete bids ≠ decide ((d.book.side bids).len < binanceDepth)) :
    ¬ Agree (runFn receive t [clearing d bids]).book (d.follow [clearing d bids]).book := by
  obtain ⟨hlook, hcomp, hf, hret, -⟩ := h.seeded
  have hparsed := parsed_clearing h.following hlast bids
  have hwf : ∀ s, WellFormedChanges ((clearing d bids).changes.side s) := by
    rintro (_ | _)
    · exact hparsed.asks
    · exact hparsed.bids
  have hd := push_clearing (c := d) (d := d) h.following h.accepted h.retained hlast rfl
    (fun _ => rfl) hwf
  have ht := push_clearing (c := { d with book := t.book }) (d := d) hf h.accepted hret hlast rfl
    (hlook bids) hwf
  intro hagree
  have hlive : (t.receive (clearing d bids)).book.state = .valid ↔
      (({ d with book := t.book } : Collector).push (clearing d bids)).1.book.state = .valid := by
    rw [receive_live h.stage h.collector]
    rcases Collector.push_cases (u := clearing d bids) hf.hasSnapshot with
      ⟨hok, -, -⟩ | ⟨hok, -, -⟩ | ⟨⟨e, he⟩, hbad⟩
    · simp only [hok]
    · simp only [hok]
    · simp only [he]
      refine iff_of_false ?_ hbad
      simp [retry, Book.markResyncing]
  have hboth := hagree.valid
  change (t.receive (clearing d bids)).book.state = .valid ↔ (d.push (clearing d bids)).1.book.state = .valid
    at hboth
  rw [hlive, ht, hd] at hboth
  change t.book.sideComplete bids = true ↔ _ at hboth
  rw [hcomp] at hboth
  exact hflag (Bool.eq_iff_iff.2 hboth.symm)

/-! ## The equivalence -/

/-- After an activation the live book agrees with the direct one under every later
run of updates exactly when the number of levels of each side tells whether the
scratch book knew it whole, or no update can follow. -/
theorem activation_agrees_iff {bridging : List DepthUpdate} (h : Activates t snapshot bridging)
    (hd : direct t.instrumentID snapshot (t.buffer ++ bridging) = .ok d) :
    (∀ later : List DepthUpdate, (∀ u ∈ later, u.Parsed) →
        Agree (runFn receive (runFn receive (t.bridge snapshot) bridging) later).book
          (d.follow later).book) ↔
      CountTells d.book ∨ d.lastUpdateID = Int64.maxValue := by
  have hact := h.activated hd
  constructor
  · intro hall
    by_contra hno
    push Not at hno
    obtain ⟨hcount, hlast⟩ := hno
    unfold CountTells at hcount
    push Not at hcount
    obtain ⟨bids, hflag⟩ := hcount
    refine clearing_tells hact hlast hflag (hall [clearing d bids] ?_)
    intro u hu
    rw [List.mem_singleton.1 hu]
    exact parsed_clearing hact.following hlast bids
  · rintro (htells | hmax) later -
    · exact agree_of_countTells hact htells later
    · exact agree_of_maxValue hact hmax later

/-! ## Runs -/

/-- `n` levels of quantity one, one tick apart. -/
def ladder (top : Nat) (n : Nat) : List Level :=
  (List.range n).map fun i => ⟨Int64.ofNat (top - i), 1⟩

def bookOfOne : Book :=
  { instrumentID := 1, retainedDepth := 1000, state := .connecting, reason := "", sequence := 0,
    sourceTime := Time.zero, bids := ∅, asks := ∅, bidSideComplete := false,
    askSideComplete := false }

def emptyTarget (buffer : List DepthUpdate) : BookTarget :=
  { instrumentID := 1, book := bookOfOne, stage := .buffering, generation := 1, buffer,
    collector := none }

/-- A snapshot with `n` bids and one ask. -/
def bidLadder (n : Nat) : BookSnapshot :=
  { instrumentID := 1, sourceTime := ⟨1, 0⟩, sequence := 7, bids := ladder 2000 n,
    asks := [⟨3000, 1⟩] }

/-- The bridging update, which deletes the best bid. -/
def deleteBest : DepthUpdate :=
  { firstUpdateID := 7, finalUpdateID := 8, previousUpdateID := 6, sourceTime := ⟨2, 0⟩
    bids := [⟨2000, 0⟩], asks := [] }

/-- The direct collector over a ladder of `n` bids, after the bridging update. -/
def bridgedLadder (n : Nat) : Collector :=
  (((Collector.new bookOfOne true).applySnapshot (bidLadder n)).1.push deleteBest).1

theorem activation_agrees_iff_three :
    Activates (emptyTarget [deleteBest]) (bidLadder 3) [] ∧
      ∀ later : List DepthUpdate, (∀ u ∈ later, u.Parsed) →
        Agree (runFn receive ((emptyTarget [deleteBest]).bridge (bidLadder 3)) later).book
          ((bridgedLadder 3).follow later).book := by
  have hact : Activates (emptyTarget [deleteBest]) (bidLadder 3) [] :=
    ⟨rfl, rfl, by decide, by decide +kernel, by simp⟩
  have htells : CountTells (bridgedLadder 3).book := by
    rintro (_ | _) <;> decide +kernel
  exact ⟨hact, (activation_agrees_iff hact rfl).2 (.inl htells)⟩

theorem validSide_ladder {top n : Nat} (hn : n < top) (htop : top < 2 ^ 63) :
    ValidSide true (ladder top n) := by
  have hint : ∀ i ≤ top, (Int64.ofNat (top - i)).toInt = ((top - i : Nat) : Int) := fun i _ =>
    Int64.toInt_ofNat_of_lt (by omega)
  constructor
  · intro l hl
    obtain ⟨i, hi, rfl⟩ := List.mem_map.1 hl
    have hi := List.mem_range.1 hi
    refine ⟨?_, by simp⟩
    rw [Int64.lt_iff_toInt_lt, hint i (by omega)]
    simp
    omega
  · rw [sideSorted_iff, Sorted, ladder, List.pairwise_map]
    refine List.Pairwise.imp_of_mem ?_ List.pairwise_lt_range
    intro i j hi hj hij
    have hi := List.mem_range.1 hi
    have hj := List.mem_range.1 hj
    rw [rank_lt_bids, Int64.lt_iff_toInt_lt, hint i (by omega), hint j (by omega)]
    omega

theorem validSnapshot_bidLadder {n : Nat} (hpos : 0 < n) (hn : n ≤ 1000) :
    ValidSnapshot (bidLadder n) binanceDepth where
  instrument := by simp [bidLadder]
  sourceTime := by
    change ¬ (⟨1, 0⟩ : Time).IsZero
    decide
  bids_le := by simpa [bidLadder, ladder, binanceDepth] using hn
  asks_le := by simp [bidLadder, binanceDepth]
  bids_ne := by
    simp [bidLadder, ladder]
    omega
  asks_ne := by simp [bidLadder]
  bids := validSide_ladder (by omega) (by omega)
  asks := ⟨by simp [bidLadder], by simp [bidLadder, SideSorted, Sorted]⟩
  uncrossed := by
    obtain ⟨m, rfl⟩ : ∃ m, n = m + 1 := ⟨n - 1, by omega⟩
    simp [Crosses, bidLadder, ladder, List.range_succ_eq_map]

/-- An activation from two nonempty sides succeeds. -/
theorem activate_live (hc : c.Following) (hret : c.book.retainedDepth = binanceDepth)
    (hne : ∀ bids, (c.book.side bids).len ≠ 0) (hid : t.book.instrumentID = c.book.instrumentID)
    (hbook : t.book.retainedDepth = binanceDepth) : (t.activate c).stage = .live := by
  have hwhole := Book.snapshot_of_valid (by decide : 0 < binanceDepth) hret.ge hc.valid
  rw [if_neg (by simp [hne])] at hwhole
  obtain ⟨s, hsnap, hsid⟩ : ∃ s : BookSnapshot,
      c.book.snapshot binanceDepth = some s ∧ s.instrumentID = t.book.instrumentID :=
    ⟨_, hwhole, hid.symm⟩
  have hvalid := hc.sound.snapshot hsnap
  rw [← hbook] at hvalid
  have hok := Book.applySnapshot_eq_ok.2 ⟨hsid, hvalid⟩
  unfold activate
  rw [hsnap]
  dsimp only
  rcases hb : t.book.applySnapshot s with ⟨b, r⟩
  rw [hb] at hok
  obtain rfl : r = .ok () := hok
  rfl

/-- The scratch collector over a ladder of bids. -/
theorem ladder_snapshot {n : Nat} (hpos : 0 < n) (hn : n ≤ 1000) : ∃ c : Collector,
    (Collector.new bookOfOne true).applySnapshot (bidLadder n) = (c, .ok ()) ∧
      c.Following ∧ Book.Seeded bookOfOne (bidLadder n) c.book ∧ c.firstAccepted = false ∧
      c.lastUpdateID = 7 := by
  have hok : (bookOfOne.applySnapshot (bidLadder n)).2 = .ok () :=
    Book.applySnapshot_eq_ok.2 ⟨rfl, validSnapshot_bidLadder hpos hn⟩
  rcases hb : bookOfOne.applySnapshot (bidLadder n) with ⟨b, r⟩
  rw [hb] at hok
  obtain rfl : r = .ok () := hok
  have hsnap : (Collector.new bookOfOne true).applySnapshot (bidLadder n) =
      (⟨b, true, true, false, 7⟩, .ok ()) := by
    unfold Collector.applySnapshot Collector.new
    simp only [hb]
    rfl
  have hseed := Book.applySnapshot_seeded (b := bookOfOne) (s := bidLadder n) (by rw [hb])
  rw [hb] at hseed
  exact ⟨_, hsnap, (following_new (t := emptyTarget []) rfl (by decide : (0 : Int64) < 7) hsnap).1, hseed, rfl, rfl⟩

theorem len_put_zero {m : PriceMap} {p : Int64} (h : p ∈ m.keys) :
    (m.put ⟨p, 0⟩).len = m.len - 1 := by
  rw [PriceMap.put, if_pos rfl, len, AList.keys_erase, List.length_erase_of_mem h]
  rfl

theorem mem_of_put_zero {m : PriceMap} {p q : Int64} (h : q ∈ (m.put ⟨p, 0⟩).keys) : q ∈ m.keys := by
  rw [PriceMap.put, if_pos rfl, AList.keys_erase] at h
  exact List.mem_of_mem_erase h

/-- The bridging update leaves `n - 1` bids; the flag of the side is still the
snapshot's. -/
theorem ladder_bridged {n : Nat} (hpos : 1 < n) (hn : n ≤ 1000) : ∃ c d : Collector,
    (Collector.new bookOfOne true).applySnapshot (bidLadder n) = (c, .ok ()) ∧
      c.push deleteBest = (d, .ok ()) ∧ d.Following ∧ d.firstAccepted = true ∧
      d.book.retainedDepth = binanceDepth ∧ d.book.instrumentID = 1 ∧ d.lastUpdateID = 8 ∧
      (∀ bids, (d.book.side bids).len = if bids then n - 1 else 1) ∧
      d.book.sideComplete true = decide (n < 1000) := by
  obtain ⟨c, hsnap, hc, hseed, hacc, hlast⟩ := ladder_snapshot (by omega : 0 < n) hn
  have hbids : SideSorted true (ladder 2000 n) := (validSide_ladder (by omega) (by omega)).sorted
  have hside : c.book.side true = ofLevels (ladder 2000 n) := hseed.side true
  have hret : c.book.retainedDepth = binanceDepth := hseed.retained
  have hbest : (2000 : Int64) ∈ (c.book.side true).keys := by
    have hfirst : (⟨2000, 1⟩ : Level) ∈ ladder 2000 n :=
      List.mem_map.2 ⟨0, List.mem_range.2 (by omega), rfl⟩
    rw [hside]
    exact mem_of_lookup ((lookup_ofLevels (nodup_prices hbids)).2 hfirst)
  have hchanged : c.book.changed deleteBest.changes true = (c.book.side true).put ⟨2000, 0⟩ := rfl
  have hasks : c.book.changed deleteBest.changes false = c.book.side false := rfl
  have hlen : ∀ bids, (c.book.changed deleteBest.changes bids).len = if bids then n - 1 else 1 := by
    rintro (_ | _)
    · rw [hasks, hseed.side]
      rfl
    · rw [hchanged, len_put_zero hbest, hside, len_ofLevels hbids]
      simp [ladder]
  have hcomp : ∀ bids, c.book.stillComplete deleteBest.changes bids =
      c.book.sideComplete bids := by
    intro bids
    have : ¬ c.book.retainedDepth < (c.book.changed deleteBest.changes bids).len := by
      rw [hlen, hret, binanceDepth]
      split <;> omega
    simp [Book.stillComplete, this]
  have hcheck : c.book.checkChanges c.lastUpdateID deleteBest.changes = .ok () := by
    refine Book.checkChanges_eq_ok.2 ⟨⟨by decide, by rw [hlast]; decide⟩, ?_, hc.valid, hc.sequence⟩
    rintro (_ | _) <;> decide
  have hx : crossed (c.book.changed deleteBest.changes true)
      (c.book.changed deleteBest.changes false) = false := by
    refine uncrossed_of_sub (fun p hp => ?_) (hc.sound.uncrossed hc.valid)
      (fun p hp => mem_of_put_zero hp) fun p hp => hp
    obtain ⟨q, hq⟩ := exists_lookup hp
    exact (hc.sound.positive true p q hq).1
  have hdeep : ¬ c.book.Shallow deleteBest.changes := by
    rintro ⟨bids, hlt, hf⟩
    rw [hcomp, hseed.complete] at hf
    rw [hlen, hret, binanceDepth, bookDepth] at hlt
    cases bids
    · simp [BookSnapshot.side, bidLadder, bookOfOne] at hf
    · simp [BookSnapshot.side, bidLadder, ladder, bookOfOne] at hf hlt
      omega
  obtain ⟨hok, happ⟩ := Book.applyChanges_of_uncrossed hcheck hx
  have hcont : c.continuity deleteBest = .ok () := by
    unfold Collector.continuity
    rw [if_pos hacc, hlast, hc.futures]
    decide
  obtain ⟨hpush, hres⟩ := Collector.push_of_applied hc.hasSnapshot (by rw [hlast]; decide) hcont hok
  have hpushed := hres.2 ((happ.valid hdeep).1.trans hc.valid)
  refine ⟨c, (c.push deleteBest).1, hsnap, Prod.ext rfl hpushed, (hc.push hpushed).1, ?_⟩
  rw [hpush]
  refine ⟨rfl, happ.retained.trans hret, happ.instrument.trans hseed.instrument, rfl, fun bids => ?_, ?_⟩
  · rw [happ.side, len_trim, hlen, hret, binanceDepth]
    split <;> omega
  · rw [happ.complete, hcomp, hseed.complete]
    simp [BookSnapshot.side, bidLadder, ladder, bookOfOne]

theorem ladder_activates {n : Nat} (hpos : 1 < n) (hn : n ≤ 1000) : ∃ d : Collector,
    Activates (emptyTarget [deleteBest]) (bidLadder n) [] ∧
      direct 1 (bidLadder n) [deleteBest] = .ok d ∧ d.Following ∧ d.lastUpdateID = 8 ∧
      (∀ bids, (d.book.side bids).len = if bids then n - 1 else 1) ∧
      d.book.sideComplete true = decide (n < 1000) := by
  obtain ⟨c, d, hsnap, hpush, hd, hacc, hret, hid, hlast, hlen, hcomp⟩ := ladder_bridged hpos hn
  have hnew : Book.new 1 binanceDepth = .ok bookOfOne := rfl
  have hreplay : replay c [deleteBest] = .ok d := by simp only [replay, hpush]
  have hbridge : (emptyTarget [deleteBest]).bridge (bidLadder n) =
      BookTarget.activate { emptyTarget [] with collector := some d, stage := .bridging } d := by
    unfold bridge emptyTarget
    simp only [hnew, hsnap, hreplay, hacc, if_true]
  have hlive := activate_live (t := { emptyTarget [] with collector := some d, stage := .bridging })
    hd hret (fun bids => by rw [hlen]; split <;> omega) hid.symm rfl
  refine ⟨d, ⟨rfl, rfl, (by decide : (0 : Int64) < 7), by rw [runFn_nil, hbridge]; exact hlive,
    by simp⟩, ?_, hd, hlast, hlen, hcomp⟩
  refine Check.andThen_eq_ok.2 ⟨bookOfOne, hnew, ?_⟩
  rw [hsnap, Collector.follow, List.foldl_cons, hpush]
  rfl

/-- A full side of bids loses one before the activation: the scratch book does not
know the side whole, the live book takes it for whole. -/
theorem not_forall_agree :
    ¬ ∀ (t : BookTarget) (snapshot : BookSnapshot) (bridging : List DepthUpdate) (d : Collector),
      Activates t snapshot bridging →
      direct t.instrumentID snapshot (t.buffer ++ bridging) = .ok d →
      ∀ later : List DepthUpdate, (∀ u ∈ later, u.Parsed) →
        Agree (runFn receive (runFn receive (t.bridge snapshot) bridging) later).book
          (d.follow later).book := by
  intro h
  obtain ⟨d, hact, hdirect, hd, hlast, hlen, hcomp⟩ :=
    ladder_activates (by omega : 1 < 1000) (le_refl 1000)
  have hne : d.lastUpdateID ≠ Int64.maxValue := by rw [hlast]; decide
  have hflag : d.book.sideComplete true ≠ decide ((d.book.side true).len < binanceDepth) := by
    rw [hcomp, hlen]
    decide
  refine clearing_tells (hact.activated hdirect) hne hflag
    (h _ _ _ d hact hdirect [clearing d true] ?_)
  intro u hu
  rw [List.mem_singleton.1 hu]
  exact parsed_clearing hd hne true

end BookTarget

end MarketInfo
