import MarketInfo.Orderbook.Book

/-! # Books up to iteration order, and what a book always satisfies

Two books are the `Same` when they differ at most in the order their maps are
iterated in; every operation respects that. A book is `Sound` when what it holds
is positive and, while it is valid, uncrossed; then its snapshots validate.
-/

namespace MarketInfo

open Listing PriceMap

/-! ## Maps with the same lookups -/

theorem mem_keys_congr {m n : PriceMap} (h : ∀ p, m.lookup p = n.lookup p) (p : Int64) :
    p ∈ m.keys ↔ p ∈ n.keys := by
  rw [mem_keys_iff, mem_keys_iff, h]

theorem crossed_congr {b b' a a' : PriceMap} (hb : ∀ p, b.lookup p = b'.lookup p)
    (ha : ∀ p, a.lookup p = a'.lookup p) : crossed b a = crossed b' a' := by
  unfold crossed
  rw [len_congr hb, len_congr ha]
  split
  · rfl
  · rw [decide_eq_decide]
    simp only [foldl_bestAsk, foldl_bestBid, mem_keys_congr hb, mem_keys_congr ha]

theorem lookup_trim_congr {m n : PriceMap} (h : ∀ p, m.lookup p = n.lookup p) (bids : Bool)
    (limit : Nat) (p : Int64) :
    (trim m bids limit).1.lookup p = (trim n bids limit).1.lookup p := by
  ext q
  rw [lookup_trim, lookup_trim, listing_congr h]

/-- Writing back recorded values fixes what the recorded prices map to. -/
theorem lookup_restore {m n : PriceMap} {levels : List Level} {p : Int64} :
    (restore n (capture m levels)).lookup p =
      if p ∈ levels.map Level.priceTick then m.lookup p else n.lookup p := by
  unfold restore capture
  induction levels generalizing n with
  | nil => simp
  | cons l ls ih =>
      rw [List.map_cons, List.foldl_cons, ih, List.map_cons]
      by_cases hls : p ∈ ls.map Level.priceTick
      · rw [if_pos hls, if_pos (List.mem_cons_of_mem _ hls)]
      · rw [if_neg hls]
        by_cases hp : p = l.priceTick
        · rw [if_pos (by simp [hp]), hp]
          cases hq : m.lookup l.priceTick with
          | none => exact AList.lookup_erase l.priceTick n
          | some q => exact AList.lookup_insert n
        · rw [if_neg (by simp [hp, hls])]
          cases m.lookup l.priceTick with
          | none => exact AList.lookup_erase_ne hp
          | some q => exact AList.lookup_insert_ne hp

/-- A rejected change is undone. -/
theorem lookup_restore_capture (m : PriceMap) (levels : List Level) (p : Int64) :
    (restore (apply m levels) (capture m levels)).lookup p = m.lookup p := by
  rw [lookup_restore]
  split
  · rfl
  · rename_i h
    refine lookup_putAll_of_notMem fun c hc he => h ?_
    rw [← he]
    exact List.mem_map_of_mem hc

/-- Positive changes keep a map of positive prices and quantities. -/
theorem positive_putAll {m : PriceMap} {levels : List Level}
    (hm : ∀ p q, m.lookup p = some q → 0 < p ∧ q ≠ 0) (hl : ∀ l ∈ levels, 0 < l.priceTick) :
    ∀ p q, (m.putAll levels).lookup p = some q → 0 < p ∧ q ≠ 0 := by
  induction levels generalizing m with
  | nil => exact hm
  | cons l ls ih =>
      refine ih (fun p q hq => ?_) fun x hx => hl x (List.mem_cons_of_mem _ hx)
      rw [lookup_put] at hq
      split at hq
      · rename_i hp
        split at hq
        · cases hq
        · cases hq
          exact ⟨hp ▸ hl l (by simp), ‹_›⟩
      · exact hm p q hq

/-- Fewer levels do not cross. -/
theorem uncrossed_of_sub {bids bids' asks asks' : PriceMap} (hpos : ∀ p ∈ bids.keys, 0 < p)
    (hx : crossed bids asks = false) (hb : ∀ p ∈ bids'.keys, p ∈ bids.keys)
    (ha : ∀ p ∈ asks'.keys, p ∈ asks.keys) : crossed bids' asks' = false :=
  (crossed_eq_false_iff fun p hp => hpos p (hb p hp)).2 fun p hp r hr =>
    (crossed_eq_false_iff hpos).1 hx p (hb p hp) r (ha r hr)

namespace Book

variable {b b' : Book} {changes : ChangeSet} {expected : Int64}

/-! ## Books up to iteration order -/

structure Same (b b' : Book) : Prop where
  instrument : b.instrumentID = b'.instrumentID
  retained : b.retainedDepth = b'.retainedDepth
  state : b.state = b'.state
  sequence : b.sequence = b'.sequence
  sourceTime : b.sourceTime = b'.sourceTime
  lookup : ∀ bids p, (b.side bids).lookup p = (b'.side bids).lookup p
  complete : ∀ bids, b.sideComplete bids = b'.sideComplete bids

theorem Same.refl (b : Book) : Same b b :=
  ⟨rfl, rfl, rfl, rfl, rfl, fun _ _ => rfl, fun _ => rfl⟩

theorem Same.symm (h : Same b b') : Same b' b :=
  ⟨h.instrument.symm, h.retained.symm, h.state.symm, h.sequence.symm, h.sourceTime.symm,
    fun s p => (h.lookup s p).symm, fun s => (h.complete s).symm⟩

theorem Same.trans {b'' : Book} (h : Same b b') (h' : Same b' b'') : Same b b'' :=
  ⟨h.instrument.trans h'.instrument, h.retained.trans h'.retained, h.state.trans h'.state,
    h.sequence.trans h'.sequence, h.sourceTime.trans h'.sourceTime,
    fun s p => (h.lookup s p).trans (h'.lookup s p),
    fun s => (h.complete s).trans (h'.complete s)⟩

theorem Same.checkChanges (h : Same b b') (expected : Int64) (changes : ChangeSet) :
    b.checkChanges expected changes = b'.checkChanges expected changes := by
  unfold Book.checkChanges
  rw [h.state, h.sequence]

theorem Same.changed (h : Same b b') (changes : ChangeSet) (bids : Bool) (p : Int64) :
    (b.changed changes bids).lookup p = (b'.changed changes bids).lookup p :=
  lookup_putAll_congr (h.lookup bids p) _

/-- Changes that would cross the book are undone. -/
theorem applyChanges_of_crossed (hok : b.checkChanges expected changes = .ok ())
    (hx : crossed (b.changed changes true) (b.changed changes false) = true) :
    (b.applyChanges expected changes).2 = .error "changes would lock or cross the order book" ∧
      Same (b.applyChanges expected changes).1 b := by
  have hx' : crossed (apply b.bids changes.bids) (apply b.asks changes.asks) = true := hx
  unfold applyChanges
  simp only [hok, hx', if_true]
  refine ⟨trivial, rfl, rfl, rfl, rfl, rfl, ?_, fun _ => rfl⟩
  rintro (_ | _) p
  · exact lookup_restore_capture b.asks changes.asks p
  · exact lookup_restore_capture b.bids changes.bids p

/-- Everything `ApplyChanges` can do: a failure changes nothing. -/
theorem applyChanges_cases (b : Book) (expected : Int64) (changes : ChangeSet) :
    (∃ e, (b.applyChanges expected changes).2 = .error e ∧
        Same (b.applyChanges expected changes).1 b) ∨
      (b.checkChanges expected changes = .ok () ∧
        crossed (b.changed changes true) (b.changed changes false) = false ∧
        (b.applyChanges expected changes).2 = .ok () ∧
        Applied b changes (b.applyChanges expected changes).1) := by
  rcases hok : b.checkChanges expected changes with e | ⟨⟩
  · rw [applyChanges_of_error hok]
    exact .inl ⟨e, rfl, .refl b⟩
  · cases hx : crossed (b.changed changes true) (b.changed changes false) with
    | false => exact .inr ⟨rfl, rfl, applyChanges_of_uncrossed hok hx⟩
    | true => exact .inl ⟨_, applyChanges_of_crossed hok hx⟩

theorem Same.shallow_iff (h : Same b b') (changes : ChangeSet) :
    b.Shallow changes ↔ b'.Shallow changes := by
  unfold Shallow stillComplete
  simp only [h.retained, h.complete, len_congr (h.changed changes _)]

theorem Same.applied {c c' : Book} (h : Same b b') (hc : Applied b changes c)
    (hc' : Applied b' changes c') : Same c c' := by
  have hlook : ∀ bids p, (c.side bids).lookup p = (c'.side bids).lookup p := by
    intro bids p
    rw [hc.side, hc'.side, h.retained]
    exact lookup_trim_congr (h.changed changes bids) _ _ _
  have hcomp : ∀ bids, c.sideComplete bids = c'.sideComplete bids := by
    intro bids
    rw [hc.complete, hc'.complete]
    unfold stillComplete
    rw [h.retained, h.complete, len_congr (h.changed changes bids)]
  have hinst := (hc.instrument.trans h.instrument).trans hc'.instrument.symm
  have hret := (hc.retained.trans h.retained).trans hc'.retained.symm
  by_cases hs : b.Shallow changes
  · obtain ⟨hst, hsq, htm⟩ := hc.invalid hs
    obtain ⟨hst', hsq', htm'⟩ := hc'.invalid ((h.shallow_iff changes).1 hs)
    exact ⟨hinst, hret, hst.trans hst'.symm, by rw [hsq, hsq', h.sequence],
      by rw [htm, htm', h.sourceTime], hlook, hcomp⟩
  · obtain ⟨hst, hsq, htm⟩ := hc.valid hs
    obtain ⟨hst', hsq', htm'⟩ := hc'.valid fun hs' => hs ((h.shallow_iff changes).2 hs')
    exact ⟨hinst, hret, by rw [hst, hst', h.state], hsq.trans hsq'.symm, htm.trans htm'.symm,
      hlook, hcomp⟩

/-- Books that are the same answer a change alike and stay the same. -/
theorem Same.applyChanges (h : Same b b') (expected : Int64) (changes : ChangeSet) :
    Same (b.applyChanges expected changes).1 (b'.applyChanges expected changes).1 ∧
      (b.applyChanges expected changes).2 = (b'.applyChanges expected changes).2 := by
  have hx : crossed (b.changed changes true) (b.changed changes false) =
      crossed (b'.changed changes true) (b'.changed changes false) :=
    crossed_congr (h.changed changes true) (h.changed changes false)
  have hcheck := h.checkChanges expected changes
  rcases hok : b.checkChanges expected changes with e | ⟨⟩
  · rw [applyChanges_of_error hok, applyChanges_of_error (hcheck ▸ hok)]
    exact ⟨h, rfl⟩
  · cases hc : crossed (b.changed changes true) (b.changed changes false) with
    | false =>
        obtain ⟨hr, happ⟩ := applyChanges_of_uncrossed hok hc
        obtain ⟨hr', happ'⟩ := applyChanges_of_uncrossed (hcheck ▸ hok) (hx ▸ hc)
        exact ⟨h.applied happ happ', hr.trans hr'.symm⟩
    | true =>
        obtain ⟨hr, hb⟩ := applyChanges_of_crossed hok hc
        obtain ⟨hr', hb'⟩ := applyChanges_of_crossed (hcheck ▸ hok) (hx ▸ hc)
        exact ⟨(hb.trans h).trans hb'.symm, hr.trans hr'.symm⟩

/-! ## What a book satisfies -/

/-- What is held is positive and, in a valid book, uncrossed; a side too shallow
for the depth check is known whole. -/
structure Sound (b : Book) : Prop where
  instrument : b.instrumentID ≠ 0
  retained : bookDepth ≤ b.retainedDepth
  positive : ∀ bids p q, (b.side bids).lookup p = some q → 0 < p ∧ q ≠ 0
  uncrossed : b.state = .valid → crossed (b.side true) (b.side false) = false
  sourceTime : b.state = .valid → ¬ b.sourceTime.IsZero
  utc : b.sourceTime.utc = b.sourceTime
  bounded : ∀ bids, (b.side bids).len ≤ b.retainedDepth
  deep : b.state = .valid → ∀ bids, (b.side bids).len < bookDepth → b.sideComplete bids = true

theorem Sound.same (h : Sound b) (hb : Same b' b) : Sound b' where
  instrument := hb.instrument ▸ h.instrument
  retained := hb.retained ▸ h.retained
  positive bids p q hq := h.positive bids p q (by rw [← hb.lookup]; exact hq)
  uncrossed hv := by
    rw [crossed_congr (hb.lookup true) (hb.lookup false)]
    exact h.uncrossed (hb.state ▸ hv)
  sourceTime hv := by
    rw [hb.sourceTime]
    exact h.sourceTime (hb.state ▸ hv)
  utc := by
    rw [hb.sourceTime]
    exact h.utc
  bounded bids := by
    rw [len_congr (hb.lookup bids), hb.retained]
    exact h.bounded bids
  deep hv bids hlt := by
    rw [hb.complete]
    exact h.deep (hb.state ▸ hv) bids (by rw [← len_congr (hb.lookup bids)]; exact hlt)

theorem sound_new {instrumentID : UInt32} {retained : Nat}
    (h : Book.new instrumentID retained = .ok b) : Sound b := by
  simp only [Book.new, Check.seq_eq_ok, Check.failIf_eq_ok, pure, Except.pure, Except.ok.injEq] at h
  obtain ⟨hok, rfl⟩ := h
  push Not at hok
  refine ⟨hok.1, hok.2, ?_, by simp, by simp, rfl, ?_, by simp⟩
  · rintro (_ | _) p q hq <;> simp [side] at hq
  · rintro (_ | _) <;> simp [side, len]

/-- What a snapshot installs is sound. -/
theorem Seeded.sound {s : BookSnapshot} (h : Seeded b s b') (hs : ValidSnapshot s b.retainedDepth)
    (hid : b.instrumentID ≠ 0) (hret : bookDepth ≤ b.retainedDepth) : Sound b' := by
  have hside : ∀ bids, ValidSide bids (s.side bids) := by
    rintro (_ | _)
    · exact hs.asks
    · exact hs.bids
  have hlen : ∀ bids, (s.side bids).length ≤ b.retainedDepth := by
    rintro (_ | _)
    · exact hs.asks_le
    · exact hs.bids_le
  have hlook : ∀ bids p q, (b'.side bids).lookup p = some q ↔ ⟨p, q⟩ ∈ s.side bids := by
    intro bids p q
    rw [h.side]
    exact lookup_ofLevels (nodup_prices (hside bids).sorted)
  have hcount : ∀ bids, (b'.side bids).len = (s.side bids).length := fun bids => by
    rw [h.side, len_ofLevels (hside bids).sorted]
  refine ⟨by rw [h.instrument]; exact hid, by rw [h.retained]; exact hret,
    fun bids p q hq => (hside bids).positive _ ((hlook bids p q).1 hq), fun _ => ?_,
    fun _ => by rw [h.sourceTime]; exact hs.sourceTime, by rw [h.sourceTime, Time.utc_utc],
    fun bids => ?_, fun _ bids hlt => ?_⟩
  · refine (crossed_eq_false_iff fun p hp => ?_).2 fun p hp r hr => ?_
    · obtain ⟨q, hq⟩ := exists_lookup hp
      exact ((hside true).positive _ ((hlook true p q).1 hq)).1
    · obtain ⟨q, hq⟩ := exists_lookup hp
      obtain ⟨t, ht⟩ := exists_lookup hr
      exact hs.gap ((hlook true p q).1 hq) ((hlook false r t).1 ht)
  · rw [hcount, h.retained]
    exact hlen bids
  · rw [hcount] at hlt
    rw [h.complete, decide_eq_true_eq]
    omega

theorem Sound.applySnapshot (h : Sound b) (s : BookSnapshot) : Sound (b.applySnapshot s).1 := by
  rcases hr : (b.applySnapshot s).2 with e | ⟨⟩
  · have : (b.applySnapshot s).1 = b := by
      unfold Book.applySnapshot at hr ⊢
      split
      · rfl
      · split <;> simp_all
    rw [this]
    exact h
  · exact (applySnapshot_seeded hr).sound (applySnapshot_eq_ok.1 hr).2 h.instrument h.retained

/-- An applied change keeps the book sound. -/
theorem Sound.applied (h : Sound b) (hok : b.checkChanges expected changes = .ok ())
    (hx : crossed (b.changed changes true) (b.changed changes false) = false)
    (happ : Applied b changes b') : Sound b' := by
  obtain ⟨⟨htime, -⟩, hwf, hv, -⟩ := checkChanges_eq_ok.1 hok
  have hpos : ∀ bids p q, (b.changed changes bids).lookup p = some q → 0 < p ∧ q ≠ 0 :=
    fun bids p q hq => positive_putAll (h.positive bids) (hwf bids).1 p q hq
  have hkeys : ∀ bids p, p ∈ (b'.side bids).keys → p ∈ (b.changed changes bids).keys := by
    intro bids p hp
    obtain ⟨q, hq⟩ := exists_lookup hp
    rw [happ.side] at hq
    exact mem_of_lookup (lookup_trim_sub hq)
  have hpos' : ∀ bids p q, (b'.side bids).lookup p = some q → 0 < p ∧ q ≠ 0 := by
    intro bids p q hq
    rw [happ.side] at hq
    exact hpos bids p q (lookup_trim_sub hq)
  refine ⟨by rw [happ.instrument]; exact h.instrument, by rw [happ.retained]; exact h.retained,
    hpos', fun _ => ?_, fun hv' => ?_, ?_, fun bids => ?_, fun hv' bids hlt => ?_⟩
  · refine uncrossed_of_sub (fun p hp => ?_) hx (hkeys true) (hkeys false)
    obtain ⟨q, hq⟩ := exists_lookup hp
    exact (hpos true p q hq).1
  · have hdeep : ¬ b.Shallow changes := fun hs => by simp [(happ.invalid hs).1] at hv'
    rw [(happ.valid hdeep).2.2]
    exact htime
  · by_cases hs : b.Shallow changes
    · rw [(happ.invalid hs).2.2]
      exact h.utc
    · rw [(happ.valid hs).2.2, Time.utc_utc]
  · rw [happ.side, len_trim, happ.retained]
    exact Nat.min_le_left _ _
  · have hdeep : ¬ b.Shallow changes := fun hs => by simp [(happ.invalid hs).1] at hv'
    rw [happ.complete]
    rw [happ.side, len_trim] at hlt
    by_contra hc
    exact hdeep ⟨bids, hlt, by simpa using hc⟩

theorem Sound.applyChanges (h : Sound b) (expected : Int64) (changes : ChangeSet) :
    Sound (b.applyChanges expected changes).1 := by
  rcases applyChanges_cases b expected changes with ⟨e, -, hb⟩ | ⟨hok, hx, -, happ⟩
  · exact h.same hb
  · exact h.applied hok hx happ

theorem Sound.markInvalid (h : Sound b) (reason : String) : Sound (b.markInvalid reason) :=
  ⟨h.instrument, h.retained, h.positive, by simp [Book.markInvalid], by simp [Book.markInvalid],
    h.utc, h.bounded, by simp [Book.markInvalid]⟩

theorem Sound.markResyncing (h : Sound b) (reason : String) : Sound (b.markResyncing reason) :=
  ⟨h.instrument, h.retained, h.positive, by simp [Book.markResyncing], by simp [Book.markResyncing],
    h.utc, h.bounded, by simp [Book.markResyncing]⟩

/-- The best levels of a sound book validate. -/
theorem Sound.snapshot (h : Sound b) {depth : Nat} {s : BookSnapshot}
    (hs : b.snapshot depth = some s) : ValidSnapshot s depth := by
  obtain ⟨hv, hd, hret⟩ := snapshot_isSome hs
  rw [snapshot_of_valid hd hret hv] at hs
  split at hs
  · cases hs
  · rename_i hne
    cases hs
    push Not at hne
    have hside : ∀ bids, ValidSide bids ((listing bids (b.side bids)).take depth) := fun bids =>
      ⟨fun l hl => h.positive bids l.priceTick l.qtyLot (mem_listing.1 (List.mem_of_mem_take hl)),
        sideSorted_iff.2 ((sideSorted_iff.1 (listing_sorted bids _)).take depth)⟩
    have hnil : ∀ bids, (b.side bids).len ≠ 0 → (listing bids (b.side bids)).take depth ≠ [] := by
      intro bids hn he
      have := congrArg List.length he
      simp only [List.length_take, length_listing, List.length_nil] at this
      omega
    refine ⟨h.instrument, h.sourceTime hv, List.length_take_le _ _, List.length_take_le _ _,
      hnil true hne.1, hnil false hne.2, hside true, hside false, ?_⟩
    rintro ⟨x, hx, y, hy, hle⟩
    have hgap := (crossed_eq_false_iff fun p hp => ?_).1 (h.uncrossed hv)
    · have hx' := mem_listing.1 (List.mem_of_mem_take (List.mem_of_mem_head? hx))
      have hy' := mem_listing.1 (List.mem_of_mem_take (List.mem_of_mem_head? hy))
      exact absurd (hgap _ (mem_of_lookup hx') _ (mem_of_lookup hy')) (Int64.not_lt.2 hle)
    · obtain ⟨q, hq⟩ := exists_lookup hp
      exact (h.positive true p q hq).1

end Book

end MarketInfo
