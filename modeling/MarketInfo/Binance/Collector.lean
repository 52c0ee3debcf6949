import MarketInfo.Orderbook.Invariant

/-! # The Binance collector

`binance.Collector` puts depth updates in order behind a snapshot and applies
them to one book. A push skips an update, applies it, or fails and leaves the
book invalid (`push_cases`).
-/

namespace MarketInfo

structure DepthUpdate where
  firstUpdateID : Int64
  finalUpdateID : Int64
  previousUpdateID : Int64
  sourceTime : Time
  bids : List Level
  asks : List Level
deriving DecidableEq, Repr

def DepthUpdate.changes (u : DepthUpdate) : ChangeSet :=
  { sourceTime := u.sourceTime, sequence := u.finalUpdateID, bids := u.bids, asks := u.asks }

/-- What `ParseDepthUpdate` lets through of a futures update. -/
structure DepthUpdate.Parsed (u : DepthUpdate) : Prop where
  first : 0 < u.firstUpdateID
  final : u.firstUpdateID ≤ u.finalUpdateID
  previous : 0 < u.previousUpdateID
  sourceTime : 0 < u.sourceTime.unixNano
  bids : WellFormedChanges u.bids
  asks : WellFormedChanges u.asks

structure Collector where
  book : Book
  futures : Bool
  hasSnapshot : Bool
  firstAccepted : Bool
  lastUpdateID : Int64

namespace Collector

/-- `NewCollector`. -/
def new (book : Book) (futures : Bool) : Collector :=
  { book, futures, hasSnapshot := false, firstAccepted := false, lastUpdateID := 0 }

def applySnapshot (c : Collector) (snapshot : BookSnapshot) : Collector × Except String Unit :=
  match c.book.applySnapshot snapshot with
  | (book, .error e) => ({ c with book }, .error e)
  | (book, .ok ()) =>
      ({ c with book, hasSnapshot := true, firstAccepted := false,
                lastUpdateID := snapshot.sequence }, .ok ())

/-- The bridge and continuity checks of `Push`: the reason the book is given, and
the error returned. -/
def continuity (c : Collector) (u : DepthUpdate) : Except (String × String) Unit :=
  if c.firstAccepted = false then
    let bridgeID := if c.futures then c.lastUpdateID else c.lastUpdateID + 1
    Check.failIf (bridgeID < u.firstUpdateID ∨ u.finalUpdateID < bridgeID)
      ("Binance snapshot/diff bridge gap",
        s!"Binance snapshot/diff bridge gap: snapshot={c.lastUpdateID} " ++
          s!"update=[{u.firstUpdateID},{u.finalUpdateID}]")
  else if c.futures then
    Check.failIf (u.previousUpdateID ≠ c.lastUpdateID)
      ("Binance pu sequence gap",
        s!"Binance pu gap: have={c.lastUpdateID} update.pu={u.previousUpdateID}")
  else
    Check.failIf (c.lastUpdateID + 1 < u.firstUpdateID)
      ("Binance U/u sequence gap",
        s!"Binance U/u gap: have={c.lastUpdateID} update.U={u.firstUpdateID}")

def push (c : Collector) (u : DepthUpdate) : Collector × Except String Unit :=
  if c.hasSnapshot = false then (c, .error "Binance collector is awaiting snapshot")
  else if u.finalUpdateID ≤ c.lastUpdateID then
    -- the first bridge event may end exactly at the snapshot, which includes it
    if c.futures = true ∧ c.firstAccepted = false ∧ u.finalUpdateID = c.lastUpdateID ∧
        u.firstUpdateID ≤ c.lastUpdateID then
      ({ c with firstAccepted := true }, .ok ())
    else (c, .ok ())
  else
    match c.continuity u with
    | .error (reason, e) => ({ c with book := c.book.markInvalid reason }, .error e)
    | .ok () =>
        match c.book.applyChanges c.lastUpdateID u.changes with
        | (book, .error e) =>
            ({ c with book := book.markInvalid e, firstAccepted := true }, .error e)
        | (book, .ok ()) =>
            let c := { c with book, firstAccepted := true, lastUpdateID := u.finalUpdateID }
            if c.book.state ≠ .valid then (c, .error "Binance book lost retained depth")
            else (c, .ok ())

/-- Pushing every update, whatever the pushes return. -/
def follow (c : Collector) (us : List DepthUpdate) : Collector :=
  us.foldl (fun c u => (c.push u).1) c

/-! ## What a push does -/

variable {c d : Collector} {u : DepthUpdate}

/-- An update that ends at or before the last one leaves the book alone. -/
structure Skipped (c : Collector) (c' : Collector) : Prop where
  book : c'.book = c.book
  futures : c'.futures = c.futures
  hasSnapshot : c'.hasSnapshot = c.hasSnapshot
  lastUpdateID : c'.lastUpdateID = c.lastUpdateID
  firstAccepted : c.firstAccepted = true → c'.firstAccepted = true

/-- An update that was applied. -/
structure Pushed (c : Collector) (u : DepthUpdate) (c' : Collector) : Prop where
  later : c.lastUpdateID < u.finalUpdateID
  continuous : c.continuity u = .ok ()
  accepted : (c.book.applyChanges c.lastUpdateID u.changes).2 = .ok ()
  result : c' = { c with book := (c.book.applyChanges c.lastUpdateID u.changes).1,
                         firstAccepted := true, lastUpdateID := u.finalUpdateID }

/-- A push skips, applies or fails, and a failure leaves the book invalid. -/
theorem push_cases (hsnap : c.hasSnapshot = true) :
    ((c.push u).2 = .ok () ∧ u.finalUpdateID ≤ c.lastUpdateID ∧ Skipped c (c.push u).1) ∨
      ((c.push u).2 = .ok () ∧ Pushed c u (c.push u).1 ∧ (c.push u).1.book.state = .valid) ∨
      ((∃ e, (c.push u).2 = .error e) ∧ (c.push u).1.book.state ≠ .valid) := by
  unfold push
  rw [if_neg (by simp [hsnap])]
  split
  · rename_i hle
    left
    split
    · exact ⟨rfl, hle, rfl, rfl, rfl, rfl, fun _ => rfl⟩
    · exact ⟨rfl, hle, rfl, rfl, rfl, rfl, id⟩
  · rename_i hlt
    right
    rcases hc : c.continuity u with ⟨reason, e⟩ | ⟨⟩
    · exact .inr ⟨⟨e, rfl⟩, by simp [Book.markInvalid]⟩
    · rcases happ : c.book.applyChanges c.lastUpdateID u.changes with ⟨book, e | ⟨⟩⟩
      · exact .inr ⟨⟨e, rfl⟩, by simp [Book.markInvalid]⟩
      · dsimp only
        split
        · rename_i hv
          exact .inr ⟨⟨_, rfl⟩, hv⟩
        · rename_i hv
          refine .inl ⟨rfl, ⟨Int64.not_le.1 hlt, hc, by rw [happ], ?_⟩, not_not.1 hv⟩
          rw [happ]

/-- A push of changes that apply succeeds when it leaves the book valid. -/
theorem push_of_applied (hsnap : c.hasSnapshot = true) (hlater : c.lastUpdateID < u.finalUpdateID)
    (hcont : c.continuity u = .ok ())
    (hok : (c.book.applyChanges c.lastUpdateID u.changes).2 = .ok ()) :
    (c.push u).1 = { c with book := (c.book.applyChanges c.lastUpdateID u.changes).1,
                            firstAccepted := true, lastUpdateID := u.finalUpdateID } ∧
      ((c.push u).2 = .ok () ↔
        (c.book.applyChanges c.lastUpdateID u.changes).1.state = .valid) := by
  unfold push
  rw [if_neg (by simp [hsnap]), if_neg (Int64.not_le.2 hlater), hcont]
  rcases happly : c.book.applyChanges c.lastUpdateID u.changes with ⟨b, r⟩
  rw [happly] at hok
  obtain rfl : r = .ok () := hok
  dsimp only
  split
  · rename_i hv
    exact ⟨rfl, iff_of_false (by simp) hv⟩
  · rename_i hv
    exact ⟨rfl, iff_of_true rfl (not_not.1 hv)⟩

/-- A book that is not valid stays so, and keeps its levels. -/
theorem push_frozen (hv : c.book.state ≠ .valid) :
    (c.push u).1.book.state ≠ .valid ∧ ∀ bids, (c.push u).1.book.side bids = c.book.side bids := by
  have hbad : ∃ e, c.book.checkChanges c.lastUpdateID u.changes = .error e := by
    rcases h : c.book.checkChanges c.lastUpdateID u.changes with e | ⟨⟩
    · exact ⟨e, rfl⟩
    · exact absurd (Book.checkChanges_eq_ok.1 h).2.2.1 hv
  obtain ⟨e, he⟩ := hbad
  unfold push
  split
  · exact ⟨hv, fun _ => rfl⟩
  · split
    · split
      · exact ⟨hv, fun _ => rfl⟩
      · exact ⟨hv, fun _ => rfl⟩
    · cases c.continuity u with
      | error r => exact ⟨by simp [Book.markInvalid], fun _ => rfl⟩
      | ok =>
          rw [Book.applyChanges_of_error he]
          exact ⟨by simp [Book.markInvalid], fun _ => rfl⟩

theorem follow_frozen (us : List DepthUpdate) (hv : c.book.state ≠ .valid) :
    (c.follow us).book.state ≠ .valid ∧
      ∀ bids, (c.follow us).book.side bids = c.book.side bids := by
  induction us generalizing c with
  | nil => exact ⟨hv, fun _ => rfl⟩
  | cons u us ih =>
      obtain ⟨hv', hside⟩ := push_frozen (u := u) hv
      obtain ⟨hv'', hside'⟩ := ih hv'
      exact ⟨hv'', fun bids => (hside' bids).trans (hside bids)⟩

/-! ## Collectors over books that are the same -/

structure Same (c d : Collector) : Prop where
  book : Book.Same c.book d.book
  futures : c.futures = d.futures
  hasSnapshot : c.hasSnapshot = d.hasSnapshot
  firstAccepted : c.firstAccepted = d.firstAccepted
  lastUpdateID : c.lastUpdateID = d.lastUpdateID

theorem Same.continuity (h : Same c d) (u : DepthUpdate) : c.continuity u = d.continuity u := by
  unfold Collector.continuity
  rw [h.firstAccepted, h.futures, h.lastUpdateID]

theorem same_markInvalid {b b' : Book} (h : Book.Same b b') (reason : String) :
    Book.Same (b.markInvalid reason) (b'.markInvalid reason) :=
  ⟨h.instrument, h.retained, rfl, h.sequence, h.sourceTime, h.lookup, h.complete⟩

/-- Collectors that are the same answer an update alike and stay the same. -/
theorem Same.push (h : Same c d) (u : DepthUpdate) :
    Same (c.push u).1 (d.push u).1 ∧ (c.push u).2 = (d.push u).2 := by
  obtain ⟨hbook, hres⟩ := h.book.applyChanges c.lastUpdateID u.changes
  have hcont := h.continuity u
  unfold Collector.push
  rw [← h.hasSnapshot, ← h.futures, ← h.firstAccepted, ← h.lastUpdateID, ← hcont]
  split
  · exact ⟨h, rfl⟩
  · split
    · split
      · exact ⟨⟨h.book, rfl, rfl, rfl, rfl⟩, rfl⟩
      · exact ⟨h, rfl⟩
    · cases c.continuity u with
      | error r =>
          exact ⟨⟨same_markInvalid h.book _, rfl, rfl, rfl, rfl⟩, rfl⟩
      | ok =>
          rcases hc : c.book.applyChanges c.lastUpdateID u.changes with ⟨b, r⟩
          rcases hd : d.book.applyChanges c.lastUpdateID u.changes with ⟨b', r'⟩
          rw [hc, hd] at hbook hres
          obtain rfl : r = r' := hres
          rcases r with e | ⟨⟩
          · exact ⟨⟨same_markInvalid hbook e, rfl, rfl, rfl, rfl⟩, rfl⟩
          · dsimp only
            rw [← hbook.state]
            split
            · exact ⟨⟨hbook, rfl, rfl, rfl, rfl⟩, rfl⟩
            · exact ⟨⟨hbook, rfl, rfl, rfl, rfl⟩, rfl⟩

/-! ## A collector that keeps up -/

/-- A collector whose pushes have all succeeded. -/
structure Following (c : Collector) : Prop where
  futures : c.futures = true
  hasSnapshot : c.hasSnapshot = true
  valid : c.book.state = .valid
  sequence : c.book.sequence = c.lastUpdateID
  sound : c.book.Sound
  positive : 0 < c.lastUpdateID

theorem Following.push (h : Following c) (hok : (c.push u).2 = .ok ()) :
    Following (c.push u).1 ∧ (c.push u).1.book.retainedDepth = c.book.retainedDepth ∧
      (c.push u).1.book.instrumentID = c.book.instrumentID := by
  rcases push_cases (u := u) h.hasSnapshot with ⟨-, -, hs⟩ | ⟨-, hp, hv⟩ | ⟨⟨e, he⟩, -⟩
  · refine ⟨⟨hs.futures.trans h.futures, hs.hasSnapshot.trans h.hasSnapshot, ?_, ?_, ?_, ?_⟩,
      ?_, ?_⟩
    · rw [hs.book, h.valid]
    · rw [hs.book, hs.lastUpdateID, h.sequence]
    · rw [hs.book]
      exact h.sound
    · rw [hs.lastUpdateID]
      exact h.positive
    · rw [hs.book]
    · rw [hs.book]
  · rcases Book.applyChanges_cases c.book c.lastUpdateID u.changes with ⟨e, he, -⟩ | ⟨hok, hx, -, happ⟩
    · rw [hp.accepted] at he
      cases he
    · rw [hp.result] at hv ⊢
      have hdeep : ¬ c.book.Shallow u.changes := fun hs => by simp [(happ.invalid hs).1] at hv
      refine ⟨⟨h.futures, h.hasSnapshot, hv, (happ.valid hdeep).2.1, h.sound.applied hok hx happ, ?_⟩,
        happ.retained, happ.instrument⟩
      have := h.positive
      have := hp.later
      grind
  · rw [hok] at he
    cases he

end Collector

end MarketInfo
