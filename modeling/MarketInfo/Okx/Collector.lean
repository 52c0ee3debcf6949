import MarketInfo.Orderbook.Sequencing

/-! # The OKX collector

An update names the sequence id before it and its own. Heartbeats repeat the last
id, stale updates are skipped, and an update that does not join the last one
needs a new snapshot.
-/

namespace MarketInfo

open Sequencing

namespace Okx

structure DepthUpdate where
  snapshot : Bool
  previousSeqID : Int64
  seqID : Int64
  sourceTime : Time
  bids : List Level
  asks : List Level
deriving DecidableEq, Repr

def DepthUpdate.changes (u : DepthUpdate) : ChangeSet :=
  { sourceTime := u.sourceTime, sequence := u.seqID, bids := u.bids, asks := u.asks }

/-- A true stream: increasing ids, each update naming the one before it. -/
structure DepthUpdate.TrueStream (stream : List DepthUpdate) : Prop where
  change : ∀ u ∈ stream, u.snapshot = false
  joined : stream.IsChain fun u v => u.seqID < v.seqID ∧ v.previousSeqID = u.seqID

theorem DepthUpdate.TrueStream.pairwise {stream : List DepthUpdate} (h : TrueStream stream) :
    stream.Pairwise fun u v => u.seqID < v.seqID ∧ u.seqID ≤ v.previousSeqID := by
  let R := fun u v : DepthUpdate => u.seqID < v.seqID ∧ u.seqID ≤ v.previousSeqID
  have htrans : Trans R R R := by
    refine ⟨?_⟩
    rintro u v w ⟨huv, -⟩ ⟨hvw, hprev⟩
    exact ⟨Int64.lt_trans huv hvw, Int64.le_trans (Int64.le_of_lt huv) hprev⟩
  have hchain : stream.IsChain R := by
    refine h.joined.imp_of_mem_imp ?_
    rintro u v - - ⟨hlt, hprev⟩
    refine ⟨hlt, ?_⟩
    rw [hprev]
    exact Int64.le_refl _
  exact List.isChain_iff_pairwise.1 hchain

/-- A heartbeat changes nothing and repeats the last id. -/
@[reducible] def DepthUpdate.Heartbeat (u : DepthUpdate) : Prop :=
  u.bids.length = 0 ∧ u.asks.length = 0 ∧ u.previousSeqID = u.seqID

structure Collector where
  book : Book
  hasSnapshot : Bool
  lastSeqID : Int64

namespace Collector

/-- `NewCollector`. -/
def new (book : Book) : Collector := { book, hasSnapshot := false, lastSeqID := 0 }

def reset (c : Collector) (reason : String) : Collector :=
  { c with hasSnapshot := false, lastSeqID := 0, book := c.book.markResyncing reason }

def bookInstrumentID (c : Collector) : UInt32 :=
  match c.book.snapshot 1 with
  | some snapshot => snapshot.instrumentID
  | none => c.book.instrumentID

/-- The snapshot an update carries. -/
def snapshotOf (c : Collector) (u : DepthUpdate) : BookSnapshot :=
  { instrumentID := c.bookInstrumentID, sourceTime := u.sourceTime, sequence := u.seqID,
    bids := u.bids, asks := u.asks }

def pushSnapshot (c : Collector) (u : DepthUpdate) : Collector × Except String Unit :=
  match c.book.applySnapshot (c.snapshotOf u) with
  | (book, .error e) => ({ c with book }, .error e)
  | (book, .ok ()) => ({ c with book, hasSnapshot := true, lastSeqID := u.seqID }, .ok ())

def pushChanges (c : Collector) (u : DepthUpdate) : Collector × Except String Unit :=
  if c.hasSnapshot = false then (c, .error "OKX collector is awaiting snapshot")
  else if u.seqID < u.previousSeqID then
    ({ c with hasSnapshot := false, book := c.book.markInvalid "OKX sequence reset" },
      .error s!"OKX sequence reset: have={c.lastSeqID} prev={u.previousSeqID} seq={u.seqID}")
  else if u.bids.length = 0 ∧ u.asks.length = 0 ∧ u.previousSeqID = c.lastSeqID ∧
      u.seqID = c.lastSeqID then (c, .ok ())
  else if u.seqID ≤ c.lastSeqID then (c, .ok ())
  else if u.previousSeqID ≠ c.lastSeqID ∨ u.seqID ≤ u.previousSeqID then
    ({ c with hasSnapshot := false, book := c.book.markInvalid "OKX prevSeqId/seqId gap" },
      .error s!"OKX sequence gap: have={c.lastSeqID} prev={u.previousSeqID} seq={u.seqID}")
  else
    match c.book.applyChanges c.lastSeqID u.changes with
    | (book, .error e) => ({ c with book := book.markInvalid e }, .error e)
    | (book, .ok ()) =>
        let c := { c with book, lastSeqID := u.seqID }
        if c.book.state ≠ .valid then (c, .error "OKX book lost retained depth") else (c, .ok ())

def push (c : Collector) (u : DepthUpdate) : Collector × Except String Unit :=
  if u.snapshot = true then c.pushSnapshot u else c.pushChanges u

theorem bookInstrumentID_eq (c : Collector) : c.bookInstrumentID = c.book.instrumentID := by
  unfold bookInstrumentID
  split
  · rename_i snapshot hsnapshot
    unfold Book.snapshot at hsnapshot
    split at hsnapshot
    · cases hsnapshot
    · split at hsnapshot
      · cases hsnapshot
      · obtain rfl := Option.some.inj hsnapshot
        rfl
  · rfl

/-! ## The collector follows its stream -/

inductive Message where
  | reset (reason : String)
  | push (u : DepthUpdate)

/-- The instrument of the book is fixed; heartbeats are no updates. -/
def machine (instrumentID : UInt32) : Machine Collector Message DepthUpdate where
  step c
    | .reset reason => (c.reset reason, .ok ())
    | .push u => c.push u
  event
    | .reset _ => .other
    | .push u =>
        if u.snapshot = true then
          .seed { instrumentID, sourceTime := u.sourceTime, sequence := u.seqID, bids := u.bids,
                  asks := u.asks }
        else if u.Heartbeat then .other
        else .update u
  view c := ⟨c.book, c.lastSeqID⟩

structure Ready (instrumentID : UInt32) (c : Collector) : Prop where
  instrument : c.book.instrumentID = instrumentID
  awaiting : c.hasSnapshot = false → c.book.state ≠ .valid

theorem pushChanges_identity (c : Collector) (u : DepthUpdate) :
    (c.pushChanges u).1.book.instrumentID = c.book.instrumentID ∧
      ((c.pushChanges u).1.hasSnapshot = c.hasSnapshot ∧
          (c.hasSnapshot = false → (c.pushChanges u).1 = c) ∨
        (c.pushChanges u).1.book.state ≠ .valid) := by
  have hid := (applyChanges_identity c.book c.lastSeqID u.changes).1
  unfold pushChanges
  split
  · exact ⟨rfl, Or.inl ⟨rfl, fun _ => rfl⟩⟩
  · rename_i hsnapshot
    split
    · exact ⟨rfl, Or.inr (by nofun)⟩
    · split
      · exact ⟨rfl, Or.inl ⟨rfl, fun _ => rfl⟩⟩
      · split
        · exact ⟨rfl, Or.inl ⟨rfl, fun _ => rfl⟩⟩
        · split
          · exact ⟨rfl, Or.inr (by nofun)⟩
          · rcases happ : c.book.applyChanges c.lastSeqID u.changes with ⟨book, e | ⟨⟩⟩
            · rw [happ] at hid
              exact ⟨hid, Or.inr (by nofun)⟩
            · rw [happ] at hid
              dsimp only
              split
              · rename_i hstate
                exact ⟨hid, Or.inr hstate⟩
              · exact ⟨hid, Or.inl ⟨rfl, fun h => absurd h hsnapshot⟩⟩

theorem move_pushChanges {stream : List DepthUpdate} (hstream : DepthUpdate.TrueStream stream)
    {c : Collector} (hready : c.hasSnapshot = false → c.book.state ≠ .valid) {u : DepthUpdate}
    {event : Event DepthUpdate} (hevent : (u.Heartbeat ∧ event = .other) ∨
      (¬ u.Heartbeat ∧ u ∈ stream ∧ event = .update u)) :
    Move DepthUpdate.seqID DepthUpdate.changes stream ⟨c.book, c.lastSeqID⟩ event
      (c.pushChanges u).2 ⟨(c.pushChanges u).1.book, (c.pushChanges u).1.lastSeqID⟩ := by
  have hseed : ∀ (r : Except String Unit) s, event = .seed s → r ≠ .ok () := by
    rintro r s rfl
    rcases hevent with ⟨-, h⟩ | ⟨-, -, h⟩
    · cases h
    · cases h
  have hskip : u.seqID ≤ c.lastSeqID → ∀ r : Except String Unit,
      Move DepthUpdate.seqID DepthUpdate.changes stream ⟨c.book, c.lastSeqID⟩ event r
        ⟨c.book, c.lastSeqID⟩ := by
    intro hle r
    rcases hevent with ⟨-, rfl⟩ | ⟨-, -, rfl⟩
    · exact .kept r
    · exact .skipped u r hle
  unfold pushChanges
  split
  · rename_i hsnapshot
    exact .failed _ _ _ (hseed _) (hready hsnapshot) rfl rfl
  · split
    · exact .failed _ _ _ (hseed _) (by nofun) rfl rfl
    · split
      · rename_i hheartbeat
        exact hskip (by rw [hheartbeat.2.2.2]; exact Int64.le_refl _) _
      · split
        · rename_i hle
          exact hskip hle _
        · rename_i hlt
          split
          · exact .failed _ _ _ (hseed _) (by nofun) rfl rfl
          · rename_i hjoin
            rw [not_or, not_not] at hjoin
            obtain ⟨hprev, hown⟩ := hjoin
            rcases happ : c.book.applyChanges c.lastSeqID u.changes with ⟨book, e | ⟨⟩⟩
            · obtain ⟨hid, hret⟩ := applyChanges_identity c.book c.lastSeqID u.changes
              rw [happ] at hid hret
              exact .failed _ _ _ (hseed _) (by nofun) hid hret
            · have hok : (c.book.applyChanges c.lastSeqID u.changes).2 = .ok () := by rw [happ]
              have hbook : (c.book.applyChanges c.lastSeqID u.changes).1 = book := by rw [happ]
              rcases hevent with ⟨hheartbeat, -⟩ | ⟨-, hu, rfl⟩
              · -- a heartbeat that gets here would join itself
                refine absurd ?_ hown
                rw [hheartbeat.2.2]
                exact Int64.le_refl _
              · have hnext : Next DepthUpdate.seqID stream c.lastSeqID u := by
                  refine next_of_before hu (Int64.not_le.1 hlt) ?_
                  intro v hv hvu
                  rw [← hprev]
                  exact before_of_lt hstream.pairwise hu hv hvu
                have happlied := @Move.applied _ DepthUpdate.seqID DepthUpdate.changes stream
                  ⟨c.book, c.lastSeqID⟩ u
                rw [← hbook]
                dsimp only
                split
                · exact happlied _ hnext hok
                · exact happlied _ hnext hok

theorem move_pushSnapshot (stream : List DepthUpdate) (c : Collector) (u : DepthUpdate) :
    Move DepthUpdate.seqID DepthUpdate.changes stream ⟨c.book, c.lastSeqID⟩ (.seed (c.snapshotOf u))
      (c.pushSnapshot u).2 ⟨(c.pushSnapshot u).1.book, (c.pushSnapshot u).1.lastSeqID⟩ := by
  unfold pushSnapshot
  rcases happ : c.book.applySnapshot (c.snapshotOf u) with ⟨book, e | ⟨⟩⟩
  · have hsame := applySnapshot_error (b := c.book) (s := c.snapshotOf u) (e := e) (by rw [happ])
    rw [happ] at hsame
    rw [show book = c.book from hsame]
    exact .rejected _ e
  · have hok : (c.book.applySnapshot (c.snapshotOf u)).2 = .ok () := by rw [happ]
    have hbook : (c.book.applySnapshot (c.snapshotOf u)).1 = book := by rw [happ]
    rw [← hbook]
    exact .seeded (c.snapshotOf u) hok

theorem pushSnapshot_ready {instrumentID : UInt32} {c : Collector} (h : Ready instrumentID c)
    (u : DepthUpdate) : Ready instrumentID (c.pushSnapshot u).1 := by
  unfold pushSnapshot
  rcases happ : c.book.applySnapshot (c.snapshotOf u) with ⟨book, e | ⟨⟩⟩
  · have hsame := applySnapshot_error (b := c.book) (s := c.snapshotOf u) (e := e) (by rw [happ])
    rw [happ] at hsame
    rw [show book = c.book from hsame]
    exact h
  · have hseeded := applySnapshot_valid (b := c.book) (s := c.snapshotOf u) (by rw [happ])
    rw [happ] at hseeded
    exact ⟨hseeded.2.2.1.trans h.instrument, by nofun⟩

theorem follows {instrumentID : UInt32} {stream : List DepthUpdate}
    (hstream : DepthUpdate.TrueStream stream) :
    (machine instrumentID).Follows DepthUpdate.seqID DepthUpdate.changes stream
      (Ready instrumentID) := by
  refine ⟨hstream.pairwise.imp fun h => h.1, fun _ => rfl, ?_, ?_⟩
  · rintro c msg hready hmsg
    cases msg with
    | reset reason => exact .failed _ _ _ (fun s hs => by cases hs) (by nofun) rfl rfl
    | push u =>
        change Move _ _ stream _ ((machine instrumentID).event (.push u)) (c.push u).2
          ⟨(c.push u).1.book, (c.push u).1.lastSeqID⟩
        unfold push machine
        dsimp only
        split
        · have hmove := move_pushSnapshot stream c u
          unfold snapshotOf at hmove
          rw [bookInstrumentID_eq, hready.instrument] at hmove
          exact hmove
        · rename_i hchange
          split
          · rename_i hheartbeat
            exact move_pushChanges hstream hready.awaiting (Or.inl ⟨hheartbeat, rfl⟩)
          · rename_i hheartbeat
            have hu : u ∈ stream := by
              refine hmsg u ?_
              change (if u.snapshot = true then _ else _) = _
              rw [if_neg hchange, if_neg hheartbeat]
            exact move_pushChanges hstream hready.awaiting (Or.inr ⟨hheartbeat, hu, rfl⟩)
  · rintro c msg hready -
    cases msg with
    | reset reason => exact ⟨hready.instrument, fun _ => by nofun⟩
    | push u =>
        change Ready instrumentID (c.push u).1
        unfold push
        split
        · exact pushSnapshot_ready hready u
        · obtain ⟨hid, hkeep⟩ := pushChanges_identity c u
          refine ⟨hid.trans hready.instrument, ?_⟩
          intro hnone
          rcases hkeep with ⟨hsnapshot, hsame⟩ | hstate
          · have hnone' : c.hasSnapshot = false := hsnapshot.symm.trans hnone
            rw [hsame hnone']
            exact hready.awaiting hnone'
          · exact hstate

end Collector

end Okx

end MarketInfo
