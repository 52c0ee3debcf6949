import MarketInfo.Orderbook.Sequencing

/-! # The Bybit collector

Update ids count up by one. Whatever does not follow the last update, stale or
ahead, needs a new snapshot.
-/

namespace MarketInfo

open Sequencing

namespace Bybit

structure DepthUpdate where
  snapshot : Bool
  updateID : Int64
  crossSequence : Int64
  sourceTime : Time
  bids : List Level
  asks : List Level
deriving DecidableEq, Repr

def DepthUpdate.changes (u : DepthUpdate) : ChangeSet :=
  { sourceTime := u.sourceTime, sequence := u.updateID, bids := u.bids, asks := u.asks }

/-- A true stream: each id is one more than the id before it. -/
structure DepthUpdate.TrueStream (stream : List DepthUpdate) : Prop where
  change : ∀ u ∈ stream, u.snapshot = false
  joined : stream.IsChain fun u v => u.updateID < v.updateID ∧ v.updateID = u.updateID + 1

theorem DepthUpdate.TrueStream.ordered {stream : List DepthUpdate} (h : TrueStream stream) :
    Ordered DepthUpdate.updateID stream := by
  let R := fun u v : DepthUpdate => u.updateID < v.updateID
  have htrans : Trans R R R := ⟨Int64.lt_trans⟩
  have hchain : stream.IsChain R := by
    refine h.joined.imp_of_mem_imp ?_
    rintro u v - - ⟨hlt, -⟩
    exact hlt
  exact List.isChain_iff_pairwise.1 hchain

structure Collector where
  book : Book
  hasSnapshot : Bool
  lastUpdate : Int64
  lastCross : Int64

namespace Collector

/-- `NewCollector`. -/
def new (book : Book) : Collector := { book, hasSnapshot := false, lastUpdate := 0, lastCross := 0 }

def reset (c : Collector) (reason : String) : Collector :=
  { c with hasSnapshot := false, lastUpdate := 0, lastCross := 0,
           book := c.book.markResyncing reason }

/-- The snapshot an update carries. -/
def snapshotOf (c : Collector) (u : DepthUpdate) : BookSnapshot :=
  { instrumentID := c.book.instrumentID, sourceTime := u.sourceTime, sequence := u.updateID,
    bids := u.bids, asks := u.asks }

def pushSnapshot (c : Collector) (u : DepthUpdate) : Collector × Except String Unit :=
  match c.book.applySnapshot (c.snapshotOf u) with
  | (book, .error e) => ({ c with book := book.markInvalid e }, .error e)
  | (book, .ok ()) =>
      ({ book, hasSnapshot := true, lastUpdate := u.updateID, lastCross := u.crossSequence }, .ok ())

def pushChanges (c : Collector) (u : DepthUpdate) : Collector × Except String Unit :=
  if c.hasSnapshot = false then
    ({ c with book := c.book.markInvalid "Bybit delta arrived before snapshot" },
      .error "Bybit collector is awaiting snapshot")
  else if u.updateID ≠ c.lastUpdate + 1 then
    ({ c with hasSnapshot := false, book := c.book.markInvalid "Bybit u sequence gap" },
      .error s!"Bybit u sequence gap: have={c.lastUpdate} update={u.updateID}")
  else if u.crossSequence < c.lastCross then
    ({ c with hasSnapshot := false, book := c.book.markInvalid "Bybit seq moved backwards" },
      .error s!"Bybit seq moved backwards: have={c.lastCross} update={u.crossSequence}")
  else
    match c.book.applyChanges c.lastUpdate u.changes with
    | (book, .error e) => ({ c with hasSnapshot := false, book := book.markInvalid e }, .error e)
    | (book, .ok ()) =>
        let c := { c with book, lastUpdate := u.updateID, lastCross := u.crossSequence }
        if c.book.state ≠ .valid then (c, .error "Bybit book lost retained depth") else (c, .ok ())

def push (c : Collector) (u : DepthUpdate) : Collector × Except String Unit :=
  if u.snapshot = true then c.pushSnapshot u else c.pushChanges u

/-! ## The collector follows its stream -/

inductive Message where
  | reset (reason : String)
  | push (u : DepthUpdate)

def machine (instrumentID : UInt32) : Machine Collector Message DepthUpdate where
  step c
    | .reset reason => (c.reset reason, .ok ())
    | .push u => c.push u
  event
    | .reset _ => .other
    | .push u =>
        if u.snapshot = true then
          .seed { instrumentID, sourceTime := u.sourceTime, sequence := u.updateID, bids := u.bids,
                  asks := u.asks }
        else .update u
  view c := ⟨c.book, c.lastUpdate⟩

/-- The instrument of the book is fixed. -/
@[reducible] def Ready (instrumentID : UInt32) (c : Collector) : Prop :=
  c.book.instrumentID = instrumentID

/-- The id after the last one comes next, whatever the stream. -/
theorem next_of_succ {stream : List DepthUpdate} {last : Int64} {u : DepthUpdate} (hu : u ∈ stream)
    (hlater : last < u.updateID) (hsucc : u.updateID = last + 1) :
    Next DepthUpdate.updateID stream last u := by
  refine ⟨hu, hlater, ?_⟩
  intro v _ hv
  rw [hsucc] at hlater ⊢
  grind

theorem move_pushChanges {stream : List DepthUpdate} {c : Collector} {u : DepthUpdate}
    (hu : u ∈ stream) :
    Move DepthUpdate.updateID DepthUpdate.changes stream ⟨c.book, c.lastUpdate⟩ (.update u)
      (c.pushChanges u).2 ⟨(c.pushChanges u).1.book, (c.pushChanges u).1.lastUpdate⟩ := by
  have hseed : ∀ (r : Except String Unit) s, Event.update u = .seed s → r ≠ .ok () := by
    intro r s hs
    cases hs
  unfold pushChanges
  split
  · exact .failed _ _ _ (hseed _) (by nofun) rfl rfl
  · split
    · exact .failed _ _ _ (hseed _) (by nofun) rfl rfl
    · rename_i hsucc
      split
      · exact .failed _ _ _ (hseed _) (by nofun) rfl rfl
      · rcases happ : c.book.applyChanges c.lastUpdate u.changes with ⟨book, e | ⟨⟩⟩
        · obtain ⟨hid, hret⟩ := applyChanges_identity c.book c.lastUpdate u.changes
          rw [happ] at hid hret
          exact .failed _ _ _ (hseed _) (by nofun) hid hret
        · have hok : (c.book.applyChanges c.lastUpdate u.changes).2 = .ok () := by rw [happ]
          have hbook : (c.book.applyChanges c.lastUpdate u.changes).1 = book := by rw [happ]
          have hlater : c.lastUpdate < u.updateID := applyChanges_later hok
          have hnext := next_of_succ hu hlater (not_not.1 hsucc)
          have happlied := @Move.applied _ DepthUpdate.updateID DepthUpdate.changes stream
            ⟨c.book, c.lastUpdate⟩ u
          rw [← hbook]
          dsimp only
          split
          · exact happlied _ hnext hok
          · exact happlied _ hnext hok

theorem move_pushSnapshot (stream : List DepthUpdate) (c : Collector) (u : DepthUpdate) :
    Move DepthUpdate.updateID DepthUpdate.changes stream ⟨c.book, c.lastUpdate⟩
      (.seed (c.snapshotOf u)) (c.pushSnapshot u).2
      ⟨(c.pushSnapshot u).1.book, (c.pushSnapshot u).1.lastUpdate⟩ := by
  unfold pushSnapshot
  rcases happ : c.book.applySnapshot (c.snapshotOf u) with ⟨book, e | ⟨⟩⟩
  · have hsame := applySnapshot_error (b := c.book) (s := c.snapshotOf u) (e := e) (by rw [happ])
    rw [happ] at hsame
    rw [show book = c.book from hsame]
    exact .failed _ _ _ (fun _ _ => by nofun) (by nofun) rfl rfl
  · have hok : (c.book.applySnapshot (c.snapshotOf u)).2 = .ok () := by rw [happ]
    have hbook : (c.book.applySnapshot (c.snapshotOf u)).1 = book := by rw [happ]
    rw [← hbook]
    exact .seeded (c.snapshotOf u) hok

/-- The instrument stays, whatever is pushed. -/
theorem push_instrument (c : Collector) (u : DepthUpdate) :
    (c.push u).1.book.instrumentID = c.book.instrumentID := by
  have hid := (applyChanges_identity c.book c.lastUpdate u.changes).1
  unfold push
  split
  · unfold pushSnapshot
    rcases happ : c.book.applySnapshot (c.snapshotOf u) with ⟨book, e | ⟨⟩⟩
    · have hsame := applySnapshot_error (b := c.book) (s := c.snapshotOf u) (e := e) (by rw [happ])
      rw [happ] at hsame
      rw [show book = c.book from hsame]
      rfl
    · have hseeded := applySnapshot_valid (b := c.book) (s := c.snapshotOf u) (by rw [happ])
      rw [happ] at hseeded
      exact hseeded.2.2.1
  · unfold pushChanges
    split
    · rfl
    · split
      · rfl
      · split
        · rfl
        · rcases happ : c.book.applyChanges c.lastUpdate u.changes with ⟨book, e | ⟨⟩⟩
          · rw [happ] at hid
            exact hid
          · rw [happ] at hid
            dsimp only
            split
            · exact hid
            · exact hid

theorem follows {instrumentID : UInt32} {stream : List DepthUpdate}
    (hstream : DepthUpdate.TrueStream stream) :
    (machine instrumentID).Follows DepthUpdate.updateID DepthUpdate.changes stream
      (Ready instrumentID) := by
  refine ⟨hstream.ordered, fun _ => rfl, ?_, ?_⟩
  · rintro c msg hready hmsg
    cases msg with
    | reset reason => exact .failed _ _ _ (fun s hs => by cases hs) (by nofun) rfl rfl
    | push u =>
        change Move _ _ stream _ ((machine instrumentID).event (.push u)) (c.push u).2
          ⟨(c.push u).1.book, (c.push u).1.lastUpdate⟩
        unfold push machine
        dsimp only
        split
        · have hmove := move_pushSnapshot stream c u
          unfold snapshotOf at hmove
          rw [show c.book.instrumentID = instrumentID from hready] at hmove
          exact hmove
        · rename_i hchange
          have hu : u ∈ stream := by
            refine hmsg u ?_
            change (if u.snapshot = true then _ else _) = _
            rw [if_neg hchange]
          exact move_pushChanges hu
  · rintro c msg hready -
    cases msg with
    | reset reason => exact hready
    | push u => exact (push_instrument c u).trans hready

end Collector

end Bybit

end MarketInfo
