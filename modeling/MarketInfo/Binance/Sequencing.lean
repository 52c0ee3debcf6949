import MarketInfo.Binance.Collector
import MarketInfo.Orderbook.Sequencing

/-! # The Binance collector follows its stream

Spot updates cover consecutive id ranges; a futures update names the final id of
the one before it. Both rules let through only the next update of the stream.
-/

namespace MarketInfo

open Sequencing

/-- A true stream: ranges in order, each joined to the one before it. -/
structure DepthUpdate.TrueStream (futures : Bool) (stream : List DepthUpdate) : Prop where
  range : ∀ u ∈ stream, u.firstUpdateID ≤ u.finalUpdateID
  joined : stream.IsChain fun u v => u.finalUpdateID < v.firstUpdateID ∧
    if futures = true then v.previousUpdateID = u.finalUpdateID
    else v.firstUpdateID = u.finalUpdateID + 1

/-- What stands before an update in a true stream ends before it starts, and not
after its `pu`. -/
theorem DepthUpdate.TrueStream.pairwise {futures : Bool} {stream : List DepthUpdate}
    (h : TrueStream futures stream) : stream.Pairwise fun u v => u.finalUpdateID < v.finalUpdateID ∧
      u.finalUpdateID < v.firstUpdateID ∧
        (futures = true → u.finalUpdateID ≤ v.previousUpdateID) := by
  let R := fun u v : DepthUpdate => u.finalUpdateID < v.finalUpdateID ∧
    (u.finalUpdateID < v.firstUpdateID ∧ v.firstUpdateID ≤ v.finalUpdateID) ∧
      (futures = true → u.finalUpdateID ≤ v.previousUpdateID)
  have htrans : Trans R R R := by
    refine ⟨?_⟩
    rintro u v w ⟨huv, -, -⟩ ⟨hvw, ⟨hfirst, hrange⟩, hprev⟩
    exact ⟨Int64.lt_trans huv hvw, ⟨Int64.lt_trans huv hfirst, hrange⟩,
      fun hfutures => Int64.le_trans (Int64.le_of_lt huv) (hprev hfutures)⟩
  have hchain : stream.IsChain R := by
    refine h.joined.imp_of_mem_imp ?_
    rintro u v - hv ⟨hlt, hjoined⟩
    refine ⟨Int64.lt_of_lt_of_le hlt (h.range v hv), ⟨hlt, h.range v hv⟩, ?_⟩
    intro hfutures
    rw [if_pos hfutures] at hjoined
    rw [hjoined]
    exact Int64.le_refl _
  refine (List.isChain_iff_pairwise.1 hchain).imp ?_
  rintro u v ⟨hlt, ⟨hfirst, -⟩, hprev⟩
  exact ⟨hlt, hfirst, hprev⟩

inductive BinanceMessage where
  | reset (reason : String)
  | snapshot (s : BookSnapshot)
  | push (u : DepthUpdate)

namespace Collector

def reset (c : Collector) (reason : String) : Collector :=
  { c with hasSnapshot := false, firstAccepted := false, lastUpdateID := 0,
           book := c.book.markResyncing reason }

def machine : Machine Collector BinanceMessage DepthUpdate where
  step c
    | .reset reason => (c.reset reason, .ok ())
    | .snapshot s => c.applySnapshot s
    | .push u => c.push u
  event
    | .reset _ => .other
    | .snapshot s => .seed s
    | .push u => .update u
  view c := ⟨c.book, c.lastUpdateID⟩

/-- Without a snapshot the book is not valid. -/
structure Ready (futures : Bool) (c : Collector) : Prop where
  futures : c.futures = futures
  awaiting : c.hasSnapshot = false → c.book.state ≠ .valid

/-- An update that passes the continuity checks is the next one. -/
theorem next_of_continuity {stream : List DepthUpdate} {c : Collector} {u : DepthUpdate}
    (hstream : DepthUpdate.TrueStream c.futures stream) (hu : u ∈ stream)
    (hlater : c.lastUpdateID < u.finalUpdateID) (hcont : c.continuity u = .ok ()) :
    Next DepthUpdate.finalUpdateID stream c.lastUpdateID u := by
  refine next_of_before hu hlater ?_
  intro v hv hlt
  obtain ⟨hfirst, hprev⟩ := before_of_lt hstream.pairwise hu hv hlt
  unfold continuity at hcont
  split at hcont
  · -- the first update bridges the snapshot
    rw [Check.failIf_eq_ok, not_or] at hcont
    obtain ⟨hbridge, -⟩ := hcont
    split at hbridge
    · have := Int64.not_lt.1 hbridge
      grind
    · have := Int64.not_lt.1 hbridge
      grind
  · split at hcont
    · rename_i hfutures
      rw [Check.failIf_eq_ok, not_not] at hcont
      rw [← hcont]
      exact hprev hfutures
    · rw [Check.failIf_eq_ok] at hcont
      have := Int64.not_lt.1 hcont
      grind

theorem move_snapshot (stream : List DepthUpdate) (c : Collector) (s : BookSnapshot) :
    Move DepthUpdate.finalUpdateID DepthUpdate.changes stream ⟨c.book, c.lastUpdateID⟩ (.seed s)
      (c.applySnapshot s).2 ⟨(c.applySnapshot s).1.book, (c.applySnapshot s).1.lastUpdateID⟩ := by
  unfold applySnapshot
  rcases happ : c.book.applySnapshot s with ⟨book, e | ⟨⟩⟩
  · have hsame := applySnapshot_error (b := c.book) (s := s) (e := e) (by rw [happ])
    rw [happ] at hsame
    rw [show book = c.book from hsame]
    exact .rejected s e
  · have hok : (c.book.applySnapshot s).2 = .ok () := by rw [happ]
    have hbook : (c.book.applySnapshot s).1 = book := by rw [happ]
    rw [← hbook]
    exact .seeded s hok

theorem move_push {stream : List DepthUpdate} {c : Collector} (hstream : DepthUpdate.TrueStream c.futures stream)
    (hready : c.hasSnapshot = false → c.book.state ≠ .valid) {u : DepthUpdate} (hu : u ∈ stream) :
    Move DepthUpdate.finalUpdateID DepthUpdate.changes stream ⟨c.book, c.lastUpdateID⟩ (.update u)
      (c.push u).2 ⟨(c.push u).1.book, (c.push u).1.lastUpdateID⟩ := by
  have hevent : ∀ (r : Except String Unit) s, Event.update u = .seed s → r ≠ .ok () := by
    intro r s hs
    cases hs
  unfold push
  split
  · rename_i hsnapshot
    exact .failed _ _ _ (hevent _) (hready hsnapshot) rfl rfl
  · split
    · rename_i hle
      split
      · exact .skipped u _ hle
      · exact .skipped u _ hle
    · rename_i hlt
      have hlater := Int64.not_le.1 hlt
      rcases hcont : c.continuity u with ⟨reason, e⟩ | ⟨⟩
      · exact .failed _ _ _ (hevent _) (by nofun) rfl rfl
      · have hnext := next_of_continuity hstream hu hlater hcont
        rcases happ : c.book.applyChanges c.lastUpdateID u.changes with ⟨book, e | ⟨⟩⟩
        · obtain ⟨hid, hret⟩ := applyChanges_identity c.book c.lastUpdateID u.changes
          rw [happ] at hid hret
          exact .failed _ _ _ (hevent _) (by nofun) hid hret
        · have hok : (c.book.applyChanges c.lastUpdateID u.changes).2 = .ok () := by rw [happ]
          have hbook : (c.book.applyChanges c.lastUpdateID u.changes).1 = book := by rw [happ]
          have happlied := @Move.applied _ DepthUpdate.finalUpdateID DepthUpdate.changes stream
            ⟨c.book, c.lastUpdateID⟩ u
          rw [← hbook]
          dsimp only
          split
          · exact happlied _ hnext hok
          · exact happlied _ hnext hok

/-- The Binance collector, spot or futures, makes only moves. -/
theorem follows {futures : Bool} {stream : List DepthUpdate}
    (hstream : DepthUpdate.TrueStream futures stream) :
    machine.Follows DepthUpdate.finalUpdateID DepthUpdate.changes stream (Ready futures) := by
  refine ⟨hstream.pairwise.imp fun h => h.1, fun _ => rfl, ?_, ?_⟩
  · rintro c msg hready hmsg
    cases msg with
    | reset reason =>
        exact .failed _ _ _ (fun s hs => by cases hs) (by nofun) rfl rfl
    | snapshot s => exact move_snapshot stream c s
    | push u =>
        have hc : DepthUpdate.TrueStream c.futures stream := by
          rw [hready.futures]
          exact hstream
        exact move_push hc hready.awaiting (hmsg u rfl)
  · rintro c msg hready -
    cases msg with
    | reset reason => exact ⟨hready.futures, fun _ => by nofun⟩
    | snapshot s =>
        change Ready futures (c.applySnapshot s).1
        unfold applySnapshot
        rcases happ : c.book.applySnapshot s with ⟨book, e | ⟨⟩⟩
        · have hsame := applySnapshot_error (b := c.book) (s := s) (e := e) (by rw [happ])
          rw [happ] at hsame
          refine ⟨hready.futures, ?_⟩
          intro hsnapshot
          rw [show book = c.book from hsame]
          exact hready.awaiting hsnapshot
        · exact ⟨hready.futures, by nofun⟩
    | push u =>
        -- a push never takes the snapshot away
        have hkeep : (c.push u).1.futures = c.futures ∧
            (c.push u).1.hasSnapshot = c.hasSnapshot ∧
              (c.hasSnapshot = false → (c.push u).1 = c) := by
          unfold push
          split
          · exact ⟨rfl, rfl, fun _ => rfl⟩
          · rename_i hsnapshot
            split
            · split
              · exact ⟨rfl, rfl, fun h => absurd h hsnapshot⟩
              · exact ⟨rfl, rfl, fun _ => rfl⟩
            · split
              · exact ⟨rfl, rfl, fun h => absurd h hsnapshot⟩
              · split
                · exact ⟨rfl, rfl, fun h => absurd h hsnapshot⟩
                · dsimp only
                  split
                  · exact ⟨rfl, rfl, fun h => absurd h hsnapshot⟩
                  · exact ⟨rfl, rfl, fun h => absurd h hsnapshot⟩
        obtain ⟨hfutures, hsnapshot, hsame⟩ := hkeep
        refine ⟨hfutures.trans hready.futures, ?_⟩
        intro hnone
        have hnone' : c.hasSnapshot = false := hsnapshot.symm.trans hnone
        change (c.push u).1.book.state ≠ .valid
        rw [hsame hnone']
        exact hready.awaiting hnone'

end Collector

end MarketInfo
