import MarketInfo.Binance.Collector
import MarketInfo.Lib.Transition

/-! # Activating a Binance book

A snapshot is bridged on a private scratch book; only then is the live book
seeded, from the levels of the scratch book (`activate`). The seed carries the
levels and not the completeness flags of the scratch book: the live book
recomputes them from the number of levels it is seeded with.

Against one collector that was given everything directly the target is a
lock-step simulation as long as the recomputed flags are those of the scratch
book, and when they differ a single update tells the two apart.
-/

namespace MarketInfo

open Listing PriceMap Transition

/-! ## The target of a book manager -/

inductive BookStage where
  | offline
  | waiting
  | buffering
  | bridging
  | live
deriving DecidableEq, Repr

def snapshotBridgeCapacity : Nat := 4096

/-- The depth of the scratch book, and of the books of the exchange. -/
def binanceDepth : Nat := 1000

structure BookTarget where
  instrumentID : UInt32
  book : Book
  stage : BookStage
  generation : UInt64
  buffer : List DepthUpdate
  collector : Option Collector

namespace BookTarget

/-- `retryTargetLocked`. -/
def retry (t : BookTarget) (err : String) : BookTarget :=
  { t with
    generation := t.generation + 1
    stage := .waiting
    buffer := []
    collector := none
    book := t.book.markResyncing err }

/-- `activateLocked`. -/
def activate (t : BookTarget) (c : Collector) : BookTarget :=
  match c.book.snapshot binanceDepth with
  | none => t.retry "Binance bridged snapshot invalid"
  | some snapshot =>
      match t.book.applySnapshot snapshot with
      | (book, .error e) => { t with book }.retry e
      | (book, .ok ()) =>
          { t with book, collector := some { c with book }, stage := .live, buffer := [] }

/-- The replay of the buffered updates, up to the first that fails. -/
def replay (c : Collector) : List DepthUpdate → Except String Collector
  | [] => .ok c
  | u :: us =>
      match c.push u with
      | (_, .error e) => .error e
      | (c, .ok ()) => replay c us

/-- `snapshotAttempt`, from the point where the snapshot has arrived. -/
def bridge (t : BookTarget) (snapshot : BookSnapshot) : BookTarget :=
  match Book.new t.instrumentID binanceDepth with
  | .error e => t.retry e
  | .ok scratch =>
      match (Collector.new scratch true).applySnapshot snapshot with
      | (_, .error e) => t.retry e
      | (collector, .ok ()) =>
          match replay collector t.buffer with
          | .error e => t.retry e
          | .ok collector =>
              let t := { t with collector := some collector, stage := .bridging, buffer := [] }
              if collector.firstAccepted then t.activate collector else t

/-- `processEvent`, for an update that parsed, routed under the generation it was
received in. While the target is live its collector works on the live book. -/
def processEvent (t : BookTarget) (generation : UInt64) (u : DepthUpdate) : BookTarget :=
  if generation ≠ t.generation ∨ t.stage = .offline ∨ t.stage = .waiting then t
  else if t.stage = .buffering then
    if snapshotBridgeCapacity ≤ t.buffer.length then
      t.retry "Binance snapshot bridge buffer overflow"
    else { t with buffer := t.buffer ++ [u] }
  else
    match t.collector with
    | none => t
    | some c =>
        let book := if t.stage = .live then (c.push u).1.book else t.book
        let pushed := { t with collector := some (c.push u).1, book }
        match (c.push u).2 with
        | .error e => pushed.retry e
        | .ok () =>
            if t.stage = .bridging ∧ (c.push u).1.firstAccepted = true then
              pushed.activate (c.push u).1
            else pushed

/-- An update received now. -/
def receive (t : BookTarget) (u : DepthUpdate) : BookTarget := t.processEvent t.generation u

/-- The target becomes live with the last of the bridging updates, or at once. -/
structure Activates (t : BookTarget) (snapshot : BookSnapshot) (bridging : List DepthUpdate) :
    Prop where
  buffering : t.stage = .buffering
  retained : t.book.retainedDepth = binanceDepth
  parsed : 0 < snapshot.sequence
  live : (runFn receive (t.bridge snapshot) bridging).stage = .live
  first : ∀ us u, bridging = us ++ [u] → (runFn receive (t.bridge snapshot) us).stage ≠ .live

end BookTarget

/-- One book that is given the snapshot and then every update. -/
def direct (instrumentID : UInt32) (snapshot : BookSnapshot) (us : List DepthUpdate) :
    Except String Collector := do
  let book ← Book.new instrumentID binanceDepth
  return ((Collector.new book true).applySnapshot snapshot).1.follow us

/-- The same levels, and both books valid or neither. -/
structure Agree (b b' : Book) : Prop where
  levels : ∀ bids p, (b.side bids).lookup p = (b'.side bids).lookup p
  valid : b.state = .valid ↔ b'.state = .valid

/-- Counting the levels of a side tells whether it is known whole. -/
def CountTells (b : Book) : Prop :=
  ∀ bids, b.sideComplete bids = decide ((b.side bids).len < binanceDepth)

namespace BookTarget

variable {t : BookTarget} {c d : Collector} {u : DepthUpdate} {snapshot : BookSnapshot}

/-! ## Up to the activation -/

theorem follow_concat (c : Collector) (us : List DepthUpdate) (u : DepthUpdate) :
    c.follow (us ++ [u]) = ((c.follow us).push u).1 := by
  simp [Collector.follow]

theorem follow_append (c : Collector) (us vs : List DepthUpdate) :
    c.follow (us ++ vs) = (c.follow us).follow vs := by
  simp [Collector.follow]

/-- A replay that succeeds follows every update, and the collector keeps up. -/
theorem replay_eq_ok {us : List DepthUpdate} (hc : c.Following) (h : replay c us = .ok d) :
    d = c.follow us ∧ d.Following ∧ d.book.retainedDepth = c.book.retainedDepth ∧
      d.book.instrumentID = c.book.instrumentID := by
  induction us generalizing c with
  | nil =>
      cases h
      exact ⟨rfl, hc, rfl, rfl⟩
  | cons u us ih =>
      rw [replay] at h
      rcases hp : c.push u with ⟨c', e | ⟨⟩⟩
      · rw [hp] at h
        cases h
      · rw [hp] at h
        have hfollow := hc.push (u := u) (by rw [hp])
        rw [hp] at hfollow
        obtain ⟨hd, hdf, hret, hid⟩ := ih hfollow.1 h
        refine ⟨?_, hdf, hret.trans hfollow.2.1, hid.trans hfollow.2.2⟩
        rw [hd, Collector.follow, Collector.follow, List.foldl_cons, hp]

/-- The bridging collector is the direct one, and keeps up. -/
structure Bridged (t : BookTarget) (d : Collector) : Prop where
  stage : t.stage = .bridging
  collector : t.collector = some d
  following : d.Following
  retained : d.book.retainedDepth = binanceDepth
  accepted : d.firstAccepted = false

/-- The target has been seeded from the levels of the direct collector. -/
structure Activated (t : BookTarget) (d : Collector) : Prop where
  following : d.Following
  retained : d.book.retainedDepth = binanceDepth
  accepted : d.firstAccepted = true
  stage : t.stage = .live
  collector : t.collector = some { d with book := t.book }
  book : ∃ (b : Book) (s : BookSnapshot), b.retainedDepth = binanceDepth ∧ d.book.snapshot binanceDepth = some s ∧
    b.applySnapshot s = (t.book, .ok ())

theorem retry_stage (t : BookTarget) (e : String) : (t.retry e).stage = .waiting := rfl

/-- An activation seeds the live book or gives up. -/
theorem activate_cases (hc : c.Following) (hret : c.book.retainedDepth = binanceDepth)
    (hacc : c.firstAccepted = true) (hbook : t.book.retainedDepth = binanceDepth) :
    (t.activate c).stage = .waiting ∨ Activated (t.activate c) c := by
  unfold activate
  cases hs : c.book.snapshot binanceDepth with
  | none => exact .inl rfl
  | some s =>
      rcases hb : t.book.applySnapshot s with ⟨b, e | ⟨⟩⟩
      · left
        simp only [hb, retry_stage]
      · right
        simp only [hb]
        exact ⟨hc, hret, hacc, rfl, rfl, t.book, s, hbook, hs, hb⟩

/-- The scratch collector after the snapshot. -/
theorem following_new {scratch : Book} (hnew : Book.new t.instrumentID binanceDepth = .ok scratch)
    (hseq : 0 < snapshot.sequence)
    (h : (Collector.new scratch true).applySnapshot snapshot = (c, .ok ())) :
    c.Following ∧ c.book.retainedDepth = binanceDepth := by
  unfold Collector.applySnapshot Collector.new at h
  rcases hb : scratch.applySnapshot snapshot with ⟨b, e | ⟨⟩⟩
  · rw [hb] at h
    cases h
  · rw [hb] at h
    cases h
    have hsound := (Book.sound_new hnew).applySnapshot snapshot
    have hseed := Book.applySnapshot_seeded (b := scratch) (s := snapshot) (by rw [hb])
    rw [hb] at hsound hseed
    exact ⟨⟨rfl, rfl, hseed.valid, hseed.sequence, hsound, hseq⟩,
      hseed.retained.trans (Book.new_eq_ok hnew).2.2.2⟩

/-- What the arrival of the snapshot leads to. -/
theorem bridge_cases (hbook : t.book.retainedDepth = binanceDepth) (hseq : 0 < snapshot.sequence)
    {d : Collector} (hd : direct t.instrumentID snapshot t.buffer = .ok d) :
    (t.bridge snapshot).stage = .waiting ∨
      (Bridged (t.bridge snapshot) d ∧ (t.bridge snapshot).book = t.book) ∨
      Activated (t.bridge snapshot) d := by
  obtain ⟨scratch, hnew, hd⟩ := Check.andThen_eq_ok.1 hd
  obtain rfl := Except.ok.inj hd
  unfold bridge
  rw [hnew]
  dsimp only
  rcases hsnap : (Collector.new scratch true).applySnapshot snapshot with ⟨c, e | ⟨⟩⟩
  · exact .inl rfl
  · obtain ⟨hc, hret⟩ := following_new hnew hseq hsnap
    dsimp only
    cases hrep : replay c t.buffer with
    | error e => exact .inl rfl
    | ok d =>
        obtain ⟨rfl, hdf, hdret, -⟩ := replay_eq_ok hc hrep
        dsimp only
        split
        · rename_i hacc
          exact (activate_cases hdf (hdret.trans hret) hacc hbook).imp_right .inr
        · rename_i hacc
          exact .inr <| .inl ⟨⟨rfl, rfl, hdf, hdret.trans hret, by simpa using hacc⟩, rfl⟩

/-- What an update does while bridging. -/
theorem receive_bridged (h : Bridged t d) (hbook : t.book.retainedDepth = binanceDepth)
    (u : DepthUpdate) :
    (t.receive u).stage = .waiting ∨
      (Bridged (t.receive u) (d.push u).1 ∧ (t.receive u).book = t.book) ∨
      Activated (t.receive u) (d.push u).1 := by
  unfold receive processEvent
  simp only [h.stage, h.collector, ne_eq, not_true_eq_false, reduceCtorEq, or_self, if_false,
    true_and]
  rcases hr : (d.push u).2 with e | ⟨⟩
  · exact .inl rfl
  · obtain ⟨hf, hret, -⟩ := h.following.push hr
    dsimp only
    split
    · rename_i hacc
      refine (activate_cases hf (hret.trans h.retained) hacc ?_).imp_right .inr
      exact hbook
    · rename_i hacc
      exact .inr <| .inl ⟨⟨rfl, rfl, hf, hret.trans h.retained, by simpa using hacc⟩, rfl⟩

theorem receive_waiting (h : t.stage = .waiting) (u : DepthUpdate) : t.receive u = t := by
  unfold receive processEvent
  rw [if_pos (by simp [h])]

theorem receive_live_stage (h : t.stage = .live) (u : DepthUpdate) :
    (t.receive u).stage = .live ∨ (t.receive u).stage = .waiting := by
  unfold receive processEvent
  simp only [h, ne_eq, not_true_eq_false, reduceCtorEq, or_self, if_false, false_and]
  cases hc : t.collector with
  | none => exact .inl h
  | some c =>
      dsimp only
      rcases (c.push u).2 with e | ⟨⟩
      · exact .inr rfl
      · exact .inl rfl

/-- Before it is live a target waits or bridges in step with the direct collector. -/
theorem bridging_run (hbook : t.book.retainedDepth = binanceDepth) (hseq : 0 < snapshot.sequence)
    (hd : direct t.instrumentID snapshot t.buffer = .ok d) (us : List DepthUpdate) :
    let t' := runFn receive (t.bridge snapshot) us
    t'.stage = .waiting ∨ (Bridged t' (d.follow us) ∧ t'.book = t.book) ∨ t'.stage = .live := by
  induction us using List.reverseRecOn with
  | nil => exact (bridge_cases hbook hseq hd).imp_right (Or.imp_right Activated.stage)
  | append_singleton us u ih =>
      simp only [runFn_append, runFn_cons, runFn_nil, follow_concat] at ih ⊢
      rcases ih with hw | ⟨hb, hsame⟩ | hl
      · rw [receive_waiting hw]
        exact .inl hw
      · rcases receive_bridged hb (by rw [hsame]; exact hbook) u with h | ⟨h, hs⟩ | h
        · exact .inl h
        · exact .inr (.inl ⟨h, hs.trans hsame⟩)
        · exact .inr (.inr h.stage)
      · exact (receive_live_stage hl u).symm.imp_right .inr

theorem direct_append {id : UInt32} {us vs : List DepthUpdate}
    (h : direct id snapshot (us ++ vs) = .ok c) :
    ∃ d, direct id snapshot us = .ok d ∧ c = d.follow vs := by
  obtain ⟨b, hb, h⟩ := Check.andThen_eq_ok.1 h
  obtain rfl := Except.ok.inj h
  refine ⟨_, Check.andThen_eq_ok.2 ⟨b, hb, rfl⟩, ?_⟩
  rw [follow_append]

/-- At its activation a target is seeded from the direct collector. -/
theorem Activates.activated {bridging : List DepthUpdate} (h : Activates t snapshot bridging)
    (hc : direct t.instrumentID snapshot (t.buffer ++ bridging) = .ok c) :
    Activated (runFn receive (t.bridge snapshot) bridging) c := by
  obtain ⟨d, hd, rfl⟩ := direct_append hc
  have hlive := h.live
  rcases List.eq_nil_or_concat bridging with rfl | ⟨us, u, rfl⟩
  · rcases bridge_cases h.retained h.parsed hd with hw | ⟨hb, -⟩ | ha
    · rw [runFn_nil, hw] at hlive
      cases hlive
    · rw [runFn_nil, hb.stage] at hlive
      cases hlive
    · exact ha
  · rw [List.concat_eq_append] at hlive ⊢
    rw [runFn_append, runFn_cons, runFn_nil] at hlive ⊢
    rcases bridging_run h.retained h.parsed hd us with hw | ⟨hb, hsame⟩ | hl
    · rw [receive_waiting hw, hw] at hlive
      cases hlive
    · rw [follow_concat]
      rcases receive_bridged hb (by rw [hsame]; exact h.retained) u with hw | ⟨hb', -⟩ | ha
      · rw [hw] at hlive
        cases hlive
      · rw [hb'.stage] at hlive
        cases hlive
      · exact ha
    · exact absurd hl (h.first us u (List.concat_eq_append))

end BookTarget

end MarketInfo
