import MarketInfo.Orderbook.Frontier

/-! # Feeding a book

The exchange's whole book evolves by absolute level changes; `orderbook.Book` is
seeded with its best retained levels and then fed every change. The question is
whether a valid book shows the true top.

It does as long as each depth check is passed by levels the book knows the
complete top of. A level inserted below the frontier also counts towards the ten
the check asks for, and hidden levels above it are then missing from the top.
-/

namespace MarketInfo

open Listing PriceMap Transition

/-! ## The system -/

/-- The whole book of the exchange: a finite uncrossed pair of maps. -/
structure TrueBook where
  bids : PriceMap
  asks : PriceMap
  bids_pos : ∀ l ∈ listing true bids, 0 < l.priceTick ∧ l.qtyLot ≠ 0
  asks_pos : ∀ l ∈ listing false asks, 0 < l.priceTick ∧ l.qtyLot ≠ 0
  uncrossed : ∀ b ∈ listing true bids, ∀ a ∈ listing false asks, b.priceTick < a.priceTick

namespace TrueBook

def side (t : TrueBook) (bids : Bool) : PriceMap := if bids then t.bids else t.asks

/-- The side after the changes. -/
def changed (t : TrueBook) (c : ChangeSet) (bids : Bool) : PriceMap :=
  (t.side bids).putAll (c.side bids)

/-- The best `d` bids and asks; nothing is shown of a book with an empty side. -/
def top (t : TrueBook) (d : Nat) : Option (List Level × List Level) :=
  if t.bids.len = 0 ∨ t.asks.len = 0 then none
  else some ((listing true t.bids).take d, (listing false t.asks).take d)

/-- The snapshot of the best retained levels of each side. -/
def snapshot (t : TrueBook) (b : Book) (sourceTime : Time) (sequence : Int64) : BookSnapshot :=
  { instrumentID := b.instrumentID
    sourceTime
    sequence
    bids := (listing true t.bids).take b.retainedDepth
    asks := (listing false t.asks).take b.retainedDepth }

end TrueBook

/-- The exchange, the book that is fed from it, the last sequence number, and how
far the book has been told each side. -/
structure Feed where
  truth : TrueBook
  book : Book
  sequence : Int64
  frontier : Bool → Option Int

namespace Feed

/-- A book of accepted depth, seeded with the best retained levels. -/
def Starts (s : Feed) : Prop :=
  ∃ (b : Book) (sourceTime : Time), bookDepth ≤ b.retainedDepth ∧
    b.applySnapshot (s.truth.snapshot b sourceTime s.sequence) = (s.book, .ok ()) ∧
    s.frontier = fun bids => initialFrontier bids b.retainedDepth (s.truth.side bids)

/-- One step of the exchange, and the book fed with it. -/
def next (s : Feed) (c : ChangeSet) (truth : TrueBook) : Feed :=
  { truth
    book := (s.book.applyChanges s.sequence c).1
    sequence := c.sequence
    frontier := fun bids =>
      advance bids s.book.retainedDepth (s.frontier bids) (truth.side bids) }

/-- Absolute changes under contiguous sequence numbers, of which every price is
changed once. -/
structure Step (s : Feed) (c : ChangeSet) (s' : Feed) : Prop where
  timed : ¬ c.sourceTime.IsZero
  increasing : s.sequence < c.sequence
  wellFormed : ∀ bids, WellFormedChanges (c.side bids)
  truth : ∀ bids, s'.truth.side bids = s.truth.changed c bids
  next : s' = s.next c s'.truth

/-- A valid book shows the true top, at every depth up to the book depth. -/
def TopCorrect (s : Feed) : Prop :=
  s.book.state = .valid → ∀ d, 0 < d → d ≤ bookDepth →
    (s.book.snapshot d).map (fun v => (v.bids, v.asks)) = s.truth.top d

/-- The depth check of the step is passed, on either side, by known levels alone
or not at all. -/
def DepthCheckSound (s : Feed) (c : ChangeSet) : Prop :=
  ∀ bids, s.frontier bids = none ∨
    bookDepth ≤ (known bids (s.frontier bids) (s.truth.changed c bids)).length ∨
    (s.book.changed c bids).len < bookDepth

/-- A step whose depth check is sound. -/
def SoundStep (s : Feed) (c : ChangeSet) (s' : Feed) : Prop :=
  s.Step c s' ∧ s.DepthCheckSound c

/-! ## The invariant -/

/-- A valid book tracks both sides of the exchange. -/
structure Inv (s : Feed) : Prop where
  retained : bookDepth ≤ s.book.retainedDepth
  sequence : s.book.state = .valid → s.book.sequence = s.sequence
  tracks : s.book.state = .valid → ∀ bids,
    Tracks bids s.book.retainedDepth (s.book.side bids) (s.truth.side bids)
      (s.book.sideComplete bids) (s.frontier bids)

/-- Each side of a valid book is known whole or ten levels deep. -/
def DepthKnown (s : Feed) : Prop :=
  s.book.state = .valid → ∀ bids,
    bookDepth ≤ (known bids (s.frontier bids) (s.truth.side bids)).length ∨ s.frontier bids = none

theorem Starts.seeded {s : Feed} (h : s.Starts) :
    ∃ b sourceTime, bookDepth ≤ b.retainedDepth ∧
      Book.Seeded b (s.truth.snapshot b sourceTime s.sequence) s.book ∧
      s.frontier = fun bids => initialFrontier bids b.retainedDepth (s.truth.side bids) := by
  obtain ⟨b, sourceTime, hret, happly, hf⟩ := h
  refine ⟨b, sourceTime, hret, ?_, hf⟩
  have := Book.applySnapshot_seeded (b := b) (s := s.truth.snapshot b sourceTime s.sequence)
    (by rw [happly])
  rwa [happly] at this

theorem snapshot_side (t : TrueBook) (b : Book) (sourceTime : Time) (sequence : Int64)
    (bids : Bool) : (t.snapshot b sourceTime sequence).side bids =
      (listing bids (t.side bids)).take b.retainedDepth := by
  cases bids <;> rfl

theorem Starts.inv {s : Feed} (h : s.Starts) : s.Inv := by
  obtain ⟨b, sourceTime, hret, hseed, hf⟩ := h.seeded
  refine ⟨by rw [hseed.retained]; exact hret, fun _ => hseed.sequence, fun _ bids => ?_⟩
  rw [hseed.retained, hseed.side, hseed.complete, snapshot_side, hf]
  exact Tracks.init bids (s.truth.side bids) (by unfold bookDepth at hret; omega)

theorem Starts.depthKnown {s : Feed} (h : s.Starts) : s.DepthKnown := by
  obtain ⟨b, sourceTime, hret, -, hf⟩ := h.seeded
  intro _ bids
  rw [hf]
  by_cases hlt : (s.truth.side bids).len < b.retainedDepth
  · right
    simp [initialFrontier, hlt]
  · left
    have hpos : 0 < b.retainedDepth := by unfold bookDepth at hret; omega
    obtain ⟨f, hf⟩ := lastRank_isSome bids hpos (not_lt.1 hlt)
    simp only [initialFrontier, if_neg hlt, hf]
    refine le_trans hret ?_
    rw [length_known_lastRank hf (not_lt.1 hlt)]

/-- The exchange stays uncrossed, so the held part of it does. -/
theorem Inv.uncrossed {s s' : Feed} {c : ChangeSet} (hinv : s.Inv) (hstep : s.Step c s')
    (hv : s.book.state = .valid) :
    crossed (s.book.changed c true) (s.book.changed c false) = false := by
  have hsub : ∀ bids p, p ∈ (s.book.changed c bids).keys →
      ∃ q, ⟨p, q⟩ ∈ listing bids (s'.truth.side bids) := by
    intro bids p hp
    obtain ⟨q, hq⟩ := exists_lookup hp
    refine ⟨q, mem_listing.2 ?_⟩
    rw [hstep.truth bids]
    exact lookup_putAll_sub ((hinv.tracks hv bids).sub p) _ q hq
  refine (crossed_eq_false_iff fun p hp => ?_).2 fun b hb a ha => ?_
  · obtain ⟨q, hq⟩ := hsub true p hp
    exact (s'.truth.bids_pos _ hq).1
  · obtain ⟨qb, hqb⟩ := hsub true b hb
    obtain ⟨qa, hqa⟩ := hsub false a ha
    exact s'.truth.uncrossed _ hqb _ hqa

/-- What a step does to a valid book. -/
theorem Step.applied {s s' : Feed} {c : ChangeSet} (hstep : s.Step c s') (hinv : s.Inv)
    (hv : s.book.state = .valid) : Book.Applied s.book c s'.book := by
  have hok : s.book.checkChanges s.sequence c = .ok () :=
    Book.checkChanges_eq_ok.2
      ⟨⟨hstep.timed, hstep.increasing⟩, hstep.wellFormed, hv, hinv.sequence hv⟩
  rw [hstep.next]
  exact (Book.applyChanges_of_uncrossed hok (hinv.uncrossed hstep hv)).2

/-- A book that is not valid stays as it is. -/
theorem Step.frozen {s s' : Feed} {c : ChangeSet} (hstep : s.Step c s')
    (hv : s.book.state ≠ .valid) : s'.book = s.book := by
  rw [hstep.next]
  have hbad : s.book.checkChanges s.sequence c ≠ .ok () :=
    fun h => hv (Book.checkChanges_eq_ok.1 h).2.2.1
  rcases he : s.book.checkChanges s.sequence c with e | ⟨⟩
  · exact congrArg Prod.fst (Book.applyChanges_of_error he)
  · exact absurd he hbad

theorem Inv.step {s s' : Feed} {c : ChangeSet} (hinv : s.Inv) (hstep : s.Step c s') : s'.Inv := by
  by_cases hv : s.book.state = .valid
  · have happ := hstep.applied hinv hv
    refine ⟨by rw [happ.retained]; exact hinv.retained, fun hv' => ?_, fun _ bids => ?_⟩
    · have hdeep : ¬ s.book.Shallow c := fun h => by simp [(happ.invalid h).1] at hv'
      rw [(happ.valid hdeep).2.1, hstep.next]
      rfl
    · rw [happ.retained, happ.side, happ.complete, hstep.truth bids]
      have hf : s'.frontier bids =
          advance bids s.book.retainedDepth (s.frontier bids) (s.truth.changed c bids) := by
        rw [hstep.next, ← hstep.truth bids]
        rfl
      rw [hf]
      exact (hinv.tracks hv bids).step (by have := hinv.retained; unfold bookDepth at this; omega) _
  · have hsame := hstep.frozen hv
    refine ⟨by rw [hsame]; exact hinv.retained, fun hv' => ?_, fun hv' => ?_⟩ <;>
      exact absurd (hsame ▸ hv') hv

/-- A sound depth check leaves the sides known, or the book invalid. -/
theorem DepthKnown.step {s s' : Feed} {c : ChangeSet} (hinv : s.Inv) (hstep : s.Step c s')
    (hsound : s.DepthCheckSound c) : s'.DepthKnown := by
  intro hv' bids
  have hv : s.book.state = .valid := by
    by_contra hv
    exact hv (hstep.frozen hv ▸ hv')
  have happ := hstep.applied hinv hv
  have hdeep : ¬ s.book.Shallow c := fun h => by simp [(happ.invalid h).1] at hv'
  have hret := hinv.retained
  have hf : s'.frontier bids =
      advance bids s.book.retainedDepth (s.frontier bids) (s.truth.changed c bids) := by
    rw [hstep.next, ← hstep.truth bids]
    rfl
  rw [hf, hstep.truth bids]
  unfold advance
  split
  · -- the frontier moved to the last of the retained levels
    rename_i hover
    have hlong := hover.le.trans (length_known_le bids (s.frontier bids) (s.truth.changed c bids))
    obtain ⟨f, hf⟩ := lastRank_isSome bids
      (by unfold bookDepth at hret; omega : 0 < s.book.retainedDepth) hlong
    left
    rw [hf, length_known_lastRank hf hlong]
    exact hret
  · rcases hsound bids with hnone | hknown | hshort
    · exact Or.inr hnone
    · exact Or.inl hknown
    · -- too few levels are held: only a complete side keeps the book valid
      right
      by_contra hsome
      refine hdeep ⟨bids, by omega, ?_⟩
      have : s.book.sideComplete bids = false := by
        rw [← Bool.not_eq_true, (hinv.tracks hv bids).complete]
        exact hsome
      simp [Book.stillComplete, this]

theorem TopCorrect.of_known {s : Feed} (hinv : s.Inv) (hknown : s.DepthKnown) : s.TopCorrect := by
  intro hv d hd hdepth
  have htop : ∀ bids, (listing bids (s.book.side bids)).take d =
      (listing bids (s.truth.side bids)).take d := fun bids =>
    top_of_tracks (hinv.tracks hv bids) ((hknown hv bids).imp_left hdepth.trans)
  have hempty : ∀ bids, (s.book.side bids).len = 0 ↔ (s.truth.side bids).len = 0 := by
    intro bids
    have hlen := congrArg List.length (htop bids)
    simp only [List.length_take, length_listing] at hlen
    omega
  rw [Book.snapshot_of_valid hd (hdepth.trans hinv.retained) hv]
  by_cases h : s.truth.bids.len = 0 ∨ s.truth.asks.len = 0
  · rw [if_pos (h.imp (hempty true).2 (hempty false).2), TrueBook.top, if_pos h]
    rfl
  · rw [if_neg fun h' => h (h'.imp (hempty true).1 (hempty false).1), TrueBook.top, if_neg h,
      Option.map_some, htop, htop]
    rfl

/-- In a run of sound steps every valid book shows the true top. -/
theorem topCorrect_of_soundRun {s s' : Feed} {changes : List ChangeSet} (hs : s.Starts)
    (hrun : Run SoundStep s changes s') : s'.TopCorrect := by
  have hboth : s'.Inv ∧ s'.DepthKnown := by
    refine hrun.invariant (fun s => s.Inv ∧ s.DepthKnown) ⟨hs.inv, hs.depthKnown⟩ ?_
    rintro s c s' ⟨hstep, hsound⟩ ⟨hinv, -⟩
    exact ⟨hinv.step hstep, DepthKnown.step hinv hstep hsound⟩
  exact .of_known hboth.1 hboth.2

/-! ## A hidden level -/

/-- Twelve bids, of which a book of eleven levels is not told the last. -/
def twelveBids : TrueBook where
  bids := ofLevels ((List.range 12).map fun i => ⟨100 - Int64.ofNat i, 1⟩)
  asks := ofLevels [⟨200, 1⟩]
  bids_pos := by decide +kernel
  asks_pos := by decide +kernel
  uncrossed := by decide +kernel

def elevenLevels : Book :=
  { instrumentID := 1, retainedDepth := 11, state := .connecting, reason := "", sequence := 0,
    sourceTime := Time.zero, bids := ∅, asks := ∅, bidSideComplete := false,
    askSideComplete := false }

def seeded : Feed :=
  { truth := twelveBids
    book := (elevenLevels.applySnapshot (twelveBids.snapshot elevenLevels ⟨0, 0⟩ 1)).1
    sequence := 1
    frontier := fun bids => initialFrontier bids 11 (twelveBids.side bids) }

/-- Two deletions above the frontier and an insertion below it. -/
def crossFrontier : ChangeSet := ⟨⟨1, 0⟩, 2, [⟨100, 0⟩, ⟨99, 0⟩, ⟨87, 1⟩], []⟩

/-- One deletion: ten known levels remain. -/
def stayWithin : ChangeSet := ⟨⟨1, 0⟩, 2, [⟨100, 0⟩], []⟩

def shortened : Feed :=
  seeded.next stayWithin
    ⟨twelveBids.changed stayWithin true, twelveBids.changed stayWithin false,
      by decide +kernel, by decide +kernel, by decide +kernel⟩

theorem seeded_starts : seeded.Starts :=
  ⟨elevenLevels, ⟨0, 0⟩, by decide, Prod.ext rfl (by decide +kernel), rfl⟩

theorem shortened_topCorrect : shortened.book.state = .valid ∧ shortened.TopCorrect := by
  have hstep : SoundStep seeded stayWithin shortened := by
    refine ⟨⟨by decide, by decide, by decide, ?_, rfl⟩, ?_⟩
    · rintro (_ | _) <;> rfl
    · rintro (_ | _) <;> decide +kernel
  exact ⟨by decide +kernel, topCorrect_of_soundRun seeded_starts (.cons hstep (.nil _))⟩

def hollow : Feed :=
  seeded.next crossFrontier
    ⟨twelveBids.changed crossFrontier true, twelveBids.changed crossFrontier false,
      by decide +kernel, by decide +kernel, by decide +kernel⟩

/-- The level 89 is hidden, 87 is shown in its place, and the book stays valid. -/
theorem not_forall_topCorrect :
    ¬ ∀ (s s' : Feed) (changes : List ChangeSet), s.Starts → Run Step s changes s' →
      s'.TopCorrect := by
  intro h
  have hstep : seeded.Step crossFrontier hollow := by
    refine ⟨by decide, by decide, by decide, ?_, rfl⟩
    rintro (_ | _) <;> rfl
  have htop := h seeded hollow [crossFrontier] seeded_starts (.cons hstep (.nil _))
    (by decide +kernel) 10 (by decide) (by decide)
  exact absurd htop (by decide +kernel)

end Feed

end MarketInfo
