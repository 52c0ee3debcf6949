import MarketInfo.Orderbook.Derivative

/-! # The derivative book is the fold of its stream

A run of `Reset` and `Apply` calls together with the updates that were accepted
since the last reset. While the book is valid it holds the snapshot with every
accepted change applied, in order.
-/

namespace MarketInfo

open PriceMap

inductive DerivativeBookCall where
  | reset (epoch : UUID)
  | update (u : DerivativeUpdate)

namespace DerivativeBook

variable {sha256 : List UInt64 → BitVec 256} {b : DerivativeBook} {u : DerivativeUpdate}

def call (sha256 : List UInt64 → BitVec 256) (b : DerivativeBook) :
    DerivativeBookCall → DerivativeBook × Except String Unit
  | .reset epoch => b.reset epoch
  | .update u => b.apply sha256 u

def run (sha256 : List UInt64 → BitVec 256) (b : DerivativeBook) (calls : List DerivativeBookCall) :
    DerivativeBook :=
  calls.foldl (fun b c => (b.call sha256 c).1) b

/-! ## What an accepted update leaves -/

/-- The side an update starts from. -/
theorem streamView_concat (bids : Bool) (us : List DerivativeUpdate) (u : DerivativeUpdate) :
    streamView bids (us ++ [u]) = (u.side bids).foldl changeView (streamView bids us) := by
  unfold streamView
  rw [List.flatMap_append, List.foldl_append, List.flatMap_singleton]

/-- A prepared side is the fold of its changes, good and within the cap. -/
structure PreparedSide (b : DerivativeBook) (u : DerivativeUpdate) (bids : Bool) (m : PriceMap) :
    Prop where
  view : viewOf m = (u.side bids).foldl changeView
    (if u.snapshot = true then fun _ => none else viewOf (b.side bids))
  good : GoodLevels b.signed m
  limit : m.len ≤ b.limit

theorem goodLevels_empty (signed : Bool) : GoodLevels signed ∅ := by
  intro p q h
  rw [AList.lookup_empty] at h
  cases h

theorem Prepared.side {sides : PriceMap × PriceMap} (h : Prepared b u sides)
    (hgood : u.snapshot = false → ∀ bids, GoodLevels b.signed (b.side bids)) (bids : Bool) :
    PreparedSide b u bids (if bids = true then sides.1 else sides.2) := by
  have hside : ∀ old changes m, applyDerivativeSide b u.snapshot old changes = .ok m →
      GoodLevels b.signed old →
      viewOf m = changes.foldl changeView (viewOf old) ∧ GoodLevels b.signed m ∧ m.len ≤ b.limit := by
    intro old changes m hm hold
    obtain ⟨m', hlevels, hrest⟩ := Check.andThen_eq_ok.1 hm
    rw [Check.seq_eq_ok, Check.failIf_eq_ok, Nat.not_lt] at hrest
    obtain ⟨hlimit, hrest⟩ := hrest
    obtain rfl := Except.ok.inj hrest
    obtain ⟨hview, hgood'⟩ := applyDerivativeLevels_eq_ok hlevels hold
    exact ⟨hview, hgood', hlimit⟩
  have hstart : ∀ bids, viewOf (if u.snapshot = true then ∅ else b.side bids) =
      (if u.snapshot = true then fun _ => none else viewOf (b.side bids)) ∧
        GoodLevels b.signed (if u.snapshot = true then ∅ else b.side bids) := by
    intro bids
    split
    · exact ⟨rfl, goodLevels_empty _⟩
    · rename_i hchange
      exact ⟨rfl, hgood (Bool.eq_false_iff.2 hchange) bids⟩
  cases bids with
  | true =>
      obtain ⟨hview, hgood', hlimit⟩ := hside _ _ _ h.bids (hstart true).2
      refine ⟨?_, hgood', hlimit⟩
      rw [← (hstart true).1]
      exact hview
  | false =>
      obtain ⟨hview, hgood', hlimit⟩ := hside _ _ _ h.asks (hstart false).2
      refine ⟨?_, hgood', hlimit⟩
      rw [← (hstart false).1]
      exact hview

end DerivativeBook

/-! ## Tracked runs -/

/-- The book and the updates accepted since the last reset; a repetition of the
last change id is no new update. -/
structure DerivativeTrack where
  book : DerivativeBook
  log : List DerivativeUpdate := []

namespace DerivativeTrack

variable {sha256 : List UInt64 → BitVec 256}

def step (sha256 : List UInt64 → BitVec 256) (t : DerivativeTrack) (c : DerivativeBookCall) :
    DerivativeTrack :=
  { book := (t.book.call sha256 c).1
    log :=
      match c, (t.book.call sha256 c).2 with
      | _, .error _ => t.log
      | .reset _, .ok () => []
      | .update u, .ok () => if t.book.Repeats u then t.log else t.log ++ [u] }

def run (sha256 : List UInt64 → BitVec 256) (t : DerivativeTrack) (calls : List DerivativeBookCall) :
    DerivativeTrack :=
  calls.foldl (step sha256) t

/-- The whole book is the snapshot of its epoch with the accepted changes applied
in order. -/
structure FoldOf (sha256 : List UInt64 → BitVec 256) (b : DerivativeBook)
    (log : List DerivativeUpdate) : Prop where
  epoch : b.epoch ≠ 0
  shape : ∃ s changes, log = s :: changes ∧ s.snapshot = true ∧ ∀ u ∈ changes, u.snapshot = false
  accepted : ∀ u ∈ log, u.epoch = b.epoch ∧ u.instrumentID = b.id ∧ ¬ u.sourceTime.IsZero ∧
    ¬ u.receivedAt.IsZero
  chain : log.IsChain fun u v => v.prevChangeID = u.changeID ∧ u.changeID < v.changeID
  last : ∀ u, log.getLast? = some u → u.changeID = b.sequence ∧ sha256 u.words = b.digest
  view : ∀ bids, viewOf (b.side bids) = streamView bids log
  uncrossed : ∀ p ∈ b.bids.keys, ∀ q ∈ b.asks.keys, p < q
  limit : ∀ bids, (b.side bids).len ≤ b.limit
  good : ∀ bids, GoodLevels b.signed (b.side bids)

/-- What every run keeps. -/
structure Inv (sha256 : List UInt64 → BitVec 256) (t : DerivativeTrack) : Prop where
  fold : t.book.valid = true → FoldOf sha256 t.book t.log
  /-- A book that waits for a snapshot has accepted nothing yet. -/
  fresh : t.book.valid = false → t.book.reason = DerivativeReason.notReady → t.log = []

theorem inv_new {id : UInt32} {signed : Bool} {limit : Nat} {b : DerivativeBook}
    (h : DerivativeBook.new id signed limit = .ok b) : Inv sha256 { book := b } := by
  simp only [DerivativeBook.new, Check.seq_eq_ok] at h
  obtain ⟨-, h⟩ := h
  obtain rfl := Except.ok.inj h
  refine ⟨?_, fun _ _ => rfl⟩
  intro hvalid
  cases hvalid

theorem inv_fail {t : DerivativeTrack} {e : DerivativeFailure}
    (he : e.reason ≠ DerivativeReason.notReady) :
    Inv sha256 { book := (t.book.fail e).1, log := t.log } := by
  refine ⟨?_, ?_⟩
  · intro hvalid
    cases hvalid
  · intro _ hreason
    exact absurd hreason he

/-- An accepted update that is no repetition extends the log by one. -/
theorem fold_install {t : DerivativeTrack} (hinv : Inv sha256 t) {u : DerivativeUpdate}
    {sides : PriceMap × PriceMap} (hepoch : u.epoch = t.book.epoch) (hne : u.epoch ≠ 0)
    (hid : u.instrumentID = t.book.id) (hsource : ¬ u.sourceTime.IsZero)
    (hreceived : ¬ u.receivedAt.IsZero) (hp : DerivativeBook.Prepared t.book u sides) :
    FoldOf sha256 (t.book.install u (sha256 u.words) sides) (t.log ++ [u]) := by
  have hplace := hp.place
  unfold checkPlace at hplace
  -- what the log is before, and how the update follows it
  have hbefore : (u.snapshot = true ∧ t.log = []) ∨ (u.snapshot = false ∧
      FoldOf sha256 t.book t.log ∧ u.prevChangeID = t.book.sequence ∧
        t.book.sequence < u.changeID) := by
    split at hplace
    · rename_i hsnapshot
      rw [Check.failIf_eq_ok, not_or, not_not] at hplace
      exact Or.inl ⟨hsnapshot, hinv.fresh (Bool.eq_false_iff.2 hplace.1) hplace.2⟩
    · rename_i hchange
      rw [Check.failIf_eq_ok, not_or, not_or, not_not] at hplace
      obtain ⟨hvalid, hprev, hlt⟩ := hplace
      exact Or.inr ⟨Bool.eq_false_iff.2 hchange, hinv.fold (Bool.of_not_eq_false hvalid), hprev,
        UInt64.not_le.1 hlt⟩
  have hsides := hp.side (b := t.book) (by
    intro hchange
    rcases hbefore with ⟨hsnapshot, -⟩ | ⟨-, hfold, -, -⟩
    · rw [hchange] at hsnapshot
      cases hsnapshot
    · exact hfold.good)
  have hside : ∀ bids, (t.book.install u (sha256 u.words) sides).side bids =
      if bids = true then sides.1 else sides.2 := by
    intro bids
    cases bids with
    | true => rfl
    | false => rfl
  refine ⟨?_, ?_, ?_, ?_, ?_, ?_, checkBest_eq_ok hp.best, ?_, ?_⟩
  · change t.book.epoch ≠ 0
    rw [← hepoch]
    exact hne
  · rcases hbefore with ⟨hsnapshot, hlog⟩ | ⟨hchange, hfold, -, -⟩
    · exact ⟨u, [], by rw [hlog]; rfl, hsnapshot, by simp⟩
    · obtain ⟨s, changes, hlog, hs, hchanges⟩ := hfold.shape
      refine ⟨s, changes ++ [u], by rw [hlog]; rfl, hs, ?_⟩
      intro v hv
      rcases List.mem_append.1 hv with hv | hv
      · exact hchanges v hv
      · rw [List.mem_singleton.1 hv]
        exact hchange
  · intro v hv
    rcases List.mem_append.1 hv with hv | hv
    · rcases hbefore with ⟨-, hlog⟩ | ⟨-, hfold, -, -⟩
      · rw [hlog] at hv
        cases hv
      · exact hfold.accepted v hv
    · rw [List.mem_singleton.1 hv]
      exact ⟨hepoch, hid, hsource, hreceived⟩
  · rcases hbefore with ⟨-, hlog⟩ | ⟨-, hfold, hprev, hlt⟩
    · rw [hlog]
      exact List.isChain_singleton u
    · refine List.isChain_append.2 ⟨hfold.chain, List.isChain_singleton u, ?_⟩
      rintro v hv w hw
      obtain rfl := Option.some.inj hw
      obtain ⟨hlast, -⟩ := hfold.last v hv
      rw [hlast]
      exact ⟨hprev, hlt⟩
  · intro v hv
    rw [List.getLast?_concat] at hv
    obtain rfl := Option.some.inj hv
    exact ⟨rfl, rfl⟩
  · intro bids
    rw [hside, (hsides bids).view, DerivativeBook.streamView_concat]
    rcases hbefore with ⟨hsnapshot, hlog⟩ | ⟨hchange, hfold, -, -⟩
    · rw [if_pos hsnapshot, hlog]
      rfl
    · rw [if_neg (by rw [hchange]; exact Bool.false_ne_true), hfold.view]
  · intro bids
    rw [hside]
    exact (hsides bids).limit
  · intro bids
    rw [hside]
    exact (hsides bids).good

theorem inv_step {t : DerivativeTrack} (hinv : Inv sha256 t) (c : DerivativeBookCall) :
    Inv sha256 (t.step sha256 c) := by
  cases c with
  | reset epoch =>
      unfold step DerivativeBook.call DerivativeBook.reset
      dsimp only
      split
      · -- no epoch
        exact hinv
      · split
        · -- the same epoch again
          exact hinv
        · refine ⟨?_, fun _ _ => rfl⟩
          intro hvalid
          cases hvalid
  | update u =>
      have hout := DerivativeBook.apply_outcome sha256 t.book u
      unfold step DerivativeBook.call
      dsimp only
      generalize t.book.apply sha256 u = r at hout
      cases hout with
      | stale message _ => exact hinv
      | failed e _ he => exact inv_fail he
      | repeated hepoch hrepeats =>
          dsimp only
          rw [if_pos hrepeats]
          exact hinv
      | installed sides hepoch hne hid hsource hreceived hrepeats hp =>
          dsimp only
          rw [if_neg hrepeats]
          refine ⟨fun _ => fold_install hinv hepoch hne hid hsource hreceived hp, ?_⟩
          intro hvalid
          cases hvalid

theorem inv_run {t : DerivativeTrack} (hinv : Inv sha256 t) (calls : List DerivativeBookCall) :
    Inv sha256 (t.run sha256 calls) := by
  induction calls generalizing t with
  | nil => exact hinv
  | cons c rest ih => exact ih (inv_step hinv c)

theorem run_book (t : DerivativeTrack) (calls : List DerivativeBookCall) :
    (t.run sha256 calls).book = t.book.run sha256 calls := by
  induction calls generalizing t with
  | nil => rfl
  | cons c rest ih => exact ih (t.step sha256 c)

end DerivativeTrack

/-! ## After a failure -/

namespace DerivativeBook

variable {sha256 : List UInt64 → BitVec 256} {b : DerivativeBook}

/-- A book that is not valid takes nothing but a snapshot, and that only while it
waits for one. -/
theorem apply_of_invalid (hvalid : b.valid = false) (u : DerivativeUpdate) :
    ((b.apply sha256 u).1.valid = false ∧
        (b.reason ≠ DerivativeReason.notReady →
          (b.apply sha256 u).1.reason ≠ DerivativeReason.notReady)) ∨
      (b.reason = DerivativeReason.notReady ∧ u.snapshot = true ∧ (b.apply sha256 u).2 = .ok ()) := by
  have hout := apply_outcome sha256 b u
  generalize b.apply sha256 u = r at hout
  cases hout with
  | stale message _ => exact Or.inl ⟨hvalid, fun hreason => hreason⟩
  | failed e _ he => exact Or.inl ⟨rfl, fun _ => he⟩
  | repeated _ hrepeats =>
      have htrue := hrepeats.1
      rw [hvalid] at htrue
      cases htrue
  | installed sides _ _ _ _ _ _ hp =>
      right
      have hplace := hp.place
      unfold checkPlace at hplace
      split at hplace
      · rename_i hsnapshot
        rw [Check.failIf_eq_ok, not_or, not_not] at hplace
        exact ⟨hplace.2, hsnapshot, rfl⟩
      · rw [Check.failIf_eq_ok, not_or] at hplace
        exact absurd hvalid hplace.1

/-- An invalid book becomes valid with a snapshot. -/
theorem snapshot_of_valid_run (hvalid : b.valid = false) {calls : List DerivativeBookCall}
    (h : (b.run sha256 calls).valid = true) :
    ∃ mid v post, calls = mid ++ .update v :: post ∧ v.snapshot = true ∧
      ((b.run sha256 mid).apply sha256 v).2 = .ok () := by
  induction calls generalizing b with
  | nil =>
      rw [show b.run sha256 [] = b from rfl, hvalid] at h
      cases h
  | cons c rest ih =>
      have hcons : ∀ {b' : DerivativeBook}, (b.call sha256 c).1 = b' → b'.valid = false →
          ∃ mid v post, c :: rest = mid ++ .update v :: post ∧ v.snapshot = true ∧
            ((b.run sha256 mid).apply sha256 v).2 = .ok () := by
        rintro b' rfl hb'
        obtain ⟨mid, v, post, rfl, hv, hok⟩ := ih hb' h
        exact ⟨c :: mid, v, post, rfl, hv, hok⟩
      cases c with
      | reset epoch =>
          refine hcons rfl ?_
          unfold call reset
          dsimp only
          split
          · exact hvalid
          · split
            · exact hvalid
            · rfl
      | update u =>
          have hcases := @apply_of_invalid sha256 b hvalid u
          rcases hcases with ⟨hstill, -⟩ | ⟨-, hsnapshot, hok⟩
          · exact hcons rfl hstill
          · exact ⟨[], u, rest, rfl, hsnapshot, hok⟩

/-- A book that failed becomes valid only with a reset to a new epoch and a
snapshot after it. -/
theorem reset_of_valid_run (hvalid : b.valid = false) (hreason : b.reason ≠ DerivativeReason.notReady)
    {calls : List DerivativeBookCall} (h : (b.run sha256 calls).valid = true) :
    ∃ pre epoch mid v post, calls = pre ++ .reset epoch :: mid ++ .update v :: post ∧
      epoch ≠ 0 ∧ epoch ≠ (b.run sha256 pre).epoch ∧ v.snapshot = true ∧
      ((b.run sha256 (pre ++ .reset epoch :: mid)).apply sha256 v).2 = .ok () := by
  induction calls generalizing b with
  | nil =>
      rw [show b.run sha256 [] = b from rfl, hvalid] at h
      cases h
  | cons c rest ih =>
      have hcons : (b.call sha256 c).1.valid = false →
          (b.call sha256 c).1.reason ≠ DerivativeReason.notReady →
          ∃ pre epoch mid v post, c :: rest = pre ++ .reset epoch :: mid ++ .update v :: post ∧
            epoch ≠ 0 ∧ epoch ≠ (b.run sha256 pre).epoch ∧ v.snapshot = true ∧
            ((b.run sha256 (pre ++ .reset epoch :: mid)).apply sha256 v).2 = .ok () := by
        intro hb' hr'
        obtain ⟨pre, epoch, mid, v, post, rfl, hrest⟩ := ih hb' hr' h
        exact ⟨c :: pre, epoch, mid, v, post, rfl, hrest⟩
      cases c with
      | reset epoch =>
          by_cases hzero : epoch = 0
          · have hsame : (b.call sha256 (.reset epoch)).1 = b := by
              unfold call reset
              dsimp only
              rw [if_pos hzero]
            rw [hsame] at hcons
            exact hcons hvalid hreason
          · by_cases hepoch : epoch = b.epoch
            · have hsame : (b.call sha256 (.reset epoch)).1 = b := by
                unfold call reset
                dsimp only
                rw [if_neg hzero, if_pos hepoch]
              rw [hsame] at hcons
              exact hcons hvalid hreason
            · have hreset : (b.call sha256 (.reset epoch)).1.valid = false := by
                unfold call reset
                dsimp only
                rw [if_neg hzero, if_neg hepoch]
              obtain ⟨mid, v, post, rfl, hv, hok⟩ := snapshot_of_valid_run hreset h
              exact ⟨[], epoch, mid, v, post, rfl, hzero, hepoch, hv, hok⟩
      | update u =>
          have hcases := @apply_of_invalid sha256 b hvalid u
          rcases hcases with ⟨hstill, hkeep⟩ | ⟨hready, -, -⟩
          · exact hcons hstill (hkeep hreason)
          · exact absurd hready hreason

/-- What a failed update of the current subscription leaves. -/
structure Failed (sha256 : List UInt64 → BitVec 256) (b b' : DerivativeBook) : Prop where
  bids : b'.bids = b.bids
  asks : b'.asks = b.asks
  invalid : b'.valid = false
  recovery : ∀ calls, (b'.run sha256 calls).valid = true →
    ∃ pre epoch mid v post, calls = pre ++ .reset epoch :: mid ++ .update v :: post ∧
      epoch ≠ 0 ∧ epoch ≠ (b'.run sha256 pre).epoch ∧ v.snapshot = true ∧
      ((b'.run sha256 (pre ++ .reset epoch :: mid)).apply sha256 v).2 = .ok ()

theorem apply_failed {u : DerivativeUpdate} {message : String} (hepoch : u.epoch = b.epoch)
    (hne : u.epoch ≠ 0) (h : (b.apply sha256 u).2 = .error message) :
    Failed sha256 b (b.apply sha256 u).1 := by
  have hout := apply_outcome sha256 b u
  generalize b.apply sha256 u = r at hout h
  cases hout with
  | stale _ hstale =>
      rcases hstale with hno | hno
      · exact absurd hepoch hno
      · exact absurd hno hne
  | failed e _ he => exact ⟨rfl, rfl, rfl, fun calls => reset_of_valid_run rfl he⟩
  | repeated _ _ => cases h
  | installed => cases h

/-- An update of a subscription that is not the current one does nothing. -/
theorem apply_stale {u : DerivativeUpdate} (h : u.epoch ≠ b.epoch ∨ u.epoch = 0) :
    b.apply sha256 u = (b, .error "stale subscription epoch") :=
  if_pos h

/-- A repetition, perhaps received at another time, does nothing. -/
theorem apply_repetition {log : List DerivativeUpdate} (hvalid : b.valid = true)
    (h : DerivativeTrack.FoldOf sha256 b log) {u : DerivativeUpdate} (hu : log.getLast? = some u)
    {t : Time} (ht : ¬ t.IsZero) : b.apply sha256 { u with receivedAt := t } = (b, .ok ()) := by
  obtain ⟨hepoch, hid, hsource, -⟩ := h.accepted u (List.mem_of_getLast? hu)
  obtain ⟨hchange, hdigest⟩ := h.last u hu
  have hcurrent : ¬ (u.epoch ≠ b.epoch ∨ u.epoch = 0) := by
    rw [hepoch]
    rintro (hno | hno)
    · exact hno rfl
    · exact h.epoch hno
  have hidentity : ¬ (u.instrumentID ≠ b.id ∨ u.sourceTime.IsZero ∨ t.IsZero) := by
    rintro (hno | hno | hno)
    · exact hno hid
    · exact hsource hno
    · exact ht hno
  unfold apply
  dsimp only
  rw [if_neg hcurrent, if_neg hidentity, if_pos ⟨hvalid, hchange⟩]
  exact if_pos hdigest

end DerivativeBook

/-- In every run of resets and updates: a valid book is the fold of what its
epoch accepted; a failed update of the current subscription leaves the levels and
makes the book invalid until a reset and a snapshot; an update of another
subscription does nothing; and neither does a repetition of the last update. -/
theorem derivative_book_is_fold (sha256 : List UInt64 → BitVec 256) {id : UInt32} {signed : Bool}
    {limit : Nat} {b : DerivativeBook} (hnew : DerivativeBook.new id signed limit = .ok b)
    (calls : List DerivativeBookCall) :
    let t := DerivativeTrack.run sha256 { book := b } calls
    (t.book.valid = true → DerivativeTrack.FoldOf sha256 t.book t.log) ∧
      (∀ u message, u.epoch = t.book.epoch → u.epoch ≠ 0 →
        (t.book.apply sha256 u).2 = .error message →
          DerivativeBook.Failed sha256 t.book (t.book.apply sha256 u).1) ∧
      (∀ u, u.epoch ≠ t.book.epoch ∨ u.epoch = 0 →
        t.book.apply sha256 u = (t.book, .error "stale subscription epoch")) ∧
      ∀ u time, t.book.valid = true → t.log.getLast? = some u → ¬ time.IsZero →
        t.book.apply sha256 { u with receivedAt := time } = (t.book, .ok ()) := by
  intro t
  have hinv : DerivativeTrack.Inv sha256 t :=
    DerivativeTrack.inv_run (DerivativeTrack.inv_new hnew) calls
  refine ⟨hinv.fold, ?_, ?_, ?_⟩
  · intro u message hepoch hne herror
    exact DerivativeBook.apply_failed hepoch hne herror
  · intro u hstale
    exact DerivativeBook.apply_stale hstale
  · intro u time hvalid hlast htime
    exact DerivativeBook.apply_repetition hvalid (hinv.fold hvalid) hlast htime

/-! A book of one bid and one ask, and an update of an old subscription. -/

def someDerivativeUpdate : DerivativeUpdate where
  instrumentID := 7
  snapshot := true
  epoch := 1
  changeID := 5
  prevChangeID := 0
  sourceTime := ⟨1700000000000000000, 0⟩
  receivedAt := ⟨1700000000100000000, 0⟩
  bids := [⟨DerivativeAction.new, 99, 2⟩]
  asks := [⟨DerivativeAction.new, 101, 3⟩]

def newDerivativeBook : DerivativeBook where
  id := 7
  signed := false
  limit := 10
  epoch := 0
  valid := false
  reason := DerivativeReason.notReady
  sequence := 0
  digest := 0
  source := Time.zero
  received := Time.zero
  snapshotAt := Time.zero
  bids := ∅
  asks := ∅

/-- The digest of the update. -/
def someDerivativeDigest : List UInt64 → BitVec 256 :=
  fun _ => 0x577e0ef01ed9c597d980a7b513fed85aa8f63779c8469bb20447996504623986

/-- The book after a reset and the snapshot. -/
def someDerivativeTrack : DerivativeTrack :=
  DerivativeTrack.run someDerivativeDigest { book := newDerivativeBook }
    [.reset 1, .update someDerivativeUpdate]

theorem derivative_book_is_fold_someDerivativeUpdate :
    (someDerivativeTrack.book.valid = true →
        DerivativeTrack.FoldOf someDerivativeDigest someDerivativeTrack.book someDerivativeTrack.log) ∧
      (∀ u message, u.epoch = someDerivativeTrack.book.epoch → u.epoch ≠ 0 →
        (someDerivativeTrack.book.apply someDerivativeDigest u).2 = .error message →
          DerivativeBook.Failed someDerivativeDigest someDerivativeTrack.book
            (someDerivativeTrack.book.apply someDerivativeDigest u).1) ∧
      (∀ u, u.epoch ≠ someDerivativeTrack.book.epoch ∨ u.epoch = 0 →
        someDerivativeTrack.book.apply someDerivativeDigest u =
          (someDerivativeTrack.book, .error "stale subscription epoch")) ∧
      ∀ u time, someDerivativeTrack.book.valid = true → someDerivativeTrack.log.getLast? = some u →
        ¬ time.IsZero → someDerivativeTrack.book.apply someDerivativeDigest { u with receivedAt := time } =
          (someDerivativeTrack.book, .ok ()) := by
  have hnew : DerivativeBook.new 7 false 10 = .ok newDerivativeBook := rfl
  exact derivative_book_is_fold someDerivativeDigest hnew [.reset 1, .update someDerivativeUpdate]

/-- An update of another subscription fails and leaves the book valid. -/
theorem derivative_failure_not_always_invalid :
    ¬ ∃ sha256 : List UInt64 → BitVec 256,
      ∀ (calls : List DerivativeBookCall) (u : DerivativeUpdate) (message : String),
        ((newDerivativeBook.run sha256 calls).apply sha256 u).2 = .error message →
          ((newDerivativeBook.run sha256 calls).apply sha256 u).1.valid = false := by
  rintro ⟨sha256, h⟩
  have hfail := h [.reset 1, .update someDerivativeUpdate] { someDerivativeUpdate with epoch := 2 }
    "stale subscription epoch" rfl
  have hvalid : ((newDerivativeBook.run sha256 [.reset 1, .update someDerivativeUpdate]).apply
      sha256 { someDerivativeUpdate with epoch := 2 }).1.valid = true := rfl
  rw [hfail] at hvalid
  cases hvalid

end MarketInfo
