import MarketInfo.Sampler.BufferInvariant

/-! # The market-minute round trip

One minute of samples, one buffer for each instrument: what the buffer completes
is accepted by `ValidateMinuteBatch`, and `AtSecond` gives back the sampled sides
at exactly the seconds a valid book was sampled.
-/

namespace MarketInfo

open Listing PriceMap

/-! ## A minute of samples -/

/-- One call of `Sample`. -/
structure MinuteSample where
  time : Time
  snapshot : BookSnapshot
  valid : Bool

namespace MinuteSample

def second (c : MinuteSample) : Nat := sampleSecond c.time

/-- The sample is of a valid book of the instrument. -/
@[reducible] def OfValidBook (instrumentID : UInt32) (depth : Nat) (c : MinuteSample) : Prop :=
  c.valid = true ∧ c.snapshot.instrumentID = instrumentID ∧ c.snapshot.validate depth = .ok ()

end MinuteSample

namespace MinuteBuffer

def sampleAll (b : MinuteBuffer) (calls : List MinuteSample) : MinuteBuffer :=
  calls.foldl (fun b c => (b.sample c.time c.snapshot c.valid).1) b

end MinuteBuffer

/-- Samples of one minute, at strictly increasing seconds. -/
structure WithinMinute (minuteTime : Time) (calls : List MinuteSample) : Prop where
  minute : ∀ c ∈ calls, (sampleMinute c.time).Equal minuteTime
  increasing : calls.Pairwise fun a b => a.second < b.second

/-- The valid books sampled, by second. -/
def validBooks (instrumentID : UInt32) (depth : Nat) (calls : List MinuteSample) :
    List (Nat × BookSnapshot) :=
  (calls.filter fun c => decide (c.OfValidBook instrumentID depth)).map
    fun c => (c.second, c.snapshot)

theorem mem_validBooks {instrumentID : UInt32} {depth : Nat} {calls : List MinuteSample} {s : Nat}
    {x : BookSnapshot} :
    (s, x) ∈ validBooks instrumentID depth calls ↔
      ∃ c ∈ calls, c.OfValidBook instrumentID depth ∧ c.second = s ∧ c.snapshot = x := by
  simp only [validBooks, List.mem_map, List.mem_filter, decide_eq_true_eq, Prod.mk.injEq]
  constructor
  · rintro ⟨c, ⟨hc, hv⟩, hs, hx⟩
    exact ⟨c, hc, hv, hs, hx⟩
  · rintro ⟨c, hc, hv, hs, hx⟩
    exact ⟨c, ⟨hc, hv⟩, hs, hx⟩

/-! ## The invariant of a minute -/

/-- An anchored buffer that has recorded the given books. -/
structure Recording (b : MinuteBuffer) (books : List (Nat × BookSnapshot)) : Prop where
  anchored : b.anchored = true
  inv : b.Anchored
  recorded : DeltaLog.Recorded ShowsBook applyDelta (anchorSides b.initial.bids b.initial.asks)
    (deltaLog b.deltas) books
  last : ∃ m, books.getLast? = some (m, b.lastValid)
  bits : ∀ s, HasSecond b.valid s ↔ ∃ x, (s, x) ∈ books

/-- The buffer after some samples of its minute. -/
structure Buffered (instrumentID : UInt32) (minuteTime : Time) (depth : Nat)
    (calls : List MinuteSample) (b : MinuteBuffer) : Prop where
  ofInstrument : b.instrumentID = instrumentID
  ofMinute : b.minuteTime = minuteTime
  ofDepth : b.depth = depth
  sampled : ∀ s, HasSecond b.sampled s → ∃ c ∈ calls, c.second = s
  state : (b.Idle ∧ ∀ c ∈ calls, c.OfValidBook instrumentID depth → c.second ≠ 0) ∨
    Recording b (validBooks instrumentID depth calls)

variable {instrumentID : UInt32} {minuteTime : Time} {depth : Nat} {calls : List MinuteSample}
  {b : MinuteBuffer}

theorem validBooks_concat_of_valid {c : MinuteSample} (h : c.OfValidBook instrumentID depth) :
    validBooks instrumentID depth (calls ++ [c]) =
      validBooks instrumentID depth calls ++ [(c.second, c.snapshot)] := by
  unfold validBooks
  rw [List.filter_append, List.map_append]
  congr 1
  rw [List.filter_cons_of_pos (by simpa using h)]
  rfl

theorem validBooks_concat_of_not {c : MinuteSample} (h : ¬ c.OfValidBook instrumentID depth) :
    validBooks instrumentID depth (calls ++ [c]) = validBooks instrumentID depth calls := by
  unfold validBooks
  rw [List.filter_append, List.map_append]
  rw [List.filter_cons_of_neg (by simpa using h)]
  simp

theorem secondOffset_toNat (t : Time) :
    (UInt8.ofNat (sampleSecond t)).toNat = sampleSecond t := by
  have := sampleSecond_le t
  rw [UInt8.toNat_ofNat']
  omega

/-- The anchor starts a recording. -/
theorem recording_start {c : MinuteSample} (hidle : b.Idle)
    (hmin : (sampleMinute c.time).Equal b.minuteTime)
    (hnew : ¬ HasSecond b.sampled (sampleSecond c.time)) (hacc : b.Accepts c.snapshot c.valid)
    (hzero : sampleSecond c.time = 0) :
    Recording (b.sample c.time c.snapshot c.valid).1 [(c.second, c.snapshot)] := by
  have hinv := hidle.anchor hmin hnew hacc hzero
  rw [MinuteBuffer.sample_zero hmin hnew hacc hzero] at hinv ⊢
  refine ⟨rfl, hinv, ?_, ⟨c.second, rfl⟩, ?_⟩
  · rw [hidle.deltas]
    exact .start (shows_ofLevels _ _)
  · intro s
    rw [hidle.valid, hasSecond_set (by omega), or_iff_right hasSecond_zero]
    simp [MinuteSample.second]

/-- A later valid sample extends the recording. -/
theorem Recording.extend {books : List (Nat × BookSnapshot)} (h : Recording b books)
    {c : MinuteSample} (hmin : (sampleMinute c.time).Equal b.minuteTime)
    (hnew : ¬ HasSecond b.sampled (sampleSecond c.time)) (hacc : b.Accepts c.snapshot c.valid)
    (hlater : ∀ e ∈ books, e.1 < c.second) :
    Recording (b.sample c.time c.snapshot c.valid).1 (books ++ [(c.second, c.snapshot)]) := by
  obtain ⟨m, hlast⟩ := h.last
  have hpos : sampleSecond c.time ≠ 0 := fun he => hnew (he ▸ h.inv.sampled)
  have hm : m < sampleSecond c.time := hlater _ (List.mem_of_getLast? hlast)
  have hord : ∀ d ∈ b.deltas, d.secondOffset.toNat < sampleSecond c.time := by
    intro d hd
    have hle := h.recorded.log_le_last hlast (d.secondOffset.toNat, d)
      (List.mem_map_of_mem (f := fun d : BookDelta => (d.secondOffset.toNat, d)) hd)
    exact hle.trans_lt hm
  have hinv := h.inv.extend h.anchored hmin hnew hacc (Or.inr hord)
  rw [MinuteBuffer.sample_later hmin hnew hacc hpos h.anchored] at hinv ⊢
  refine ⟨h.anchored, hinv, ?_, ⟨c.second, by simp⟩, ?_⟩
  · dsimp only
    by_cases hsame : (changes b.lastValid.bids c.snapshot.bids true).1 = [] ∧
        (changes b.lastValid.asks c.snapshot.asks false).1 = []
    · rw [if_pos hsame]
      exact h.recorded.skip hlast hm fun s hs => hs.same hsame.1 hsame.2
    · rw [if_neg hsame]
      have hw := h.recorded.write hlast hm
        (d := diff b.minuteID (UInt8.ofNat (sampleSecond c.time)) b.lastValid c.snapshot)
        fun s hs => shows_diff hs (validate_eq_ok.1 hacc.2.2) _ _
      have hone : deltaLog
          [diff b.minuteID (UInt8.ofNat (sampleSecond c.time)) b.lastValid c.snapshot] =
            [(sampleSecond c.time,
              diff b.minuteID (UInt8.ofNat (sampleSecond c.time)) b.lastValid c.snapshot)] := by
        rw [deltaLog, List.map_singleton]
        congr 2
        exact secondOffset_toNat c.time
      unfold deltaLog at hw hone ⊢
      rw [List.map_append, hone]
      exact hw
  · intro s
    rw [hasSecond_set (by have := sampleSecond_le c.time; omega), h.bits]
    simp only [List.mem_append, List.mem_singleton, Prod.mk.injEq, exists_or]
    refine or_congr Iff.rfl ?_
    simp [MinuteSample.second]

/-- A sample later than every one before it. -/
theorem Buffered.sample (h : Buffered instrumentID minuteTime depth calls b) {c : MinuteSample}
    (hmin : (sampleMinute c.time).Equal minuteTime) (hlater : ∀ e ∈ calls, e.second < c.second) :
    Buffered instrumentID minuteTime depth (calls ++ [c])
      (b.sample c.time c.snapshot c.valid).1 := by
  have hmin' : (sampleMinute c.time).Equal b.minuteTime := by rw [h.ofMinute]; exact hmin
  have hnew : ¬ HasSecond b.sampled (sampleSecond c.time) := by
    intro hs
    obtain ⟨e, he, hes⟩ := h.sampled _ hs
    exact absurd (hlater e he) (by rw [hes]; exact lt_irrefl _)
  have hmark : ∀ s, HasSecond (b.sampled ||| (1#64 <<< sampleSecond c.time)) s →
      ∃ e ∈ calls ++ [c], e.second = s := by
    intro s hs
    rcases (hasSecond_set (by have := sampleSecond_le c.time; omega)).1 hs with hs | rfl
    · obtain ⟨e, he, hes⟩ := h.sampled s hs
      exact ⟨e, List.mem_append_left _ he, hes⟩
    · exact ⟨c, by simp, rfl⟩
  have hacc : b.Accepts c.snapshot c.valid ↔ c.OfValidBook instrumentID depth := by
    unfold MinuteBuffer.Accepts MinuteSample.OfValidBook
    rw [h.ofInstrument, h.ofDepth]
  -- a buffer that stays idle only marks the second
  have hidle : ∀ hidle : b.Idle, (∀ e ∈ calls, e.OfValidBook instrumentID depth → e.second ≠ 0) →
      (c.OfValidBook instrumentID depth → c.second ≠ 0) →
      Buffered instrumentID minuteTime depth (calls ++ [c])
        { b with sampled := b.sampled ||| (1#64 <<< sampleSecond c.time) } := by
    intro hidle hno hc
    refine ⟨h.ofInstrument, h.ofMinute, h.ofDepth, hmark, Or.inl ⟨hidle.mark _, ?_⟩⟩
    intro e he
    rcases List.mem_append.1 he with he | he
    · exact hno e he
    · rw [List.mem_singleton.1 he]
      exact hc
  by_cases hv : c.OfValidBook instrumentID depth
  · have hb := hacc.2 hv
    rcases h.state with ⟨hi, hno⟩ | hrec
    · by_cases hzero : sampleSecond c.time = 0
      · -- the anchor: nothing was sampled before second zero
        obtain rfl : calls = [] := by
          rw [List.eq_nil_iff_forall_not_mem]
          intro e he
          have := hlater e he
          unfold MinuteSample.second at this
          omega
        have hstart := recording_start hi hmin' hnew hb hzero
        have hsame := MinuteBuffer.sample_zero hmin' hnew hb hzero
        rw [hsame] at hstart ⊢
        refine ⟨h.ofInstrument, h.ofMinute, h.ofDepth, hmark, Or.inr ?_⟩
        rw [validBooks_concat_of_valid hv]
        exact hstart
      · rw [MinuteBuffer.sample_unanchored hmin' hnew hb hzero hi.anchored]
        exact hidle hi hno fun _ => hzero
    · have hpos : sampleSecond c.time ≠ 0 := fun he => hnew (he ▸ hrec.inv.sampled)
      have hext := hrec.extend hmin' hnew hb (c := c) ?_
      · rw [MinuteBuffer.sample_later hmin' hnew hb hpos hrec.anchored] at hext ⊢
        refine ⟨h.ofInstrument, h.ofMinute, h.ofDepth, hmark, Or.inr ?_⟩
        rw [validBooks_concat_of_valid hv]
        exact hext
      · rintro ⟨s, x⟩ hx
        obtain ⟨e, he, -, rfl, -⟩ := mem_validBooks.1 hx
        exact hlater e he
  · rw [MinuteBuffer.sample_of_not_accepts hmin' hnew fun hb => hv (hacc.1 hb)]
    rcases h.state with ⟨hi, hno⟩ | hrec
    · exact hidle hi hno fun h => absurd h hv
    · refine ⟨h.ofInstrument, h.ofMinute, h.ofDepth, hmark, Or.inr ?_⟩
      rw [validBooks_concat_of_not hv]
      exact ⟨hrec.anchored, hrec.inv.mark _ (sampleSecond_le c.time), hrec.recorded, hrec.last,
        hrec.bits⟩

/-- The buffer after the whole minute. -/
theorem buffered_sampleAll
    (hnew : MinuteBuffer.new instrumentID minuteTime depth = .ok b)
    (hcalls : WithinMinute minuteTime.utc calls) :
    Buffered instrumentID minuteTime.utc depth calls (b.sampleAll calls) := by
  induction calls using List.reverseRecOn with
  | nil =>
      obtain ⟨hidle, hid, hmin, hdepth, hsampled, -⟩ := MinuteBuffer.new_idle hnew
      refine ⟨hid, hmin, hdepth, ?_, Or.inl ⟨hidle, by simp⟩⟩
      intro s hs
      change HasSecond b.sampled s at hs
      rw [hsampled] at hs
      exact absurd hs hasSecond_zero
  | append_singleton front c ih =>
      obtain ⟨hfront, -, hcross⟩ := List.pairwise_append.1 hcalls.increasing
      have hb := ih ⟨fun e he => hcalls.minute e (List.mem_append_left _ he), hfront⟩
      have hstep := hb.sample (hcalls.minute c (by simp)) fun e he => hcross e he c (by simp)
      unfold MinuteBuffer.sampleAll at hstep ⊢
      rw [List.foldl_append]
      exact hstep

/-! ## The round trip -/

/-- What is stored of a minute, against what was sampled. -/
structure RoundTrips (instrumentID : UInt32) (depth : Nat) (calls : List MinuteSample)
    (b : MinuteBuffer) : Prop where
  complete : b.batch.isSome ↔ ∃ c ∈ calls, c.OfValidBook instrumentID depth ∧ c.second = 0
  accepted : ∀ batch, b.batch = some batch → validateMinuteBatch batch = .ok ()
  replayed : ∀ batch, b.batch = some batch → ∀ s : UInt8,
    (∃ x, atSecond batch.minute batch.deltas s = .ok (some x)) ↔
      ∃ c ∈ calls, c.OfValidBook instrumentID depth ∧ c.second = s.toNat
  exact : ∀ batch, b.batch = some batch → ∀ c ∈ calls, c.OfValidBook instrumentID depth →
    ∃ x, atSecond batch.minute batch.deltas (UInt8.ofNat c.second) = .ok (some x) ∧
      x.bids = c.snapshot.bids ∧ x.asks = c.snapshot.asks

/-- What replay shows at a second that was sampled. -/
theorem Buffered.atSecond (h : Buffered instrumentID minuteTime depth calls b)
    (hanch : b.anchored = true) {c : MinuteSample} (hc : c ∈ calls)
    (hv : c.OfValidBook instrumentID depth) :
    ∃ x, MarketInfo.atSecond b.minute b.deltas (UInt8.ofNat c.second) = .ok (some x) ∧
      x.bids = c.snapshot.bids ∧ x.asks = c.snapshot.asks := by
  rcases h.state with ⟨hidle, -⟩ | hrec
  · rw [hidle.anchored] at hanch
    cases hanch
  · have hle := sampleSecond_le c.time
    have hsecond : (UInt8.ofNat c.second).toNat = c.second := secondOffset_toNat c.time
    have hmem : (c.second, c.snapshot) ∈ validBooks instrumentID depth calls :=
      mem_validBooks.2 ⟨c, hc, hv, rfl, rfl⟩
    have hbit : HasSecond b.minute.validBitmap c.second := (hrec.bits _).2 ⟨_, hmem⟩
    have hshow := hrec.recorded.replays _ hmem
    have hsnap := validate_eq_ok.1 hv.2.2
    obtain ⟨hb, ha⟩ := hshow.listing hsnap.bids.sorted hsnap.asks.sorted
    have hat := atSecond_of_valid hrec.inv.validBatch
      (by rw [hsecond]; exact hle : (UInt8.ofNat c.second).toNat ≤ 59)
    rw [hsecond, if_pos hbit] at hat
    exact ⟨_, hat, hb, ha⟩

/-- Every minute of every set of instruments survives storage. -/
theorem market_minute_round_trip (instruments : Finset UInt32) (minuteTime : Time) (depth : Nat)
    (fresh : UInt32 → MinuteBuffer) (calls : UInt32 → List MinuteSample)
    (hnew : ∀ id ∈ instruments, MinuteBuffer.new id minuteTime depth = .ok (fresh id))
    (hcalls : ∀ id ∈ instruments, WithinMinute minuteTime.utc (calls id)) :
    ∀ id ∈ instruments, RoundTrips id depth (calls id) ((fresh id).sampleAll (calls id)) := by
  intro id hid
  have h := buffered_sampleAll (hnew id hid) (hcalls id hid)
  have hbatch : ∀ batch, ((fresh id).sampleAll (calls id)).batch = some batch →
      ((fresh id).sampleAll (calls id)).anchored = true ∧
        batch = ⟨((fresh id).sampleAll (calls id)).minute,
          ((fresh id).sampleAll (calls id)).deltas⟩ := by
    intro batch hb
    unfold MinuteBuffer.batch at hb
    split at hb
    · cases hb
    · rename_i hanch
      exact ⟨by simpa using hanch, (Option.some.inj hb).symm⟩
  constructor
  · -- a batch is there exactly when the minute was anchored
    rcases h.state with ⟨hidle, hno⟩ | hrec
    · rw [MinuteBuffer.batch, if_pos hidle.anchored]
      refine iff_of_false (by simp) ?_
      rintro ⟨c, hc, hv, hzero⟩
      exact hno c hc hv hzero
    · rw [MinuteBuffer.batch, if_neg (by simp [hrec.anchored])]
      refine iff_of_true (by simp) ?_
      obtain ⟨x, hx⟩ := (hrec.bits 0).1 hrec.inv.zero
      obtain ⟨c, hc, hv, hs, -⟩ := mem_validBooks.1 hx
      exact ⟨c, hc, hv, hs⟩
  · intro batch hb
    obtain ⟨hanch, rfl⟩ := hbatch batch hb
    rcases h.state with ⟨hidle, -⟩ | hrec
    · rw [hidle.anchored] at hanch
      cases hanch
    · exact validateMinuteBatch_eq_ok.2 ⟨_, _, hrec.inv.validBatch⟩
  · intro batch hb s
    obtain ⟨hanch, rfl⟩ := hbatch batch hb
    rcases h.state with ⟨hidle, -⟩ | hrec
    · rw [hidle.anchored] at hanch
      cases hanch
    · constructor
      · rintro ⟨x, hx⟩
        by_cases hs : s.toNat ≤ 59
        · -- replay shows nothing at a second without its bit
          rw [atSecond_of_valid hrec.inv.validBatch hs] at hx
          by_cases hbit : HasSecond ((fresh id).sampleAll (calls id)).minute.validBitmap s.toNat
          · obtain ⟨y, hy⟩ := (hrec.bits s.toNat).1 hbit
            obtain ⟨c, hc, hv, hcs, -⟩ := mem_validBooks.1 hy
            exact ⟨c, hc, hv, hcs⟩
          · rw [if_neg hbit] at hx
            cases hx
        · exact absurd hx (atSecond_of_late (by omega))
      · rintro ⟨c, hc, hv, hcs⟩
        obtain ⟨x, hx, -⟩ := h.atSecond hanch hc hv
        rw [hcs, UInt8.ofNat_toNat] at hx
        exact ⟨x, hx⟩
  · intro batch hb c hc hv
    obtain ⟨hanch, rfl⟩ := hbatch batch hb
    exact h.atSecond hanch hc hv

/-- 2023-11-14 22:14:00 UTC. -/
def someMinute : Time := ⟨1700000040 * Time.second, 0⟩

def someBook (bid ask : Int64) : BookSnapshot :=
  { instrumentID := 1, sourceTime := someMinute, sequence := 9, bids := [⟨bid, 5⟩, ⟨bid - 1, 2⟩],
    asks := [⟨ask, 3⟩] }

/-- Seconds 0 and 2 are valid, second 1 is not, the others are missing. -/
def someCalls : List MinuteSample :=
  [⟨someMinute, someBook 100 101, true⟩, ⟨someMinute.add Time.second, .none, false⟩,
    ⟨someMinute.add (2 * Time.second), someBook 99 101, true⟩]

def someBuffer : MinuteBuffer :=
  { instrumentID := 1, depth := 5, minuteTime := someMinute,
    minuteID := (UInt64.ofNat 28333334 <<< 32) ||| 1, anchored := false, sampled := 0#64,
    valid := 0#64, initial := .none, lastValid := .none, deltas := [] }

theorem market_minute_round_trip_someCalls :
    RoundTrips 1 5 someCalls (someBuffer.sampleAll someCalls) := by
  have hcalls : WithinMinute someMinute.utc someCalls := by
    constructor
    · decide
    · decide
  refine market_minute_round_trip {1} someMinute 5 (fun _ => someBuffer) (fun _ => someCalls)
    ?_ (fun _ _ => hcalls) 1 (by simp)
  intro id hid
  rw [Finset.mem_singleton.1 hid]
  rfl

end MarketInfo
