import MarketInfo.Codec.BookDecode
import MarketInfo.Codec.Laws

/-! # The laws of the book wire format

`EncodeBooks` and `DecodeBooks` in closed form, and from them that the decoder
inverts the encoder on the minutes it can give back.
-/

namespace MarketInfo.Codec

open Wire (bigEndian signedBytes Reading Reads Accepts)

variable {sha256 : List Char → Vector UInt8 32}

/-! ## The encoder -/

theorem minuteTime_mem_timestamps (b : MinuteBatch) :
    b.minute.minuteTime ∈ timestamps batchRowTy (batchRow b) := by
  have htime : (batchRow b).member (column "minute_time") = .ok (.time b.minute.minuteTime) := rfl
  unfold batchRowTy
  simp only [timestamps, timestampsFields, List.mem_append]
  refine .inr (.inr (.inl ?_))
  show b.minute.minuteTime ∈ timestamps (.dateTime .second)
    (((batchRow b).member (column "minute_time")).toOption.getD .null)
  rw [htime]
  exact List.mem_singleton.2 rfl

/-- The zone of a process that runs in UTC. -/
def utcZone : Zone := ⟨fun _ => 0, fun _ => by norm_num⟩

/-- What the row writer takes has its minute in the years 1970 to 9999. -/
theorem rows_inRange {bs : List MinuteBatch} {s s' : Wire.Sink}
    (h : writeValue (.array batchRowTy) (.list (bs.map batchRow)) s = .ok s') :
    ∀ b ∈ bs, b.minute.minuteTime.YearInRange := by
  intro b hb
  obtain ⟨body, spent, -, -, -, hrange, -⟩ := @writeValue_emits utcZone _ _ _ _ h
  refine hrange _ ?_
  rw [timestamps]
  exact List.mem_flatMap.2 ⟨batchRow b, List.mem_map_of_mem hb, minuteTime_mem_timestamps b⟩

theorem exact_rows {bs : List MinuteBatch}
    (hminute : ∀ b ∈ bs, ¬ b.minute.minuteTime.IsZero ∧
      b.minute.minuteTime.Equal (b.minute.minuteTime.utc.truncate Time.minute))
    (hrange : ∀ b ∈ bs, b.minute.minuteTime.YearInRange) :
    Exact (writeValue (.array batchRowTy) (.list (bs.map batchRow))) (booksBytes bs) (booksSpent bs) :=
  exact_array bs fun b hb => exact_batchRow (hminute b hb).1 (hminute b hb).2 (hrange b hb)

theorem checkMinute_eq_ok {t : Time} :
    checkMinute t = .ok () ↔ ¬ t.IsZero ∧ t.Equal (t.utc.truncate Time.minute) := by
  rw [checkMinute, Check.failIf_eq_ok, not_or, not_not]

theorem validateBatches_mem {minute : Time} {previous : Option UInt32} {bs : List MinuteBatch}
    (h : validateBatches minute previous bs = .ok ()) :
    ∀ b ∈ bs, b.minute.minuteTime.Equal minute ∧ validateMinuteBatch b = .ok () := by
  induction bs generalizing previous with
  | nil => exact fun b hb => absurd hb List.not_mem_nil
  | cons b bs ih =>
      obtain ⟨hfirst, hbatch, hrest⟩ := validateBatches_cons.1 h
      rw [not_or, not_not] at hfirst
      intro c hc
      rcases List.mem_cons.1 hc with rfl | hc
      · exact ⟨hfirst.1, hbatch⟩
      · exact ih hrest c hc

/-- The batches of a valid minute start at an exact UTC minute too. -/
theorem exactMinute_of_equal {t minute : Time} (h : checkMinute minute = .ok ()) (heq : t.Equal minute) :
    ¬ t.IsZero ∧ t.Equal (t.utc.truncate Time.minute) := by
  obtain ⟨hzero, htruncate⟩ := checkMinute_eq_ok.1 h
  unfold Time.Equal Time.IsZero at *
  rw [Time.truncate_minute_unixNano, Time.utc_unixNano] at htruncate ⊢
  exact ⟨fun ht => hzero (heq ▸ ht), by rw [heq]; exact htruncate⟩

/-- What a payload of a minute is. -/
structure Payload (sha256 : List Char → Vector UInt8 32) (minute : Time) (bs : List MinuteBatch)
    (p : List UInt8) : Prop where
  exact_minute : checkMinute minute = .ok ()
  valid : validateBatches minute none bs = .ok ()
  range : ∀ b ∈ bs, b.minute.minuteTime.YearInRange
  elements : booksSpent bs ≤ bookElements
  size : 17 + (booksBytes bs).length ≤ maxBytes
  bytes : p = 1 :: (bookEnvelopeType sha256).2.toList ++ booksBytes bs

theorem encodeBooks_eq_ok {c : CompletedMinute} {p : List UInt8} :
    EncodeBooks sha256 c = .ok p ↔ Payload sha256 c.minuteTime c.batches p := by
  unfold EncodeBooks validateCompletedMinute
  simp only [Check.seq_eq_ok]
  constructor
  · rintro ⟨⟨hminute, hvalid⟩, hencode⟩
    have hexact := fun b hb => exactMinute_of_equal hminute (validateBatches_mem hvalid b hb).1
    have hrange : ∀ b ∈ c.batches, b.minute.minuteTime.YearInRange := by
      have hwrite := hencode
      unfold encodeWith at hwrite
      obtain ⟨s, hs, -⟩ := Check.andThen_eq_ok.1 hwrite
      exact rows_inRange hs
    obtain ⟨helements, hsize, hbytes⟩ := (exact_rows hexact hrange).encode.1 hencode
    exact ⟨hminute, hvalid, hrange, helements, hsize, hbytes⟩
  · intro h
    have hexact := fun b hb => exactMinute_of_equal h.exact_minute (validateBatches_mem h.valid b hb).1
    exact ⟨⟨h.exact_minute, h.valid⟩,
      (exact_rows hexact h.range).encode.2 ⟨h.elements, h.size, h.bytes⟩⟩

/-! ## The decoder -/

/-- A minute has no more deltas than seconds. -/
theorem deltas_length_le {b : MinuteBatch} (h : validateMinuteBatch b = .ok ()) :
    b.deltas.length ≤ 59 := by
  obtain ⟨bids, asks, hvalid⟩ := validateMinuteBatch_eq_ok.1 h
  have hnodup : (b.deltas.map fun d => d.secondOffset.toNat).Nodup := by
    refine List.Pairwise.map _ (fun x y hxy => ?_) hvalid.increasing
    exact Nat.ne_of_lt hxy
  have hsubset : (b.deltas.map fun d => d.secondOffset.toNat).toFinset ⊆ Finset.Icc 1 59 := by
    intro n hn
    obtain ⟨d, hd, rfl⟩ := List.mem_map.1 (List.mem_toFinset.1 hn)
    exact Finset.mem_Icc.2 ⟨(hvalid.deltas d hd).pos, (hvalid.deltas d hd).le⟩
  have hcard := Finset.card_le_card hsubset
  rw [List.toFinset_card_of_nodup hnodup, List.length_map, Nat.card_Icc] at hcard
  exact hcard

theorem decodable_of_valid {b : MinuteBatch} {minute : Time} (hminute : checkMinute minute = .ok ())
    (hequal : b.minute.minuteTime.Equal minute) (hvalid : validateMinuteBatch b = .ok ())
    (hrange : b.minute.minuteTime.YearInRange) (hutc : b.minute.minuteTime.offset = 0) :
    Decodable b := by
  obtain ⟨-, htruncate⟩ := exactMinute_of_equal hminute hequal
  obtain ⟨bids, asks, hbatch⟩ := validateMinuteBatch_eq_ok.1 hvalid
  refine ⟨hutc, ?_, hrange, deltas_length_le hvalid, fun d hd => (hbatch.deltas d hd).minuteID⟩
  unfold Time.Equal at htruncate
  rw [Time.truncate_minute_unixNano, Time.utc_unixNano] at htruncate
  unfold Time.minute at htruncate
  unfold Time.second at htruncate ⊢
  omega

theorem decodeBooks_eq_ok {minute : Time} {p : List UInt8} {c : CompletedMinute} :
    DecodeBooks sha256 minute p = .ok c ↔
      Payload sha256 minute c.batches p ∧ (∀ b ∈ c.batches, b.minute.minuteTime.offset = 0) ∧
        c.minuteTime = minute ∧ c.knownFromMS = 0 := by
  have htag : (1 :: (bookEnvelopeType sha256).2.toList).length = 17 := by simp
  unfold DecodeBooks
  simp only [Check.seq_eq_ok, Check.failIf_eq_ok, not_or, not_lt, not_not]
  constructor
  · rintro ⟨hminute, ⟨hshort, hlimit, htake⟩, hrest⟩
    obtain ⟨⟨bs, c'⟩, hwalk, hrest⟩ := Check.andThen_eq_ok.1 hrest
    obtain ⟨hend, hresult⟩ := Check.seq_eq_ok.1 hrest
    rw [Check.failIf_eq_ok, not_not, List.length_eq_zero_iff] at hend
    obtain rfl := Except.ok.inj hresult
    obtain ⟨body, spent, hdrop, hbudget, rfl, rfl, hvalid, hdecodable⟩ := accepts_books minute _ _ _ hwalk
    change p.drop 17 = _ at hdrop
    change bookElements = _ at hbudget
    rw [hend, List.append_nil] at hdrop
    have hbytes : p = 1 :: (bookEnvelopeType sha256).2.toList ++ booksBytes bs := by
      rw [← htake, ← hdrop, List.take_append_drop]
    refine ⟨⟨hminute, hvalid, fun b hb => (hdecodable b hb).range, ?_, ?_, hbytes⟩,
      fun b hb => (hdecodable b hb).utc, rfl, rfl⟩
    · show booksSpent bs ≤ bookElements
      omega
    · rw [hbytes, List.length_append, htag] at hlimit
      exact hlimit
  · obtain ⟨t, known, bs⟩ := c
    rintro ⟨h, hutc, rfl, rfl⟩
    have hdecodable : ∀ b ∈ bs, Decodable b := by
      intro b hb
      obtain ⟨hequal, hvalid⟩ := validateBatches_mem h.valid b hb
      exact decodable_of_valid h.exact_minute hequal hvalid (h.range b hb) (hutc b hb)
    have hbytes := h.bytes
    have helements : booksSpent bs ≤ bookElements := h.elements
    have hsize : 17 + (booksBytes bs).length ≤ maxBytes := h.size
    have hlength : p.length = 17 + (booksBytes bs).length := by
      rw [hbytes, List.length_append, htag]
    have htake : p.take 17 = 1 :: (bookEnvelopeType sha256).2.toList := by
      rw [hbytes]
      exact List.take_left' htag
    have hdrop : p.drop 17 = booksBytes bs := by
      rw [hbytes]
      exact List.drop_left' htag
    have hread := reads_books h.valid hdecodable
      (lt_of_le_of_lt helements (by unfold bookElements; norm_num)) [] bookElements helements
    rw [List.append_nil] at hread
    refine ⟨h.exact_minute, ⟨by omega, by omega, htake⟩, ?_⟩
    rw [hdrop, hread]
    rfl

/-! ## The laws -/

/-- The decoder gives a minute exactly for the bytes it is encoded as, where the
minute carries no first knowledge and its batches are in UTC. -/
theorem decodeBooks_iff {minute : Time} {p : List UInt8} {c : CompletedMinute} :
    DecodeBooks sha256 minute p = .ok c ↔
      EncodeBooks sha256 c = .ok p ∧ c.minuteTime = minute ∧ c.knownFromMS = 0 ∧
        ∀ b ∈ c.batches, b.minute.minuteTime.offset = 0 := by
  rw [decodeBooks_eq_ok, encodeBooks_eq_ok]
  constructor
  · rintro ⟨h, hutc, rfl, hknown⟩
    exact ⟨h, rfl, hknown, hutc⟩
  · rintro ⟨h, rfl, hknown, hutc⟩
    exact ⟨h, hutc, rfl, hknown⟩

/-- An empty minute that was known the moment it ended. -/
def knownMinute : CompletedMinute := ⟨⟨0, 0⟩, 60000, []⟩

/-- The payload does not carry first knowledge. -/
theorem decodeBooks_knownMinute :
    ∃ p, EncodeBooks noHash knownMinute = .ok p ∧
      DecodeBooks noHash knownMinute.minuteTime p ≠ .ok knownMinute := by
  have hminute : checkMinute knownMinute.minuteTime = .ok () :=
    checkMinute_eq_ok.2 ⟨by decide, by decide⟩
  refine ⟨_, encodeBooks_eq_ok.2 ⟨hminute, rfl, fun b hb => absurd hb List.not_mem_nil, ?_, ?_, rfl⟩, ?_⟩
  · exact Nat.zero_le _
  · show 17 + 4 ≤ maxBytes
    norm_num [maxBytes]
  · intro hdecode
    obtain ⟨-, -, -, hknown⟩ := decodeBooks_eq_ok.1 hdecode
    exact absurd hknown (by decide)

end MarketInfo.Codec
