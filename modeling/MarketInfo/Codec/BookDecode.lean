import MarketInfo.Codec.BookExact

/-! # The book decoder inverts the encoder

The streaming decoder accepts the encodings of minutes whose batches are in UTC,
and nothing else.
-/

namespace MarketInfo.Codec

open Wire (bigEndian signedBytes ofSignedBytes Reading Reads Accepts)

/-! ## Integers -/

theorem reads_int64Word (n : Int64) :
    Reads ((fun a => Int64.ofInt (ofSignedBytes a)) <$> Wire.take 8) (signedBytes 8 n.toInt) 0 n := by
  have hlo := n.le_toInt
  have hhi := n.toInt_lt
  have hword := (Wire.reads_take (Wire.length_signedBytes 8 n.toInt)).map
    fun a => Int64.ofInt (ofSignedBytes a)
  rwa [Wire.ofSignedBytes_signedBytes (by omega) (by omega), Int64.ofInt_toInt] at hword

theorem reads_uint64 (n : UInt64) :
    Reads (UInt64.ofNat <$> Wire.readNat 8) (bigEndian 8 n.toNat) 0 n := by
  have hread : Reads (Wire.readNat 8) (bigEndian 8 n.toNat) 0 n.toNat := Wire.reads_readNat n.toNat_lt
  have hword := hread.map UInt64.ofNat
  rwa [UInt64.ofNat_toNat] at hword

theorem reads_uint32 (n : UInt32) :
    Reads (UInt32.ofNat <$> Wire.readNat 4) (bigEndian 4 n.toNat) 0 n := by
  have hread : Reads (Wire.readNat 4) (bigEndian 4 n.toNat) 0 n.toNat := Wire.reads_readNat n.toNat_lt
  have hword := hread.map UInt32.ofNat
  rwa [UInt32.ofNat_toNat] at hword

theorem reads_uint8 (n : UInt8) :
    Reads (UInt8.ofNat <$> Wire.readNat 1) (bigEndian 1 n.toNat) 0 n := by
  have hread : Reads (Wire.readNat 1) (bigEndian 1 n.toNat) 0 n.toNat := Wire.reads_readNat n.toNat_lt
  have hword := hread.map UInt8.ofNat
  rwa [UInt8.ofNat_toNat] at hword

theorem accepts_int64 :
    Accepts ((fun a => Int64.ofInt (ofSignedBytes a)) <$> Wire.take 8) fun body spent n =>
      body = signedBytes 8 n.toInt ∧ spent = 0 ∧ True := by
  refine ((Wire.accepts_take 8).map _).mono ?_
  rintro body spent n ⟨a, rfl, rfl, rfl, hlength⟩
  obtain ⟨hlo, hhi⟩ := Wire.ofSignedBytes_bounds body
  have hbytes := Wire.signedBytes_ofSignedBytes body
  rw [hlength] at hlo hhi hbytes
  rw [Int64.toInt_ofInt_of_le (by omega) (by omega), hbytes]
  exact ⟨rfl, rfl, trivial⟩

theorem accepts_uint64 :
    Accepts (UInt64.ofNat <$> Wire.readNat 8) fun body spent n =>
      body = bigEndian 8 n.toNat ∧ spent = 0 ∧ True := by
  refine ((Wire.accepts_readNat 8).map _).mono ?_
  rintro body spent n ⟨k, rfl, rfl, rfl, hlt⟩
  rw [UInt64.toNat_ofNat_of_lt' hlt]
  exact ⟨rfl, rfl, trivial⟩

theorem accepts_uint32 :
    Accepts (UInt32.ofNat <$> Wire.readNat 4) fun body spent n =>
      body = bigEndian 4 n.toNat ∧ spent = 0 ∧ True := by
  refine ((Wire.accepts_readNat 4).map _).mono ?_
  rintro body spent n ⟨k, rfl, rfl, rfl, hlt⟩
  rw [UInt32.toNat_ofNat_of_lt' hlt]
  exact ⟨rfl, rfl, trivial⟩

theorem accepts_uint8 :
    Accepts (UInt8.ofNat <$> Wire.readNat 1) fun body spent n =>
      body = bigEndian 1 n.toNat ∧ spent = 0 ∧ True := by
  refine ((Wire.accepts_readNat 1).map _).mono ?_
  rintro body spent n ⟨k, rfl, rfl, rfl, hlt⟩
  rw [UInt8.toNat_ofNat_of_lt' hlt]
  exact ⟨rfl, rfl, trivial⟩

/-! ## Arrays of integers -/

theorem flatMap_length {α : Type} {f : α → List UInt8} {k : Nat} (h : ∀ x, (f x).length = k)
    (xs : List α) : (xs.flatMap f).length = xs.length * k := by
  induction xs with
  | nil => simp
  | cons x xs ih => rw [List.flatMap_cons, List.length_append, h, ih, List.length_cons, Nat.succ_mul, Nat.add_comm]

theorem reads_int64s {xs : List Int64} (h : xs.length < 256 ^ 4) :
    Reads readInt64s (int64sBytes xs) xs.length xs := by
  have hall := (@Wire.readsAll_flatMap _ _ _ (fun _ => 0) xs fun n _ => reads_int64Word n).many
  simp only [List.map_const', List.sum_replicate, smul_eq_mul, mul_zero] at hall
  have hlength := flatMap_length (fun n : Int64 => Wire.length_signedBytes 8 n.toInt) xs
  exact Reads.count h hlength.ge hall

theorem reads_uint64s {xs : List UInt64} (h : xs.length < 256 ^ 4) :
    Reads readUint64s (uint64sBytes xs) xs.length xs := by
  have hall := (@Wire.readsAll_flatMap _ _ _ (fun _ => 0) xs fun n _ => reads_uint64 n).many
  simp only [List.map_const', List.sum_replicate, smul_eq_mul, mul_zero] at hall
  have hlength := flatMap_length (fun n : UInt64 => Wire.length_bigEndian 8 n.toNat) xs
  exact Reads.count h hlength.ge hall

theorem accepts_int64s :
    Accepts readInt64s fun body spent xs => body = int64sBytes xs ∧ spent = xs.length := by
  refine ((Wire.accepts_count 8).bind fun n => accepts_int64.many n).mono ?_
  rintro body spent xs ⟨n, -, bodies, -, spents, rfl, rfl, ⟨rfl, rfl, -⟩, rfl, hall⟩
  obtain ⟨rfl, rfl, -⟩ := hall.flatMap
  simp [int64sBytes]

theorem accepts_uint64s :
    Accepts readUint64s fun body spent xs => body = uint64sBytes xs ∧ spent = xs.length := by
  refine ((Wire.accepts_count 8).bind fun n => accepts_uint64.many n).mono ?_
  rintro body spent xs ⟨n, -, bodies, -, spents, rfl, rfl, ⟨rfl, rfl, -⟩, rfl, hall⟩
  obtain ⟨rfl, rfl, -⟩ := hall.flatMap
  simp [uint64sBytes]

/-! ## Deltas -/

theorem reads_delta {d : BookDelta} (h : deltaSpent d < 256 ^ 4) :
    Reads (readDelta d.minuteID) (deltaBytes d) (deltaSpent d) d := by
  unfold deltaSpent at h
  refine Reads.after (reads_uint8 d.secondOffset) ?_
  refine (reads_int64s (by omega)).bind ?_
  refine (reads_uint64s (by omega)).bind ?_
  refine (reads_int64s (by omega)).bind ?_
  exact (reads_uint64s (by omega)).followed (Wire.reads_pure _)

theorem accepts_delta (id : UInt64) :
    Accepts (readDelta id) fun body spent d =>
      body = deltaBytes d ∧ spent = deltaSpent d ∧ d.minuteID = id := by
  refine (accepts_uint8.bind fun offset => accepts_int64s.bind fun bp => accepts_uint64s.bind fun bq =>
    accepts_int64s.bind fun ap => accepts_uint64s.bind fun aq => Wire.accepts_pure _).mono ?_
  rintro body spent d ⟨offset, _, _, _, _, rfl, rfl, ⟨rfl, rfl, -⟩, bp, _, _, _, _, rfl, rfl, ⟨rfl, rfl⟩,
    bq, _, _, _, _, rfl, rfl, ⟨rfl, rfl⟩, ap, _, _, _, _, rfl, rfl, ⟨rfl, rfl⟩,
    aq, _, _, _, _, rfl, rfl, ⟨rfl, rfl⟩, rfl, rfl, rfl⟩
  simp [deltaBytes, deltaSpent]

/-! ## Sides -/

theorem length_side (side : Vector Level legacyBookDepth) : side.toList.length = 50 :=
  side.length_toList

theorem levelsOf_toList {prices : List Int64} {qtys : List UInt64} (hp : prices.length = 50)
    (hq : qtys.length = 50) :
    (levelsOf prices qtys).toList.map Level.priceTick = prices ∧
      (levelsOf prices qtys).toList.map Level.qtyLot = qtys := by
  constructor
  · apply List.ext_getElem
    · rw [List.length_map, length_side, hp]
    · intro i h1 h2
      simp [levelsOf, List.getD_eq_getElem?_getD, h2]
  · apply List.ext_getElem
    · rw [List.length_map, length_side, hq]
    · intro i h1 h2
      simp [levelsOf, List.getD_eq_getElem?_getD, h2]

theorem levelsOf_map (side : Vector Level legacyBookDepth) :
    levelsOf (side.toList.map Level.priceTick) (side.toList.map Level.qtyLot) = side := by
  apply Vector.ext
  intro i hi
  simp [levelsOf, List.getD_eq_getElem?_getD]

theorem reads_side (side : Vector Level legacyBookDepth) :
    Reads readSide (int64sBytes (side.toList.map Level.priceTick) ++
      uint64sBytes (side.toList.map Level.qtyLot)) (50 + 50) side := by
  have hp : (side.toList.map Level.priceTick).length = 50 := by
    rw [List.length_map, length_side]
  have hq : (side.toList.map Level.qtyLot).length = 50 := by
    rw [List.length_map, length_side]
  have hprices : Reads readAnchorPrices (int64sBytes (side.toList.map Level.priceTick)) 50
      (side.toList.map Level.priceTick) := by
    have hread := reads_int64s (show (side.toList.map Level.priceTick).length < 256 ^ 4 by omega)
    rw [hp] at hread
    exact hread.followed (Reads.guarded (by omega) (Wire.reads_pure _))
  have hqtys : Reads readAnchorQtys (uint64sBytes (side.toList.map Level.qtyLot)) 50
      (side.toList.map Level.qtyLot) := by
    have hread := reads_uint64s (show (side.toList.map Level.qtyLot).length < 256 ^ 4 by omega)
    rw [hq] at hread
    exact hread.followed (Reads.guarded (by omega) (Wire.reads_pure _))
  refine hprices.bind (hqtys.followed ?_)
  rw [levelsOf_map]
  exact Wire.reads_pure _

theorem accepts_side :
    Accepts readSide fun body spent side =>
      body = int64sBytes (side.toList.map Level.priceTick) ++
        uint64sBytes (side.toList.map Level.qtyLot) ∧ spent = 50 + 50 := by
  refine ((accepts_int64s.bind fun prices => (Wire.accepts_failIf _ _).bind fun _ =>
    Wire.accepts_pure prices).bind fun prices => (accepts_uint64s.bind fun qtys =>
      (Wire.accepts_failIf _ _).bind fun _ => Wire.accepts_pure qtys).bind fun qtys =>
        Wire.accepts_pure (levelsOf prices qtys)).mono ?_
  rintro body spent side ⟨prices, _, _, _, _, rfl, rfl,
    ⟨_, _, _, _, _, rfl, rfl, ⟨rfl, rfl⟩, _, _, _, _, _, rfl, rfl, ⟨rfl, rfl, hp⟩, rfl, rfl, rfl⟩,
    qtys, _, _, _, _, rfl, rfl,
    ⟨_, _, _, _, _, rfl, rfl, ⟨rfl, rfl⟩, _, _, _, _, _, rfl, rfl, ⟨rfl, rfl, hq⟩, rfl, rfl, rfl⟩,
    rfl, rfl, rfl⟩
  rw [not_not] at hp hq
  obtain ⟨h1, h2⟩ := levelsOf_toList hp hq
  rw [h1, h2]
  simp [hp, hq]

/-! ## Batches -/

/-- What the decoder can give: a minute in UTC and in range, and deltas of its id. -/
structure Decodable (b : MinuteBatch) : Prop where
  utc : b.minute.minuteTime.offset = 0
  whole : b.minute.minuteTime.unixNano % Time.second = 0
  range : b.minute.minuteTime.YearInRange
  few : b.deltas.length ≤ 59
  ids : ∀ d ∈ b.deltas, d.minuteID = b.minute.id

theorem Decodable.instant {b : MinuteBatch} (h : Decodable b) :
    Scale.second.instant (signedBytes 8 (Scale.second.stamp b.minute.minuteTime).toInt) =
      b.minute.minuteTime := by
  obtain ⟨⟨nano, offset⟩, hutc, hwhole⟩ : ∃ t : Time, t.offset = 0 ∧ t.unixNano % Time.second = 0 ∧
      t = b.minute.minuteTime := ⟨_, h.utc, h.whole, rfl⟩
  obtain ⟨hwhole, ht⟩ := hwhole
  have hrange := h.range
  rw [← ht] at hrange ⊢
  change offset = 0 at hutc
  subst hutc
  obtain ⟨hlo, hhi⟩ := hrange
  change 0 ≤ nano / 1000000000 + 0 at hlo
  change nano / 1000000000 + 0 < 253402300800 at hhi
  change nano % 1000000000 = 0 at hwhole
  have hstamp : (Scale.second.stamp ⟨nano, 0⟩).toInt = nano / 1000000000 := by
    show (Int64.ofInt (nano / 1000000000)).toInt = _
    exact Int64.toInt_ofInt_of_le (by omega) (by omega)
  unfold Scale.instant
  rw [hstamp, Wire.ofSignedBytes_signedBytes (by omega) (by omega)]
  show (⟨nano / 1000000000 * 1000000000, 0⟩ : Time) = _
  congr 1
  omega

theorem length_int64sBytes (xs : List Int64) : (int64sBytes xs).length = 4 + xs.length * 8 := by
  unfold int64sBytes
  rw [List.length_append, Wire.length_bigEndian,
    flatMap_length fun n : Int64 => Wire.length_signedBytes 8 n.toInt]

theorem length_uint64sBytes (xs : List UInt64) : (uint64sBytes xs).length = 4 + xs.length * 8 := by
  unfold uint64sBytes
  rw [List.length_append, Wire.length_bigEndian,
    flatMap_length fun n : UInt64 => Wire.length_bigEndian 8 n.toNat]

/-- Rows no shorter than a width are no shorter in a row. -/
theorem mul_le_length_flatMap {α : Type} {f : α → List UInt8} {k : Nat} (h : ∀ x, k ≤ (f x).length)
    (xs : List α) : xs.length * k ≤ (xs.flatMap f).length := by
  induction xs with
  | nil => simp
  | cons x xs ih =>
      rw [List.flatMap_cons, List.length_append, List.length_cons, Nat.succ_mul]
      have hx := h x
      omega

theorem le_length_deltaBytes (d : BookDelta) : 1 + 4 * 4 ≤ (deltaBytes d).length := by
  simp only [deltaBytes, List.length_append, Wire.length_bigEndian, length_int64sBytes,
    length_uint64sBytes]
  omega

theorem le_length_batchBytes (b : MinuteBatch) : batchWidth ≤ (batchBytes b).length := by
  simp only [batchBytes, deltasBytes, List.length_append, Wire.length_bigEndian,
    Wire.length_signedBytes, length_int64sBytes, length_uint64sBytes, List.length_map,
    length_side, batchWidth]
  omega

theorem reads_minuteTime {b : MinuteBatch} (h : Decodable b) :
    Reads (Scale.instant .second <$> Wire.take 8)
      (signedBytes 8 (Scale.second.stamp b.minute.minuteTime).toInt) 0 b.minute.minuteTime := by
  have hread := (Wire.reads_take (Wire.length_signedBytes 8
    (Scale.second.stamp b.minute.minuteTime).toInt)).map (Scale.instant .second)
  rwa [h.instant] at hread

theorem accepts_minuteTime :
    Accepts (Scale.instant .second <$> Wire.take 8) fun body spent t =>
      body = signedBytes 8 (Scale.second.stamp t).toInt ∧ spent = 0 ∧
        t.offset = 0 ∧ t.unixNano % Time.second = 0 := by
  refine ((Wire.accepts_take 8).map _).mono ?_
  rintro body spent t ⟨a, rfl, rfl, rfl, hlength⟩
  obtain ⟨hlo, hhi⟩ := Wire.ofSignedBytes_bounds body
  have hbytes := Wire.signedBytes_ofSignedBytes body
  rw [hlength] at hlo hhi hbytes
  have hstamp : (Scale.second.stamp (Scale.second.instant body)).toInt = ofSignedBytes body := by
    show (Int64.ofInt (ofSignedBytes body * 1000000000 / 1000000000)).toInt = _
    rw [Int.mul_ediv_cancel _ (by norm_num), Int64.toInt_ofInt_of_le (by omega) (by omega)]
  rw [hstamp, hbytes]
  refine ⟨rfl, rfl, rfl, ?_⟩
  show ofSignedBytes body * 1000000000 % 1000000000 = 0
  exact Int.mul_emod_left _ _

theorem batchBytes_eq (b : MinuteBatch) :
    batchBytes b = bigEndian 8 b.minute.id.toNat ++ (bigEndian 4 b.minute.instrumentID.toNat ++
      (signedBytes 8 (Scale.second.stamp b.minute.minuteTime).toInt ++
        (bigEndian 8 (UInt64.ofBitVec b.minute.validBitmap).toNat ++
          (bigEndian 1 b.minute.storedDepth.toNat ++
            ((int64sBytes (b.minute.bids.toList.map Level.priceTick) ++
                uint64sBytes (b.minute.bids.toList.map Level.qtyLot)) ++
              ((int64sBytes (b.minute.asks.toList.map Level.priceTick) ++
                uint64sBytes (b.minute.asks.toList.map Level.qtyLot)) ++ deltasBytes b.deltas)))))) := by
  simp only [batchBytes, List.append_assoc]
  rfl

theorem batchSpent_eq (b : MinuteBatch) :
    batchSpent b = (50 + 50) + ((50 + 50) + deltasSpent b.deltas) := by
  unfold batchSpent
  omega

/-- The deltas of a batch, read under its id. -/
theorem reads_deltas {id : UInt64} {ds : List BookDelta} (hids : ∀ d ∈ ds, d.minuteID = id)
    (hspent : deltasSpent ds < 256 ^ 4) :
    Reads (Wire.many (readDelta id) ds.length) (ds.flatMap deltaBytes) (ds.map deltaSpent).sum ds := by
  refine (Wire.readsAll_flatMap ds fun d hd => ?_).many
  have hle : deltaSpent d ≤ (ds.map deltaSpent).sum :=
    List.single_le_sum (fun _ _ => Nat.zero_le _) _ (List.mem_map_of_mem hd)
  unfold deltasSpent at hspent
  have hread := reads_delta (d := d) (by omega)
  rwa [hids d hd] at hread

theorem reads_batch {b : MinuteBatch} (h : Decodable b) (hspent : batchSpent b < 256 ^ 4) :
    Reads readBatch (batchBytes b) (batchSpent b) b := by
  have hfew := h.few
  rw [batchSpent_eq] at hspent
  rw [batchBytes_eq, batchSpent_eq]
  refine Reads.after (reads_uint64 _) (Reads.after (reads_uint32 _) (Reads.after (reads_minuteTime h)
    (Reads.after (reads_uint64 _) (Reads.after (reads_uint8 _) ?_))))
  refine Reads.guarded (not_not.2 h.range) ?_
  refine (reads_side _).bind ((reads_side _).bind ?_)
  refine Reads.count (by omega) ?_ ?_
  · exact mul_le_length_flatMap le_length_deltaBytes b.deltas
  · refine Reads.guarded (by omega) ?_
    exact (reads_deltas h.ids (by omega)).followed (Wire.reads_pure _)

theorem accepts_deltas (id : UInt64) (n : Nat) :
    Accepts (Wire.many (readDelta id) n) fun body spent ds =>
      ds.length = n ∧ body = ds.flatMap deltaBytes ∧ spent = (ds.map deltaSpent).sum ∧
        ∀ d ∈ ds, d.minuteID = id := by
  refine ((accepts_delta id).many n).mono ?_
  rintro body spent ds ⟨hlength, hall⟩
  exact ⟨hlength, hall.flatMap⟩

theorem accepts_batch :
    Accepts readBatch fun body spent b =>
      body = batchBytes b ∧ spent = batchSpent b ∧ Decodable b := by
  refine (accepts_uint64.bind fun id => accepts_uint32.bind fun instrument =>
    accepts_minuteTime.bind fun t => accepts_uint64.bind fun bitmap => accepts_uint8.bind fun depth =>
      (Wire.accepts_failIf _ _).bind fun _ => accepts_side.bind fun bids => accepts_side.bind fun asks =>
        (Wire.accepts_count _).bind fun n => (Wire.accepts_failIf _ _).bind fun _ =>
          (accepts_deltas id n).bind fun ds => Wire.accepts_pure _).mono ?_
  rintro body spent b ⟨id, _, _, _, _, rfl, rfl, ⟨rfl, rfl, -⟩, hrest⟩
  rcases hrest with ⟨instrument, _, _, _, _, rfl, rfl, ⟨rfl, rfl, -⟩, hrest⟩
  rcases hrest with ⟨t, _, _, _, _, rfl, rfl, ⟨rfl, rfl, hutc, hwhole⟩, hrest⟩
  rcases hrest with ⟨bitmap, _, _, _, _, rfl, rfl, ⟨rfl, rfl, -⟩, hrest⟩
  rcases hrest with ⟨depth, _, _, _, _, rfl, rfl, ⟨rfl, rfl, -⟩, hrest⟩
  rcases hrest with ⟨_, _, _, _, _, rfl, rfl, ⟨rfl, rfl, hrange⟩, hrest⟩
  rcases hrest with ⟨bids, _, _, _, _, rfl, rfl, ⟨rfl, rfl⟩, hrest⟩
  rcases hrest with ⟨asks, _, _, _, _, rfl, rfl, ⟨rfl, rfl⟩, hrest⟩
  rcases hrest with ⟨n, _, _, _, _, rfl, rfl, ⟨rfl, rfl, -⟩, hrest⟩
  rcases hrest with ⟨_, _, _, _, _, rfl, rfl, ⟨rfl, rfl, hfew⟩, hrest⟩
  rcases hrest with ⟨ds, _, _, _, _, rfl, rfl, ⟨rfl, rfl, rfl, hids⟩, rfl, rfl, rfl⟩
  refine ⟨?_, ?_, hutc, hwhole, not_not.1 hrange, not_lt.1 hfew, hids⟩
  · rw [batchBytes_eq]
    simp only [deltasBytes, List.nil_append, List.append_nil]
  · rw [batchSpent_eq]
    simp only [deltasSpent]
    omega

/-! ## The loop -/

theorem reads_checked {x : Except String Unit} (h : x = .ok ()) : Reads (checked x) [] 0 () := by
  intro rest budget _
  rw [h]
  rfl

/-- A check that passes takes nothing off the input. -/
theorem reads_checked_bind {β : Type} {x : Except String Unit} {f : Unit → Reading β}
    {body : List UInt8} {spent : Nat} {b : β} (h : x = .ok ()) (hf : Reads (f ()) body spent b) :
    Reads (checked x >>= f) body spent b :=
  Reads.after (reads_checked h) hf

theorem accepts_checked (x : Except String Unit) :
    Accepts (checked x) fun body spent _ => body = [] ∧ spent = 0 ∧ x = .ok () := by
  intro c u c' h
  unfold checked at h
  rcases x with e | ⟨⟩
  · cases h
  · cases h
    exact ⟨[], 0, rfl, rfl, rfl, rfl, rfl⟩

theorem validateBatches_cons {minute : Time} {previous : Option UInt32} {b : MinuteBatch}
    {bs : List MinuteBatch} :
    validateBatches minute previous (b :: bs) = .ok () ↔
      (¬ (¬ b.minute.minuteTime.Equal minute ∨ ∃ p ∈ previous, b.minute.instrumentID ≤ p)) ∧
        validateMinuteBatch b = .ok () ∧
        validateBatches minute (some b.minute.instrumentID) bs = .ok () := by
  rw [validateBatches, Check.seq_eq_ok, Check.seq_eq_ok, Check.failIf_eq_ok]

theorem reads_batches {minute : Time} {previous : Option UInt32} {bs : List MinuteBatch}
    (hvalid : validateBatches minute previous bs = .ok ()) (hdecodable : ∀ b ∈ bs, Decodable b)
    (hspent : (bs.map batchSpent).sum < 256 ^ 4) :
    Reads (walkBatches minute previous bs.length) (bs.flatMap batchBytes) (bs.map batchSpent).sum bs := by
  induction bs generalizing previous with
  | nil => exact Wire.reads_pure []
  | cons b bs ih =>
      obtain ⟨hfirst, hbatch, hrest⟩ := validateBatches_cons.1 hvalid
      simp only [List.flatMap_cons, List.map_cons, List.sum_cons, List.length_cons] at hspent ⊢
      refine (reads_batch (hdecodable b List.mem_cons_self) (by omega)).bind ?_
      refine Reads.guarded hfirst (reads_checked_bind hbatch ?_)
      have hreads := ih hrest (fun c hc => hdecodable c (List.mem_cons_of_mem _ hc)) (by omega)
      exact hreads.followed (Wire.reads_pure _)

theorem accepts_batches (minute : Time) (previous : Option UInt32) (n : Nat) :
    Accepts (walkBatches minute previous n) fun body spent bs =>
      bs.length = n ∧ body = bs.flatMap batchBytes ∧ spent = (bs.map batchSpent).sum ∧
        validateBatches minute previous bs = .ok () ∧ ∀ b ∈ bs, Decodable b := by
  induction n generalizing previous with
  | zero =>
      refine (Wire.accepts_pure []).mono ?_
      rintro body spent bs ⟨rfl, rfl, rfl⟩
      exact ⟨rfl, rfl, rfl, rfl, fun b hb => absurd hb List.not_mem_nil⟩
  | succ n ih =>
      refine (accepts_batch.bind fun b => (Wire.accepts_failIf _ _).bind fun _ =>
        (accepts_checked (validateMinuteBatch b)).bind fun _ =>
          (ih (some b.minute.instrumentID)).bind fun bs => Wire.accepts_pure (b :: bs)).mono ?_
      rintro body spent bs ⟨b, _, _, _, _, rfl, rfl, ⟨rfl, rfl, hdecodable⟩,
        _, _, _, _, _, rfl, rfl, ⟨rfl, rfl, hfirst⟩,
        _, _, _, _, _, rfl, rfl, ⟨rfl, rfl, hbatch⟩,
        bs, _, _, _, _, rfl, rfl, ⟨hlength, rfl, rfl, hrest, hdecodables⟩, rfl, rfl, rfl⟩
      refine ⟨by rw [List.length_cons, hlength], by simp, by simp,
        validateBatches_cons.2 ⟨hfirst, hbatch, hrest⟩, ?_⟩
      intro c hc
      rcases List.mem_cons.1 hc with rfl | hc
      · exact hdecodable
      · exact hdecodables c hc

theorem reads_books {minute : Time} {bs : List MinuteBatch}
    (hvalid : validateBatches minute none bs = .ok ()) (hdecodable : ∀ b ∈ bs, Decodable b)
    (hspent : booksSpent bs < 256 ^ 4) :
    Reads (walkBooks minute) (booksBytes bs) (booksSpent bs) bs := by
  unfold booksSpent at hspent
  refine Reads.count (by omega) (mul_le_length_flatMap le_length_batchBytes bs) ?_
  exact reads_batches hvalid hdecodable (by omega)

theorem accepts_books (minute : Time) :
    Accepts (walkBooks minute) fun body spent bs =>
      body = booksBytes bs ∧ spent = booksSpent bs ∧ validateBatches minute none bs = .ok () ∧
        ∀ b ∈ bs, Decodable b := by
  refine ((Wire.accepts_count _).bind fun n => accepts_batches minute none n).mono ?_
  rintro body spent bs ⟨n, _, _, _, _, rfl, rfl, ⟨rfl, rfl, -⟩, rfl, rfl, rfl, hvalid, hdecodable⟩
  exact ⟨rfl, rfl, hvalid, hdecodable⟩

end MarketInfo.Codec
