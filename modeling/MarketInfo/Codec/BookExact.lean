import MarketInfo.Codec.Book

/-! # The bytes of a book payload

The layout of a minute on the wire, and that the encoder writes exactly it.
-/

namespace MarketInfo.Codec

open Wire (bigEndian signedBytes ofSignedBytes Reading Reads Accepts)

/-! ## Layout -/

def int64sBytes (xs : List Int64) : List UInt8 :=
  bigEndian 4 xs.length ++ xs.flatMap fun n => signedBytes 8 n.toInt

def uint64sBytes (xs : List UInt64) : List UInt8 :=
  bigEndian 4 xs.length ++ xs.flatMap fun n => bigEndian 8 n.toNat

def deltaBytes (d : BookDelta) : List UInt8 :=
  bigEndian 1 d.secondOffset.toNat ++ (int64sBytes d.bidChangePrice ++ (uint64sBytes d.bidChangeQty ++
    (int64sBytes d.askChangePrice ++ uint64sBytes d.askChangeQty)))

/-- The array elements of a delta. -/
def deltaSpent (d : BookDelta) : Nat :=
  d.bidChangePrice.length + (d.bidChangeQty.length + (d.askChangePrice.length + d.askChangeQty.length))

def deltasBytes (ds : List BookDelta) : List UInt8 := bigEndian 4 ds.length ++ ds.flatMap deltaBytes

def deltasSpent (ds : List BookDelta) : Nat := ds.length + (ds.map deltaSpent).sum

def batchBytes (b : MinuteBatch) : List UInt8 :=
  bigEndian 8 b.minute.id.toNat ++ (bigEndian 4 b.minute.instrumentID.toNat ++
    (signedBytes 8 (Scale.second.stamp b.minute.minuteTime).toInt ++
      (bigEndian 8 b.minute.validBitmap.toNat ++ (bigEndian 1 b.minute.storedDepth.toNat ++
        (int64sBytes (b.minute.bids.toList.map Level.priceTick) ++
          (uint64sBytes (b.minute.bids.toList.map Level.qtyLot) ++
            (int64sBytes (b.minute.asks.toList.map Level.priceTick) ++
              (uint64sBytes (b.minute.asks.toList.map Level.qtyLot) ++ deltasBytes b.deltas))))))))

def batchSpent (b : MinuteBatch) : Nat := 50 + (50 + (50 + (50 + deltasSpent b.deltas)))

def booksBytes (bs : List MinuteBatch) : List UInt8 := bigEndian 4 bs.length ++ bs.flatMap batchBytes

def booksSpent (bs : List MinuteBatch) : Nat := bs.length + (bs.map batchSpent).sum

/-! ## Writing -/

theorem exact_int64s (xs : List Int64) :
    Exact (writeValue (.array .int64) (int64s xs)) (int64sBytes xs) xs.length := by
  have harray := exact_array xs fun n _ => exact_int64 n
  simp only [List.map_const', List.sum_replicate, smul_eq_mul, mul_zero, add_zero] at harray
  exact harray

theorem exact_uint64s (xs : List UInt64) :
    Exact (writeValue (.array (.uint .eight)) (uint64s xs)) (uint64sBytes xs) xs.length := by
  have harray := exact_array xs fun n _ => exact_uint64 n
  simp only [List.map_const', List.sum_replicate, smul_eq_mul, mul_zero, add_zero] at harray
  exact harray

theorem exact_sideFields {v : Value} {bp ap : List Int64} {bq aq : List UInt64}
    (hbp : v.member (column "bid_prices") = .ok (int64s bp))
    (hbq : v.member (column "bid_qtys") = .ok (uint64s bq))
    (hap : v.member (column "ask_prices") = .ok (int64s ap))
    (haq : v.member (column "ask_qtys") = .ok (uint64s aq)) :
    Exact (writeFields sideFields v)
      (int64sBytes bp ++ (uint64sBytes bq ++ (int64sBytes ap ++ uint64sBytes aq)))
      (bp.length + (bq.length + (ap.length + aq.length))) :=
  exact_cons hbp (exact_int64s bp) (exact_cons hbq (exact_uint64s bq)
    (exact_cons hap (exact_int64s ap) (exact_last haq (exact_uint64s aq))))

theorem exact_deltaRow (d : BookDelta) :
    Exact (writeValue deltaRowTy (deltaRow d)) (deltaBytes d) (deltaSpent d) := by
  have hsecond : (deltaRow d).member (column "second_offset") = .ok (.uint8 d.secondOffset) := rfl
  have hsides := exact_sideFields (v := deltaRow d) rfl rfl rfl rfl
  have hfields := exact_cons hsecond (exact_uint8 d.secondOffset) hsides
  rw [Nat.zero_add] at hfields
  exact exact_tuple hfields

/-- A minute of a valid batch is written as its seconds. -/
theorem exact_minuteTime {t : Time} (hzero : ¬ t.IsZero) (hminute : t.Equal (t.utc.truncate Time.minute))
    (hrange : t.YearInRange) :
    Exact (writeValue (.dateTime .second) (.time t)) (signedBytes 8 (Scale.second.stamp t).toInt) 0 := by
  refine exact_scalar nofun rfl (fun _ => rfl) ?_
  have hnano : t.nanosecond % Scale.second.unit = 0 := by
    unfold Time.Equal at hminute
    rw [Time.truncate_minute_unixNano, Time.utc_unixNano] at hminute
    unfold Time.minute Time.second at hminute
    show t.unixNano % 1000000000 % 1000000000 = 0
    omega
  simp only [scalarBytes, Check.andThen_eq_ok, Check.failIf_eq_ok, not_not]
  exact ⟨(), hzero, (), hnano, (), hrange, rfl⟩

theorem exact_batchRow {b : MinuteBatch} (hzero : ¬ b.minute.minuteTime.IsZero)
    (hminute : b.minute.minuteTime.Equal (b.minute.minuteTime.utc.truncate Time.minute))
    (hrange : b.minute.minuteTime.YearInRange) :
    Exact (writeValue batchRowTy (batchRow b)) (batchBytes b) (batchSpent b) := by
  have hdeltas : Exact (writeValue (.array deltaRowTy) (.list (b.deltas.map deltaRow)))
      (deltasBytes b.deltas) (deltasSpent b.deltas) :=
    exact_array b.deltas fun d _ => exact_deltaRow d
  have hlast : (batchRow b).member (column "deltas") = .ok (.list (b.deltas.map deltaRow)) := rfl
  have hid : (batchRow b).member (column "id") = .ok (.uint64 b.minute.id) := rfl
  have hinstrument : (batchRow b).member (column "instrument_id") =
      .ok (.uint32 b.minute.instrumentID) := rfl
  have htime : (batchRow b).member (column "minute_time") = .ok (.time b.minute.minuteTime) := rfl
  have hbitmap : (batchRow b).member (column "valid_bitmap") =
      .ok (.uint64 (.ofBitVec b.minute.validBitmap)) := rfl
  have hdepth : (batchRow b).member (column "stored_depth") = .ok (.uint8 b.minute.storedDepth) := rfl
  have hbp : (batchRow b).member (column "bid_prices") =
      .ok (int64s (b.minute.bids.toList.map Level.priceTick)) := rfl
  have hbq : (batchRow b).member (column "bid_qtys") =
      .ok (uint64s (b.minute.bids.toList.map Level.qtyLot)) := rfl
  have hap : (batchRow b).member (column "ask_prices") =
      .ok (int64s (b.minute.asks.toList.map Level.priceTick)) := rfl
  have haq : (batchRow b).member (column "ask_qtys") =
      .ok (uint64s (b.minute.asks.toList.map Level.qtyLot)) := rfl
  have hfields := exact_cons hid (exact_uint64 _) (exact_cons hinstrument (exact_uint32 _)
    (exact_cons htime (exact_minuteTime hzero hminute hrange) (exact_cons hbitmap (exact_uint64 _)
      (exact_cons hdepth (exact_uint8 _) (exact_cons hbp (exact_int64s _)
        (exact_cons hbq (exact_uint64s _) (exact_cons hap (exact_int64s _)
          (exact_cons haq (exact_uint64s _) (exact_last hlast hdeltas)))))))))
  have hrow := exact_tuple hfields
  simp only [List.length_map, Vector.length_toList, Nat.zero_add] at hrow
  exact hrow

end MarketInfo.Codec
