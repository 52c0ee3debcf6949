import MarketInfo.Codec.Exact
import MarketInfo.Contracts.BookValidation

/-! # The book wire format

`EncodeBooks` writes the batches of a minute through the value codec; the decoder
reads the same bytes straight into integers, checking as it goes.
-/

namespace MarketInfo.Codec

open Wire (bigEndian signedBytes ofSignedBytes Reading)

/-- `model.CompletedMinute`. -/
structure CompletedMinute where
  minuteTime : Time
  knownFromMS : Int64
  batches : List MinuteBatch
deriving DecidableEq

/-! ## Types -/

def bookText : List Char :=
  ("Array(Tuple(id UInt64, instrument_id UInt32, minute_time DateTime('UTC'), " ++
   "valid_bitmap UInt64, stored_depth UInt8, bid_prices Array(Int64), bid_qtys Array(UInt64), " ++
   "ask_prices Array(Int64), ask_qtys Array(UInt64), deltas Array(Tuple(second_offset UInt8, " ++
   "bid_prices Array(Int64), bid_qtys Array(UInt64), ask_prices Array(Int64), " ++
   "ask_qtys Array(UInt64)))))").toList

/-- The name of a column. -/
def column (name : String) : List UInt8 := asciiBytes name.toList

/-- The four parallel arrays of a change. -/
def sideFields : Fields :=
  .cons (column "bid_prices") (.array .int64) (.cons (column "bid_qtys") (.array (.uint .eight))
    (.cons (column "ask_prices") (.array .int64) (.cons (column "ask_qtys") (.array (.uint .eight)) .nil)))

def deltaRowTy : Ty := .tuple (.cons (column "second_offset") (.uint .one) sideFields)

def batchRowTy : Ty :=
  .tuple (.cons (column "id") (.uint .eight) (.cons (column "instrument_id") (.uint .four)
    (.cons (column "minute_time") (.dateTime .second) (.cons (column "valid_bitmap") (.uint .eight)
    (.cons (column "stored_depth") (.uint .one) (.cons (column "bid_prices") (.array .int64)
    (.cons (column "bid_qtys") (.array (.uint .eight)) (.cons (column "ask_prices") (.array .int64)
    (.cons (column "ask_qtys") (.array (.uint .eight))
    (.cons (column "deltas") (.array deltaRowTy) .nil))))))))))

/-- `bookEnvelopeType`, what `Parse` makes of its text. -/
def bookEnvelopeType (sha256 : List Char → Vector UInt8 32) : Ty × Vector UInt8 16 :=
  (.array batchRowTy, (sha256 bookText).take 16)

/-! ## Encoding -/

/-- `ValidateCompletedMinute`, from the instrument of the batch before. -/
def validateBatches (minuteTime : Time) : Option UInt32 → List MinuteBatch → Except String Unit
  | _, [] => .ok ()
  | previous, b :: rest => do
      Check.failIf (¬ b.minute.minuteTime.Equal minuteTime ∨
        ∃ p ∈ previous, b.minute.instrumentID ≤ p) "completed batches must be sorted and share minute"
      validateMinuteBatch b
      validateBatches minuteTime (some b.minute.instrumentID) rest

/-- `c.MinuteTime.IsZero() || !c.MinuteTime.Equal(c.MinuteTime.UTC().Truncate(time.Minute))`. -/
def checkMinute (t : Time) : Except String Unit :=
  Check.failIf (t.IsZero ∨ ¬ t.Equal (t.utc.truncate Time.minute))
    "completed minute requires exact UTC minute"

/-- `ValidateCompletedMinute`. -/
def validateCompletedMinute (c : CompletedMinute) : Except String Unit := do
  checkMinute c.minuteTime
  validateBatches c.minuteTime none c.batches

def int64s (xs : List Int64) : Value := .list (xs.map Value.int64)
def uint64s (xs : List UInt64) : Value := .list (xs.map Value.uint64)

/-- The row of a delta. -/
def deltaRow (d : BookDelta) : Value :=
  .dict [(column "second_offset", .uint8 d.secondOffset),
    (column "bid_prices", int64s d.bidChangePrice), (column "bid_qtys", uint64s d.bidChangeQty),
    (column "ask_prices", int64s d.askChangePrice), (column "ask_qtys", uint64s d.askChangeQty)]

/-- The row of a batch: all fifty physical levels of both sides. -/
def batchRow (b : MinuteBatch) : Value :=
  .dict [(column "id", .uint64 b.minute.id), (column "instrument_id", .uint32 b.minute.instrumentID),
    (column "minute_time", .time b.minute.minuteTime),
    (column "valid_bitmap", .uint64 (.ofBitVec b.minute.validBitmap)),
    (column "stored_depth", .uint8 b.minute.storedDepth),
    (column "bid_prices", int64s (b.minute.bids.toList.map Level.priceTick)),
    (column "bid_qtys", uint64s (b.minute.bids.toList.map Level.qtyLot)),
    (column "ask_prices", int64s (b.minute.asks.toList.map Level.priceTick)),
    (column "ask_qtys", uint64s (b.minute.asks.toList.map Level.qtyLot)),
    (column "deltas", .list (b.deltas.map deltaRow))]

/-- The elements a book payload may hold. -/
def bookElements : Nat := 2 ^ 21

variable (sha256 : List Char → Vector UInt8 32)

/-- `EncodeBooks`. -/
def EncodeBooks (c : CompletedMinute) : Except String (List UInt8) := do
  validateCompletedMinute c
  encodeWith (bookEnvelopeType sha256).1 (bookEnvelopeType sha256).2 (.list (c.batches.map batchRow))
    bookElements

/-! ## Decoding -/

/-- `readBookIntegers[int64]`. -/
def readInt64s : Reading (List Int64) := do
  let n ← Wire.count 8
  Wire.many ((fun a => Int64.ofInt (ofSignedBytes a)) <$> Wire.take 8) n

/-- `readBookIntegers[uint64]`. -/
def readUint64s : Reading (List UInt64) := do
  let n ← Wire.count 8
  Wire.many (UInt64.ofNat <$> Wire.readNat 8) n

/-- The prices of an anchor side. -/
def readAnchorPrices : Reading (List Int64) := do
  let prices ← readInt64s
  Wire.failIf (prices.length ≠ 50) "anchor needs 50 physical levels"
  return prices

/-- The quantities of an anchor side. -/
def readAnchorQtys : Reading (List UInt64) := do
  let qtys ← readUint64s
  Wire.failIf (qtys.length ≠ 50) "anchor needs 50 physical levels"
  return qtys

/-- The levels of parallel prices and quantities. -/
def levelsOf (prices : List Int64) (qtys : List UInt64) : Vector Level legacyBookDepth :=
  Vector.ofFn fun i => ⟨prices.getD i 0, qtys.getD i 0⟩

def readSide : Reading (Vector Level legacyBookDepth) := do
  let prices ← readAnchorPrices
  let qtys ← readAnchorQtys
  return levelsOf prices qtys

/-- A delta of the batch with the id. -/
def readDelta (id : UInt64) : Reading BookDelta := do
  let offset ← UInt8.ofNat <$> Wire.readNat 1
  let bidChangePrice ← readInt64s
  let bidChangeQty ← readUint64s
  let askChangePrice ← readInt64s
  let askChangeQty ← readUint64s
  return { minuteID := id, secondOffset := offset, bidChangePrice, bidChangeQty, askChangePrice,
           askChangeQty }

/-- One turn of `walkBooks`, before its checks: the 29 bytes in front are read field by field. -/
def readBatch : Reading MinuteBatch := do
  let id ← UInt64.ofNat <$> Wire.readNat 8
  let instrumentID ← UInt32.ofNat <$> Wire.readNat 4
  let minuteTime ← Scale.instant .second <$> Wire.take 8
  let bitmap ← UInt64.ofNat <$> Wire.readNat 8
  let storedDepth ← UInt8.ofNat <$> Wire.readNat 1
  Wire.failIf (¬ minuteTime.YearInRange) "timestamp range"
  let bids ← readSide
  let asks ← readSide
  let n ← Wire.count (1 + 4 * 4)
  Wire.failIf (59 < n) "too many second deltas"
  let deltas ← Wire.many (readDelta id) n
  return { minute := { id, instrumentID, minuteTime, validBitmap := bitmap.toBitVec, storedDepth, bids, asks },
           deltas }

/-- `if err := …; err != nil { return err }`. -/
def checked (x : Except String Unit) : Reading Unit := fun c => x.map fun u => (u, c)

/-- The loop of `walkBooks`, from the instrument of the batch before. -/
def walkBatches (minute : Time) : Option UInt32 → Nat → Reading (List MinuteBatch)
  | _, 0 => return []
  | previous, n + 1 => do
      let b ← readBatch
      Wire.failIf (¬ b.minute.minuteTime.Equal minute ∨ ∃ p ∈ previous, b.minute.instrumentID ≤ p)
        "completed batches must be sorted and share minute"
      checked (validateMinuteBatch b)
      let rest ← walkBatches minute (some b.minute.instrumentID) n
      return b :: rest

/-- The size of a batch without deltas. -/
def batchWidth : Nat := 8 + 4 + 8 + 8 + 1 + 4 * (4 + 50 * 8) + 4

/-- `walkBooks`, from the first count on. -/
def walkBooks (minute : Time) : Reading (List MinuteBatch) := do
  let n ← Wire.count batchWidth
  walkBatches minute none n

/-- `DecodeBooks`. -/
def DecodeBooks (minute : Time) (payload : List UInt8) : Except String CompletedMinute := do
  checkMinute minute
  Check.failIf (payload.length < 17 ∨ maxBytes < payload.length ∨
    payload.take 17 ≠ 1 :: (bookEnvelopeType sha256).2.toList) "invalid codec header"
  let (batches, c) ← walkBooks minute ⟨payload.drop 17, bookElements⟩
  Check.failIf (c.rest.length ≠ 0) "trailing bytes"
  return { minuteTime := minute, knownFromMS := 0, batches }

end MarketInfo.Codec
