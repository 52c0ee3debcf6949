import MarketInfo.Redis.Effect
import MarketInfo.Codec.BookDelivery
import MarketInfo.Spool.Envelope

/-! # Book deliveries in Redis

`Accept` splits the books of a delivery into a hash for each instrument, with the
anchor and every changed second in a field of its own; `Load` puts them together
again. Redis errors, the memory limit and the wait for the append-only file are
left out: they only ever stop either.
-/

namespace MarketInfo

namespace Redis

open Codec (CompletedMinute EncodeBookDelivery DecodeBookDelivery EncodeDelta DecodeDelta Zone)

/-- SHA-256: of the text of a type, and of a payload in hexadecimal. -/
structure Hashes where
  tag : List Char → Vector UInt8 32
  digest : Bytes → String

/-- The minute of a Unix minute. -/
def minuteTimeOf (minute : Int) : Time := ⟨minute * Time.minute, 0⟩

def Delivery.minuteTime (d : Delivery) : Time := minuteTimeOf d.minute

def Header.minuteTime (hd : Header) : Time := minuteTimeOf hd.minute

/-- `identity` and `label`. -/
def isLabel (s : String) : Bool :=
  1 ≤ s.length && s.length ≤ 160 && s.toList.all fun c => c.isAlphanum || ['_', '.', ':', '-'].contains c

variable (h : Hashes)

/-- `spool.Validate`. -/
def validateDelivery (d : Delivery) : Except String Unit := do
  Check.failIf (isLabel d.database = false ∨ isLabel d.kind = false ∨ isLabel d.id = false ∨
    isLabel d.service = false) "invalid delivery identity"
  Check.failIf (d.generation = 0 ∨ d.codec = 0 ∨ d.members = 0 ∨ d.payload.length = 0 ∨
    Spool.maxPayload < d.payload.length ∨ d.minuteTime.IsZero) "invalid delivery envelope"
  Check.failIf (h.digest d.payload ≠ d.digest) "delivery digest mismatch"

/-! ## Accept -/

/-- A decimal digit. -/
def decimalDigit (n : Nat) : Char := Char.ofNat (48 + n)

/-- `fmt.Sprintf("d:%02d", second)`, of a number with two digits. -/
def secondField (second : Nat) : String :=
  String.ofList ['d', ':', decimalDigit (second / 10), decimalDigit (second % 10)]

/-- The fields of the deltas. -/
def encodeDeltas : List BookDelta → Except String (List (String × Bytes))
  | [] => .ok []
  | delta :: rest => do
      let raw ← EncodeDelta h.tag delta
      let fields ← encodeDeltas rest
      return (secondField delta.secondOffset.toNat, raw) :: fields

/-- `batch` without its deltas. -/
def anchorOf (batch : MinuteBatch) : MinuteBatch := { batch with deltas := [] }

/-- `uintType`. -/
def uintType : Codec.Ty × Vector UInt8 16 := (.uint .eight, (h.tag "UInt64".toList).take 16)

/-- The member of a batch. -/
def splitBatch (now : Time) (d : Delivery) (known : Int64) (batch : MinuteBatch) :
    Except String Member := do
  let payload ← EncodeBookDelivery h.tag now ⟨d.minuteTime, known, [batch]⟩ d.codec
  let anchorRaw ← EncodeBookDelivery h.tag now ⟨d.minuteTime, known, [anchorOf batch]⟩ d.codec
  let valid ← Codec.Encode (uintType h) (.uint64 (.ofBitVec batch.minute.validBitmap))
  let deltas ← encodeDeltas h batch.deltas
  return { index := batch.minute.instrumentID, digest := h.digest payload,
           fields := ("anchor", anchorRaw) :: ("valid", valid) :: deltas }

def splitBatches (now : Time) (d : Delivery) (known : Int64) :
    List MinuteBatch → Except String (List Member)
  | [] => .ok []
  | batch :: rest => do
      let p ← splitBatch h now d known batch
      let ps ← splitBatches now d known rest
      return p :: ps

/-- A script that must not reply with an error. -/
def Script.run (r : Store × Reply) : Except String Store := r.2.map fun _ => r.1

def storeMembers (d : Delivery) : Store → List Member → Except String Store
  | s, [] => .ok s
  | s, p :: rest => do
      let s ← Script.run (memberScript s (d.bookKey p.index) d.batchKey p.digest d.digest p.fields)
      storeMembers d s rest

/-- The header of a delivery with the members. -/
def Delivery.headerOf (d : Delivery) (keys : List BookKey) : Header :=
  { database := d.database, kind := d.kind, id := d.id, service := d.service,
    generation := d.generation, minute := d.minute, digest := d.digest, members := d.members,
    codec := d.codec, keys }

/-- `Accept`, of a book delivery: the store of one that succeeds. -/
def acceptBooks (now : Time) (token : String) (s : Store) (d : Delivery) : Except String Store := do
  validateDelivery h d
  Check.failIf (d.kind ≠ "cex" ∨ (d.codec ≠ 1 ∧ d.codec ≠ 2)) "unsupported Redis delivery kind or codec"
  let completed ← DecodeBookDelivery h.tag now d.minuteTime d.payload d.codec
  Check.failIf (100 < completed.batches.length ∨ UInt32.ofNat completed.batches.length ≠ d.members)
    "Redis member quota mismatch"
  let header := d.headerOf (completed.batches.map fun b => d.bookKey b.minute.instrumentID)
  let s ← Script.run (beginScript s d.batchKey d.digest header)
  let members ← splitBatches h now d completed.knownFromMS completed.batches
  let s ← storeMembers d s members
  Script.run (sealScript s d.batchKey (members.map fun p => (d.bookKey p.index, p.digest)) d.digest
    header d.minute token d.payload.length)

/-! ## Load -/

/-- The delta of a second, if it has a field. -/
def readSecond (zone : Zone) (fields : String → Option Bytes) (id : UInt64) (second : Nat) :
    Except String (List BookDelta) :=
  match fields (secondField second) with
  | none => .ok []
  | some raw => do
      let delta ← DecodeDelta h.tag zone raw
      Check.failIf (delta.minuteID ≠ id ∨ delta.secondOffset.toNat ≠ second)
        "Redis second identity mismatch"
      return [delta]

def readSeconds (zone : Zone) (fields : String → Option Bytes) (id : UInt64) :
    List Nat → Except String (List BookDelta)
  | [] => .ok []
  | second :: rest => do
      let delta ← readSecond h zone fields id second
      let deltas ← readSeconds zone fields id rest
      return delta ++ deltas

/-- The seconds that may have a delta. -/
def laterSeconds : List Nat := List.range' 1 59

/-- The only batch of an anchor. -/
def onlyBatch : List MinuteBatch → Except String MinuteBatch
  | [batch] => .ok batch
  | _ => .error "Redis anchor count"

/-- The first knowledge and the batch of a member, after the knowledge of the member before. -/
def loadBook (now : Time) (zone : Zone) (s : Store) (hd : Header) (known : Option Int64)
    (key : BookKey) : Except String (Int64 × MinuteBatch) := do
  Check.failIf (key.database ≠ hd.database) "Redis manifest key outside namespace"
  let member := s.bookAt key
  let anchor ← DecodeBookDelivery h.tag now hd.minuteTime ((member.fields "anchor").getD []) hd.codec
  let batch ← onlyBatch anchor.batches
  Check.failIf (∃ k ∈ known, k ≠ anchor.knownFromMS) "immutable storage content conflict"
  let deltas ← readSeconds h zone member.fields batch.minute.id laterSeconds
  let batch := { batch with deltas := batch.deltas ++ deltas }
  let payload ← EncodeBookDelivery h.tag now ⟨hd.minuteTime, anchor.knownFromMS, [batch]⟩ hd.codec
  Check.failIf (member.digest ≠ some (h.digest payload)) "immutable storage content conflict"
  Check.failIf (hd.bookKey batch.minute.instrumentID ≠ key) "immutable storage content conflict"
  return (anchor.knownFromMS, batch)

def loadBooks (now : Time) (zone : Zone) (s : Store) (hd : Header) :
    Option Int64 → List BookKey → Except String (Option Int64 × List MinuteBatch)
  | known, [] => .ok (known, [])
  | known, key :: rest => do
      let (k, batch) ← loadBook h now zone s hd known key
      let (known, batches) ← loadBooks now zone s hd (some k) rest
      return (known, batch :: batches)

/-- The delivery of a header with the payload. -/
def Header.delivery (hd : Header) (payload : Bytes) : Delivery :=
  { database := hd.database, kind := hd.kind, id := hd.id, service := hd.service,
    generation := hd.generation, minute := hd.minute, digest := hd.digest, members := hd.members,
    codec := hd.codec, payload }

/-- `Load` from its header on; the minute of a header is decoded on the local clock. -/
def loadHeader (now : Time) (zone : Zone) (s : Store) (k : BatchKey) (hd : Header) :
    Except String Delivery := do
  Check.failIf (¬ (zone.local hd.minuteTime).YearInRange) "timestamp range"
  Check.failIf (hd.database ≠ k.database ∨ hd.id ≠ k.id ∨ some hd.digest ≠ (s.batchAt k).digest)
    "immutable storage content conflict"
  -- `loadOptions` takes these
  Check.failIf (OptionsKind hd.kind) "option batch"
  Check.failIf (100 < hd.keys.length ∨ UInt32.ofNat hd.keys.length ≠ hd.members)
    "Redis manifest count mismatch"
  let (known, batches) ← loadBooks h now zone s hd none hd.keys
  let payload ← EncodeBookDelivery h.tag now ⟨hd.minuteTime, known.getD 0, batches⟩ hd.codec
  validateDelivery h (hd.delivery payload)
  return hd.delivery payload

/-- `Load`, of a book delivery. -/
def loadBookDelivery (now : Time) (zone : Zone) (s : Store) (k : BatchKey) : Except String Delivery := do
  Check.failIf (isLabel k.database = false ∨ isLabel k.id = false) "invalid Redis batch identity"
  Check.failIf ((s.batchAt k).state ≠ some .sealed ∧ (s.batchAt k).state ≠ some .committed)
    "Redis batch is not sealed"
  match (s.batchAt k).header with
  | none => .error "invalid header encoding"
  | some hd => loadHeader h now zone s k hd

end Redis

end MarketInfo
