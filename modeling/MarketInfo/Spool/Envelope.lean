import MarketInfo.Lib.Wire
import MarketInfo.Model.Time

/-! # Spool envelopes

A delivery on disk: a magic, the header, the payload (packed in version 2) and a
digest of all that. `unmarshal` checks every byte, `readHeader` reads the header
and the size of the file only.
-/

namespace MarketInfo.Spool

open Wire (bigEndian signedBytes ofSignedBytes Reading)

/-- `MaxPayload`. -/
def maxPayload : Nat := 32 * 2 ^ 20

def magic : List UInt8 := [67, 77, 73, 83, 1]
def compressedMagic : List UInt8 := [67, 77, 73, 83, 2]

/-- `contracts.Delivery`. -/
structure Delivery where
  database : List UInt8
  kind : List UInt8
  id : List UInt8
  service : List UInt8
  generation : UInt64
  minute : Time
  digest : Vector UInt8 32
  members : UInt32
  codec : UInt16
  payload : List UInt8
  /-- The seconds of a `time.Time` are an `int64`. -/
  minute_unix : -2 ^ 63 ≤ minute.unix ∧ minute.unix < 2 ^ 63

/-- `contracts.Candidate`. -/
structure Candidate where
  header : Delivery
  bytes : Nat

/-- `zlib`: what a writer makes of a payload, and what a reader gives that stops
after a number of bytes, with the count of input bytes it leaves. -/
structure Zlib where
  deflate : List UInt8 → List UInt8
  inflate : Nat → List UInt8 → Except String (List UInt8 × Nat)

/-- A reader with room for more gives the payload back and ends with its input;
a stream starts with a header. -/
structure Zlib.RoundTrips (z : Zlib) : Prop where
  inflate_deflate : ∀ p, z.inflate (p.length + 1) (z.deflate p) = .ok (p, 0)
  deflate_ne_nil : ∀ p, z.deflate p ≠ []

/-- A byte of `[a-zA-Z0-9_.:-]`. -/
def isLabelByte (b : UInt8) : Bool :=
  (97 ≤ b && b ≤ 122) || (65 ≤ b && b ≤ 90) || (48 ≤ b && b ≤ 57) || [95, 46, 58, 45].contains b

/-- `label`. -/
def isLabel (s : List UInt8) : Bool := 1 ≤ s.length && s.length ≤ 160 && s.all isLabelByte

variable (sha256 : List UInt8 → Vector UInt8 32)

/-- `Validate`. -/
def validate (d : Delivery) : Except String Unit := do
  Check.failIf (isLabel d.database = false ∨ isLabel d.kind = false ∨ isLabel d.id = false ∨
    isLabel d.service = false) "invalid delivery identity"
  Check.failIf (d.generation = 0 ∨ d.codec = 0 ∨ d.members = 0 ∨ d.payload.length = 0 ∨
    maxPayload < d.payload.length ∨ d.minute.IsZero ∨
    ¬ d.minute.Equal (d.minute.utc.truncate Time.minute)) "invalid delivery envelope"
  Check.failIf (sha256 d.payload ≠ d.digest) "delivery digest mismatch"

/-- A hexadecimal digit. -/
def hexDigit (n : UInt8) : UInt8 := if n < 10 then 48 + n else 87 + n

/-- `hex.EncodeToString`. -/
def hexString (a : List UInt8) : List UInt8 :=
  a.flatMap fun b => [hexDigit (b / 16), hexDigit (b % 16)]

/-- `Name`. -/
def Delivery.name (d : Delivery) : List UInt8 :=
  hexString (sha256 (d.database ++ 0 :: d.kind ++ 0 :: d.id)).toList ++ [46, 98, 97, 116, 99, 104]

/-! ## Writing -/

/-- A string with its 16-bit length. -/
def stringBytes (s : List UInt8) : List UInt8 := bigEndian 2 s.length ++ s

/-- What `marshal` writes between the magic and the payload. -/
def headBytes (d : Delivery) : List UInt8 :=
  stringBytes d.database ++ (stringBytes d.kind ++ (stringBytes d.id ++ (stringBytes d.service ++
    (bigEndian 8 d.generation.toNat ++ (signedBytes 8 d.minute.utc.unix ++
      (bigEndian 2 d.codec.toNat ++ (bigEndian 4 d.members.toNat ++
        (bigEndian 4 d.payload.length ++ d.digest.toList))))))))

/-- The envelope without its digest: `compressed` says whether `stored` is packed. -/
def envelope (d : Delivery) (compressed : Bool) (stored : List UInt8) : List UInt8 :=
  (if compressed then compressedMagic else magic) ++ (headBytes d ++
    ((if compressed then bigEndian 4 stored.length else []) ++ stored))

/-- `marshal`. -/
def marshal (z : Zlib) (d : Delivery) (compress : Bool) : Except String (List UInt8) := do
  validate sha256 d
  let packed := z.deflate d.payload
  let compressed := compress && 1024 ≤ d.payload.length && packed.length + 4 < d.payload.length
  let body := envelope d compressed (if compressed then packed else d.payload)
  return body ++ (sha256 body).toList

/-- `Marshal`. -/
def Marshal (z : Zlib) (d : Delivery) : Except String (List UInt8) := marshal sha256 z d false

/-- `MarshalCompressed`. -/
def MarshalCompressed (z : Zlib) (d : Delivery) : Except String (List UInt8) := marshal sha256 z d true

/-! ## Reading -/

/-- The fields of a header, as they are read. -/
structure Head where
  database : List UInt8
  kind : List UInt8
  id : List UInt8
  service : List UInt8
  generation : UInt64
  sec : Int64
  codec : UInt16
  members : UInt32
  size : Nat
  digest : Vector UInt8 32

/-- The digest bytes of a header. -/
def readDigest : Reading (Vector UInt8 32) := do
  let a ← Wire.take 32
  if h : a.length = 32 then return ⟨a.toArray, by simp [h]⟩
  else Wire.fail "unexpected EOF"

/-- A header whose strings are read by `field`. -/
def readHeadWith (field : Reading (List UInt8)) : Reading Head := do
  let database ← field
  let kind ← field
  let id ← field
  let service ← field
  let generation ← UInt64.ofNat <$> Wire.readNat 8
  let sec ← (fun a => Int64.ofInt (ofSignedBytes a)) <$> Wire.take 8
  let codec ← UInt16.ofNat <$> Wire.readNat 2
  let members ← UInt32.ofNat <$> Wire.readNat 4
  let size ← Wire.readNat 4
  let digest ← readDigest
  return { database, kind, id, service, generation, sec, codec, members, size, digest }

/-- A string of `Unmarshal`. -/
def readString : Reading (List UInt8) := do
  let n ← Wire.readNat 2
  Wire.failIf (n = 0 ∨ 160 < n) "invalid spool string"
  Wire.take n

/-- A string of `readHeader`. -/
def readLabel : Reading (List UInt8) := do
  let n ← Wire.readNat 2
  Wire.failIf (n = 0 ∨ 160 < n) "invalid spool identity length"
  let s ← Wire.take n
  Wire.failIf (isLabel s = false) "invalid spool identity"
  return s

theorem minute_unix_ofSeconds (sec : Int64) :
    -2 ^ 63 ≤ (⟨sec.toInt * Time.second, 0⟩ : Time).unix ∧
      (⟨sec.toInt * Time.second, 0⟩ : Time).unix < 2 ^ 63 := by
  have hlo := sec.le_toInt
  have hhi := sec.toInt_lt
  show -2 ^ 63 ≤ sec.toInt * 1000000000 / 1000000000 ∧ sec.toInt * 1000000000 / 1000000000 < 2 ^ 63
  rw [Int.mul_ediv_cancel _ (by norm_num)]
  omega

/-- The delivery of a header and a payload. -/
def Head.delivery (h : Head) (payload : List UInt8) : Delivery :=
  { database := h.database, kind := h.kind, id := h.id, service := h.service,
    generation := h.generation, minute := ⟨h.sec.toInt * Time.second, 0⟩, digest := h.digest,
    members := h.members, codec := h.codec, payload, minute_unix := minute_unix_ofSeconds h.sec }

/-- The payload of `Unmarshal`, from what follows the header. -/
def readPayload (z : Zlib) (compressed : Bool) (h : Head) (c : Wire.Cursor) :
    Except String (List UInt8) :=
  if compressed then do
    let (stored, c) ← Wire.readNat 4 c
    Check.failIf (stored = 0 ∨ h.size ≤ stored ∨ stored ≠ c.rest.length)
      "invalid compressed spool length"
    let (payload, left) ← z.inflate (h.size + 1) c.rest
    Check.failIf (payload.length ≠ h.size ∨ left ≠ 0) "compressed spool size or trailing data mismatch"
    return payload
  else do
    Check.failIf (h.size ≠ c.rest.length) "invalid spool payload length"
    return c.rest

/-- `Unmarshal`. -/
def Unmarshal (z : Zlib) (raw : List UInt8) : Except String Delivery := do
  Check.failIf (raw.length < 5 + 32 ∨ maxPayload + 1024 < raw.length ∨
    (raw.take 5 ≠ magic ∧ raw.take 5 ≠ compressedMagic)) "invalid spool header"
  let body := raw.take (raw.length - 32)
  Check.failIf ((sha256 body).toList ≠ raw.drop (raw.length - 32)) "spool checksum mismatch"
  let (h, c) ← readHeadWith readString ⟨body.drop 5, 0⟩
  Check.failIf (h.size = 0 ∨ maxPayload < h.size) "invalid spool payload length"
  let payload ← readPayload z (raw.take 5 = compressedMagic) h c
  let d := h.delivery payload
  validate sha256 d
  return d

/-- How much of the file is the payload, by the header of `readHeader`. -/
def readStored (compressed : Bool) (h : Head) (c : Wire.Cursor) : Except String (Nat × Wire.Cursor) :=
  if compressed then do
    let (stored, c) ← Wire.readNat 4 c
    Check.failIf (stored = 0 ∨ h.size ≤ stored) "invalid compressed spool length"
    return (stored, c)
  else .ok (h.size, c)

/-- `readHeader`, of a file with the base name and the content. -/
def readHeader (base file : List UInt8) : Except String Candidate := do
  let (start, c) ← Wire.take 5 ⟨file, 0⟩
  Check.failIf (start ≠ magic ∧ start ≠ compressedMagic) "invalid spool header"
  let (h, c) ← readHeadWith readLabel c
  let (stored, c) ← readStored (start = compressedMagic) h c
  let pos := file.length - c.rest.length
  let d := h.delivery []
  Check.failIf (h.size = 0 ∨ maxPayload < h.size ∨ file.length ≠ pos + stored + 32 ∨
    d.generation = 0 ∨ d.codec = 0 ∨ d.members = 0 ∨
    ¬ d.minute.Equal (d.minute.truncate Time.minute)) "invalid spool envelope length"
  Check.failIf (base ≠ d.name sha256) "immutable storage content conflict"
  return { header := d, bytes := h.size }

end MarketInfo.Spool
