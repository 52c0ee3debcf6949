import MarketInfo.Lib.Check
import MarketInfo.Lib.RunLength

/-! # Compact option columns

`compactInsertValues` writes sixty values of a column as the positions at which they
change and the values there; times are written as distances from the minute and hex
digests as their bytes. `expandAliases` rebuilds the columns of a record that was
read back. An index outside a slice and a failed type assertion, which would stop the
program, are errors of their own.
-/

namespace MarketInfo.Mysql.Compact

abbrev Bytes := List UInt8

/-! ## Values -/

/-- A `time.Time`: its instant in nanoseconds of Unix time, and how it is represented
(its location and clock readings; zero is UTC). -/
structure GoTime where
  nanos : Int
  form : Nat
deriving DecidableEq, Repr

/-- `UnixMicro`. -/
def GoTime.unixMicro (t : GoTime) : Int64 := Int64.ofInt (t.nanos / 1000)

/-- `time.UnixMicro(n).UTC()`. -/
def GoTime.ofMicro (n : Int64) : GoTime := ⟨n.toInt * 1000, 0⟩

/-- One scalar value, as it stands in a slice. -/
inductive Cell where
  | null
  | time (t : GoTime)
  | text (b : Bytes)
  | int64 (n : Int64)
  | uint8 (n : UInt8)
  | uint64 (n : UInt64)
  | uuid (b : Bytes)
deriving DecidableEq, Repr

/-- A value of a row to be written. -/
inductive Value where
  | cell (c : Cell)
  /-- `[]*time.Time`. -/
  | times (ts : List (Option GoTime))
  /-- `[]*string`. -/
  | digests (ss : List (Option Bytes))
  /-- `[]string`. -/
  | texts (ss : List Bytes)
  /-- A slice of any other type. -/
  | slice (cs : List Cell)
deriving DecidableEq, Repr

/-- The elements of a slice. -/
def Value.slots : Value → Option (List Cell)
  | .cell _ => none
  | .times ts => some (ts.map fun t => t.elim .null .time)
  | .digests ss => some (ss.map fun s => s.elim .null .text)
  | .texts ss => some (ss.map .text)
  | .slice cs => some cs

/-- A value of a compact row. -/
inductive Physical where
  | plain (v : Value)
  | text (b : Bytes)
  | texts (bs : List Bytes)
  | offsets (ns : List UInt8)
  | diffs (ds : List (Option Int64))
  | digests (bs : List (Option Bytes))
  | cells (cs : List Cell)
deriving DecidableEq, Repr

/-- A value of a record: a scalar or a list. -/
inductive Stored where
  | cell (c : Cell)
  | list (cs : List Cell)
deriving DecidableEq, Repr

/-- What is read back of a value that was stored. -/
def Physical.read : Physical → Stored
  | .plain (.cell c) => .cell c
  | .plain v => .list (v.slots.getD [])
  | .text b => .cell (.text b)
  | .texts bs => .list (bs.map .text)
  | .offsets ns => .list (ns.map .uint8)
  | .diffs ds => .list (ds.map fun d => d.elim .null .int64)
  | .digests bs => .list (bs.map fun b => b.elim .null .text)
  | .cells cs => .list cs

/-! ## Fields -/

inductive Kind where
  | hex
  | rle
  | time
  | rlehex
  | hexarray
deriving DecidableEq, Repr

structure CompactField where
  name : String
  kind : Kind
deriving DecidableEq, Repr

def optionCompactFields (table : String) : List CompactField :=
  if table = "derivative_book_quality_minute" ∨ table = "derivative_book_quality_minute_v2" then
    [⟨"batch_id", .hex⟩, ⟨"row_hash", .hex⟩, ⟨"source_times", .time⟩, ⟨"received_times", .time⟩,
      ⟨"captured_times", .time⟩, ⟨"last_snapshot_times", .time⟩,
      ⟨"connection_confirmed_times", .time⟩, ⟨"rule_published_times", .time⟩,
      ⟨"market_state_times", .time⟩, ⟨"connection_epochs", .rle⟩, ⟨"change_ids", .rle⟩,
      ⟨"trading_rule_ids", .rlehex⟩, ⟨"market_state_bases", .rle⟩, ⟨"reasons", .rle⟩,
      ⟨"bid_level_counts", .rle⟩, ⟨"ask_level_counts", .rle⟩]
  else if table = "options_catalog_quality_evidence_minute" then
    [⟨"batch_id", .hex⟩, ⟨"row_hash", .hex⟩, ⟨"state_ids", .rle⟩, ⟨"rule_observation_ids", .rle⟩,
      ⟨"platform_ids", .rle⟩, ⟨"maintenance_ids", .rle⟩, ⟨"lock_ids", .rle⟩, ⟨"state_kinds", .rle⟩,
      ⟨"lifecycle_epochs", .rle⟩, ⟨"lifecycle_confirmed", .time⟩]
  else if table = "derivative_book_foundation_commit" then
    [⟨"batch_id", .hex⟩, ⟨"member_hashes", .hexarray⟩]
  else if table = "options_live_minute_commit" then
    [⟨"batch_id", .hex⟩, ⟨"run_hash", .hex⟩, ⟨"member_hashes", .hexarray⟩,
      ⟨"index_hashes", .hexarray⟩]
  else if table = "options_catalog_live_minute_commit" then
    [⟨"batch_id", .hex⟩, ⟨"run_hash", .hex⟩, ⟨"plan_hash", .hex⟩, ⟨"member_hashes", .hexarray⟩,
      ⟨"index_hashes", .hexarray⟩, ⟨"evidence_hashes", .hexarray⟩]
  else []

def compactFieldMap (table name : String) : Option CompactField :=
  (optionCompactFields table).find? fun f => decide (f.name = name)

def CompactField.offsetsName (f : CompactField) : String := "compact_" ++ f.name ++ "_offsets"

def CompactField.valuesName (f : CompactField) : String := "compact_" ++ f.name ++ "_values"

def CompactField.digestName (f : CompactField) : String := "compact_" ++ f.name

/-- A digest, or a list of them, has one column. -/
def CompactField.single (f : CompactField) : Bool := decide (f.kind = .hex ∨ f.kind = .hexarray)

def CompactField.physicalNames (f : CompactField) : List String :=
  if f.single then [f.digestName] else [f.offsetsName, f.valuesName]

/-! ## Digests -/

def hexDigit (n : UInt8) : UInt8 := if n < 10 then 48 + n else 87 + n

/-- `hex.EncodeToString`. -/
def hexEncode (b : Bytes) : Bytes := b.flatMap fun x => [hexDigit (x / 16), hexDigit (x % 16)]

def hexValue (c : UInt8) : Option UInt8 :=
  if 48 ≤ c ∧ c ≤ 57 then some (c - 48)
  else if 97 ≤ c ∧ c ≤ 102 then some (c - 87)
  else if 65 ≤ c ∧ c ≤ 70 then some (c - 55)
  else none

/-- `hex.DecodeString`. -/
def hexDecode : Bytes → Option Bytes
  | [] => some []
  | [_] => none
  | a :: b :: rest => do
      let high ← hexValue a
      let low ← hexValue b
      let tail ← hexDecode rest
      pure ((high * 16 + low) :: tail)

def compactBinaryDigest (s : Bytes) : Except String Bytes :=
  if s.length ≠ 64 then .error "invalid compact digest length"
  else match hexDecode s with
    | none => .error "invalid compact digest"
    | some b => if hexEncode b = s then .ok b else .error "invalid compact digest"

/-! ## Writing -/

/-- One timestamp as its distance from the minute. -/
def compactTime (minute : GoTime) : Cell → Except String (Option Int64)
  | .time t =>
      if t.nanos % 1000 ≠ 0 then .error "timestamp precision exceeds microseconds"
      else .ok (some (t.unixMicro - minute.unixMicro))
  | _ => .ok none

def compactNullableDigest : Cell → Except String (Option Bytes)
  | .text s => (compactBinaryDigest s).map some
  | _ => .ok none

def compactArray (f : CompactField) (input : Value) (minute : GoTime) :
    Except String (List UInt8 × Physical) :=
  match input.slots with
  | none => .error (f.name ++ " requires 60 slots")
  | some xs =>
      if xs.length ≠ 60 then .error (f.name ++ " requires 60 slots")
      else
        let indices := RunLength.starts xs
        let offsets := indices.map UInt8.ofNat
        let values := indices.map fun i => (xs[i]?).getD .null
        match f.kind, input with
        | .time, .times _ => (values.mapM (compactTime minute)).map fun ds => (offsets, .diffs ds)
        | .time, _ => .error (f.name ++ " requires nullable timestamps")
        | .rlehex, .digests _ => (values.mapM compactNullableDigest).map fun bs => (offsets, .digests bs)
        | .rlehex, _ => .error (f.name ++ " requires nullable digests")
        | _, _ => .ok (offsets, .cells values)

/-- The compact values of one column. -/
def compactColumn (f : CompactField) (minute : GoTime) (v : Value) : Except String (List Physical) :=
  match f.kind with
  | .hex =>
      match v with
      | .cell (.text s) => (compactBinaryDigest s).map fun x => [.text x]
      | _ => .error "compact digest must be string"
  | .hexarray =>
      match v with
      | .texts ss => (ss.mapM compactBinaryDigest).map fun xs => [.texts xs]
      | _ => .error "compact digest array must be strings"
  | _ => (compactArray f v minute).map fun out => [.offsets out.1, out.2]

/-- `strings.TrimSpace`. -/
def trimSpace (s : String) : String :=
  let space := fun c : Char => decide (c = ' ' ∨ c = '\t' ∨ c = '\n' ∨ c = '\r')
  String.ofList (((s.toList.dropWhile space).reverse.dropWhile space).reverse)

/-- The column names of the statement. -/
def columnNames (columns : String) : List String :=
  (columns.toList.splitOn ',').map fun name => trimSpace (String.ofList name)

/-- The compact columns of one column. -/
def outputNames (table name : String) : List String :=
  match compactFieldMap table name with
  | some f => f.physicalNames
  | none => [name]

/-- The minute of a row, when the statement has one; a zero time otherwise. -/
def rowMinute (cols : List String) (row : List Value) : Except String GoTime :=
  match (cols.zip row).reverse.find? fun c => decide (c.1 = "minute_time") with
  | some (_, .cell (.time t)) => .ok t
  | some _ => .error "compact minute must be timestamp"
  | none => .ok ⟨-62135596800000000000, 0⟩

def outputValues (table : String) (minute : GoTime) (column : String × Value) :
    Except String (List Physical) :=
  match compactFieldMap table column.1 with
  | none => .ok [.plain column.2]
  | some f => compactColumn f minute column.2

def compactRow (table : String) (cols : List String) (row : List Value) :
    Except String (List Physical) :=
  if row.length ≠ cols.length then .error "compact row width mismatch"
  else do
    let minute ← rowMinute cols row
    let values ← (cols.zip row).mapM (outputValues table minute)
    pure values.flatten

/-- The compact columns, and the compact values of each row. -/
def compactInsertValues (table columns : String) (rows : List (List Value)) :
    Except String (List String × List (List Physical)) :=
  let cols := columnNames columns
  (rows.mapM (compactRow table cols)).map fun output => (cols.flatMap (outputNames table), output)

/-! ## Reading -/

/-- A record read from a table. -/
abbrev Record := String → Option Stored

/-- What is read back of a row that was stored. -/
def storedRecord (names : List String) (row : List Physical) : Record := fun name =>
  ((names.zip row).find? fun c => decide (c.1 = name)).map fun c => c.2.read

inductive ExpandError where
  | refused (message : String)
  /-- An index outside a slice. -/
  | outOfRange
  /-- `r["minute_time"].(time.Time)`. -/
  | noMinute
deriving DecidableEq, Repr

/-- `start`, checked. -/
def runStart (i : Nat) : Cell → Except ExpandError Nat
  | .uint8 start =>
      if 59 < start ∨ (i = 0 ∧ start ≠ 0) then .error (.refused "compact offset") else .ok start.toNat
  | _ => .error (.refused "compact offset")

/-- `end`: the next offset, checked, or sixty. -/
def runEnd (start : Nat) : Option Cell → Except ExpandError Nat
  | none => .ok 60
  | some (.uint8 stop) =>
      if stop.toNat ≤ start ∨ 59 < stop then .error (.refused "compact offsets not increasing")
      else .ok stop.toNat
  | some _ => .error (.refused "compact offsets not increasing")

/-- A stored value as a value of the column. -/
def expandValue (kind : Kind) (r : Record) (x : Cell) : Except ExpandError Cell :=
  if x = .null then .ok x
  else match kind with
    | .time =>
        match r "minute_time" with
        | some (.cell (.time minute)) =>
            let base := minute.unixMicro
            match x with
            | .int64 offset =>
                if (0 < offset ∧ Int64.maxValue - offset < base) ∨
                    (offset < 0 ∧ base < Int64.minValue - offset) then
                  .error (.refused "compact time overflow")
                else .ok (.time (GoTime.ofMicro (base + offset)))
            | _ => .error (.refused "compact time overflow")
        | _ => .error .noMinute
    | .rlehex =>
        match x with
        | .text s =>
            if s.length ≠ 32 then .error (.refused "compact nullable hash width")
            else .ok (.text (hexEncode s))
        | _ => .error (.refused "compact nullable hash width")
    | _ => .ok x

/-- `for second := start; second < end; second++ { out[second] = x }`, `count` times. -/
def writeSlots (x : Cell) : Nat → Nat → List Cell → Except ExpandError (List Cell)
  | 0, _, out => .ok out
  | count + 1, second, out =>
      if second < out.length then writeSlots x count (second + 1) (out.set second x)
      else .error .outOfRange

/-- The loop over the offsets, at position `i`. -/
def expandRuns (kind : Kind) (r : Record) (values : List Cell) :
    Nat → List Cell → List Cell → Except ExpandError (List Cell)
  | _, [], out => .ok out
  | i, o :: rest, out => do
      let start ← runStart i o
      let stop ← runEnd start rest.head?
      let stored ← (values[i]?).elim (.error .outOfRange) .ok
      let x ← expandValue kind r stored
      let out ← writeSlots x (stop - start) start out
      expandRuns kind r values (i + 1) rest out

/-- One compact digest. -/
def expandDigest : Cell → Except ExpandError Cell
  | .text s =>
      if s.length ≠ 32 then .error (.refused "compact hash width") else .ok (.text (hexEncode s))
  | _ => .error (.refused "compact hash width")

/-- The sixty values of a column from its offsets and values. -/
def expandColumn (f : CompactField) (r : Record) : Except ExpandError (List Cell) :=
  match r f.offsetsName with
  | some (.list offsets) =>
      match r f.valuesName with
      | some (.list values) =>
          if offsets.length ≠ values.length ∨ offsets.length = 0 ∨ 60 < offsets.length then
            .error (.refused "compact array lengths")
          else expandRuns f.kind r values 0 offsets (List.replicate 60 .null)
      | _ => .error (.refused "compact array lengths")
  | some _ => .error (.refused "compact offsets type")
  | none => .error (.refused "compact physical column missing")

/-- What a field is expanded to. -/
def expandField (f : CompactField) (r : Record) : Except ExpandError Stored :=
  match f.kind with
  | .hex =>
      match r f.digestName with
      | some (.cell c) => (expandDigest c).map .cell
      | some _ => .error (.refused "compact hash width")
      | none => .error (.refused "compact physical column missing")
  | .hexarray =>
      match r f.digestName with
      | some (.list cs) => (cs.mapM expandDigest).map .list
      | some _ => .error (.refused "compact hash array")
      | none => .error (.refused "compact physical column missing")
  | _ => (expandColumn f r).map .list

/-- The loop of `expandAliases`: each field is set in the record. -/
def expandFields : List CompactField → Record → Except ExpandError Record
  | [], r => .ok r
  | f :: rest, r => do
      let v ← expandField f r
      expandFields rest (Function.update r f.name (some v))

def expandAliases (table : String) (r : Record) : Except ExpandError Record :=
  expandFields (optionCompactFields table) r

end MarketInfo.Mysql.Compact
