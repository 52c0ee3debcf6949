import MarketInfo.Codec.Type
import MarketInfo.Lib.Wire
import MarketInfo.Model.Time

/-! # The value codec

`Encode` writes the bytes of a Go value under a column type, `Decode` reads them
back. A value is what reflection shows of it.
-/

namespace MarketInfo.Codec

open Wire (bigEndian ofBigEndian signedBytes ofSignedBytes Cursor Reading Sink)

/-- `decimal.Decimal`: a coefficient and a power of ten. -/
structure Decimal where
  coefficient : Int
  exponent : Int
deriving DecidableEq, Repr

/-- A Go value, by its kind. -/
inductive Value
  /-- A nil interface or pointer, the invalid `reflect.Value`. -/
  | null
  /-- A pointer to a value, or an interface that holds one. -/
  | ref (v : Value)
  | bool (b : Bool)
  | uint (n : UInt64)
  | uint8 (n : UInt8)
  | uint16 (n : UInt16)
  | uint32 (n : UInt32)
  | uint64 (n : UInt64)
  | int (n : Int64)
  | int8 (n : Int8)
  | int16 (n : Int16)
  | int32 (n : Int32)
  | int64 (n : Int64)
  | string (s : List UInt8)
  /-- A slice or an array with elements of kind `Uint8`. -/
  | bytes (s : List UInt8)
  /-- Any other slice or array. -/
  | list (elems : List Value)
  /-- A map whose keys have kind `String`. -/
  | dict (entries : List (List UInt8 × Value))
  /-- The fields of a struct, with their `ch` and `json` tags. -/
  | struct (fields : List ((List UInt8 × List UInt8) × Value))
  | bigInt (n : Int)
  | decimal (d : Decimal)
  | uuid (u : Vector UInt8 16)
  | time (t : Time)
  /-- A value of any other kind. -/
  | other

namespace Value

/-- `indirect`. -/
def indirect : Value → Value
  | ref v => v.indirect
  | v => v

/-- `v.Uint()`, for the kinds from `Uint` to `Uint64`. -/
def unsigned? : Value → Option UInt64
  | uint n => some n
  | uint8 n => some n.toUInt64
  | uint16 n => some n.toUInt64
  | uint32 n => some n.toUInt64
  | uint64 n => some n
  | _ => none

/-- `v.Int()`, for the kinds from `Int` to `Int64`. -/
def signed? : Value → Option Int64
  | int n => some n
  | int8 n => some n.toInt64
  | int16 n => some n.toInt64
  | int32 n => some n.toInt64
  | int64 n => some n
  | _ => none

/-- The elements of a slice or an array. A UUID is an array of bytes. -/
def elems? : Value → Option (List Value)
  | list elems => some elems
  | bytes s => some (s.map uint8)
  | uuid u => some (u.toList.map uint8)
  | _ => none

/-- The bytes of a string, or of a slice or an array of bytes. -/
def text? : Value → Option (List UInt8)
  | string s => some s
  | bytes s => some s
  | uuid u => some u.toList
  | _ => none

/-- A member of a named tuple: what a map has under the name, or the first field
that either tag names so. Structs of other packages carry no tags. -/
def member (name : List UInt8) : Value → Except String Value
  | dict entries =>
      match entries.find? fun e => e.1 = name with
      | some e => .ok e.2
      | none => .error "missing tuple field"
  | struct fields =>
      match fields.find? fun f => f.1.1 = name ∨ f.1.2 = name with
      | some f => .ok f.2
      | none => .error "missing tuple field"
  | bigInt _ | decimal _ | time _ => .error "missing tuple field"
  | _ => .error "expected named tuple"

end Value

/-! ## Scalars -/

/-- `d.Shift(18).BigInt()`: the integer part, rounded towards zero. -/
def Decimal.scaled (d : Decimal) : Int :=
  if 0 ≤ d.exponent + 18 then d.coefficient * 10 ^ (d.exponent + 18).toNat
  else d.coefficient.tdiv (10 ^ (-(d.exponent + 18)).toNat)

/-- `d.Shift(18).Equal(decimal.NewFromBigInt(n, 0))`. -/
def Decimal.ScaledEqual (d : Decimal) (n : Int) : Prop :=
  if 0 ≤ d.exponent + 18 then d.coefficient * 10 ^ (d.exponent + 18).toNat = n
  else d.coefficient = n * 10 ^ (-(d.exponent + 18)).toNat

instance (d : Decimal) (n : Int) : Decidable (d.ScaledEqual n) := by
  unfold Decimal.ScaledEqual
  exact inferInstance

/-- `DecimalCoefficient`. -/
def decimalCoefficient (d : Decimal) : Except String Int := do
  if d.coefficient = 0 then return 0
  Check.failIf (d.exponent < -4096 ∨ 38 < d.exponent ∨ 13600 < Nat.size d.coefficient.natAbs)
    "decimal representation exceeds bounded precision"
  let n := d.scaled
  Check.failIf (¬ d.ScaledEqual n) "decimal exceeds scale 18"
  Check.failIf (10 ^ 38 ≤ n.natAbs) "decimal exceeds precision 38"
  return n

/-- `unit`, in nanoseconds. -/
def Scale.unit : Scale → Int
  | .second => Time.second
  | .milli => Time.millisecond
  | .micro => Time.microsecond

/-- `ts.Unix()`, `ts.UnixMilli()` or `ts.UnixMicro()`. -/
def Scale.stamp (scale : Scale) (t : Time) : Int64 := Int64.ofInt (t.unixNano / scale.unit)

/-- The code of a name. -/
def EnumTable.code? (e : EnumTable) (name : List UInt8) : Option Int8 :=
  (e.entries.find? fun p => p.1 = name).map Prod.snd

/-- The name of a code. -/
def EnumTable.name? (e : EnumTable) (code : Int8) : Option (List UInt8) :=
  (e.entries.find? fun p => p.2 = code).map Prod.fst

/-! ## Writing -/

/-- What a scalar column writes of a value. -/
def scalarBytes : Ty → Value → Except String (List UInt8)
  | .bool, v =>
      match v with
      | .bool b => .ok [if b then 1 else 0]
      | _ => .error "expected bool"
  | .uint width, v =>
      match v.unsigned? with
      | none => .error "expected unsigned integer"
      | some n =>
          if width.size < 8 ∧ 2 ^ (8 * width.size) - 1 < n.toNat then .error "unsigned overflow"
          else .ok (bigEndian width.size n.toNat)
  | .int32, v =>
      match v.signed? with
      | none => .error "expected signed integer"
      | some n =>
          if n.toInt < -2 ^ 31 ∨ 2 ^ 31 - 1 < n.toInt then .error "signed overflow"
          else .ok (signedBytes 4 n.toInt)
  | .int64, v =>
      match v.signed? with
      | none => .error "expected signed integer"
      | some n => .ok (signedBytes 8 n.toInt)
  | .uint256, v =>
      match v with
      | .bigInt n =>
          if n < 0 ∨ 256 < Nat.size n.natAbs then .error "UInt256 out of range"
          else .ok (bigEndian 32 n.toNat)
      | _ => .error "expected big.Int"
  | .decimal, v =>
      match v with
      | .decimal d => do
          let s ← decimalCoefficient d
          return signedBytes 16 s
      | _ => .error "expected decimal.Decimal"
  | .uuid, v =>
      match v with
      | .uuid u => .ok u.toList
      | _ => .error "expected UUID"
  | .enum8 enums, v =>
      match v with
      | .string s =>
          match enums.code? s with
          | none => .error "unknown enum value"
          | some code => .ok (signedBytes 1 code.toInt)
      | _ => .error "expected named enum"
  | .dateTime scale, v =>
      match v with
      | .time t => do
          Check.failIf t.IsZero "expected timestamp"
          Check.failIf (t.nanosecond % scale.unit ≠ 0) "timestamp precision loss"
          Check.failIf (¬ t.YearInRange) "timestamp range"
          return signedBytes 8 (scale.stamp t).toInt
      | _ => .error "expected timestamp"
  | _, _ => .error "unsupported type"

/-- The cases `String` and `FixedString` of `writeValue`. -/
def writeText (t : Ty) (a : List UInt8) (s : Sink) : Except String Sink := do
  let s ←
    match t with
    | .fixedString size => do
        Check.failIf (a.length ≠ size) "fixed length"
        pure s
    | _ => do
        Check.failIf (maxBytes < a.length) "string length limit"
        pure (s.write (bigEndian 4 a.length))
  Check.failIf (maxBytes < s.out.length + a.length) "byte limit"
  return s.write a

/-- The loop over the elements of an array. -/
def writeAll (write : Value → Sink → Except String Sink) (i : Nat) :
    List Value → Sink → Except String Sink
  | [], s => .ok s
  | v :: rest, s => do
      let s ← Check.wrap ("element " ++ toString i) (write v s)
      writeAll write (i + 1) rest s

/-- A name as the errors show it. -/
def nameText (name : List UInt8) : String := String.ofList (name.map fun b => Char.ofNat b.toNat)

mutual

/-- `writeValue`. -/
def writeValue : Ty → Value → Sink → Except String Sink
  | .nullable child, v, s =>
      if maxBytes < s.out.length then .error "value exceeds byte limit"
      else
        match v.indirect with
        | .null => .ok (s.write [0])
        | v => writeValue child v (s.write [1])
  | .lowCardinality child, v, s =>
      if maxBytes < s.out.length then .error "value exceeds byte limit"
      else
        match v.indirect with
        | .null => .error "NULL for LowCardinality"
        | v => writeValue child v s
  | .array child, v, s =>
      if maxBytes < s.out.length then .error "value exceeds byte limit"
      else
        match v.indirect with
        | .null => .error "NULL for Array"
        | v =>
            match v.elems? with
            | none => .error "expected array"
            | some elems =>
                if s.budget < elems.length then .error "array element limit"
                else
                  writeAll (writeValue child) 0 elems
                    { s with budget := s.budget - elems.length, out := s.out ++ bigEndian 4 elems.length }
  | .tuple fields, v, s =>
      if maxBytes < s.out.length then .error "value exceeds byte limit"
      else
        match v.indirect with
        | .null => .error "NULL for Tuple"
        | v => writeFields fields v s
  | .string, v, s =>
      if maxBytes < s.out.length then .error "value exceeds byte limit"
      else
        match v.indirect with
        | .null => .error "NULL for String"
        | v =>
            match v.text? with
            | none => .error "expected bytes or string"
            | some a => writeText .string a s
  | .fixedString size, v, s =>
      if maxBytes < s.out.length then .error "value exceeds byte limit"
      else
        match v.indirect with
        | .null => .error "NULL for FixedString"
        | v =>
            match v.text? with
            | none => .error "expected bytes or string"
            | some a => writeText (.fixedString size) a s
  | t, v, s =>
      if maxBytes < s.out.length then .error "value exceeds byte limit"
      else
        match v.indirect with
        | .null => .error ("NULL for " ++ t.name)
        | v => s.write <$> scalarBytes t v

/-- The loop over the fields of a tuple. -/
def writeFields : Fields → Value → Sink → Except String Sink
  | .nil, _, s => .ok s
  | .cons name child rest, v, s => do
      let f ← v.member name
      let s ← Check.wrap (nameText name) (writeValue child f s)
      writeFields rest v s

end

/-- `encode`. -/
def encodeWith (t : Ty) (tag : Vector UInt8 16) (v : Value) (limit : Nat) :
    Except String (List UInt8) := do
  let s ← writeValue t v { out := 1 :: tag.toList, budget := limit }
  Check.failIf (maxBytes < s.out.length) "encoded value exceeds byte limit"
  return s.out

/-- `Encode`. -/
def Encode (t : Ty × Vector UInt8 16) (v : Value) : Except String (List UInt8) :=
  encodeWith t.1 t.2 v maxElements

/-! ## Reading -/

/-- The local time zone of the process: seconds east of UTC at each Unix second,
read from a zone file, where an offset is a 32-bit number. -/
structure Zone where
  offset : Int → Int
  offset_le : ∀ s, -2 ^ 31 ≤ offset s ∧ offset s < 2 ^ 31

/-- `t.Local()`. -/
def Zone.local (zone : Zone) (t : Time) : Time := { t with offset := zone.offset t.unix }

/-- The value that an unsigned column reads. -/
def Width.value (width : Width) (n : Nat) : Value :=
  match width with
  | .one => .uint8 (UInt8.ofNat n)
  | .two => .uint16 (UInt16.ofNat n)
  | .four => .uint32 (UInt32.ofNat n)
  | .eight => .uint64 (UInt64.ofNat n)

/-- What a scalar column reads. -/
def readScalar (zone : Zone) : Ty → Reading Value
  | .bool => do
      let n ← Wire.readNat 1
      Wire.failIf (1 < n) "invalid bool"
      return .bool (n = 1)
  | .uint width => width.value <$> Wire.readNat width.size
  | .int32 => (fun a => .int32 (Int32.ofInt (ofSignedBytes a))) <$> Wire.take 4
  | .int64 => (fun a => .int64 (Int64.ofInt (ofSignedBytes a))) <$> Wire.take 8
  | .uint256 => (fun n : Nat => .bigInt n) <$> Wire.readNat 32
  | .decimal => do
      let a ← Wire.take 16
      let d : Decimal := ⟨ofSignedBytes a, -18⟩
      match decimalCoefficient d with
      | .error e => Wire.fail e
      | .ok _ => return .decimal d
  | .string => do
      let size ← Wire.readNat 4
      Wire.failIf (maxBytes < size) "string limit"
      Value.string <$> Wire.take size
  | .fixedString size => Value.string <$> Wire.take size
  | .uuid => do
      let a ← Wire.take 16
      if h : a.length = 16 then return .uuid ⟨a.toArray, by simp [h]⟩
      else Wire.fail "invalid UUID"
  | .enum8 enums => do
      let a ← Wire.take 1
      match enums.name? (Int8.ofInt (ofSignedBytes a)) with
      | none => Wire.fail "invalid enum code"
      | some name => return .string name
  | .dateTime scale => do
      let a ← Wire.take 8
      let t : Time := ⟨ofSignedBytes a * scale.unit, 0⟩
      Wire.failIf (¬ (zone.local t).YearInRange) "timestamp range"
      return .time (zone.local t).utc
  | _ => Wire.fail "unsupported type"

mutual

/-- `readValue`. -/
def readValue (zone : Zone) : Ty → Reading Value
  | .nullable child => do
      let n ← Wire.readNat 1
      if n = 0 then return .null
      Wire.failIf (n ≠ 1) "invalid NULL marker"
      readValue zone child
  | .lowCardinality child => readValue zone child
  | .array child => do
      let n ← Wire.count (minimumSize child)
      Value.list <$> Wire.many (readValue zone child) n
  | .tuple fields => Value.dict <$> readFields zone fields
  | t => readScalar zone t

/-- The loop over the fields of a tuple; the map it fills is listed in field order. -/
def readFields (zone : Zone) : Fields → Reading (List (List UInt8 × Value))
  | .nil => return []
  | .cons name child rest => do
      let v ← readValue zone child
      let entries ← readFields zone rest
      return (name, v) :: entries

end

/-- `decode`. -/
def decodeWith (zone : Zone) (t : Ty) (tag : Vector UInt8 16) (data : List UInt8) (limit : Nat) :
    Except String Value := do
  Check.failIf (data.length < 17 ∨ maxBytes < data.length ∨ data.take 17 ≠ 1 :: tag.toList)
    "invalid codec header"
  let (v, c) ← readValue zone t ⟨data.drop 17, limit⟩
  Check.failIf (c.rest.length ≠ 0) "trailing bytes"
  return v

/-- `Decode`. -/
def Decode (zone : Zone) (t : Ty × Vector UInt8 16) (data : List UInt8) : Except String Value :=
  decodeWith zone t.1 t.2 data maxElements

end MarketInfo.Codec
