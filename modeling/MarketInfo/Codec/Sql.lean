import MarketInfo.Codec.Value
import MarketInfo.Model.Decimal

/-! # Columns of the database

`SQLValue` is what a value is sent to the server as, `FromSQL` what is made of a cell that
the driver hands back. The wrappers are taken off one by one; arrays and tuples go as the
bytes of the codec.
-/

namespace MarketInfo.Codec

open Json (Text intText)
open Wire (bigEndian ofBigEndian)

/-- A cell: what is sent to the driver, and what it hands back. -/
inductive SqlValue
  | null
  | bytes (a : List UInt8)
  /-- A Go string. -/
  | string (s : List UInt8)
  | int64 (n : Int64)
  | uint64 (n : UInt64)
  | bool (b : Bool)
  | time (t : Time)
deriving DecidableEq

/-- What is not read here: the local clock, the hash, `decimal.NewFromString`, and the texts of
a column's type and of the types that it wraps. -/
structure SqlColumn where
  zone : Zone
  sha256 : List Char → Vector UInt8 32
  newFromString : Text → Except String MarketInfo.Decimal
  text : Ty → List Char

/-- The type of the column or one that it wraps, with its `Tag`. -/
def SqlColumn.tagged (c : SqlColumn) (t : Ty) : Ty × Vector UInt8 16 := (t, (c.sha256 (c.text t)).take 16)

/-! ## Texts of numbers -/

/-- An ASCII text of its bytes. -/
def asciiText (a : List UInt8) : Text := a.map fun b => Char.ofNat b.toNat

/-- `strconv.ParseUint(s, 10, bits)`. -/
def parseUint (s : List UInt8) (bits : Nat) : Except String Nat :=
  match digits (asciiText s) with
  | none => .error "invalid syntax"
  | some n => if n < 2 ^ bits then .ok n else .error "value out of range"

/-- `strconv.ParseInt(s, 10, bits)`. -/
def parseInt (s : List UInt8) (bits : Nat) : Except String Int :=
  match atoi (asciiText s) with
  | none => .error "invalid syntax"
  | some n => if -2 ^ (bits - 1) ≤ n ∧ n < 2 ^ (bits - 1) then .ok n else .error "value out of range"

/-- `StringFixed(18)`. -/
def Decimal.stringFixed (d : Decimal) : Text := MarketInfo.Decimal.stringFixed ⟨d.coefficient, d.exponent⟩

/-! ## To the server -/

/-- A value of a type that wraps none. The codec has written it, so that it has a kind of the type. -/
def sqlScalar : Ty → Value → Except String SqlValue
  | .uint256, .bigInt n => .ok (.bytes (bigEndian 32 n.toNat))
  | .decimal, .decimal d => .ok (.string (asciiBytes d.stringFixed))
  | .uuid, .uuid u => .ok (.bytes u.toList)
  | .enum8 enums, .string s => .ok (.int64 ((enums.code? s).getD 0).toInt64)
  | .bool, .bool b => .ok (.bool b)
  | .string, v | .fixedString _, v =>
      match v.text? with
      | some a => .ok (.bytes a)
      | none => .error "expected bytes or string"
  | .dateTime _, .time t => .ok (.time t.utc)
  | .uint _, v =>
      match v.unsigned? with
      | some n => .ok (.uint64 n)
      | none => .error "expected unsigned integer"
  | .int32, v | .int64, v =>
      match v.signed? with
      | some n => .ok (.int64 n)
      | none => .error "expected signed integer"
  | _, _ => .error "unsupported SQL type"

variable (c : SqlColumn)

/-- `SQLValue`. -/
def SQLValue : Ty → Value → Except String SqlValue
  | .nullable child, v => do
      let _ ← Encode (c.tagged (.nullable child)) v
      match v.indirect with
      | .null => return .null
      | v => SQLValue child v
  | .lowCardinality child, v => do
      let _ ← Encode (c.tagged (.lowCardinality child)) v
      SQLValue child v.indirect
  | .array child, v => do
      let _ ← Encode (c.tagged (.array child)) v
      SqlValue.bytes <$> Encode (c.tagged (.array child)) v
  | .tuple fields, v => do
      let _ ← Encode (c.tagged (.tuple fields)) v
      SqlValue.bytes <$> Encode (c.tagged (.tuple fields)) v
  | t, v => do
      let _ ← Encode (c.tagged t) v
      sqlScalar t v.indirect

/-! ## From the server -/

/-- The bytes of a cell, or the digits of a number. -/
def SqlValue.s : SqlValue → List UInt8
  | .bytes a => a
  | .string s => s
  | .int64 n => asciiBytes (intText n.toInt)
  | .uint64 n => asciiBytes (Nat.toDigits 10 n.toNat)
  | _ => []

theorem size_of_uuid {a : List UInt8} (h : a.length = 16) : a.toArray.size = 16 := by
  rw [List.size_toArray, h]

/-- A cell of a type that wraps none. -/
def fromScalar : Ty → SqlValue → Except String Value
  | .string, x | .fixedString _, x => .ok (.string x.s)
  | .uuid, x =>
      match x with
      | .bytes a =>
          if h : a.length = 16 then .ok (.uuid ⟨a.toArray, size_of_uuid h⟩) else .error "invalid UUID bytes"
      | _ => .error "invalid UUID bytes"
  | .uint256, x =>
      match x with
      | .bytes a => if a.length = 32 then .ok (.bigInt (ofBigEndian a)) else .error "invalid UInt256 bytes"
      | _ => .error "invalid UInt256 bytes"
  | .decimal, x => do
      let d ← c.newFromString (asciiText x.s)
      return .decimal ⟨d.coefficient, d.exponent⟩
  | .bool, x =>
      match parseUint x.s 8 with
      | .error _ => .error "invalid SQL bool"
      | .ok n => if 1 < n then .error "invalid SQL bool" else .ok (.bool (n = 1))
  | .enum8 enums, x => do
      let n ← parseInt x.s 8
      match enums.name? (Int8.ofInt n) with
      | some name => return .string name
      | none => .error "invalid SQL enum"
  | .uint width, x => do
      let n ← parseUint x.s (8 * width.size)
      return width.value n
  | .int32, x => do
      let n ← parseInt x.s 32
      return .int32 (Int32.ofInt n)
  | .int64, x => do
      let n ← parseInt x.s 64
      return .int64 (Int64.ofInt n)
  | .dateTime _, x =>
      match x with
      | .time t => .ok (.time t.utc)
      | _ => .error "timestamp not parsed"
  | _, _ => .error "unsupported SQL type"

/-- A cell of an array or of a tuple. -/
def fromBlob (t : Ty) : SqlValue → Except String Value
  | .bytes a => Decode c.zone (c.tagged t) a
  | _ => .error "expected BLOB"

/-- What only a nullable column may be. -/
def refuseNull (t : Ty) (x : SqlValue) : Except String Unit :=
  Check.failIf (x = .null) ("unexpected SQL NULL for " ++ String.ofList (c.text t))

/-- `FromSQL`. -/
def FromSQL : Ty → SqlValue → Except String Value
  | .nullable child, x => if x = .null then .ok .null else FromSQL child x
  | .lowCardinality child, x => do
      refuseNull c (.lowCardinality child) x
      FromSQL child x
  | .array child, x => do
      refuseNull c (.array child) x
      fromBlob c (.array child) x
  | .tuple fields, x => do
      refuseNull c (.tuple fields) x
      fromBlob c (.tuple fields) x
  | t, x => do
      refuseNull c t x
      let out ← fromScalar c t x
      let _ ← Encode (c.tagged t) out
      return out

/-! ## Between the two -/

/-- The integer that a cell stands for. -/
def SqlValue.integer? : SqlValue → Option Int
  | .int64 n => some n.toInt
  | .uint64 n => some n.toNat
  | .bool b => some (if b then 1 else 0)
  | _ => none

/-- A cell that shows an integer: a Go integer, or its digits. -/
inductive ShowsInteger (n : Int) : SqlValue → Prop
  | int64 {m : Int64} : m.toInt = n → ShowsInteger n (.int64 m)
  | uint64 {m : UInt64} : (m.toNat : Int) = n → ShowsInteger n (.uint64 m)
  | bytes : ShowsInteger n (.bytes (asciiBytes (intText n)))
  | string : ShowsInteger n (.string (asciiBytes (intText n)))

/-- What the driver may hand back for what was sent: integers, byte strings, instants in whole
microseconds and the texts of decimals are kept. -/
inductive Returns : SqlValue → SqlValue → Prop
  | null : Returns .null .null
  | bytes (a : List UInt8) : Returns (.bytes a) (.bytes a)
  | decimalBytes (s : List UInt8) : Returns (.string s) (.bytes s)
  | decimalText (s : List UInt8) : Returns (.string s) (.string s)
  | integer {x y : SqlValue} {n : Int} : x.integer? = some n → ShowsInteger n y → Returns x y
  | time (t : Time) : Returns (.time t) (.time ⟨t.unixNano - t.unixNano % Time.microsecond, 0⟩)

end MarketInfo.Codec
