import MarketInfo.Lib.Framing
import MarketInfo.Keeper.Work
import MarketInfo.Keeper.Events

/-! # Canonical rows

Four encoders write a row by walking its type: `FactBytes` of the keeper, `Encoding` of the
bridge and of the reserves, and what `CanonicalHash` hashes. They share the walk and differ
in how each kind of value is spelled. Lengths are machine words, and what would not fit one
does not exist; nor does an instant whose microseconds would not.
-/

namespace MarketInfo.Preimage

open Json (Text intText)
open Wire (bigEndian signedBytes)
open Keeper (civil)

abbrev Bytes := List UInt8

/-- What reflection shows of the type of a row. A struct is its fields one after another. -/
inductive Shape
  | time
  | integer
  | decimal
  | text
  | bool
  | uint (kind : Text)
  | int (kind : Text)
  | pointer (elem : Shape)
  | list (kind : Text) (elem : Shape)
  | struct (name : Bytes) (fields : Shape)
  | none
  | field (name : Bytes) (first rest : Shape)

/-- The values of a type. Instants are nanoseconds of Unix time, and a list may be nil. -/
def Shape.Val : Shape → Type
  | time => Int
  | integer => Int
  | decimal => Decimal
  | text => Bytes
  | bool => Bool
  | uint _ => UInt64
  | int _ => Int64
  | pointer elem => Option elem.Val
  | list _ elem => Option (List elem.Val)
  | struct _ fields => fields.Val
  | none => Unit
  | field _ first rest => first.Val × rest.Val

/-- How an encoder spells the kinds of values and the marks between them. -/
structure Spelling where
  time : Int → Option Bytes
  integer : Int → Option Bytes
  decimal : Decimal → Option Bytes
  text : Bytes → Option Bytes
  bool : Bool → Option Bytes
  uint : Text → UInt64 → Option Bytes
  int : Text → Int64 → Option Bytes
  absent : Bytes
  present : Bytes
  count : Text → Nat → Option Bytes
  struct : Bytes → Bytes
  field : Bytes → Bytes

/-- The walk over a value. -/
def Spelling.encode (S : Spelling) : (s : Shape) → s.Val → Option Bytes
  | .time => S.time
  | .integer => S.integer
  | .decimal => S.decimal
  | .text => S.text
  | .bool => S.bool
  | .uint kind => S.uint kind
  | .int kind => S.int kind
  | .pointer elem => Framing.optional S.absent S.present (S.encode elem)
  | .list kind elem => fun vs => Framing.counted (S.count kind) (S.encode elem) (vs.getD [])
  | .struct name fields => fun v => (S.encode fields v).map (S.struct name ++ ·)
  | .none => fun _ => some []
  | .field name first rest =>
      Framing.pair (fun v => (S.encode first v).map (S.field name ++ ·)) (S.encode rest)

/-! ## Pieces -/

/-- Eight bytes of a length. -/
def length64 (n : Nat) : Option Bytes := if n < 256 ^ 8 then some (bigEndian 8 n) else none

def framed (b : Bytes) : Option Bytes := Framing.framed length64 b

/-- The bytes of a text, which is ASCII here. -/
def ascii (s : Text) : Bytes := s.map fun c => UInt8.ofNat c.toNat

def framedText (s : Text) : Option Bytes := framed (ascii s)

/-- `UnixMicro`. -/
def unixMicro (t : Int) : Int := t / 1000

def fits64 (n : Int) : Prop := -(2 ^ 63) ≤ n ∧ n < 2 ^ 63

instance (n : Int) : Decidable (fits64 n) := inferInstanceAs (Decidable (_ ∧ _))

def flag (b : Bool) : Bytes := [if b then 1 else 0]

/-! ## `FactBytes` -/

def lengthUvarint (n : Nat) : Option Bytes := if n < 256 ^ 8 then some (Keeper.Events.uvarint 10 n) else none

def factText (b : Bytes) : Option Bytes := Framing.framed lengthUvarint b

/-- A sign and the bytes of the magnitude. -/
def factInteger (n : Int) : Option Bytes :=
  (factText (Keeper.Events.magnitude n)).map (flag (decide (n < 0)) ++ ·)

/-- The coefficient with 18 places, cut off. -/
def shifted (d : Decimal) : Int :=
  if -18 ≤ d.exponent then d.coefficient * 10 ^ (d.exponent + 18).toNat
  else d.coefficient.tdiv (10 ^ (-18 - d.exponent).toNat)

/-- A decimal with more than 18 places is refused. -/
def factDecimal (d : Decimal) : Option Bytes :=
  if (⟨shifted d, -18⟩ : Decimal).value = d.value then factInteger (shifted d) else none

def factSpelling : Spelling where
  time := fun t => if fits64 (unixMicro t) then some (signedBytes 8 (unixMicro t)) else none
  integer := factInteger
  decimal := factDecimal
  text := factText
  bool := fun b => some (flag b)
  uint := fun _ n => some (bigEndian 8 n.toNat)
  int := fun _ n => some (signedBytes 8 n.toInt)
  absent := [0]
  present := [1]
  count := fun _ => length64
  struct := fun name => Keeper.Events.factText name
  field := fun name => Keeper.Events.factText name

def FactBytes (s : Shape) (v : s.Val) : Option Bytes :=
  (factSpelling.encode s v).map (ascii "jl-keeper-fact-v1\x00".toList ++ ·)

/-! ## `Encoding` -/

/-- A number in decimal, padded with zeros on the left. -/
def padded (width n : Nat) : Text := Keeper.padded width n

/-- The fraction of a second, without its last zeros. -/
def fraction (nanos : Nat) : Text :=
  let digits := ((padded 9 nanos).reverse.dropWhile (· = '0')).reverse
  if digits = [] then [] else '.' :: digits

/-- `time.RFC3339Nano`, in UTC. -/
def rfc3339Nano (t : Int) : Text :=
  let date := civil (t / 1000000000 / 86400)
  let clock := (t / 1000000000 % 86400).toNat
  (if date.1 < 0 then ['-'] else []) ++ padded 4 date.1.natAbs ++ '-' :: (padded 2 date.2.1 ++
    '-' :: (padded 2 date.2.2 ++ 'T' :: (padded 2 (clock / 3600) ++
      ':' :: (padded 2 (clock / 60 % 60) ++ ':' :: (padded 2 (clock % 60) ++
        (fraction (t % 1000000000).toNat ++ ['Z']))))))

def encodingSpelling : Spelling where
  time := fun t => framedText (rfc3339Nano t)
  integer := fun n => framedText (intText n)
  decimal := fun d => framedText d.stringFixed
  text := framed
  bool := fun b => some (flag b)
  uint := fun _ n => some (bigEndian 8 n.toNat)
  int := fun _ n => some (signedBytes 8 n.toInt)
  absent := [0]
  present := [1]
  count := fun _ => length64
  struct := fun _ => []
  field := fun _ => []

/-- `Encoding` of the bridge. -/
def Encoding (s : Shape) (v : s.Val) : Option Bytes := encodingSpelling.encode s v

/-- `Encoding` of the reserves, which has no decimals. -/
def reserveEncoding (s : Shape) (v : s.Val) : Option Bytes :=
  { encodingSpelling with decimal := fun _ => none }.encode s v

/-! ## `CanonicalHash` -/

/-- `decimal.Decimal.String`. -/
def decimalString (d : Decimal) : Text :=
  if 0 ≤ d.exponent then intText (d.coefficient * 10 ^ d.exponent.toNat)
  else
    let places := (-d.exponent).toNat
    let digits := padded (places + 1) d.coefficient.natAbs
    let tail := ((digits.drop (digits.length - places)).reverse.dropWhile (· = '0')).reverse
    (if d.coefficient < 0 then ['-'] else []) ++ digits.take (digits.length - places) ++
      (if tail = [] then [] else '.' :: tail)

def tagged (tag : String) (s : Text) : Option Bytes :=
  Framing.pair framedText framedText (tag.toList, s)

def canonicalSpelling : Spelling where
  time := fun t => tagged "time" (intText (unixMicro t))
  integer := fun n => tagged "integer" (intText n)
  decimal := fun d => tagged "decimal" (decimalString d)
  text := fun b => Framing.pair framedText framed ("string".toList, b)
  bool := fun b => Framing.pair framedText framed ("bool".toList, flag b)
  uint := fun kind n => Framing.pair framedText framedText (kind, Nat.toDigits 10 n.toNat)
  int := fun kind n => Framing.pair framedText framedText (kind, intText n.toInt)
  absent := (framedText "nil".toList).getD []
  present := (framedText "present".toList).getD []
  count := fun kind n => Framing.pair framedText framedText (kind, Nat.toDigits 10 n)
  struct := fun _ => (framedText "struct".toList).getD []
  field := fun name => (framed name).getD []

/-- What `CanonicalHash` hashes. -/
def canonicalPreimage (s : Shape) (v : s.Val) : Option Bytes := canonicalSpelling.encode s v

/-! ## What counts as one -/

/-- When two instants, two integers and two decimals count as one. -/
structure Alike where
  time : Int → Int → Prop
  decimal : Decimal → Decimal → Prop

def Alike.same (A : Alike) : (s : Shape) → s.Val → s.Val → Prop
  | .time => A.time
  | .integer => (· = ·)
  | .decimal => A.decimal
  | .text => (· = ·)
  | .bool => (· = ·)
  | .uint _ => (· = ·)
  | .int _ => (· = ·)
  | .pointer elem => Option.Rel (A.same elem)
  | .list _ elem => fun vs ws => List.Forall₂ (A.same elem) (vs.getD []) (ws.getD [])
  | .struct _ fields => A.same fields
  | .none => fun _ _ => True
  | .field _ first rest => fun v w => A.same first v.1 w.1 ∧ A.same rest v.2 w.2

end MarketInfo.Preimage
