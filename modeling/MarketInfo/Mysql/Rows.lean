import MarketInfo.Codec.Value
import MarketInfo.Lib.Check

/-! # Rows of immutable tables

A record gives a value for each column of its table, and rows are compared by
digests of what the codec writes of their columns. `putImmutable` writes one row:
one that is stored already with the same content is left alone, one with another
content is a conflict.
-/

namespace MarketInfo.Mysql.Rows

open Codec Wire

abbrev Digest := Vector UInt8 32

structure Column where
  name : String
  type : Ty × Vector UInt8 16

/-- A table of the catalogue. `few` is the server's limit on columns. -/
structure Table where
  name : String
  key : List String
  hashedKey : Bool
  multiplicity : Bool
  columns : List Column
  nodup : (columns.map Column.name).Nodup
  few : columns.length ≤ 4096

/-- The columns of the key, each name by the first column that has it. -/
def Table.keyColumns (t : Table) : List Column :=
  t.key.filterMap fun name => t.columns.find? fun c => c.name == name

abbrev Record := String → Option Value

/-- What is not read here: the digest, and a column's way to the server and back. Values that the
codec writes alike are sent alike. -/
structure Backend where
  sha256 : List UInt8 → Digest
  Cell : Type
  [cellEq : DecidableEq Cell]
  sqlValue : Ty × Vector UInt8 16 → Value → Except String Cell
  fromSQL : Ty × Vector UInt8 16 → Cell → Except String Value
  sqlValue_congr : ∀ type v w e, Encode type v = .ok e → Encode type w = .ok e →
    sqlValue type v = sqlValue type w

attribute [instance] Backend.cellEq

inductive Failure where
  | conflict
  /-- `errMinuteInsertCollision`. -/
  | collision
  /-- "immutable row exceeds packet budget". -/
  | packet
  /-- The server's error 1062. -/
  | duplicate
  | other (message : String)
deriving DecidableEq

/-- An error of the codec, of a digest or of packing. -/
def lift {α : Type} : Except String α → Except Failure α
  | .ok a => .ok a
  | .error message => .error (.other message)

@[simp] theorem lift_eq_ok {α : Type} {x : Except String α} {a : α} : lift x = .ok a ↔ x = .ok a := by
  cases x <;> simp [lift]

/-- A row as the server holds it, with the columns that its table has beside those of the record. -/
structure Stored (b : Backend) where
  cells : List (String × b.Cell)
  keyHash : Option Digest
  occurrence : Option Nat
  identity : Option Digest
deriving DecidableEq

def Stored.cell {b : Backend} (s : Stored b) (name : String) : Option b.Cell :=
  (s.cells.find? fun c => c.1 == name).map Prod.snd

variable (b : Backend)

/-! ## Digests -/

/-- `writeFramed`, one text after another. -/
def framed (texts : List (List UInt8)) : List UInt8 :=
  texts.flatMap fun a => bigEndian 4 a.length ++ a

/-- A column that the record lacks counts as a nil. -/
def encodeColumns (columns : List Column) (r : Record) : Except String (List (List UInt8)) :=
  columns.mapM fun c => Encode c.type ((r c.name).getD .null)

def keyHash (t : Table) (r : Record) : Except String Digest :=
  (b.sha256 ∘ framed) <$> encodeColumns t.keyColumns r

/-- What the row's digest reads of one column. -/
def columnBytes (r : Record) (c : Column) : Except String (List UInt8) :=
  match r c.name with
  | none => .error ("missing column " ++ c.name)
  | some v => Check.wrap c.name (Encode c.type v)

def rowHash (t : Table) (r : Record) : Except String Digest :=
  (b.sha256 ∘ framed) <$> t.columns.mapM (columnBytes r)

def instrumentIdentityHash (t : Table) (r : Record) : Except String Digest :=
  (b.sha256 ∘ framed) <$> encodeColumns (t.columns.filter fun c => c.name != "instrument_id") r

/-- The loop of `PackMigrationRow` over the columns, with what is packed so far. -/
def packColumns (r : Record) (packed : List UInt8) : List Column → Except String (List UInt8)
  | [] => .ok packed
  | c :: rest => do
      let v ← match r c.name with
        | none => .error "missing physical source column"
        | some v => .ok v
      let raw ← Check.wrap c.name (Encode c.type v)
      Check.failIf (32 * 2 ^ 20 < packed.length + raw.length + 4) "migration row exceeds 32 MiB"
      packColumns r (packed ++ (bigEndian 4 raw.length ++ raw)) rest

def PackMigrationRow (t : Table) (r : Record) : Except String (List UInt8) :=
  packColumns r [] t.columns

/-! ## Statements -/

/-- The condition of one row: each part that is given has to be equal. -/
structure Predicate where
  keyHash : Option Digest
  occurrence : Option Nat
  cells : List (String × b.Cell)

variable {b}

def Predicate.Admits (p : Predicate b) (s : Stored b) : Prop :=
  (∀ h, p.keyHash = some h → s.keyHash = some h) ∧
    (∀ n, p.occurrence = some n → s.occurrence = some n) ∧
      ∀ c ∈ p.cells, s.cell c.1 = some c.2

instance (p : Predicate b) (s : Stored b) : Decidable (p.Admits s) :=
  inferInstanceAs (Decidable ((∀ h ∈ p.keyHash, s.keyHash = some h) ∧
    (∀ n ∈ p.occurrence, s.occurrence = some n) ∧ _))

variable (b)

/-- The key columns that a condition names: all of them, or only the minute where the key is
hashed. -/
def Table.predicateColumns (t : Table) : List Column :=
  t.keyColumns.filter fun c => !t.hashedKey || c.name == "minute_time" || c.name == "minute_id"

def rowPredicate (t : Table) (r : Record) : Except String (Predicate b) := do
  let hash ← if t.hashedKey then some <$> keyHash b t r else .ok none
  let cells ← t.predicateColumns.mapM fun c =>
    (c.name, ·) <$> b.sqlValue c.type ((r c.name).getD .null)
  return ⟨hash, if t.hashedKey && t.multiplicity then some 0 else none, cells⟩

def insertColumn (r : Record) (c : Column) : Except String (String × b.Cell) :=
  match r c.name with
  | none => .error ("missing column " ++ c.name)
  | some v => (c.name, ·) <$> Check.wrap c.name (b.sqlValue c.type v)

/-- The row that an INSERT of the record adds. -/
def storedRow (t : Table) (r : Record) : Except String (Stored b) := do
  let cells ← t.columns.mapM (insertColumn b r)
  let hash ← if t.hashedKey then some <$> keyHash b t r else .ok none
  let identity ← if t.name = "instrument" then some <$> instrumentIdentityHash b t r else .ok none
  return ⟨cells, hash, if t.multiplicity then some 0 else none, identity⟩

variable {b}

/-- The primary key. -/
def Table.primary (t : Table) (s : Stored b) : Option Digest × Option Nat × List (Option b.Cell) :=
  (s.keyHash, s.occurrence, if t.hashedKey then [] else t.keyColumns.map fun c => s.cell c.name)

/-- Two rows that a unique index does not let stand together. -/
def Table.Clash (t : Table) (s s' : Stored b) : Prop :=
  t.primary s = t.primary s' ∨ s.identity ≠ none ∧ s.identity = s'.identity

instance (t : Table) (s s' : Stored b) : Decidable (t.Clash s s') :=
  inferInstanceAs (Decidable (_ ∨ _))

/-- One INSERT of any number of rows: all of them, or none. -/
def insertRows (t : Table) (db new : List (Stored b)) : Except Failure (List (Stored b)) :=
  if (∀ s ∈ new, ∀ s' ∈ db, ¬ t.Clash s s') ∧ new.Pairwise fun s s' => ¬ t.Clash s s' then
    .ok (db ++ new)
  else .error .duplicate

def readColumn (s : Stored b) (c : Column) : Except String (String × Value) :=
  match s.cell c.name with
  | none => .error ("missing column " ++ c.name)
  | some x => (c.name, ·) <$> Check.wrap c.name (b.fromSQL c.type x)

/-- A row as it is read. -/
def readRecord (t : Table) (s : Stored b) : Except String Record := do
  let values ← t.columns.mapM (readColumn s)
  return fun name => (values.find? fun v => v.1 == name).map Prod.snd

/-- The rows of a SELECT that satisfy one of the conditions. -/
def readRecords (t : Table) (ps : List (Predicate b)) (db : List (Stored b)) :
    Except String (List Record) :=
  (db.filter fun s => ps.any fun p => decide (p.Admits s)).mapM (readRecord t)

variable (b)

def putImmutable (t : Table) (db : List (Stored b)) (r : Record) : Except Failure (List (Stored b)) := do
  let want ← lift (rowHash b t r)
  let p ← lift (rowPredicate b t r)
  let old ← lift (readRecords t [p] db)
  match old with
  | [] =>
      let s ← lift (storedRow b t r)
      insertRows t db [s]
  | [o] =>
      let got ← lift (rowHash b t o)
      if got ≠ want then .error .conflict else .ok db
  | _ => .error .conflict

end MarketInfo.Mysql.Rows
