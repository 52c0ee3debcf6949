import MarketInfo.Mysql.Rows

/-! # Writing immutable rows in bulk

`writeImmutableRows` goes through the rows a cut at a time. Equal rows of a cut are
written once, the stored rows of its keys are read in one statement and compared, and
the others are inserted in one. A cut that packs to too many bytes is halved.
-/

namespace MarketInfo.Mysql.Rows

open Codec

/-- What bounds a cut: its rows, its parameters and its packed bytes. -/
structure Limits where
  rows : Nat
  parameters : Nat
  packet : Nat
  rows_pos : 0 < rows
  parameters_le : 4096 + 3 ≤ parameters

def limits : Limits := ⟨500, 60000, 8 * 2 ^ 20, by norm_num, by norm_num⟩

def Limits.size (lim : Limits) (t : Table) : Nat := min lim.rows (lim.parameters / (t.columns.length + 3))

theorem Limits.size_pos (lim : Limits) (t : Table) : 0 < lim.size t := by
  have hfew : t.columns.length + 3 ≤ lim.parameters := by
    have := t.few
    have := lim.parameters_le
    omega
  exact lt_min lim.rows_pos (Nat.div_pos hfew (by omega))

/-- The tables whose rows are inserted before they are looked for, in a context that says so. -/
def insertNewMinuteFacts (marked : Bool) (t : Table) : Bool :=
  !t.multiplicity && marked && [
    "order_book_minute", "order_book_second_delta",
    "derivative_book_minute", "derivative_book_second_delta",
    "derivative_book_quality_minute", "options_catalog_quality_evidence_minute",
    "derivative_book_quality_minute_v2", "options_catalog_quality_member_minute"].contains t.name

/-- A row of a cut with its digests. -/
structure Entry where
  key : Digest
  hash : Digest
  row : Record

/-- The distinct rows of a cut, in order, and their packed bytes. -/
structure Batch where
  entries : List Entry
  bytes : Nat

variable (b : Backend)

def prepareRow (t : Table) (batch : Batch) (r : Record) : Except Failure Batch := do
  let key ← lift (keyHash b t r)
  let hash ← lift (rowHash b t r)
  match batch.entries.find? fun e => e.key == key with
  | some old => if old.hash ≠ hash then .error .conflict else .ok batch
  | none =>
      let raw ← lift (PackMigrationRow t r)
      return ⟨batch.entries ++ [⟨key, hash, r⟩], batch.bytes + raw.length⟩

def prepare (t : Table) (rows : List Record) : Except Failure Batch :=
  rows.foldlM (prepareRow b t) ⟨[], 0⟩

/-- The condition by which a cut reads the rows of one key, of any occurrence. -/
def bulkPredicate (t : Table) (r : Record) : Except String (Predicate b) := do
  let p ← rowPredicate b t r
  return if t.multiplicity then { p with occurrence := none } else p

/-- The stored rows against those of the cut; the result is the keys that are stored. -/
def compareStored (t : Table) (entries : List Entry) : List Digest → List Record → Except Failure (List Digest)
  | seen, [] => .ok seen
  | seen, r :: rest => do
      let key ← lift (keyHash b t r)
      match entries.find? fun e => e.key == key with
      | none => .error .conflict
      | some want =>
          if key ∈ seen then .error .conflict else
          let got ← lift (rowHash b t r)
          if got ≠ want.hash then .error .conflict else compareStored t entries (seen ++ [key]) rest

/-- The row of one group of placeholders. -/
def boundRow (t : Table) (e : Entry) : Except String (Stored b) := do
  let cells ← t.columns.mapM fun c => (c.name, ·) <$> b.sqlValue c.type ((e.row c.name).getD .null)
  let identity ← if t.name = "instrument" then some <$> instrumentIdentityHash b t e.row else .ok none
  return ⟨cells, if t.hashedKey then some e.key else none, if t.multiplicity then some 0 else none, identity⟩

/-- A cut that is not too large. -/
def writeCut (t : Table) (checkExisting insertFirst : Bool) (batch : Batch) (db : List (Stored b)) :
    Except Failure (List (Stored b)) := do
  let ps ← lift (batch.entries.mapM fun e => bulkPredicate b t e.row)
  let stored ← if checkExisting && !insertFirst then lift (readRecords t ps db) else .ok []
  let seen ← compareStored b t batch.entries [] stored
  let new ← lift ((batch.entries.filter fun e => e.key ∉ seen).mapM (boundRow b t))
  if new = [] then return db
  match insertRows t db new with
  | .error .duplicate => .error (if insertFirst then .collision else .duplicate)
  | written => written

/-- `writeImmutableRows`; `marked` is what its context says of minute facts. -/
def writeImmutableRows (lim : Limits) (t : Table) (marked checkExisting : Bool) (input : List Record)
    (db : List (Stored b)) : Except Failure (List (Stored b)) :=
  if hinput : input = [] then .ok db
  else do
    let insertFirst := checkExisting && insertNewMinuteFacts marked t
    let rows := input.take (lim.size t)
    let batch ← prepare b t rows
    let next ←
      if lim.packet < batch.bytes then
        if hone : rows.length = 1 then .error .packet
        else do
          let half ← writeImmutableRows lim t marked checkExisting (rows.take (rows.length / 2)) db
          writeImmutableRows lim t marked checkExisting (rows.drop (rows.length / 2)) half
      else writeCut b t checkExisting insertFirst batch db
    writeImmutableRows lim t marked checkExisting (input.drop (lim.size t)) next
termination_by input.length
decreasing_by
  all_goals
    have hsize := lim.size_pos t
    have hpos : 0 < input.length := List.length_pos_iff.mpr hinput
    simp only [rows, List.length_take, List.length_drop] at *
    omega

end MarketInfo.Mysql.Rows
