import MarketInfo.Lib.Transition

/-! # Committing prepared minutes

Writers commit prepared book minutes to one transactional store, each a statement
at a time and in any order. A transaction's rows are seen by nobody else until it
is committed, and no two transactions can hold a row with the same unique key: the
second statement waits, or meets a duplicate once the first is committed. A
statement whose answer is lost leaves its transaction to the server, which rolls
it back, or commits it if that was asked for.
-/

namespace MarketInfo.Mysql

abbrev Hash := BitVec 256

inductive Table where
  | orderBookSecondDelta
  | orderBookMinute
  | ingestMember
  | sourcePublicationIntents
  | cexBookMinuteCommit
  | sourceBatchStatus
deriving DecidableEq

/-- A fact row: its unique key, the hash of what a repeated delivery must agree on, and the time
of knowledge or publication, which it need not. -/
structure Record where
  table : Table
  key : List UInt8
  content : Hash
  stamp : Int
deriving DecidableEq

/-- The unique key of an ingest row. -/
structure BatchID where
  database : String
  kind : String
  id : List UInt8
deriving DecidableEq

/-- The columns of an ingest row that a repeated delivery is compared with. -/
structure Header where
  digest : Hash
  members : UInt32
  codec : UInt16
  service : String
  generation : UInt64
  minute : Int
deriving DecidableEq

/-- A prepared minute with its fact rows, in the order in which they are written. -/
structure Delivery where
  id : BatchID
  header : Header
  records : List Record
deriving DecidableEq

def Record.rowKey (r : Record) : Table × List UInt8 := (r.table, r.key)

/-- The same row as far as a repeated delivery is compared. -/
def Record.Same (q r : Record) : Prop := q.rowKey = r.rowKey ∧ q.content = r.content

instance (q r : Record) : Decidable (q.Same r) :=
  inferInstanceAs (Decidable (q.rowKey = r.rowKey ∧ q.content = r.content))

/-- The tables whose rows are inserted before they are looked for. -/
def insertNewMinuteFacts : Table → Bool
  | .orderBookMinute => true
  | .orderBookSecondDelta => true
  | _ => false

/-- A transaction that holds an ingest row: what it has written, what is still to be written,
and whether the commit was asked for by a writer that has got no answer. -/
structure Tx where
  delivery : Delivery
  rows : List Record
  rest : List Record
  asked : Bool
deriving DecidableEq

inductive Result where
  | success
  | conflict
  | fenced
  | unproven
  | failed
deriving DecidableEq

/-- Where a writer is in `CommitPrepared`. The first attempt inserts minute facts without looking
for them; `conn` is the connection of its transaction. -/
inductive Phase where
  | idle
  | precheck (first : Bool)
  | fence (first : Bool)
  | claim (first : Bool)
  | facts (first : Bool) (conn : Nat)
  | insert (first : Bool) (conn : Nat) (n : Nat) (absent : List Record)
  | commit (conn : Nat)
  | confirm
  | done (result : Result)
deriving DecidableEq

structure Writer where
  phase : Phase
  delivery : Delivery
deriving DecidableEq

/-- The committed ingest rows, each with the delivery that wrote it, and fact rows; the open
transactions by connection; the next connection; and the writers. -/
structure System where
  ingest : List Delivery
  rows : List Record
  txs : Nat → Option Tx
  next : Nat
  writers : Nat → Writer

def Delivery.none : Delivery := ⟨⟨"", "", []⟩, ⟨0, 0, 0, "", 0, 0⟩, []⟩

def System.initial : System :=
  ⟨[], [], fun _ => Option.none, 0, fun _ => ⟨.idle, Delivery.none⟩⟩

def System.setPhase (s : System) (w : Nat) (p : Phase) : System :=
  { s with writers := Function.update s.writers w { s.writers w with phase := p } }

def System.setTx (s : System) (c : Nat) (t : Option Tx) : System :=
  { s with txs := Function.update s.txs c t }

/-- `Committed`: what the stored ingest row says of a delivery. -/
def System.committed (s : System) (d : Delivery) : Option Bool :=
  (s.ingest.find? fun x => x.id = d.id).map fun x => x.header = d.header

/-- Some open transaction holds the ingest row. -/
def System.claimed (s : System) (id : BatchID) : Bool :=
  (List.range s.next).any fun c => (s.txs c).any fun t => t.delivery.id = id

/-- Some other open transaction holds one of the fact rows. -/
def System.held (s : System) (conn : Nat) (rs : List Record) : Bool :=
  (List.range s.next).any fun c => c ≠ conn ∧ (s.txs c).any fun t =>
    t.rows.any fun q => rs.any fun r => q.rowKey = r.rowKey

/-- The row with the key of `r`, committed or written in the same transaction. -/
def System.stored (s : System) (t : Tx) (r : Record) : Option Record :=
  (t.rows ++ s.rows).find? fun q => q.rowKey = r.rowKey

/-- The first row of each key. -/
def distinct : List Record → List Record
  | [] => []
  | r :: rs => r :: (distinct rs).filter fun q => q.rowKey ≠ r.rowKey

/-- Two rows of one statement with one key and different contents. -/
def clash (rs : List Record) : Bool :=
  rs.any fun q => rs.any fun r => q.rowKey = r.rowKey ∧ q.content ≠ r.content

/-- The commit of a transaction: its rows become visible and it ends. -/
def System.publish (s : System) (c : Nat) (t : Tx) : System :=
  { s with ingest := s.ingest ++ [t.delivery], rows := s.rows ++ t.rows }.setTx c none

/-- A step of a writer or of the server. -/
inductive Act where
  | start (w : Nat) (d : Delivery) (own : Bool)
  | read (w : Nat)
  | fence (w : Nat) (same : Bool)
  | claim (w : Nat)
  | send (w : Nat) (n : Nat)
  | insert (w : Nat)
  | stamp (w : Nat)
  | commit (w : Nat)
  | fail (w : Nat)
  | server (c : Nat) (commit : Bool)
deriving DecidableEq

/-- `Committed` before an attempt, and after a duplicate ingest row was met and rolled back. -/
def System.read (s : System) (w : Nat) : Option System :=
  let committed := s.committed (s.writers w).delivery
  match (s.writers w).phase with
  | .precheck first =>
      match committed with
      | none => some (s.setPhase w (.fence first))
      | some true => some (s.setPhase w (.done .success))
      | some false => some (s.setPhase w (.done .conflict))
  | .confirm =>
      match committed with
      | none => some (s.setPhase w (.done .unproven))
      | some true => some (s.setPhase w (.done .success))
      | some false => some (s.setPhase w (.done .conflict))
  | _ => none

/-- The INSERT of the ingest row. A duplicate is rolled back and read; an uncommitted one of
another transaction makes the statement wait. -/
def System.claim (s : System) (w : Nat) : Option System :=
  let d := (s.writers w).delivery
  match (s.writers w).phase with
  | .claim first =>
      if (s.ingest.any fun x => x.id = d.id) = true then some (s.setPhase w .confirm)
      else if s.claimed d.id = true then none
      else some ({ s with next := s.next + 1 }.setTx s.next (some ⟨d, [], d.records, false⟩)
        |>.setPhase w (.facts first s.next))
  | _ => none

/-- The next `n` rows, all of one table: as many as the limits of a statement allow. -/
def System.send (s : System) (w n : Nat) : Option System :=
  match (s.writers w).phase with
  | .facts first c =>
      match s.txs c, (s.txs c).bind (·.rest.head?) with
      | some t, some r =>
          let chunk := t.rest.take n
          if n = 0 ∨ (chunk.any fun q => q.table ≠ r.table) = true then none
          else if clash chunk = true then some (s.setPhase w (.done .conflict))
          else if first = true ∧ insertNewMinuteFacts r.table = true then
            if (chunk.any fun q => (s.stored t q).isSome) = true then
              -- a duplicate fact: everything is rolled back and checked again
              some ((s.setTx c none).setPhase w (.precheck false))
            else if s.held c chunk = true then none
            else some ((s.setTx c (some { t with
              rows := t.rows ++ distinct chunk, rest := t.rest.drop n })).setPhase w (.facts first c))
          else if s.held c chunk = true then none
          else if (chunk.any fun q => (s.stored t q).any fun o => o.content ≠ q.content) = true then
            some (s.setPhase w (.done .conflict))
          else some (s.setPhase w (.insert first c n
            ((distinct chunk).filter fun q => (s.stored t q).isNone)))
      | _, _ => none
  | _ => none

/-- The INSERT of the rows that were not found; a duplicate fails like any other statement. -/
def System.insert (s : System) (w : Nat) : Option System :=
  match (s.writers w).phase with
  | .insert first c n absent =>
      match s.txs c with
      | some t =>
          if (absent.any fun q => (s.stored t q).isSome) = true then
            some (s.setPhase w (.done .failed))
          else if s.held c absent = true then none
          else some ((s.setTx c (some { t with
            rows := t.rows ++ absent, rest := t.rest.drop n })).setPhase w (.facts first c))
      | none => none
  | _ => none

/-- The UPDATE of the time of commit, once every row is written. -/
def System.stamp (s : System) (w : Nat) : Option System :=
  match (s.writers w).phase with
  | .facts _ c =>
      match s.txs c with
      | some t => if t.rest = [] then some (s.setPhase w (.commit c)) else none
      | none => none
  | _ => none

/-- COMMIT with its answer. -/
def System.commit (s : System) (w : Nat) : Option System :=
  match (s.writers w).phase with
  | .commit c =>
      match s.txs c with
      | some t => some ((s.publish c t).setPhase w (.done .success))
      | none => none
  | _ => none

/-- A statement fails or its answer is lost. The transaction is left to the server, which after
a COMMIT may still commit it. -/
def System.fail (s : System) (w : Nat) : Option System :=
  match (s.writers w).phase with
  | .idle => none
  | .done _ => none
  | .commit c =>
      match s.txs c with
      | some t => some ((s.setTx c (some { t with asked := true })).setPhase w (.done .failed))
      | none => some (s.setPhase w (.done .failed))
  | _ => some (s.setPhase w (.done .failed))

/-- The server ends a transaction: it rolls back any, and commits one whose COMMIT it got. -/
def System.server (s : System) (c : Nat) (commit : Bool) : Option System :=
  match s.txs c with
  | some t =>
      if commit = true then if t.asked = true then some (s.publish c t) else none
      else some (s.setTx c none)
  | none => none

/-- `CommitPrepared` is called; a delivery that is not of the client's own producer is fenced off
before the first statement. -/
def System.start (s : System) (w : Nat) (d : Delivery) (own : Bool) : System :=
  let writer : Writer := ⟨if own then .precheck true else .done .fenced, d⟩
  { s with writers := Function.update s.writers w writer }

def System.step (s : System) : Act → Option System
  | .start w d own =>
      match (s.writers w).phase with
      | .idle => some (s.start w d own)
      | .done _ => some (s.start w d own)
      | _ => none
  | .read w => s.read w
  | .fence w same =>
      match (s.writers w).phase with
      | .fence first => some (s.setPhase w (if same then .claim first else .done .fenced))
      | _ => none
  | .claim w => s.claim w
  | .send w n => s.send w n
  | .insert w => s.insert w
  | .stamp w => s.stamp w
  | .commit w => s.commit w
  | .fail w => s.fail w
  | .server c commit => s.server c commit

/-- A step that can be taken. -/
def System.Step (s : System) (a : Act) (s' : System) : Prop := s.step a = some s'

end MarketInfo.Mysql
