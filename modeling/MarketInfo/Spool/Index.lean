import MarketInfo.Lib.Ledger
import MarketInfo.Lib.Transition
import MarketInfo.Spool.Disk

/-! # The index of the spool

The headers of the batches in the directory, kept by notifications and by a scan that goes
through the directory page by page. A header is read first and filed later, and the directory
may change in between. A page may name a file that is gone, or leave out one that came after
the scan began; a file that was there all the time is named before the scan ends.
-/

namespace MarketInfo.Spool

/-- A change of a name that ends in `.batch`. -/
inductive Notice
  | added (name : Name)
  | deleted (name : Name)
deriving DecidableEq, Repr

def Notice.name : Notice → Name
  | .added name => name
  | .deleted name => name

def Notice.isAdded : Notice → Bool
  | .added _ => true
  | .deleted _ => false

/-- `candidateCost`. -/
def candidateCost (c : Candidate) : Int :=
  512 + (c.header.database.length + c.header.kind.length + c.header.id.length + c.header.service.length)

/-- `i.scan` and `i.seen`, with the names that are still to come. -/
structure Scan where
  owed : List Name
  seen : List Name

/-- A header that was read and is not yet filed. -/
structure Adding where
  name : Name
  candidate : Candidate
  /-- It was read for a notification. -/
  noticed : Bool

/-- The index with the directory and the notifications on their way. -/
structure Index where
  dir : AList fun _ : Name => List UInt8
  notices : List Notice
  entries : AList fun _ : Name => Candidate
  maxBytes : Int
  metadataBytes : Int
  scan : Option Scan
  adding : Option Adding
  complete : Bool
  /-- A call of `Refresh` returned an error, and the writer refreshes no more. -/
  failed : Bool
  /-- No `Remove` of the name succeeded since the scan began. -/
  undisturbed : Name → Bool
  /-- A scan that began after the last `Remove` of the name has ended. -/
  settled : Name → Bool

inductive IndexAct
  /-- A file appears. -/
  | appear (name : Name) (file : List UInt8)
  | disappear (name : Name)
  /-- The next notification is read. -/
  | notify
  | openScan
  /-- The scan comes to a name. -/
  | visit (name : Name)
  /-- The header that was read is filed. -/
  | file
  /-- The scan is at its end. -/
  | finish
  | remove (d : Delivery)

variable (sha256 : List UInt8 → Vector UInt8 32)

namespace Index

/-- The index of a directory before its first scan. -/
def initial (dir : AList fun _ : Name => List UInt8) (maxBytes : Int) : Index where
  dir := dir
  notices := []
  entries := ∅
  maxBytes := maxBytes
  metadataBytes := 0
  scan := none
  adding := none
  complete := false
  failed := false
  undisturbed := fun _ => false
  settled := fun _ => false

/-- An entry is deleted with its bytes. -/
def drop (s : Index) (name : Name) : Index :=
  match s.entries.lookup name with
  | none => s
  | some c => { s with entries := s.entries.erase name, metadataBytes := s.metadataBytes - candidateCost c }

/-- `i.seen[name] = true`, while there is a scan. -/
def mark (s : Index) (name : Name) : Index :=
  { s with scan := s.scan.map fun sc => { sc with seen := name :: sc.seen } }

/-- The first half of `add`: the header is read, or the file is gone. -/
def read (s : Index) (name : Name) (noticed : Bool) : Index :=
  match s.dir.lookup name with
  | none => if noticed then s.mark name else s
  | some file =>
      match readHeader sha256 name file with
      | .error _ => { s with failed := true }
      | .ok c => { s with adding := some ⟨name, c, noticed⟩ }

/-- The second half of `add`. -/
def insert (s : Index) (a : Adding) : Index :=
  let s := { s with adding := none }
  let marked := if a.noticed then s.mark a.name else s
  match s.entries.lookup a.name with
  | some old => if ¬ old.header.SameHeader a.candidate.header then { s with failed := true } else marked
  | none =>
      if s.maxBytes < s.metadataBytes + candidateCost a.candidate then { s with failed := true }
      else { marked with
        entries := s.entries.insert a.name a.candidate
        metadataBytes := s.metadataBytes + candidateCost a.candidate }

/-- A scan names a file. -/
def visit (s : Index) (sc : Scan) (name : Name) : Index :=
  let s := { s with scan := some ⟨sc.owed.filter (· ≠ name), name :: sc.seen⟩ }
  if (s.entries.lookup name).isSome then s else s.read sha256 name false

/-- The entries that the scan did not come to are dropped. -/
def finish (s : Index) (sc : Scan) : Index :=
  { (s.entries.keys.filter fun name => !sc.seen.contains name).foldl drop s with
    scan := none
    complete := true
    settled := fun name => s.settled name || s.undisturbed name }

/-- `Remove`. -/
def remove (s : Index) (d : Delivery) : Index :=
  let name := d.name sha256
  match s.entries.lookup name with
  | none => s
  | some old =>
      if old.header.SameHeader d then
        { s.drop name with
          undisturbed := Function.update s.undisturbed name false
          settled := Function.update s.settled name false }
      else s

/-- One step: `none` where it is not possible. -/
def step (s : Index) : IndexAct → Option Index
  | .appear name file =>
      if (s.dir.lookup name).isNone then
        some { s with dir := s.dir.insert name file, notices := s.notices ++ [.added name] }
      else none
  | .disappear name =>
      if (s.dir.lookup name).isSome then
        some { s with
          dir := s.dir.erase name
          notices := s.notices ++ [.deleted name]
          scan := s.scan.map fun sc => { sc with owed := sc.owed.filter (· ≠ name) } }
      else none
  | .remove d => some (s.remove sha256 d)
  | .notify =>
      if s.failed = true ∨ s.adding.isSome then none
      else
        match s.notices with
        | [] => none
        | .deleted name :: rest => some ({ s with notices := rest }.drop name)
        | .added name :: rest => some ({ s with notices := rest }.read sha256 name true)
  | .openScan =>
      if s.failed = true ∨ s.adding.isSome ∨ s.scan.isSome then none
      else some { s with scan := some ⟨s.dir.keys, []⟩, undisturbed := fun _ => true }
  | .visit name =>
      if s.failed = true ∨ s.adding.isSome then none
      else
        match s.scan with
        | none => none
        | some sc => some (s.visit sha256 sc name)
  | .file =>
      match s.adding with
      | none => none
      | some a => some (s.insert a)
  | .finish =>
      if s.failed = true ∨ s.adding.isSome then none
      else
        match s.scan with
        | some ⟨[], seen⟩ => some (s.finish ⟨[], seen⟩)
        | _ => none

def Steps (s : Index) (a : IndexAct) (s' : Index) : Prop := s.step sha256 a = some s'

/-- Every notification is read and no header is on its way. -/
def Drained (s : Index) : Prop := s.notices = [] ∧ s.adding = none

end Index

end MarketInfo.Spool
