import MarketInfo.Lib.CrashLogic
import MarketInfo.Lib.Transition
import MarketInfo.Spool.RoundTrip

/-! # The spool on disk

`Accept`, `Ack` and `Recover` of `spool.Queue` as programs over the calls they make
to the file system. Under a crash of the machine a file keeps what was synced, and a
name of the directory is left with any of its values since the directory was synced.

The directory lock makes every call of the queue run alone. Only regular files that
the queue made are in the directory, next to the lock itself.
-/

namespace MarketInfo.Spool

open CrashLogic (Prog)
open CrashLogic.Prog (attempt ofExcept onExit onError)

/-! ## The file system -/

abbrev Name := List UInt8

/-- `.pending-`. -/
def pendingPrefix : Name := [46, 112, 101, 110, 100, 105, 110, 103, 45]

/-- `writer.lock`. -/
def lockName : Name := [119, 114, 105, 116, 101, 114, 46, 108, 111, 99, 107]

structure File where
  bytes : List UInt8
  synced : Bool
deriving DecidableEq, Repr

/-- The directory of a queue: files by number, the names as programs see them, and what
a crash of the machine may leave of each name. -/
structure Disk where
  files : Nat → File := fun _ => ⟨[], false⟩
  next : Nat := 0
  names : AList fun _ : Name => Nat := ∅
  stable : Name → List (Option Nat) := fun _ => [none]

namespace Disk

def lookup (d : Disk) (n : Name) : Option Nat := d.names.lookup n

/-- A name is given a file, or none. -/
def link (d : Disk) (n : Name) : Option Nat → Disk
  | some i => { d with names := d.names.insert n i, stable := Function.update d.stable n (some i :: d.stable n) }
  | none => { d with names := d.names.erase n, stable := Function.update d.stable n (none :: d.stable n) }

/-- A new file. -/
def create (d : Disk) : Disk :=
  { d with files := Function.update d.files d.next ⟨[], false⟩, next := d.next + 1 }

def append (d : Disk) (i : Nat) (bytes : List UInt8) : Disk :=
  { d with files := Function.update d.files i ⟨(d.files i).bytes ++ bytes, false⟩ }

def syncFile (d : Disk) (i : Nat) : Disk :=
  { d with files := Function.update d.files i { d.files i with synced := true } }

def syncNames (d : Disk) : Disk := { d with stable := fun n => [d.lookup n] }

/-- What a crash of the machine leaves. -/
structure PowerLoss (d d' : Disk) : Prop where
  files : ∀ i, (d.files i).synced = true → d'.files i = d.files i
  next : d'.next = d.next
  names : ∀ n, d'.lookup n ∈ d.stable n
  stable : ∀ n, d'.stable n = [d'.lookup n]

end Disk

/-- A crash of the program alone leaves all of the disk as it is. -/
inductive Crash (d : Disk) : Disk → Prop
  | killed : Crash d d
  | powerLoss {d' : Disk} : d.PowerLoss d' → Crash d d'

/-! ## Calls -/

inductive Failure
  | notExist
  /-- `contracts.ErrConflict`. -/
  | conflict
  /-- `contracts.ErrCapacity`. -/
  | capacity
  | io
  | text (message : String)
  | staging (file : Name) (cause : Failure)
deriving DecidableEq

/-- An entry of a directory with its `Info`. -/
structure DirEntry where
  name : Name
  regular : Bool
  size : Nat
deriving DecidableEq

inductive Cmd
  /-- Opens and locks `writer.lock`. -/
  | lock
  /-- `ctx.Err`. -/
  | context
  /-- Opens a file, looks at its size and reads all of it. -/
  | read (path : Name)
  /-- `ReadDir` until the end of the directory. -/
  | list
  | createTemp
  | write (file : Nat) (bytes : List UInt8)
  | sync (file : Nat)
  | close (file : Nat)
  | openRW (path : Name)
  | rename (path target : Name)
  | remove (path : Name)
  | syncDir

@[reducible] def Reply : Cmd → Type
  | .read _ => List UInt8
  | .list => List DirEntry
  | .createTemp => Name × Nat
  | .openRW _ => Nat
  | _ => Unit

/-- The answer was an error, and nothing changed. -/
@[reducible] def Unchanged {τ : Type} (d : Disk) (r : Except Failure τ) (d' : Disk) : Prop :=
  d' = d ∧ ∃ e, e ≠ Failure.notExist ∧ r = .error e

/-- One call to the file system. Every call may fail; a write may stop halfway. -/
def Perform (d : Disk) : (c : Cmd) → Except Failure (Reply c) → Disk → Prop
  | .lock, r, d' | .context, r, d' | .close _, r, d' => d' = d ∧ r ≠ .error .notExist
  | .read path, r, d' => Unchanged d r d' ∨ d' = d ∧ match d.lookup path with
      | none => r = .error .notExist
      | some i => r = .ok (d.files i).bytes
  | .list, r, d' => Unchanged d r d' ∨ d' = d ∧ ∃ entries, r = .ok entries ∧
      (entries.map DirEntry.name).Perm (lockName :: d.names.keys) ∧
      ∀ f ∈ entries, ∀ i ∈ d.lookup f.name, f.size = (d.files i).bytes.length
  | .createTemp, r, d' => Unchanged d r d' ∨ ∃ tmp, pendingPrefix <+: tmp ∧ d.lookup tmp = none ∧
      r = .ok (tmp, d.next) ∧ d' = d.create.link tmp (some d.next)
  | .write f bytes, r, d' => (∃ e n, e ≠ Failure.notExist ∧ r = .error e ∧ d' = d.append f (bytes.take n)) ∨
      r = .ok () ∧ d' = d.append f bytes
  | .sync f, r, d' => Unchanged d r d' ∨ r = .ok () ∧ d' = d.syncFile f
  | .openRW path, r, d' => Unchanged d r d' ∨ d' = d ∧ match d.lookup path with
      | none => r = .error .notExist
      | some i => r = .ok i
  | .rename path target, r, d' => Unchanged d r d' ∨ match d.lookup path with
      | none => r = .error .notExist ∧ d' = d
      | some i => r = .ok () ∧ d' = (d.link target (some i)).link path none
  | .remove path, r, d' => Unchanged d r d' ∨ match d.lookup path with
      | none => r = .error .notExist ∧ d' = d
      | some _ => r = .ok () ∧ d' = d.link path none
  | .syncDir, r, d' => Unchanged d r d' ∨ r = .ok () ∧ d' = d.syncNames

abbrev Program (α : Type) := Prog Reply Failure α

abbrev call (c : Cmd) : Program (Reply c) := CrashLogic.Prog.run c

/-! ## The queue -/

/-- `spool.Queue`. -/
structure Queue where
  maxBytes : Nat

/-- `SameHeader`. -/
@[reducible] def Delivery.SameHeader (d other : Delivery) : Prop :=
  d.database = other.database ∧ d.kind = other.kind ∧ d.id = other.id ∧ d.service = other.service ∧
    d.generation = other.generation ∧ d.minute.Equal other.minute ∧ d.digest = other.digest ∧
    d.members = other.members ∧ d.codec = other.codec

variable (sha256 : List UInt8 → Vector UInt8 32) (z : Zlib)

/-- `same`. -/
@[reducible] def Same (a b : Delivery) : Prop :=
  validate sha256 a = .ok () ∧ validate sha256 b = .ok () ∧ a.SameHeader b ∧ a.payload = b.payload

/-- `!old.SameHeader(d) || (len(d.Payload) > 0 && !same(old, d))`. -/
@[reducible] def Conflicts (old d : Delivery) : Prop :=
  ¬ old.SameHeader d ∨ (0 < d.payload.length ∧ ¬ Same sha256 old d)

def text {α : Type} : Except String α → Except Failure α
  | .ok a => .ok a
  | .error e => .error (.text e)

/-- `read`. -/
def read (path : Name) : Program Delivery := do
  let a ← call (.read path)
  if maxPayload + 1024 < a.length then Prog.fail (.text "spool file too large")
  else ofExcept (text (Unmarshal sha256 z a))

/-- The loop of `Accept` over the directory. -/
def tally : List DirEntry → Nat → Nat → Program Nat
  | [], _, used => pure used
  | f :: rest, entries, used => do
      if 100000 < entries + 1 then Prog.fail .capacity
      else
        call .context
        if f.regular = false then Prog.fail (.text "unexpected spool file type")
        else tally rest (entries + 1) (used + f.size)

/-- What `Accept` does with the file it has made. -/
def stage (raw : List UInt8) (path : Name) (tmp : Name) (f : Nat) : Program Unit := do
  onError (.close f) (call (.write f raw))
  onError (.close f) (call (.sync f))
  call (.close f)
  call (.rename tmp path)
  call .syncDir

/-- `Accept`. -/
def Accept (q : Queue) (d : Delivery) : Program Unit := do
  let raw ← ofExcept (text (MarshalCompressed sha256 z d))
  call .lock
  call .context
  match ← attempt (read sha256 z (d.name sha256)) with
  | .ok old => if Same sha256 old d then call .syncDir else Prog.fail .conflict
  | .error e =>
      if e ≠ .notExist then Prog.fail e
      else
        let files ← call .list
        let used ← tally files 0 0
        if q.maxBytes < used + raw.length then Prog.fail .capacity
        else
          let (tmp, f) ← call .createTemp
          onExit (.remove tmp) (stage raw (d.name sha256) tmp f)

/-- `Ack`, with a verifier or none. -/
def Ack (d : Delivery) (verify : Option (Delivery → Except Failure Bool)) : Program Unit := do
  match verify with
  | none => Prog.fail (.text "spool ACK requires database verifier")
  | some verify =>
      let ok ← ofExcept (verify d)
      if ok = false then Prog.fail (.text "batch is not committed")
      else
        call .lock
        match ← attempt (read sha256 z (d.name sha256)) with
        | .error e => if e = .notExist then pure () else Prog.fail e
        | .ok old =>
            if Conflicts sha256 old d then Prog.fail .conflict
            else
              call (.remove (d.name sha256))
              call .syncDir

/-- A staged file that can be read goes to its name, unless that has it. -/
def promote (path : Name) (d : Delivery) : Program Unit := do
  match ← attempt (read sha256 z (d.name sha256)) with
  | .ok old => if Conflicts sha256 old d then Prog.fail .conflict else call (.remove path)
  | .error e =>
      if e ≠ .notExist then Prog.fail e
      else
        let f ← call (.openRW path)
        let synced ← attempt (call (.sync f))
        let closed ← attempt (call (.close f))
        ofExcept synced
        ofExcept closed
        call (.rename path (d.name sha256))

/-- The loop of `Recover`. -/
def recoverFiles : List DirEntry → Program Unit
  | [] => pure ()
  | f :: rest => do
      call .context
      if pendingPrefix <+: f.name then
        match ← attempt (read sha256 z f.name) with
        | .error e => Prog.fail (.staging f.name e)
        | .ok d =>
            promote sha256 z f.name d
            recoverFiles rest
      else recoverFiles rest

/-- `Recover`. -/
def Recover : Program Unit := do
  call .lock
  let files ← call .list
  recoverFiles sha256 z files
  call .syncDir

/-! ## Runs -/

inductive Call
  | accept (q : Queue) (d : Delivery)
  | ack (d : Delivery) (verify : Option (Delivery → Except Failure Bool))
  | recover

def Call.program : Call → Program Unit
  | .accept q d => Accept sha256 z q d
  | .ack d verify => Ack sha256 z d verify
  | .recover => Recover sha256 z

/-- A call with what it returned, or a call in which there was a crash. -/
inductive Step : Disk → Call × Option (Except Failure Unit) → Disk → Prop
  | returned (d d' : Disk) (c : Call) (r : Except Failure Unit) :
      CrashLogic.Exec Perform (c.program sha256 z) d r d' → Step d (c, some r) d'
  | crashed (d d' d'' : Disk) (c : Call) :
      CrashLogic.Stops Perform (c.program sha256 z) d d' → Crash d' d'' → Step d (c, none) d''

end MarketInfo.Spool
