import MarketInfo.Spool.Disk

/-! # Looking at the spool

`Inspect` and `ServicePending` go through the directory under its lock. A consumer keeps a lock of
its own, whose file is in the directory too and stays there. Indexing only reads.
-/

namespace MarketInfo.Spool

/-- `consumer.lock`. -/
def consumerName : Name := [99, 111, 110, 115, 117, 109, 101, 114, 46, 108, 111, 99, 107]

/-- `Health`. -/
structure Health where
  files : Nat
  bytes : Nat
  quotaBytes : Nat
  oldest : Option Time

/-- A file is counted. -/
def Health.add (out : Health) (size : Nat) (modified : Time) : Health where
  files := out.files + 1
  bytes := out.bytes + size
  quotaBytes := out.quotaBytes
  oldest :=
    match out.oldest with
    | none => some modified
    | some oldest => if modified.Before oldest then some modified else some oldest

/-- The loop of `Inspect`, with the modification times. -/
def inspectFiles (modTime : Name → Time) : List DirEntry → Health → Program Health
  | [], out => pure out
  | entry :: rest, out => do
      call .context
      if entry.name = lockName then inspectFiles modTime rest out
      else if entry.regular = false then CrashLogic.Prog.fail (.text "unexpected spool file")
      else inspectFiles modTime rest (out.add entry.size (modTime entry.name).utc)

/-- `Inspect`. -/
def Inspect (q : Queue) (modTime : Name → Time) : Program Health := do
  call .lock
  let entries ← call .list
  inspectFiles modTime entries ⟨0, 0, q.maxBytes, none⟩

variable (sha256 : List UInt8 → Vector UInt8 32) (z : Zlib)

/-- The loop of `ServicePending`. -/
def pendingFiles (service : List UInt8) (generation : UInt64) : List DirEntry → Program Bool
  | [] => pure false
  | file :: rest => do
      call .context
      if file.name = lockName then pendingFiles service generation rest
      else if pendingPrefix <+: file.name then
        CrashLogic.Prog.fail (.text "recover spool temporary files before producer activation")
      else
        let d ← read sha256 z file.name
        if d.service = service ∧ d.generation = generation then pure true
        else pendingFiles service generation rest

/-- `ServicePending`. -/
def ServicePending (service : List UInt8) (generation : UInt64) : Program Bool := do
  call .lock
  let files ← call .list
  pendingFiles sha256 z service generation files

/-- The file of `ConsumerLock` is made unless it is there. -/
def Disk.consumerLock (d : Disk) : Disk :=
  match d.lookup consumerName with
  | none => d.create.link consumerName (some d.next)
  | some _ => d

inductive Act
  | queue (call : Call × Option (Except Failure Unit))
  /-- `ConsumerLock`. -/
  | consumerLock
  /-- The header index is built or refreshed. -/
  | index
  | crash

/-- What happens to the directory of a queue. -/
inductive Steps : Disk → Act → Disk → Prop
  | queue {d d' : Disk} {c : Call × Option (Except Failure Unit)} : Step sha256 z d c d' → Steps d (.queue c) d'
  | locked (d : Disk) : Steps d .consumerLock d.consumerLock
  /-- The file cannot be opened. -/
  | notLocked (d : Disk) : Steps d .consumerLock d
  | index (d : Disk) : Steps d .index d
  | crash {d d' : Disk} : Crash d d' → Steps d .crash d'

/-- A call to a file system that works, in a directory of regular files. -/
def Works (d : Disk) : (c : Cmd) → Except Failure (Reply c) → Disk → Prop
  | .list, r, d' => Perform d .list r d' ∧ ∃ entries, r = .ok entries ∧ ∀ f ∈ entries, f.regular = true
  | .read path, r, d' => Perform d (.read path) r d' ∧ (r = .error .notExist ∨ ∃ a, r = .ok a)
  | c, r, d' => Perform d c r d' ∧ ∃ a, r = .ok a

end MarketInfo.Spool
