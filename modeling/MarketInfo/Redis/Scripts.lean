import MarketInfo.Lib.Check

/-! # The delivery buffer in Redis

The keys of `redisbuffer` and the Lua scripts that change them. A script runs
alone, so each is a function of the store. The five kinds of keys have different
prefixes and each holds one Redis type, so the `TYPE` checks of the scripts pass
and are left out.
-/

namespace MarketInfo

namespace Redis

/-! ## Keys and values -/

abbrev Bytes := List UInt8

/-- `batchKey`; the ready and window entries and the lease have the same id. -/
structure BatchKey where
  database : String
  id : String
deriving DecidableEq, Repr

/-- `bookKey`: one member of a delivery. -/
structure BookKey where
  database : String
  kind : String
  generation : UInt64
  id : String
  minute : Int
  index : UInt32
deriving DecidableEq, Repr

/-- The batch a member belongs to. -/
def BookKey.batch (m : BookKey) : BatchKey := ⟨m.database, m.id⟩

/-- The decoded `header` field; equal headers have equal encodings. -/
structure Header where
  database : String
  kind : String
  id : String
  service : String
  generation : UInt64
  /-- Unix minute. -/
  minute : Int
  /-- SHA-256 of the payload in hexadecimal. -/
  digest : String
  members : UInt32
  codec : UInt16
  keys : List BookKey
deriving DecidableEq, Repr

inductive BatchState where
  | collecting | sealed | committed | abandoned | retired
deriving DecidableEq, Repr

/-- A state in which members are still wanted. -/
def BatchState.Open : BatchState → Prop
  | .collecting | .sealed | .committed => True
  | .abandoned | .retired => False

instance (state : BatchState) : Decidable state.Open := by
  cases state <;> unfold BatchState.Open <;> infer_instance

/-- The hash of a batch; a missing field is `none`. -/
structure BatchHash where
  digest : Option String := none
  header : Option Header := none
  state : Option BatchState := none
  token : Option String := none
  payloadBytes : Option Nat := none
  retryAt : Option Int := none
  /-- `EXPIRE` was called: the key goes at some later time. -/
  expiring : Bool := false
deriving DecidableEq

/-- The hash of a member. -/
structure MemberHash where
  digest : Option String := none
  fields : String → Option Bytes := fun _ => none

structure Store where
  batch : BatchKey → Option BatchHash := fun _ => none
  book : BookKey → Option MemberHash := fun _ => none
  /-- The scores of the ready set. -/
  ready : BatchKey → Option Int := fun _ => none
  /-- The scores of the window set. -/
  window : BatchKey → Option Int := fun _ => none
  lease : BatchKey → Option String := fun _ => none

namespace Store

/-- `HGETALL` of a batch: a missing key has no fields. -/
def batchAt (s : Store) (k : BatchKey) : BatchHash := (s.batch k).getD {}

def bookAt (s : Store) (m : BookKey) : MemberHash := (s.book m).getD {}

def setBatch (s : Store) (k : BatchKey) (b : BatchHash) : Store :=
  { s with batch := Function.update s.batch k (some b) }

def setBook (s : Store) (m : BookKey) (h : MemberHash) : Store :=
  { s with book := Function.update s.book m (some h) }

/-- `UNLINK` of a batch. -/
def unlinkBatch (s : Store) (k : BatchKey) : Store :=
  { s with batch := Function.update s.batch k none }

/-- `UNLINK` of members. -/
def unlinkBooks (s : Store) (keys : List BookKey) : Store :=
  { s with book := fun m => if m ∈ keys then none else s.book m }

def setReady (s : Store) (k : BatchKey) (score : Option Int) : Store :=
  { s with ready := Function.update s.ready k score }

def setWindow (s : Store) (k : BatchKey) (score : Option Int) : Store :=
  { s with window := Function.update s.window k score }

def setLease (s : Store) (k : BatchKey) (owner : Option String) : Store :=
  { s with lease := Function.update s.lease k owner }

end Store

/-! ## Scripts -/

/-- The number a script returns, or its `error_reply`. -/
abbrev Reply := Except String Nat

/-- `HSET` of every argument pair. -/
def hsetAll (fields : String → Option Bytes) (args : List (String × Bytes)) : String → Option Bytes :=
  args.foldl (fun fields arg => Function.update fields arg.1 (some arg.2)) fields

/-- `state and state~='collecting' and state~='sealed' and state~='committed'`. -/
@[reducible] def Closed (state : Option BatchState) : Prop := ∃ st ∈ state, ¬ st.Open

def beginScript (s : Store) (k : BatchKey) (digest : String) (header : Header) : Store × Reply :=
  let b := s.batchAt k
  if b.digest ≠ none ∧ b.digest ≠ some digest then (s, .error "CMI_CONFLICT")
  else if b.header ≠ none ∧ b.header ≠ some header then (s, .error "CMI_CONFLICT")
  else if Closed b.state then (s, .error "CMI_STATE")
  else if b.digest = none then
    (s.setBatch k { b with digest := some digest, header := some header, state := some .collecting },
      .ok 1)
  else (s, .ok 1)

def memberScript (s : Store) (m : BookKey) (k : BatchKey) (digest batchDigest : String)
    (fields : List (String × Bytes)) : Store × Reply :=
  let b := s.batchAt k
  if ¬ ∃ st ∈ b.state, st.Open then (s, .error "CMI_STATE")
  else if b.digest ≠ some batchDigest then (s, .error "CMI_CONFLICT")
  else
    let old := s.bookAt m
    if old.digest ≠ none ∧ old.digest ≠ some digest then (s, .error "CMI_CONFLICT")
    else (s.setBook m { digest := some digest, fields := hsetAll old.fields fields }, .ok 1)

/-- `members` pairs the member keys with the digests they must have. -/
def sealScript (s : Store) (k : BatchKey) (members : List (BookKey × String)) (digest : String)
    (header : Header) (score : Int) (token : String) (payloadBytes : Nat) : Store × Reply :=
  let b := s.batchAt k
  if b.digest ≠ none ∧ b.digest ≠ some digest then (s, .error "CMI_CONFLICT")
  else if ∃ e ∈ members, (s.bookAt e.1).digest ≠ some e.2 then (s, .error "CMI_INCOMPLETE")
  else if Closed b.state then (s, .error "CMI_STATE")
  else
    let b := { b with
      digest := some digest, header := some header, token := some token,
      payloadBytes := some payloadBytes }
    if b.state = some .committed then (s.setBatch k b, .ok 1)
    else ((s.setBatch k { b with state := some .sealed }).setReady k (some score), .ok 1)

def claimScript (s : Store) (k : BatchKey) (digest owner : String) (now : Int) : Store × Reply :=
  let b := s.batchAt k
  if s.ready k = none then (s, .ok 0)
  else if b.state ≠ some .sealed then (s, .ok 0)
  else if b.digest ≠ some digest then (s, .error "CMI_CONFLICT")
  else if ∃ retry ∈ b.retryAt, now < retry then (s, .ok 0)
  else if s.lease k = none then (s.setLease k (some owner), .ok 1)
  else (s, .ok 0)

/-- `SET NX`, without a look at the batch. -/
def leaseCommand (s : Store) (k : BatchKey) (owner : String) : Store × Reply :=
  if s.lease k = none then (s.setLease k (some owner), .ok 1) else (s, .ok 0)

/-- Only the time to live of the lease changes. -/
def renewScript (s : Store) (k : BatchKey) (owner : String) : Store × Reply :=
  if s.lease k ≠ some owner then (s, .ok 0) else (s, .ok 1)

/-- `HSET` makes the batch key when it is missing. -/
def releaseScript (s : Store) (k : BatchKey) (owner : String) (retryAt : Int) : Store × Reply :=
  if s.lease k ≠ some owner then (s, .ok 0)
  else ((s.setBatch k { s.batchAt k with retryAt := some retryAt }).setLease k none, .ok 1)

/-- The part of both ACK scripts after the owner check. -/
def commitBatch (s : Store) (k : BatchKey) (digest : String) (minute : Int) : Store × Reply :=
  let b := s.batchAt k
  if b.digest ≠ some digest then (s, .error "CMI_CONFLICT")
  else if b.state ≠ some .sealed ∧ b.state ≠ some .committed then (s, .error "CMI_STATE")
  else
    ((((s.setBatch k { b with state := some .committed }).setReady k none).setWindow k
      (some minute)).setLease k none, .ok 1)

def ackScript (s : Store) (k : BatchKey) (digest : String) (minute : Int) : Store × Reply :=
  commitBatch s k digest minute

def ownedAckScript (s : Store) (k : BatchKey) (digest : String) (minute : Int) (owner : String) :
    Store × Reply :=
  if s.lease k ≠ some owner then (s, .ok 0) else commitBatch s k digest minute

def cleanupScript (s : Store) (k : BatchKey) (keys : List BookKey) : Store × Reply :=
  if (s.batchAt k).state ≠ some .committed then (s, .ok 0)
  else (((s.setWindow k none).unlinkBatch k).unlinkBooks keys, .ok 1)

def repairReadyScript (s : Store) (k : BatchKey) (header : Header) (digest : String) (minute : Int) :
    Store × Reply :=
  let b := s.batchAt k
  if b.state ≠ some .sealed then (s, .ok 0)
  else if b.header ≠ some header ∨ b.digest ≠ some digest then (s, .error "CMI_CONFLICT")
  else (s.setReady k (some minute), .ok 1)

/-- A tombstone: the state changes, the members go, and the key expires. -/
def bury (s : Store) (k : BatchKey) (state : BatchState) (keys : List BookKey) : Store :=
  (s.setBatch k { s.batchAt k with state := some state, expiring := true }).unlinkBooks keys

def abandonScript (s : Store) (k : BatchKey) (keys : List BookKey) : Store × Reply :=
  if (s.batchAt k).state ≠ some .collecting then (s, .ok 0)
  else (bury s k .abandoned keys, .ok 1)

def retireCollectingScript (s : Store) (k : BatchKey) (keys : List BookKey) (header : Header)
    (digest : String) : Store × Reply :=
  let b := s.batchAt k
  if b.state ≠ some .collecting then (s, .ok 0)
  else if b.header ≠ some header ∨ b.digest ≠ some digest then (s, .ok 0)
  else (bury s k .retired keys, .ok 1)

/-! ## Requests -/

/-- A command with its arguments. -/
inductive Request where
  | begin (k : BatchKey) (digest : String) (header : Header)
  | member (m : BookKey) (k : BatchKey) (digest batchDigest : String)
      (fields : List (String × Bytes))
  | finish (k : BatchKey) (members : List (BookKey × String)) (digest : String) (header : Header)
      (score : Int) (token : String) (payloadBytes : Nat)
  | claim (k : BatchKey) (digest owner : String) (now : Int)
  | lease (k : BatchKey) (owner : String)
  | renew (k : BatchKey) (owner : String)
  | release (k : BatchKey) (owner : String) (retryAt : Int)
  | ack (k : BatchKey) (digest : String) (minute : Int)
  | ownedAck (k : BatchKey) (digest : String) (minute : Int) (owner : String)
  | cleanup (k : BatchKey) (keys : List BookKey)
  | repairReady (k : BatchKey) (header : Header) (digest : String) (minute : Int)
  | abandon (k : BatchKey) (keys : List BookKey)
  | retire (k : BatchKey) (keys : List BookKey) (header : Header) (digest : String)

/-- Redis runs one request at a time. -/
def exec (s : Store) : Request → Store × Reply
  | .begin k digest header => beginScript s k digest header
  | .member m k digest batchDigest fields => memberScript s m k digest batchDigest fields
  | .finish k members digest header score token payloadBytes =>
      sealScript s k members digest header score token payloadBytes
  | .claim k digest owner now => claimScript s k digest owner now
  | .lease k owner => leaseCommand s k owner
  | .renew k owner => renewScript s k owner
  | .release k owner retryAt => releaseScript s k owner retryAt
  | .ack k digest minute => ackScript s k digest minute
  | .ownedAck k digest minute owner => ownedAckScript s k digest minute owner
  | .cleanup k keys => cleanupScript s k keys
  | .repairReady k header digest minute => repairReadyScript s k header digest minute
  | .abandon k keys => abandonScript s k keys
  | .retire k keys header digest => retireCollectingScript s k keys header digest

end Redis

end MarketInfo
