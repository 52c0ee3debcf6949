import MarketInfo.Lib.Transition
import MarketInfo.Redis.Delivery

/-! # Producers, consumers and Redis

Any number of actors send requests that Redis runs later, in any order, any
number of times or never. What an actor reads before it sends is a step of its
own. Leases expire at any time, tombstones once they are expiring, and MySQL
commits deliveries one after another.
-/

namespace MarketInfo

namespace Redis

/-! ## The system -/

structure System where
  store : Store := {}
  /-- The deliveries MySQL has committed; it never forgets one. -/
  mysql : Set Delivery := ∅
  /-- What actors have read with `HGETALL`. -/
  seen : Set (BatchKey × BatchHash) := ∅
  /-- The requests that were sent. -/
  sent : Set Request := ∅

/-- What an actor may send. Producers send the scripts of `Accept`, consumers
those of a claimed delivery, and the cleaners what they read asks for. -/
inductive Sends (f : Format) (U : Set Delivery) (s : System) : Request → Prop where
  | begin {d : Delivery} : d ∈ U → Sends f U s (.begin d.batchKey d.digest (d.header f))
  | member {d : Delivery} {p : Member} : d ∈ U → p ∈ f.split d →
      Sends f U s (.member (d.bookKey p.index) d.batchKey p.digest d.digest p.fields)
  | finish {d : Delivery} (token : String) : d ∈ U →
      Sends f U s (.finish d.batchKey ((f.split d).map fun p => (d.bookKey p.index, p.digest))
        d.digest (d.header f) d.minute token d.payload.length)
  | claim (k : BatchKey) (digest owner : String) (now : Int) :
      Sends f U s (.claim k digest owner now)
  | lease (k : BatchKey) (owner : String) : Sends f U s (.lease k owner)
  | renew (k : BatchKey) (owner : String) : Sends f U s (.renew k owner)
  | release (k : BatchKey) (owner : String) (retryAt : Int) :
      Sends f U s (.release k owner retryAt)
  -- `verify` has found the delivery committed
  | ack {d : Delivery} : d ∈ s.mysql → Sends f U s (.ack d.batchKey d.digest d.minute)
  | ownedAck {d : Delivery} (owner : String) : d ∈ s.mysql →
      Sends f U s (.ownedAck d.batchKey d.digest d.minute owner)
  -- `Cleanup`: a header of the window, old enough at some cutoff
  | cleanup {k : BatchKey} {b : BatchHash} {h : Header} (cutoff : Int) : (k, b) ∈ s.seen →
      b.header = some h → h.database = k.database → h.id = k.id → h.minute < cutoff →
      (∀ m ∈ h.keys, m.database = k.database) → Sends f U s (.cleanup k h.keys)
  | repairReady {k : BatchKey} {b : BatchHash} {h : Header} : (k, b) ∈ s.seen →
      b.state = some .sealed → b.header = some h → h.database = k.database → h.id = k.id →
      b.digest = some h.digest → Sends f U s (.repairReady k h h.digest h.minute)
  -- `CleanupAbandoned`: a fenced generation, which the store does not know
  | abandon {k : BatchKey} {b : BatchHash} {h : Header} : (k, b) ∈ s.seen →
      b.state = some .collecting → b.header = some h → h.database = k.database →
      (∀ m ∈ h.keys, m.database = k.database) → Sends f U s (.abandon k h.keys)
  -- `CleanupCommittedCollecting`: the whole delivery was committed on another way
  | retire {k : BatchKey} {b : BatchHash} {h : Header} {d : Delivery} : (k, b) ∈ s.seen →
      b.state = some .collecting → b.header = some h → h.database = k.database → h.id = k.id →
      b.digest = some h.digest → d ∈ s.mysql → d.header f = h →
      Sends f U s (.retire k h.keys h h.digest)

inductive Label where
  | commit (d : Delivery)
  | read (k : BatchKey)
  | send (r : Request)
  | run (r : Request) (reply : Reply)
  | leaseExpires (k : BatchKey)
  | batchExpires (k : BatchKey)

inductive Step (f : Format) (U : Set Delivery) : System → Label → System → Prop where
  | commit {s : System} {d : Delivery} : d ∈ U →
      Step f U s (.commit d) { s with mysql := insert d s.mysql }
  | read {s : System} {k : BatchKey} {b : BatchHash} : s.store.batch k = some b →
      Step f U s (.read k) { s with seen := insert (k, b) s.seen }
  | send {s : System} {r : Request} : Sends f U s r →
      Step f U s (.send r) { s with sent := insert r s.sent }
  | run {s : System} {r : Request} : r ∈ s.sent →
      Step f U s (.run r (exec s.store r).2) { s with store := (exec s.store r).1 }
  | leaseExpires {s : System} (k : BatchKey) :
      Step f U s (.leaseExpires k) { s with store := s.store.setLease k none }
  | batchExpires {s : System} {k : BatchKey} {b : BatchHash} : s.store.batch k = some b →
      b.expiring = true →
      Step f U s (.batchExpires k) { s with store := s.store.unlinkBatch k }

/-! ## The invariant -/

variable {f : Format} {U : Set Delivery}

/-- A batch hash: only a retry time, or the header of a delivery. -/
inductive BatchOk (f : Format) (U : Set Delivery) (k : BatchKey) (b : BatchHash) : Prop where
  | blank : b.digest = none → b.header = none → b.state = none → b.expiring = false →
      BatchOk f U k b
  | ofDelivery (d : Delivery) (st : BatchState) : d ∈ U → d.batchKey = k →
      b.digest = some d.digest → b.header = some (d.header f) → b.state = some st →
      (b.expiring = true → ¬ st.Open) → BatchOk f U k b

/-- A member hash is that of a member of some delivery. -/
def BookOk (f : Format) (U : Set Delivery) (m : BookKey) (h : MemberHash) : Prop :=
  ∃ d ∈ U, ∃ p ∈ f.split d, d.bookKey p.index = m ∧ h.digest = some p.digest ∧ h.fields = p.stored

/-- What the store keeps to. -/
structure StoreOk (f : Format) (U : Set Delivery) (s : Store) : Prop where
  batch : ∀ k b, s.batch k = some b → BatchOk f U k b
  book : ∀ m h, s.book m = some h → BookOk f U m h
  complete : ∀ d ∈ U, ∀ st, st = .sealed ∨ st = .committed → Holds f s d st → Complete f s d

/-- What is true of a request for good, once it was sent. -/
def RequestOk (f : Format) (U mysql : Set Delivery) : Request → Prop
  | .begin k digest header => ∃ d ∈ U, k = d.batchKey ∧ digest = d.digest ∧ header = d.header f
  | .member m k digest batchDigest fields => ∃ d ∈ U, ∃ p ∈ f.split d,
      m = d.bookKey p.index ∧ k = d.batchKey ∧ digest = p.digest ∧ batchDigest = d.digest ∧
        fields = p.fields
  | .finish k members digest header _ _ _ => ∃ d ∈ U, k = d.batchKey ∧
      members = (f.split d).map (fun p => (d.bookKey p.index, p.digest)) ∧ digest = d.digest ∧
        header = d.header f
  | .ack k digest _ => ∃ d ∈ U, d ∈ mysql ∧ k = d.batchKey ∧ digest = d.digest
  | .ownedAck k digest _ _ => ∃ d ∈ U, d ∈ mysql ∧ k = d.batchKey ∧ digest = d.digest
  | .cleanup k keys => ∀ m ∈ keys, m.batch = k
  | .abandon k keys => ∀ m ∈ keys, m.batch = k
  | .retire k keys _ _ => ∀ m ∈ keys, m.batch = k
  | .claim .. | .lease .. | .renew .. | .release .. | .repairReady .. => True

structure Inv (f : Format) (U : Set Delivery) (s : System) : Prop where
  store : StoreOk f U s.store
  mysql : s.mysql ⊆ U
  seen : ∀ e ∈ s.seen, BatchOk f U e.1 e.2
  sent : ∀ r ∈ s.sent, RequestOk f U s.mysql r

theorem inv_init : Inv f U {} := by
  refine ⟨⟨?_, ?_, ?_⟩, ?_, ?_, ?_⟩
  · intro k b h
    cases h
  · intro m h hm
    cases hm
  · intro d _ st _ hb
    exact absurd rfl hb.present
  · exact Set.empty_subset U
  · intro e he
    cases he
  · intro r hr
    cases hr

/-- The members named in a header are those of its batch. -/
theorem header_keys {d : Delivery} {k : BatchKey} (hk : d.batchKey = k) :
    ∀ m ∈ (d.header f).keys, m.batch = k := by
  intro m hm
  obtain ⟨p, -, rfl⟩ := List.mem_map.1 hm
  exact hk

/-- What an actor sends stays true. -/
theorem requestOk_of_sends {s : System} {r : Request} (hinv : Inv f U s) (h : Sends f U s r) :
    RequestOk f U s.mysql r := by
  have hkeys : ∀ k b h, (k, b) ∈ s.seen → b.header = some h → ∀ m ∈ h.keys, m.batch = k := by
    intro k b h hseen hheader
    rcases hinv.seen _ hseen with ⟨-, hnone, -, -⟩ | ⟨d, st, -, hk, -, hd, -, -⟩
    · rw [hnone] at hheader
      cases hheader
    · rw [hd] at hheader
      obtain rfl := Option.some.inj hheader
      exact header_keys hk
  cases h with
  | begin hd => exact ⟨_, hd, rfl, rfl, rfl⟩
  | member hd hp => exact ⟨_, hd, _, hp, rfl, rfl, rfl, rfl, rfl⟩
  | finish token hd => exact ⟨_, hd, rfl, rfl, rfl, rfl⟩
  | claim => trivial
  | lease => trivial
  | renew => trivial
  | release => trivial
  | ack hd => exact ⟨_, hinv.mysql hd, hd, rfl, rfl⟩
  | ownedAck owner hd => exact ⟨_, hinv.mysql hd, hd, rfl, rfl⟩
  | cleanup cutoff hseen hheader => exact hkeys _ _ _ hseen hheader
  | repairReady => trivial
  | abandon hseen _ hheader => exact hkeys _ _ _ hseen hheader
  | retire hseen _ hheader => exact hkeys _ _ _ hseen hheader

theorem requestOk_mono {mysql mysql' : Set Delivery} {r : Request} (hsub : mysql ⊆ mysql')
    (h : RequestOk f U mysql r) : RequestOk f U mysql' r := by
  cases r with
  | ack =>
      obtain ⟨d, hd, hm, hrest⟩ := h
      exact ⟨d, hd, hsub hm, hrest⟩
  | ownedAck =>
      obtain ⟨d, hd, hm, hrest⟩ := h
      exact ⟨d, hd, hsub hm, hrest⟩
  | _ => exact h

end Redis

end MarketInfo
