import MarketInfo.Redis.Scripts

/-! # Deliveries

What producers hand over, how `Accept` splits it into members, and how `Load`
puts it together again. The payload codec is a parameter: `Producers` says what
the buffer relies on, that a decoded member encodes to the bytes it was decoded
from and that no two contents share a digest.
-/

namespace MarketInfo

namespace Redis

/-- `contracts.Delivery`, with the digest in hexadecimal. -/
structure Delivery where
  database : String
  kind : String
  id : String
  service : String
  generation : UInt64
  /-- Unix minute. -/
  minute : Int
  digest : String
  members : UInt32
  codec : UInt16
  payload : Bytes
deriving DecidableEq, Repr

/-- A member as `Accept` writes it: the fields of its hash after `digest`. -/
structure Member where
  index : UInt32
  digest : String
  fields : List (String × Bytes)
deriving DecidableEq, Repr

/-- The payload codec. -/
structure Format where
  /-- The members of a payload, in order. -/
  split : Delivery → List Member
  /-- Decode the fields of the member at a position: its index and the digest of
  its re-encoding. -/
  read : Header → Nat → (String → Option Bytes) → Option (UInt32 × String)
  /-- The payload of decoded members, and how many members it counts. -/
  join : Header → List (String → Option Bytes) → Option (Bytes × UInt32)
  /-- SHA-256 in hexadecimal. -/
  sha256 : Bytes → String

def Delivery.batchKey (d : Delivery) : BatchKey := ⟨d.database, d.id⟩

def Delivery.bookKey (d : Delivery) (index : UInt32) : BookKey :=
  { database := d.database, kind := d.kind, generation := d.generation, id := d.id,
    minute := d.minute, index }

def Delivery.header (d : Delivery) (f : Format) : Header :=
  { database := d.database, kind := d.kind, id := d.id, service := d.service,
    generation := d.generation, minute := d.minute, digest := d.digest, members := d.members,
    codec := d.codec, keys := (f.split d).map fun p => d.bookKey p.index }

/-- The hash fields of a member. -/
def Member.stored (p : Member) : String → Option Bytes := hsetAll (fun _ => none) p.fields

/-! ## Load -/

/-- `bookKey` of the delivery a header describes. -/
def Header.bookKey (h : Header) (index : UInt32) : BookKey :=
  { database := h.database, kind := h.kind, generation := h.generation, id := h.id,
    minute := h.minute, index }

@[reducible] def OptionsKind (kind : String) : Prop := kind = "options_live" ∨ kind = "options_catalog"

/-- The number of keys in a manifest. -/
def checkManifest (h : Header) : Except String Unit :=
  if OptionsKind h.kind then
    Check.failIf (h.keys.length < 2 ∨ 1346 < h.keys.length) "option manifest quota"
  else
    Check.failIf (100 < h.keys.length ∨ UInt32.ofNat h.keys.length ≠ h.members)
      "Redis manifest count mismatch"

/-- One member: its digest is that of its content, and its key is its own. -/
def loadMember (f : Format) (s : Store) (h : Header) (n : Nat) (key : BookKey) :
    Except String (String → Option Bytes) :=
  let m := s.bookAt key
  match f.read h n m.fields with
  | none => .error "invalid member encoding"
  | some (index, digest) => do
      Check.failIf (m.digest ≠ some digest) "immutable storage content conflict"
      Check.failIf (h.bookKey index ≠ key) "immutable storage content conflict"
      return m.fields

def loadMembers (f : Format) (s : Store) (h : Header) :
    Nat → List BookKey → Except String (List (String → Option Bytes))
  | _, [] => .ok []
  | n, key :: rest => do
      let member ← loadMember f s h n key
      let members ← loadMembers f s h (n + 1) rest
      return member :: members

/-- The payload of a header from its members. -/
def loadPayload (f : Format) (h : Header) (members : List (String → Option Bytes)) :
    Except String Delivery :=
  match f.join h members with
  | none => .error "invalid payload"
  | some (payload, count) => do
      Check.failIf (OptionsKind h.kind ∧ count ≠ h.members) "immutable storage content conflict"
      Check.failIf (f.sha256 payload ≠ h.digest) "delivery digest mismatch"
      return { database := h.database, kind := h.kind, id := h.id, service := h.service,
               generation := h.generation, minute := h.minute, digest := h.digest,
               members := h.members, codec := h.codec, payload }

/-- `Load`. -/
def load (f : Format) (s : Store) (k : BatchKey) : Except String Delivery :=
  let b := s.batchAt k
  if b.state ≠ some .sealed ∧ b.state ≠ some .committed then .error "Redis batch is not sealed"
  else
    match b.header with
    | none => .error "invalid header encoding"
    | some h => do
        Check.failIf (h.database ≠ k.database ∨ h.id ≠ k.id ∨ some h.digest ≠ b.digest)
          "immutable storage content conflict"
        checkManifest h
        let members ← loadMembers f s h 0 h.keys
        loadPayload f h members

/-! ## Producers -/

/-- What producers promise about the deliveries they hand over. Ids are SHA-256
of service, generation, scope, kind and minute, and a payload begins with the
tag of its codec, so an id and a digest belong to one delivery. -/
structure Producers (f : Format) (U : Set Delivery) : Prop where
  unique : ∀ d ∈ U, ∀ e ∈ U, d.batchKey = e.batchKey → d.digest = e.digest → d = e
  content : ∀ d ∈ U, ∀ e ∈ U, ∀ p ∈ f.split d, ∀ q ∈ f.split e,
    d.bookKey p.index = e.bookKey q.index → p.digest = q.digest → p.stored = q.stored
  read : ∀ d ∈ U, ∀ (n : Nat) p, (f.split d)[n]? = some p →
    f.read (d.header f) n p.stored = some (p.index, p.digest)
  join : ∀ d ∈ U, f.join (d.header f) ((f.split d).map Member.stored) = some (d.payload, d.members)
  digest : ∀ d ∈ U, f.sha256 d.payload = d.digest
  quota : ∀ d ∈ U, checkManifest (d.header f) = .ok ()

/-! ## What makes a batch loadable -/

/-- Every member of the delivery is stored. -/
def Complete (f : Format) (s : Store) (d : Delivery) : Prop :=
  ∀ p ∈ f.split d, ∃ h, s.book (d.bookKey p.index) = some h ∧ h.digest = some p.digest ∧
    h.fields = p.stored

/-- The batch key holds the delivery's header. -/
structure Holds (f : Format) (s : Store) (d : Delivery) (state : BatchState) : Prop where
  present : s.batch d.batchKey ≠ none
  digest : (s.batchAt d.batchKey).digest = some d.digest
  header : (s.batchAt d.batchKey).header = some (d.header f)
  state : (s.batchAt d.batchKey).state = some state

theorem loadMembers_eq {f : Format} {U : Set Delivery} (hU : Producers f U) {s : Store}
    {d : Delivery} (hd : d ∈ U) (hc : Complete f s d) {n : Nat} {ps : List Member}
    (hps : (f.split d).drop n = ps) :
    loadMembers f s (d.header f) n (ps.map fun p => d.bookKey p.index) =
      .ok (ps.map Member.stored) := by
  induction ps generalizing n with
  | nil => rfl
  | cons p rest ih =>
      have hget : (f.split d)[n]? = some p := by
        rw [← List.head?_drop, hps]
        rfl
      have hrest : (f.split d).drop (n + 1) = rest := by
        rw [← List.tail_drop, hps]
        rfl
      obtain ⟨h, hbook, hdigest, hfields⟩ := hc p (List.mem_of_getElem? hget)
      have hat : s.bookAt (d.bookKey p.index) = h := by
        unfold Store.bookAt
        rw [hbook]
        rfl
      have hmember : loadMember f s (d.header f) n (d.bookKey p.index) = .ok p.stored := by
        unfold loadMember
        dsimp only
        rw [hat, hfields, hU.read d hd n p hget]
        simp only [Check.seq_eq_ok, Check.failIf_eq_ok, not_not, hdigest]
        exact ⟨trivial, rfl, rfl⟩
      rw [List.map_cons, loadMembers]
      refine Check.andThen_eq_ok.2 ⟨_, hmember, Check.andThen_eq_ok.2 ⟨_, ih hrest, rfl⟩⟩

/-- A sealed batch with all its members loads as the delivery it was sealed for. -/
theorem load_eq {f : Format} {U : Set Delivery} (hU : Producers f U) {s : Store} {d : Delivery}
    (hd : d ∈ U) {state : BatchState} (hstate : state = .sealed ∨ state = .committed)
    (hb : Holds f s d state) (hc : Complete f s d) : load f s d.batchKey = .ok d := by
  have hmembers := loadMembers_eq hU hd hc (n := 0) rfl
  have hopen : ¬ ((s.batchAt d.batchKey).state ≠ some .sealed ∧
      (s.batchAt d.batchKey).state ≠ some .committed) := by
    rw [hb.state]
    rcases hstate with rfl | rfl <;> decide
  have hpayload : loadPayload f (d.header f) ((f.split d).map Member.stored) = .ok d := by
    unfold loadPayload
    rw [hU.join d hd]
    simp only [Check.seq_eq_ok, Check.failIf_eq_ok, not_not, not_and]
    exact ⟨fun _ => rfl, hU.digest d hd, rfl⟩
  unfold load
  dsimp only
  rw [if_neg hopen, hb.header]
  simp only [Check.seq_eq_ok, Check.failIf_eq_ok, hU.quota d hd]
  refine ⟨?_, trivial, Check.andThen_eq_ok.2 ⟨_, hmembers, hpayload⟩⟩
  rw [hb.digest]
  rintro (h | h | h)
  · exact h rfl
  · exact h rfl
  · exact h rfl

end Redis

end MarketInfo
