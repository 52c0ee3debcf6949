import MarketInfo.Lib.Check

/-! # The typed codec of checkpoints

A state goes through Go's `gob`, which does not transmit zero values, together with a tree that
tells where the pointers were. Values are taken apart as `reflect` shows them.
-/

namespace MarketInfo.Checkpoint

/-! ## Values -/

/-- The kind of a type, with the types of its members. -/
inductive Shape (τ : Type) where
  /-- Truth values, numbers and strings. -/
  | basic
  /-- A type with an encoder of its own, `atomicCodecType`. -/
  | atomic
  | pointer (elem : τ)
  /-- The fields, exported or not. -/
  | struct (fields : List (Bool × τ))
  | array (length : Nat) (elem : τ)
  | slice (elem : τ)
  | map (elem : τ)
  | interface

def Shape.isPointer {τ : Type} : Shape τ → Bool
  | .pointer _ => true
  | _ => false

def Shape.isStruct {τ : Type} : Shape τ → Bool
  | .struct _ => true
  | _ => false

/-- A key of a map. -/
inductive Key
  | string (bytes : List UInt8)
  | number (n : Int)
  /-- Of another kind. -/
  | other (id : Nat)
deriving DecidableEq, Repr

/-- A value; `nil` is a nil pointer, slice or map. -/
inductive Val (α : Type) where
  | leaf (a : α)
  | nil
  | pointer (v : Val α)
  | struct (fields : List (Val α))
  | array (elems : List (Val α))
  | slice (elems : List (Val α))
  | map (entries : List (Key × Val α))
  | interface (isNil : Bool)

/-- `v.IsNil()`. -/
def Val.isNil {α : Type} : Val α → Bool
  | .nil => true
  | _ => false

/-- The zero value of a type by those of its members. -/
def Shape.zero {τ α : Type} (leaf : α) (zero : τ → Val α) : Shape τ → Val α
  | .basic | .atomic => .leaf leaf
  | .pointer _ | .slice _ | .map _ => .nil
  | .struct fields => .struct (fields.map fun f => zero f.2)
  | .array length elem => .array (List.replicate length (zero elem))
  | .interface => .interface true

/-- Types, which may refer to each other through pointers, slices and maps. -/
structure Types (τ α : Type) where
  shape : τ → Shape τ
  zeroLeaf : τ → α
  isZeroLeaf : α → Bool
  /-- `reflect.New(t).Elem()`. -/
  zero : τ → Val α
  zero_eq : ∀ t, zero t = (shape t).zero (zeroLeaf t) zero
  isZeroLeaf_zeroLeaf : ∀ t, isZeroLeaf (zeroLeaf t) = true

mutual

/-- `IsZero`. -/
def isZero {τ α : Type} (S : Types τ α) : Val α → Bool
  | .leaf a => S.isZeroLeaf a
  | .nil => true
  | .pointer _ => false
  | .struct fields => allZero S fields
  | .array elems => allZero S elems
  | .slice _ => false
  | .map _ => false
  | .interface isNil => isNil

def allZero {τ α : Type} (S : Types τ α) : List (Val α) → Bool
  | [] => true
  | v :: vs => isZero S v && allZero S vs

end

/-! ## Presence -/

inductive Failure
  /-- `ErrCapacity`. -/
  | capacity
  /-- `ErrRecovery`. -/
  | recovery
  | text (message : String)
deriving DecidableEq, Repr

/-- The key of a child: `*`, the decimal text of a number, or the text of a map's key. The keys of
one node are all of one kind. -/
inductive Label
  | star
  | number (n : Int)
  | text (bytes : List UInt8)
deriving DecidableEq, Repr

/-- `presence`. -/
inductive Presence where
  | node (pointer nilElement : Bool) (children : List (Label × Presence))

namespace Presence

/-- The zero value, which a missing child has. -/
def none : Presence := .node false false []

def pointer : Presence → Bool
  | .node pointer _ _ => pointer

def nilElement : Presence → Bool
  | .node _ nilElement _ => nilElement

def children : Presence → List (Label × Presence)
  | .node _ _ children => children

/-- `nested.Pointer || nested.NilElement || len(nested.Children) > 0`. -/
def tells (p : Presence) : Bool := p.pointer || p.nilElement || !p.children.isEmpty

end Presence

/-- `mapKey`. -/
def mapKey : Key → Except Failure Label
  | .string bytes => .ok (.text bytes)
  | .number n => .ok (.number n)
  | .other _ => .error (.text "runtime codec unsupported map key")

/-- A member of a value with its key and type. -/
abbrev Member (τ α : Type) := Label × τ × Val α

section Codec

variable {τ α : Type}

/-- The exported fields, from the number `i` on. -/
def fieldMembers : Nat → List (Bool × τ) → List (Val α) → List (Member τ α)
  | i, (true, t) :: fields, v :: vs => (.number i, t, v) :: fieldMembers (i + 1) fields vs
  | i, (false, _) :: fields, _ :: vs => fieldMembers (i + 1) fields vs
  | _, _, _ => []

def elemMembers (elem : τ) : Nat → List (Val α) → List (Member τ α)
  | _, [] => []
  | i, v :: vs => (.number i, elem, v) :: elemMembers elem (i + 1) vs

def mapMembers (elem : τ) : List (Key × Val α) → Except Failure (List (Member τ α))
  | [] => .ok []
  | (k, v) :: entries => do
      let key ← mapKey k
      let rest ← mapMembers elem entries
      .ok ((key, elem, v) :: rest)

variable (S : Types τ α)

/-- The members that `capturePresence` and `restorePresence` go through. -/
def members (t : τ) (v : Val α) : Except Failure (List (Member τ α)) :=
  match S.shape t, v with
  | .struct fields, .struct vs => .ok (fieldMembers 0 fields vs)
  | .array _ elem, .array vs => .ok (elemMembers elem 0 vs)
  | .slice elem, .slice vs => .ok (elemMembers elem 0 vs)
  | .map elem, .map entries => mapMembers elem entries
  | .interface, _ => .error (.text "runtime codec requires concrete domain types")
  | _, _ => .ok []

/-- A nil pointer is marked, but not in a struct. -/
def noteNil (isStruct : Bool) (t : τ) (v : Val α) (nested : Presence) : Presence :=
  .node nested.pointer (nested.nilElement || (!isStruct && (S.shape t).isPointer && v.isNil)) nested.children

/-- `add` for one member after the other: what has nothing to tell is left out. -/
def captureAll (capture : τ → Val α → Except Failure Presence) (isStruct : Bool) :
    List (Member τ α) → Except Failure (List (Label × Presence))
  | [] => .ok []
  | (key, t, v) :: rest => do
      let nested ← capture t v
      let nested := noteNil S isStruct t v nested
      let children ← captureAll capture isStruct rest
      if nested.tells then .ok ((key, nested) :: children) else .ok children

/-- `capturePresence`, which may go on for `room` more levels: `depth` is `65 - room`. -/
def capturePresence : Nat → τ → Val α → Except Failure Presence
  | 0, _, _ => .error .capacity
  | room + 1, t, v =>
      match S.shape t, v with
      | .pointer elem, .pointer inner => do
          let inner ← capturePresence room elem inner
          .ok (.node true false [(.star, inner)])
      | .pointer _, _ => .ok .none
      | .atomic, _ => .ok .none
      | shape, v => do
          let ms ← members S t v
          let children ← captureAll S (capturePresence room) shape.isStruct ms
          .ok (.node false false children)

/-- `child` for one member after the other, with `visited`. -/
def restoreAll (restore : τ → Val α → Presence → Except Failure (Val α)) (children : List (Label × Presence)) :
    List (Member τ α) → Except Failure (List (Val α) × Nat)
  | [] => .ok ([], 0)
  | (key, t, v) :: rest => do
      let v ← restore t v ((children.lookup key).getD .none)
      let (vs, visited) ← restoreAll restore children rest
      .ok (v :: vs, if (children.lookup key).isSome then visited + 1 else visited)

/-- The exported fields anew. -/
def refill : List (Bool × τ) → List (Val α) → List (Val α) → List (Val α)
  | (true, _) :: fields, _ :: vs, w :: ws => w :: refill fields vs ws
  | (false, _) :: fields, v :: vs, ws => v :: refill fields vs ws
  | _, vs, _ => vs

/-- A value with its members anew. -/
def replaceMembers (t : τ) (v : Val α) (ws : List (Val α)) : Val α :=
  match S.shape t, v with
  | .struct fields, .struct vs => .struct (refill fields vs ws)
  | .array _ _, .array _ => .array ws
  | .slice _, .slice _ => .slice ws
  | .map _, .map entries => .map ((entries.map Prod.fst).zip ws)
  | _, v => v

/-- `v.Kind() != reflect.Pointer || (!v.IsNil() && !v.Elem().IsZero())`. -/
def notPlaceholder (t : τ) (v : Val α) : Bool :=
  match S.shape t, v with
  | .pointer _, .pointer w => !isZero S w
  | .pointer _, _ => false
  | _, _ => true

/-- The target of a pointer, a new zero value for nil. -/
def pointee (elem : τ) : Val α → Val α
  | .pointer w => w
  | _ => S.zero elem

/-- `restorePresence`, with `room` as above. -/
def restorePresence : Nat → τ → Val α → Presence → Except Failure (Val α)
  | 0, _, _, _ => .error .capacity
  | room + 1, t, v, p =>
      if p.nilElement then
        if p.pointer || !p.children.isEmpty || notPlaceholder S t v then .error .recovery else .ok .nil
      else
        match S.shape t with
        | .pointer elem =>
            if !p.pointer then
              if v.isNil then .ok v else .error (.text "pointer presence mismatch")
            else
              match p.children with
              | [(.star, inner)] => do
                  let w ← restorePresence room elem (pointee S elem v) inner
                  .ok (.pointer w)
              | _ => .error .recovery
        | shape =>
            if p.pointer then .error .recovery
            else
              match shape with
              | .atomic => if p.children.isEmpty then .ok v else .error .recovery
              | _ => do
                  let ms ← members S t v
                  let (ws, visited) ← restoreAll (restorePresence room) p.children ms
                  if visited ≠ p.children.length then .error (.text "unknown pointer presence member")
                  else .ok (replaceMembers S t v ws)

end Codec

/-! ## The codec -/

section GobSafe

variable {τ α : Type} (S : Types τ α)

mutual

/-- `gobSafe`: a nil pointer among elements becomes a pointer to the zero value. -/
def gobSafe (t : τ) (element : Bool) : Val α → Val α
  | .nil =>
      match S.shape t with
      | .pointer elem => if element then .pointer (S.zero elem) else .nil
      | _ => .nil
  | .pointer v =>
      match S.shape t with
      | .pointer elem => .pointer (gobSafe elem false v)
      | _ => .pointer v
  | .struct vs =>
      match S.shape t with
      | .struct fields => .struct (gobSafeFields fields vs)
      | _ => .struct vs
  | .array vs =>
      match S.shape t with
      | .array _ elem => .array (gobSafeElems elem vs)
      | _ => .array vs
  | .slice vs =>
      match S.shape t with
      | .slice elem => .slice (gobSafeElems elem vs)
      | _ => .slice vs
  | .map entries =>
      match S.shape t with
      | .map elem => .map (gobSafeEntries elem entries)
      | _ => .map entries
  | v => v

def gobSafeFields (fields : List (Bool × τ)) : List (Val α) → List (Val α)
  | [] => []
  | v :: vs =>
      match fields with
      | (true, t) :: fields => gobSafe t false v :: gobSafeFields fields vs
      | (false, _) :: fields => v :: gobSafeFields fields vs
      | [] => v :: vs

def gobSafeElems (elem : τ) : List (Val α) → List (Val α)
  | [] => []
  | v :: vs => gobSafe elem true v :: gobSafeElems elem vs

def gobSafeEntries (elem : τ) : List (Key × Val α) → List (Key × Val α)
  | [] => []
  | (k, v) :: entries => (k, gobSafe elem true v) :: gobSafeEntries elem entries

end

end GobSafe

/-- `typedEnvelope`. -/
structure Envelope where
  version : Nat
  body : List UInt8
  present : Presence

/-- `encode` and `decode`, at the types of states and at the envelope. -/
structure Gob (τ α : Type) where
  encode : τ → Val α → Except Failure (List UInt8)
  decode : τ → List UInt8 → Except Failure (Val α)
  encodeEnvelope : Envelope → Except Failure (List UInt8)
  decodeEnvelope : List UInt8 → Except Failure Envelope

section Marshal

variable {τ α : Type} (S : Types τ α) (g : Gob τ α)

/-- A pointer is followed once. -/
def target (t : τ) (v : Val α) : Except Failure (τ × Val α) :=
  match S.shape t, v with
  | .pointer elem, .pointer w => .ok (elem, w)
  | .pointer _, _ => .error .recovery
  | _, v => .ok (t, v)

/-- `MarshalTyped`. -/
def MarshalTyped (t : τ) (v : Val α) : Except Failure (List UInt8) := do
  let (t, x) ← target S t v
  let p ← capturePresence S 65 t x
  let body ← g.encode t (gobSafe S t false x)
  g.encodeEnvelope ⟨1, body, p⟩

/-- `UnmarshalTyped`, into a destination of the type: the value that it is set to. -/
def UnmarshalTyped (raw : List UInt8) (t : τ) : Except Failure (Val α) := do
  let env ← g.decodeEnvelope raw
  if env.version ≠ 1 then .error .recovery
  else
    let fresh ← g.decode t env.body
    restorePresence S 65 t fresh env.present

end Marshal

end MarketInfo.Checkpoint
