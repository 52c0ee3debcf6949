import MarketInfo.Checkpoint.Typed
import MarketInfo.Lib.Listing
import MarketInfo.Lib.Search
import MarketInfo.Model.Time

/-! # Paged maps

`runtimecheckpoint.PagedMap`: the items of a map, in the order of their keys, in pages of at most
128. A page is resident or an object of the store; the root describes all of them.
-/

namespace MarketInfo.Checkpoint

open Listing (sortBy)

/-! ## Objects -/

/-- `maxObjectBytes`. -/
def maxObjectBytes : Int := 64 * 2 ^ 20

/-- An object by its digest and its length. -/
structure Reference where
  hash : String := ""
  bytes : Int := 0
deriving DecidableEq

/-- What is in the store, by digest, and how often it was used. -/
structure Files where
  objects : String → Option (List UInt8)
  accesses : Nat := 0
  /-- A body was put whose digest another body has; the store does not notice. -/
  clash : Bool := false

abbrev Item (T : Type) := String × T

structure TypedPage (T : Type) where
  version : Nat
  items : List (Item T)
deriving DecidableEq

/-- The domain of a map, and what its store does. -/
structure Paging (T : Type) where
  /-- `MarshalTyped` and `UnmarshalTyped`. -/
  marshal : TypedPage T → Except Failure (List UInt8)
  unmarshal : List UInt8 → Except Failure (TypedPage T)
  /-- The digits of the digest. -/
  hash : List UInt8 → String
  /-- What the access of the number fails with. -/
  fault : Nat → Option Failure
  /-- `EstimateTypedBytes`, at a reading of the clock: it counts what slices have room for. -/
  estimate : Nat → TypedPage T → Int
  eligible : T → Bool
  oldest : Option (T → Time)
  /-- The bytes of the cache. -/
  limit : Int

def isHexDigit (c : Char) : Bool := c.isDigit || ('a' ≤ c && c ≤ 'f') || ('A' ≤ c && c ≤ 'F')

/-- `objectPath`. -/
def objectPath (ref : Reference) : Except Failure Unit :=
  if ref.hash.length ≠ 64 ∨ ref.bytes < 0 ∨ maxObjectBytes < ref.bytes then .error .recovery
  else if ref.hash.toList.all isHexDigit then .ok ()
  else .error (.text "encoding/hex: invalid byte")

section Objects

variable {T : Type} (env : Paging T)

/-- `ReadObject`. -/
def Files.readObject (files : Files) (ref : Reference) : Files × Except Failure (List UInt8) :=
  match objectPath ref with
  | .error err => (files, .error err)
  | .ok () =>
      let used := { files with accesses := files.accesses + 1 }
      match env.fault files.accesses, files.objects ref.hash with
      | some err, _ => (used, .error err)
      | none, none => (used, .error .recovery)
      | none, some body =>
          if (body.length : Int) ≠ ref.bytes ∨ env.hash body ≠ ref.hash then (used, .error .recovery)
          else (used, .ok body)

/-- `PutObject`. -/
def Files.putObject (files : Files) (body : List UInt8) : Files × Except Failure Reference :=
  let ref := ⟨env.hash body, body.length⟩
  let used := { files with accesses := files.accesses + 1 }
  match env.fault files.accesses with
  | some err => (used, .error err)
  | none =>
      if maxObjectBytes < body.length then (used, .error .capacity)
      else
        match files.objects ref.hash with
        | some old =>
            let used := { used with clash := files.clash || decide (old ≠ body) }
            ((used.readObject env ref).1, (used.readObject env ref).2.map fun _ => ref)
        | none => ({ used with objects := Function.update files.objects ref.hash (some body) }, .ok ref)

end Objects

/-! ## Pages -/

/-- `pageItems`. -/
def pageItems : Nat := 128

structure PageDescriptor where
  id : Nat
  first : String := ""
  last : String := ""
  count : Nat := 0
  eligible : Nat := 0
  object : Reference := {}
  oldest : Int := 0
deriving DecidableEq

structure PageRoot where
  version : Nat
  next : Nat
  count : Nat
  pages : List PageDescriptor

structure ResidentPage (T : Type) where
  value : TypedPage T
  dirty : Bool := false
  used : Nat := 0
  bytes : Int := 0

structure PageMetrics where
  residentBytes : Int := 0
  peakResidentBytes : Int := 0
  pagesRead : Nat := 0
  pagesWritten : Nat := 0

/-- The map; the clock counts what was used. -/
structure PagedMap (T : Type) where
  files : Files
  root : PageRoot
  cache : AList fun _ : Nat => ResidentPage T := ∅
  clock : Nat := 0
  metrics : PageMetrics := {}

section Pages

variable {T : Type} (env : Paging T)

def eligibleOf (items : List (Item T)) : Nat := items.countP fun e => env.eligible e.2

/-- The oldest time; zero where there is none. -/
def oldestOf (items : List (Item T)) : Int :=
  match env.oldest with
  | none => 0
  | some oldest =>
      items.foldl (fun found e =>
        if ¬ (oldest e.2).IsZero ∧ (found = 0 ∨ (oldest e.2).unixNano < found) then (oldest e.2).unixNano
        else found) 0

/-- What a descriptor says of the items. -/
def PageDescriptor.summary (d : PageDescriptor) (items : List (Item T)) : PageDescriptor :=
  { d with
    first := (items.head?.map Prod.fst).getD ""
    last := (items.getLast?.map Prod.fst).getD ""
    count := items.length
    eligible := eligibleOf env items
    oldest := oldestOf env items }

/-- The loop of `OpenPagedMap` over the pages, with the ids and the last key seen so far. -/
def checkPages (next : Nat) : List Nat → Option String → List PageDescriptor → Except Failure Unit
  | _, _, [] => .ok ()
  | ids, last, p :: rest =>
      if p.id = 0 ∨ next < p.id ∨ p.id ∈ ids ∨ p.count = 0 ∨ pageItems < p.count ∨ p.count < p.eligible ∨
          p.first = "" ∨ p.last < p.first ∨ last.any (p.first ≤ ·) then .error .recovery
      else
        match objectPath p.object with
        | .error err => .error err
        | .ok () => checkPages next (p.id :: ids) (some p.last) rest

/-- `OpenPagedMap`. -/
def openPagedMap (files : Files) (root : PageRoot) : Except Failure (PagedMap T) :=
  if env.limit < 256 * 2 ^ 10 then .error (.text "paged state requires cache budget and domain predicate")
  else
    let root :=
      if root.version = 0 ∧ root.count = 0 ∧ root.pages = [] then { root with version := 1 } else root
    if root.version ≠ 1 then .error .recovery
    else
      match checkPages root.next [] none root.pages with
      | .error err => .error err
      | .ok () =>
          if (root.pages.map PageDescriptor.count).sum ≠ root.count then .error .recovery
          else .ok { files, root }

end Pages

namespace PagedMap

variable {T : Type} (env : Paging T)

/-- The page of the key, or the one that it belongs to. -/
def index (m : PagedMap T) (key : String) : Nat :=
  let i := search m.root.pages fun d => key ≤ d.last
  if i = m.root.pages.length ∧ 0 < i then i - 1 else i

/-- `d.Object = ref`, of the first page of the id. -/
def setObject (id : Nat) (ref : Reference) : List PageDescriptor → Option (List PageDescriptor)
  | [] => none
  | d :: rest =>
      if d.id = id then some ({ d with object := ref } :: rest) else (setObject id ref rest).map (d :: ·)

def account (m : PagedMap T) : PagedMap T :=
  let resident := (m.cache.entries.map fun e => e.2.bytes).sum
  { m with metrics := { m.metrics with
      residentBytes := resident, peakResidentBytes := max m.metrics.peakResidentBytes resident } }

/-- `flush`; whoever calls it marks the page as clean. -/
def flush (m : PagedMap T) (id : Nat) (p : ResidentPage T) : PagedMap T × Except Failure Unit :=
  if p.dirty = false then (m, .ok ())
  else
    match env.marshal p.value with
    | .error err => (m, .error err)
    | .ok raw =>
        match m.files.putObject env raw with
        | (files, .error err) => ({ m with files }, .error err)
        | (files, .ok ref) =>
            match setObject id ref m.root.pages with
            | none => ({ m with files }, .error .recovery)
            | some pages =>
                ({ m with
                    files, root := { m.root with pages }
                    metrics := { m.metrics with pagesWritten := m.metrics.pagesWritten + 1 } }, .ok ())

/-- The loop of `makeRoom` over what may leave, the least recently used first. -/
def evict (extra : Int) : List (Nat × ResidentPage T) → PagedMap T → PagedMap T × Except Failure Unit
  | [], m =>
      (m.account, if m.account.metrics.residentBytes + extra ≤ env.limit then .ok () else .error .capacity)
  | (id, p) :: rest, m =>
      if m.account.metrics.residentBytes + extra ≤ env.limit then (m.account, .ok ())
      else
        match m.account.flush env id p with
        | (m, .error err) => (m, .error err)
        | (m, .ok ()) => evict extra rest { m with cache := m.cache.erase id }

def residents (m : PagedMap T) : List (Nat × ResidentPage T) := m.cache.entries.map fun e => (e.1, e.2)

def makeRoom (m : PagedMap T) (extra : Int) (pinned : Nat) : PagedMap T × Except Failure Unit :=
  evict env extra
    (sortBy (fun a b => decide (a.2.used < b.2.used)) (m.residents.filter fun e => e.1 ≠ pinned)) m

/-- What `load` asks of the page it has read. -/
def checkPage (d : PageDescriptor) (value : TypedPage T) : Except Failure Unit :=
  if value.version ≠ 1 ∨ value.items.length ≠ d.count ∨ (∃ e ∈ value.items, e.1 = "") ∨
      ¬ value.items.IsChain (fun a b => a.1 < b.1) ∨ d.summary env value.items ≠ d then .error .recovery
  else .ok ()

/-- `load`, of the page at the index. -/
def load (m : PagedMap T) (i : Nat) : PagedMap T × Except Failure (ResidentPage T) :=
  match m.root.pages[i]? with
  | none => (m, .error .recovery)
  | some d =>
      let m := { m with clock := m.clock + 1 }
      match m.cache.lookup d.id with
      | some p =>
          let p := { p with used := m.clock }
          ({ m with cache := m.cache.insert d.id p }, .ok p)
      | none =>
          match m.files.readObject env d.object with
          | (files, .error err) => ({ m with files }, .error err)
          | (files, .ok raw) =>
              let m := { m with files }
              match env.unmarshal raw with
              | .error err => (m, .error err)
              | .ok value =>
                  match checkPage env d value with
                  | .error err => (m, .error err)
                  | .ok () =>
                      let p : ResidentPage T :=
                        { value, used := m.clock, bytes := env.estimate m.clock value }
                      if env.limit < p.bytes then (m, .error .capacity)
                      else
                        match m.makeRoom env p.bytes 0 with
                        | (m, .error err) => (m, .error err)
                        | (m, .ok ()) =>
                            (account { m with
                              cache := m.cache.insert d.id p
                              metrics := { m.metrics with pagesRead := m.metrics.pagesRead + 1 } }, .ok p)

/-- The page after `update`. -/
def updated (m : PagedMap T) (p : ResidentPage T) : ResidentPage T :=
  { p with dirty := true, bytes := env.estimate (m.clock + 1) p.value, used := m.clock + 1 }

/-- `update`, of the page at the index. -/
def update (m : PagedMap T) (i id : Nat) (p : ResidentPage T) : PagedMap T :=
  { m with
    root := { m.root with pages := m.root.pages.modify i fun d => d.summary env p.value.items }
    cache := m.cache.insert id (m.updated env p)
    clock := m.clock + 1 }

def get (m : PagedMap T) (key : String) : PagedMap T × Except Failure (Option T) :=
  match m.root.pages[m.index key]? with
  | none => (m, .ok none)
  | some d =>
      if key < d.first ∨ d.last < key then (m, .ok none)
      else
        match m.load env (m.index key) with
        | (m, .error err) => (m, .error err)
        | (m, .ok p) =>
            (m, .ok ((p.value.items[search p.value.items fun e => key ≤ e.1]?).bind fun e =>
              if e.1 = key then some e.2 else none))

/-- The first page of an empty map. -/
def firstPage (m : PagedMap T) : PagedMap T :=
  let next := (m.root.next + 1) % 2 ^ 64
  { m with
    root := { m.root with next, pages := [{ id := next }] }
    cache := m.cache.insert next { value := ⟨1, []⟩ } }

/-- The items of the page with the value of the key. -/
def setItem (items : List (Item T)) (key : String) (value : T) : List (Item T) :=
  let j := search items fun e => key ≤ e.1
  if (items[j]?).any fun e => e.1 = key then items.set j (key, value) else items.insertIdx j (key, value)

def hasItem (items : List (Item T)) (key : String) : Bool :=
  (items[search items fun e => key ≤ e.1]?).any fun e => e.1 = key

/-- A page that has grown too large is split, and its second half is written at once. -/
def split (m : PagedMap T) (i id : Nat) (p : ResidentPage T) :
    PagedMap T × ResidentPage T × Except Failure Unit :=
  let middle := p.value.items.length / 2
  let right : ResidentPage T := { value := ⟨1, p.value.items.drop middle⟩ }
  let left := { p with value := { p.value with items := p.value.items.take middle } }
  let p := m.updated env left
  let m := m.update env i id left
  if m.root.next = 2 ^ 64 - 1 then (m, p, .error .capacity)
  else
    let next := m.root.next + 1
    let d := ({ id := next } : PageDescriptor).summary env right.value.items
    let right := m.updated env right
    let m := { m with
      clock := m.clock + 1, root := { m.root with next, pages := m.root.pages.insertIdx (i + 1) d } }
    ((m.flush env next right).1, p, (m.flush env next right).2)

/-- After the page is updated. -/
def settle (m : PagedMap T) (i id : Nat) (p : ResidentPage T) : PagedMap T × Except Failure Unit :=
  match
    if pageItems < p.value.items.length ∨ env.limit / 2 < p.bytes ∧ 1 < p.value.items.length then
      m.split env i id p
    else (m, p, .ok ()) with
  | (m, _, .error err) => (m, .error err)
  | (m, p, .ok ()) => if env.limit < p.bytes then (m, .error .capacity) else m.makeRoom env 0 id

def set (m : PagedMap T) (key : String) (value : T) : PagedMap T × Except Failure Unit :=
  if key = "" ∨ 1024 < key.utf8ByteSize then (m, .error .capacity)
  else
    let m := if m.root.pages = [] then m.firstPage else m
    let i := m.index key
    match m.root.pages[i]? with
    | none => (m, .error .recovery)
    | some d =>
        match m.load env i with
        | (m, .error err) => (m, .error err)
        | (m, .ok p) =>
            let found := hasItem p.value.items key
            let p := { p with value := { p.value with items := setItem p.value.items key value } }
            let m := { m with root := { m.root with count := if found then m.root.count else m.root.count + 1 } }
            (m.update env i d.id p).settle env i d.id (m.updated env p)

def delete (m : PagedMap T) (key : String) : PagedMap T × Except Failure Unit :=
  let i := m.index key
  match m.root.pages[i]? with
  | none => (m, .ok ())
  | some d =>
      if key < d.first ∨ d.last < key then (m, .ok ())
      else
        match m.load env i with
        | (m, .error err) => (m, .error err)
        | (m, .ok p) =>
            if hasItem p.value.items key = false then (m, .ok ())
            else
              let items := p.value.items.eraseIdx (search p.value.items fun e => key ≤ e.1)
              let m := { m with root := { m.root with count := m.root.count - 1 } }
              if items = [] then
                (account { m with
                  root := { m.root with pages := m.root.pages.eraseIdx i }, cache := m.cache.erase d.id }, .ok ())
              else (account (m.update env i d.id { p with value := { p.value with items } }), .ok ())

/-- The loop of `Scan` over the pages. -/
def scanPages (after : String) (limit : Nat) (eligibleOnly : Bool) :
    List Nat → List (Item T) → PagedMap T → PagedMap T × Except Failure (List (Item T))
  | [], found, m => (m, .ok found)
  | i :: rest, found, m =>
      match m.root.pages[i]? with
      | none => (m, .ok found)
      | some d =>
          if d.last ≤ after ∨ eligibleOnly = true ∧ d.eligible = 0 then
            scanPages after limit eligibleOnly rest found m
          else
            match m.load env i with
            | (m, .error err) => (m, .error err)
            | (m, .ok p) =>
                let found := found ++ p.value.items.filter fun e =>
                  decide (after < e.1) && (!eligibleOnly || env.eligible e.2)
                if limit ≤ found.length then (m, .ok (found.take limit))
                else scanPages after limit eligibleOnly rest found m

def scan (m : PagedMap T) (after : String) (limit : Int) (eligibleOnly : Bool) :
    PagedMap T × Except Failure (List (Item T)) :=
  if limit < 1 ∨ (pageItems : Int) < limit then (m, .error .capacity)
  else scanPages env after limit.toNat eligibleOnly (List.range m.root.pages.length) [] m

/-- The loop of `Snapshot` over what is resident. -/
def flushAll : List (Nat × ResidentPage T) → PagedMap T → PagedMap T × Except Failure Unit
  | [], m => (m, .ok ())
  | (id, p) :: rest, m =>
      match m.flush env id p with
      | (m, .error err) => (m, .error err)
      | (m, .ok ()) => flushAll rest { m with cache := m.cache.insert id { p with dirty := false } }

def snapshot (m : PagedMap T) : PagedMap T × Except Failure (PageRoot × List Reference) :=
  match flushAll env m.residents m with
  | (m, .error err) => (m, .error err)
  | (m, .ok ()) => (m, .ok (m.root, m.root.pages.map PageDescriptor.object))

/-- `Eligible`. -/
def eligible (m : PagedMap T) : Nat := (m.root.pages.map PageDescriptor.eligible).sum

/-- `Oldest`, in nanoseconds; zero where there is none. -/
def oldest (m : PagedMap T) : Int :=
  m.root.pages.foldl (fun found d => if d.oldest ≠ 0 ∧ (found = 0 ∨ d.oldest < found) then d.oldest else found) 0

end PagedMap

end MarketInfo.Checkpoint
