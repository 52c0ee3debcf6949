import MarketInfo.Lib.OrderedMap
import MarketInfo.Model.Time
import MarketInfo.Discovery.CapitalVersions

/-! # The unfinished work of the rental keeper

Source windows of indexed events are fetched page by page, and every page asks
for an enrichment capture of its own. What is still unfinished lives in four
paged maps: the parents (page captures), the order in which they are retried,
the windows and their pages. The paged maps are ordered maps here; their own
storage does not fail.
-/

namespace MarketInfo.Keeper

open Json (Text)
open Discovery (hexText)

/-! ## Captures and pages -/

/-- A UUID, as its sixteen bytes. -/
structure UUID where
  bytes : List UInt8
  size : bytes.length = 16
deriving DecidableEq

/-- `id.String()`: hexadecimal digits in five groups. -/
def UUID.text (id : UUID) : Text :=
  hexText (id.bytes.take 4) ++ '-' :: (hexText ((id.bytes.drop 4).take 2) ++
    '-' :: (hexText ((id.bytes.drop 6).take 2) ++ '-' :: (hexText ((id.bytes.drop 8).take 2) ++
      '-' :: hexText (id.bytes.drop 10))))

inductive CaptureKind | events | eventIndex | enrichment | costs | rentalState | rentalRate
  | selectionRound
deriving DecidableEq

inductive CaptureMode | live | catchup | history | backfill | bootstrap
deriving DecidableEq

inductive Status | complete | partly | error
deriving DecidableEq

/-- The event a source window selects; captures of other kinds carry none. -/
inductive EventKind | unset | rentResource | returnResource | liquidate
deriving DecidableEq

def EventKind.text : EventKind → Text
  | .unset => []
  | .rentResource => "RentResource".toList
  | .returnResource => "ReturnResource".toList
  | .liquidate => "Liquidate".toList

/-- A capture: the fields the work reads. Its digests and counters are part of
the facts that `captureEqual` compares. -/
structure Capture where
  captureId : UUID
  captureStartedAt : Time
  captureKind : CaptureKind
  captureMode : CaptureMode
  requestedFrom : Option Time
  requestedTo : Option Time
  eventKind : EventKind
  availableAt : Time
  status : Status
  paginationExhausted : Bool
  committed : Bool
  parentCaptureId : Option UUID

/-- Typed pagination progress of one page. -/
structure IndexPage where
  captureId : UUID
  captureStartedAt : Time
  scanID : Text
  fingerprintIn : Text
  fingerprintOut : Text
  requestStartedAt : Time
  availableAt : Time
  payloadHash : List UInt8
deriving DecidableEq

inductive WorkError
  | errConflict
  | errRecovery
  | message (text : String)
deriving DecidableEq

def validateIndexPage (cap : Capture) (p : IndexPage) : Except WorkError Unit :=
  Check.failIf (cap.captureKind ≠ .eventIndex ∨ cap.status ≠ .complete ∨
      p.captureId ≠ cap.captureId ∨ ¬ p.captureStartedAt.Equal cap.captureStartedAt ∨
      p.scanID = [] ∨ p.payloadHash.length ≠ 32 ∨ p.requestStartedAt.IsZero ∨
      p.availableAt.Before p.requestStartedAt ∨ p.availableAt.After cap.availableAt ∨
      cap.paginationExhausted ≠ decide (p.fingerprintOut = []))
    (.message "invalid_index_page_progress")

/-! ## Texts of times -/

/-- A number in decimal, padded with zeros on the left. -/
def padded (width n : Nat) : Text :=
  List.replicate (width - (Nat.toDigits 10 n).length) '0' ++ Nat.toDigits 10 n

/-- Year, month and day of a day counted from January 1, 1970. -/
def civil (days : Int) : Int × Nat × Nat :=
  let z := days + 719468
  let dayOfEra := (z % 146097).toNat
  let yearOfEra := (dayOfEra - dayOfEra / 1460 + dayOfEra / 36524 - dayOfEra / 146096) / 365
  let dayOfYear := dayOfEra - (365 * yearOfEra + yearOfEra / 4 - yearOfEra / 100)
  let marchMonth := (5 * dayOfYear + 2) / 153
  let day := dayOfYear - (153 * marchMonth + 2) / 5 + 1
  let month := if marchMonth < 10 then marchMonth + 3 else marchMonth - 9
  (z / 146097 * 400 + yearOfEra + (if month ≤ 2 then 1 else 0), month, day)

/-- `at.UTC().Format("2006-01-02T15:04:05.000000000Z")`. -/
def runtimeTime (t : Time) : Text :=
  let date := civil (t.unix / 86400)
  let clock := (t.unix % 86400).toNat
  (if date.1 < 0 then ['-'] else []) ++ padded 4 date.1.natAbs ++ '-' :: (padded 2 date.2.1 ++
    '-' :: (padded 2 date.2.2 ++ 'T' :: (padded 2 (clock / 3600) ++
      ':' :: (padded 2 (clock / 60 % 60) ++ ':' :: (padded 2 (clock % 60) ++
        '.' :: (padded 9 t.nanosecond.toNat ++ ['Z']))))))

example : runtimeTime ⟨1709210096000000007, 0⟩ = "2024-02-29T12:34:56.000000007Z".toList := by
  decide

/-! ## Keys -/

def runtimeParentID (cap : Capture) : Text := cap.captureId.text

def runtimeWindowID (cap : Capture) : Text :=
  match cap.requestedFrom, cap.requestedTo with
  | some fromTime, some toTime =>
      cap.eventKind.text ++ '/' :: (runtimeTime fromTime ++ '/' :: runtimeTime toTime)
  | _, _ => []

def runtimePageID (sha256 : Text → Vector UInt8 32) (window token : Text) : Text :=
  window ++ '/' :: hexText (sha256 token).toList

def runtimeParentOrder (cap : Capture) : Text :=
  (if cap.captureMode = .live ∨ cap.captureMode = .catchup then '0' else '1') ::
    '/' :: (runtimeTime (cap.requestedFrom.getD Time.zero) ++
      '/' :: (runtimeTime cap.captureStartedAt ++ '/' :: cap.captureId.text))

/-! ## The work -/

structure Parent where
  capture : Capture
  attempts : Nat
  lastAttempt : Time
  children : List UUID
  complete : Bool
  window : Text
  pageKey : Text

structure Window where
  kind : EventKind
  fromTime : Time
  toTime : Time
  scanID : Text
  count : Nat
  visited : Nat
  childrenDone : Nat
  next : Text
  ended : Bool
  invalid : Bool

structure Page where
  capture : Capture
  page : IndexPage
  visited : Bool
  childDone : Bool

structure Work where
  parents : OrderedMap Text Parent
  order : OrderedMap Text Text
  windows : OrderedMap Text Window
  pages : OrderedMap Text Page

def Work.empty : Work := ⟨.empty, .empty, .empty, .empty⟩

/-- `captureEqual`, over the canonical bytes of a capture's facts. -/
def captureEqual (factBytes : Capture → Option (List UInt8)) (a b : Capture) : Bool :=
  (factBytes a).isSome && (factBytes b).isSome && factBytes a = factBytes b

/-- A row not yet retried to its end. -/
def Parent.pending (p : Parent) : Bool := !p.complete && p.attempts < 3

section

variable (sha256 : Text → Vector UInt8 32) (factBytes : Capture → Option (List UInt8))

/-- The loop of `walk`: from page to page along the continuation tokens. Each
turn marks one more page, so the number of pages bounds the turns. -/
def walkLoop (key : Text) : Nat → OrderedMap Text Page → Window →
    OrderedMap Text Page × Window
  | 0, pages, win => (pages, win)
  | fuel + 1, pages, win =>
      match pages.get (runtimePageID sha256 key win.next) with
      | none => (pages, win)
      | some page =>
          if page.page.fingerprintIn ≠ win.next ∨ page.visited then
            (pages, { win with invalid := true })
          else if page.page.fingerprintOut = [] then
            (pages.set (runtimePageID sha256 key win.next) { page with visited := true },
              { win with visited := win.visited + 1, next := [], ended := true })
          else
            walkLoop key fuel
              (pages.set (runtimePageID sha256 key win.next) { page with visited := true })
              { win with visited := win.visited + 1, next := page.page.fingerprintOut }

def walk (key : Text) (pages : OrderedMap Text Page) (win : Window) :
    OrderedMap Text Page × Window :=
  if win.invalid ∨ win.ended then (pages, win) else walkLoop sha256 key (pages.len + 1) pages win

/-- The page row a parent brings, and what it says about the window. -/
def Work.recordPage (w : Work) (cap : Capture) (page : IndexPage) (key : Text) (win : Window) :
    Except WorkError (OrderedMap Text Page × Window) :=
  match w.pages.get key with
  | none => .ok (w.pages.set key ⟨cap, page, false, false⟩, win)
  | some previous =>
      -- Distinct captures of one token break the complete-window proof.
      if previous.capture.captureId ≠ cap.captureId then .ok (w.pages, { win with invalid := true })
      else if captureEqual factBytes previous.capture cap = false ∨ previous.page ≠ page then
        .error .errConflict
      else .ok (w.pages, win)

/-- The window of a page, opened by its first page. -/
def Work.windowOf (w : Work) (cap : Capture) (page : IndexPage) (fromTime toTime : Time) :
    Window :=
  let win := (w.windows.get (runtimeWindowID cap)).getD
    ⟨cap.eventKind, fromTime, toTime, page.scanID, 0, 0, 0, [], false, false⟩
  if win.scanID ≠ page.scanID then { win with invalid := true } else win

/-- The part of `parent` for captures on the evidence frontier. -/
def Work.parentPage (w : Work) (cap : Capture) (page : IndexPage) (fromTime toTime : Time) :
    Except WorkError Work := do
  validateIndexPage cap page
  let key := runtimePageID sha256 (runtimeWindowID cap) page.fingerprintIn
  let (pages, win) ← w.recordPage factBytes cap page key (w.windowOf cap page fromTime toTime)
  let (pages, win) := walk sha256 (runtimeWindowID cap) pages { win with count := win.count + 1 }
  return { parents := w.parents.set (runtimeParentID cap)
             ⟨cap, 0, Time.zero, [], false, runtimeWindowID cap, key⟩
           order := w.order.set (runtimeParentOrder cap) (runtimeParentID cap)
           windows := w.windows.set (runtimeWindowID cap) win
           pages := pages }

/-- A parent outside the frontier: retried, but no part of a window. -/
def Work.parentAlone (w : Work) (cap : Capture) : Work :=
  { w with parents := w.parents.set (runtimeParentID cap) ⟨cap, 0, Time.zero, [], false, [], []⟩
           order := w.order.set (runtimeParentOrder cap) (runtimeParentID cap) }

def Work.parent (w : Work) (cap : Capture) (page : Option IndexPage)
    (evidence : EventKind → Time) : Except WorkError Work :=
  if cap.committed = false ∨ cap.captureKind ≠ .eventIndex ∨ cap.status ≠ .complete ∨
      cap.captureMode = .bootstrap then .ok w
  else match w.parents.get (runtimeParentID cap) with
    | some old =>
        if captureEqual factBytes old.capture cap then .ok w else .error .errConflict
    | none =>
        match cap.requestedFrom, cap.requestedTo with
        | some fromTime, some toTime =>
            -- Only these source modes participate in the evidence frontier.
            if (cap.captureMode = .live ∨ cap.captureMode = .catchup) ∧
                toTime.After (evidence cap.eventKind) then
              match page with
              | none => .error (.message "keeper_runtime_index_page_missing")
              | some page => w.parentPage sha256 factBytes cap page fromTime toTime
            else .ok (w.parentAlone cap)
        | _, _ => .ok (w.parentAlone cap)

end

/-- The parent after one more enrichment capture. -/
def Parent.attempt (p : Parent) (cap : Capture) : Parent :=
  { p with
    attempts := p.attempts + 1
    children := if p.children.length < 3 then p.children ++ [cap.captureId] else p.children
    lastAttempt := if cap.availableAt.After p.lastAttempt then cap.availableAt else p.lastAttempt
    complete := if cap.status = .complete then true else p.complete }

/-- A complete child is counted in its parent's window and marked on the page. -/
def Work.finishChild (w : Work) (p : Parent) : Except WorkError Work :=
  if p.window = [] then .ok w
  else match w.windows.get p.window with
    | none => .error .errRecovery
    | some win =>
        match w.pages.get p.pageKey with
        | none => .error .errRecovery
        | some row =>
            let windows := w.windows.set p.window { win with childrenDone := win.childrenDone + 1 }
            if row.capture.captureId = p.capture.captureId then
              .ok { w with windows := windows
                           pages := w.pages.set p.pageKey { row with childDone := true } }
            else if win.invalid then .ok { w with windows := windows }
            else .error .errConflict

/-- Where the parent goes after an attempt. A terminal parent is kept only while
an unresolved window needs it. -/
def Work.settleParent (w : Work) (id : Text) (p : Parent) : Work :=
  { w with
    order := if p.pending then w.order else w.order.delete (runtimeParentOrder p.capture)
    parents := if p.window = [] ∧ p.pending = false then w.parents.delete id
      else w.parents.set id p }

def Work.child (w : Work) (cap : Capture) : Except WorkError Work :=
  if cap.committed = false ∨ cap.captureKind ≠ .enrichment then .ok w
  else match cap.parentCaptureId with
    | none => .ok w
    | some parentId =>
        match w.parents.get parentId.text with
        | none => .ok w
        | some p =>
            if cap.captureId ∈ p.children ∨ p.complete then .ok w
            else do
              let w ← if cap.status = .complete then w.finishChild p else .ok w
              return w.settleParent parentId.text (p.attempt cap)

/-- The rows `next` looks at, in order. -/
def Work.nextOf (w : Work) (now : Time) :
    List (Text × Text) → Except WorkError (Option Capture)
  | [] => .ok none
  | (key, id) :: rest =>
      match w.parents.get id with
      | none => .error .errRecovery
      | some p =>
          if runtimeParentOrder p.capture ≠ key then .error .errRecovery
          else if p.pending ∧ ¬ p.lastAttempt.After (now.add (-30 * Time.minute)) then
            .ok (some p.capture)
          else w.nextOf now rest

def Work.next (w : Work) (now : Time) : Except WorkError (Option Capture) :=
  w.nextOf now (w.order.visit 128 w.order.len [])

/-- The rows `retire` deletes: those under the window's key. Deleted rows lie at
or before the position of the scan, so the later scans do not miss any. -/
def Work.retireRows (window : Text) : List (Text × Page) → Work → Except WorkError Work
  | [], w => .ok w
  | (key, row) :: rest, w =>
      if (window ++ ['/']).isPrefixOf key = false then .ok w
      else if row.childDone = false then .error .errRecovery
      else retireRows window rest
        { w with parents := w.parents.delete (runtimeParentID row.capture)
                 pages := w.pages.delete key }

def Work.retire (w : Work) (window : Text) : Except WorkError Work := do
  let w ← w.retireRows window (w.pages.visit 128 w.pages.len (window ++ ['/']))
  return { w with windows := w.windows.delete window }

/-- The rows `advance` looks at, in order. -/
def Work.advanceOf (w : Work) (kind : EventKind) (fromTime toTime : Time) :
    List (Text × Window) → Except WorkError (Work × Time)
  | [] => .ok (w, fromTime)
  | (key, win) :: rest =>
      if win.kind ≠ kind ∨ win.fromTime.After fromTime then .ok (w, fromTime)
      else if ¬ win.toTime.After fromTime ∨ win.toTime.After toTime then
        w.advanceOf kind fromTime toTime rest
      else if win.invalid ∨ win.ended = false ∨ win.visited ≠ win.count ∨
          win.childrenDone ≠ win.count then .ok (w, fromTime)
      else do
        let w ← w.retire key
        return (w, win.toTime)

def Work.advance (w : Work) (kind : EventKind) (fromTime toTime : Time) :
    Except WorkError (Work × Time) :=
  if fromTime.IsZero ∨ ¬ fromTime.Before toTime then .ok (w, fromTime)
  else w.advanceOf kind fromTime toTime
    (w.windows.visit 128 w.windows.len (kind.text ++ ['/']))

/-! ## The keeper -/

/-- The work together with the evidence cursors. -/
structure State where
  work : Work
  evidenceCursors : EventKind → Time

inductive Call
  | parent (cap : Capture) (page : Option IndexPage)
  | child (cap : Capture)
  | advance (kind : EventKind) (toTime : Time)

/-- One turn of `advanceEvidence`: the cursor only moves forward. -/
def State.advanceEvidence (k : State) (kind : EventKind) (toTime : Time) :
    Except WorkError State := do
  let (work, reached) ← k.work.advance kind (k.evidenceCursors kind) toTime
  if reached.After (k.evidenceCursors kind) then
    return ⟨work, Function.update k.evidenceCursors kind reached⟩
  else return ⟨work, k.evidenceCursors⟩

def State.apply (sha256 : Text → Vector UInt8 32) (factBytes : Capture → Option (List UInt8))
    (k : State) : Call → Except WorkError State
  | .parent cap page => do
      let work ← k.work.parent sha256 factBytes cap page k.evidenceCursors
      return { k with work := work }
  | .child cap => do
      let work ← k.work.child cap
      return { k with work := work }
  | .advance kind toTime => k.advanceEvidence kind toTime

end MarketInfo.Keeper
