import Mathlib

/-! # The gate of a provider

Every request to a host passes the host's gate, which remembers the requests of the
last five minutes, the time of the next one and the cooldown. The gate is saved
before a request is sent and after it is answered, and a process that starts reads
what was saved. Times are nanoseconds.
-/

namespace MarketInfo.Lst

def second : Int := 1000000000

def minute : Int := 60 * second

/-- The zero `time.Time`. -/
def zeroTime : Int := -62135596800 * second

/-- `Truncate(time.Microsecond)`. -/
def cut (t : Int) : Int := t - t % 1000

def later (a b : Int) : Int := if b > a then b else a

inductive Source where
  | rpc
  | binance
deriving DecidableEq

inductive Class where
  | normal
  | quoter
  | logs
  | funding
deriving DecidableEq

/-- Zero keeps the original cap or gap. -/
structure TransportConfig where
  backfill : Bool
  rpcRequestsPerMinute : Nat
  logRequestsPerFiveMinutes : Nat
  startupRPCGap : Int
  rpcGap : Int
  timeout : Int
deriving DecidableEq

/-- What `NewTransport` accepts. -/
def TransportConfig.Valid (c : TransportConfig) : Prop :=
  c.logRequestsPerFiveMinutes ≤ 30 ∧ c.rpcRequestsPerMinute ≤ 120 ∧
    (c.startupRPCGap = 0 ∨ 2 * second ≤ c.startupRPCGap ∧ c.startupRPCGap ≤ 30 * second) ∧
    (c.rpcGap = 0 ∨ 500000000 ≤ c.rpcGap ∧ c.rpcGap ≤ 10 * second)

instance (c : TransportConfig) : Decidable c.Valid :=
  inferInstanceAs (Decidable (c.logRequestsPerFiveMinutes ≤ 30 ∧ c.rpcRequestsPerMinute ≤ 120 ∧
    (c.startupRPCGap = 0 ∨ 2 * second ≤ c.startupRPCGap ∧ c.startupRPCGap ≤ 30 * second) ∧
    (c.rpcGap = 0 ∨ 500000000 ≤ c.rpcGap ∧ c.rpcGap ≤ 10 * second)))

structure SentRequest where
  At : Int
  cls : Class
  weight : Nat
deriving DecidableEq

structure HostState where
  nextAt : Int
  cooldownUntil : Int
  disabled : Bool
  failures : Nat
  limitHits : Nat
  weightLimit : Nat
  recent : List SentRequest
deriving DecidableEq

/-- The state of a host without a file. -/
def HostState.fresh : HostState := ⟨zeroTime, zeroTime, false, 0, 0, 0, []⟩

structure HostGate where
  state : HostState
  broken : Bool
  sentThisProcess : Bool
deriving DecidableEq

structure Transport where
  cfg : TransportConfig
  started : Int
  initialized : Bool
deriving DecidableEq

def Transport.spacing (t : Transport) (source : Source) (now : Int) : Int :=
  if source = .binance then 5 * second
  else if t.initialized = false ∨ now < t.started + minute then
    max (max (2 * second) t.cfg.startupRPCGap) t.cfg.rpcGap
  else if t.cfg.backfill then max second t.cfg.rpcGap
  else max 500000000 t.cfg.rpcGap

/-- The requests in a minute that the gate lets through. -/
def TransportConfig.cap (c : TransportConfig) (source : Source) : Nat :=
  if source = .binance then 12
  else
    let cap := if c.rpcRequestsPerMinute > 0 then c.rpcRequestsPerMinute else 120
    if c.backfill then min cap 60 else cap

/-- The log requests in five minutes. -/
def TransportConfig.logCap (c : TransportConfig) : Nat :=
  if c.logRequestsPerFiveMinutes ≠ 0 then c.logRequestsPerFiveMinutes
  else if c.backfill then 30 else 4

/-- The requests after a time, each with the share of its class and weight. -/
def load (share : Class → Nat → Nat) (after : Int) (requests : List SentRequest) : Nat :=
  ((requests.filter fun r => after < r.At).map fun r => share r.cls r.weight).sum

def one (_ : Class) (_ : Nat) : Nat := 1

def weighed (_ : Class) (weight : Nat) : Nat := weight

def ofClass (c cls : Class) (_ : Nat) : Nat := if cls = c then 1 else 0

/-- Not before the request that was found is as old as `d`. -/
def behind (ready d : Int) : Option SentRequest → Int
  | some r => later ready (r.At + d)
  | none => ready

/-- When a request may be sent that asks at `now`, by the requests that are kept. -/
def Transport.ready (t : Transport) (source : Source) (g : HostGate) (now : Int) (cls : Class)
    (weight : Nat) (recent : List SentRequest) : Int :=
  let ready := later g.state.nextAt g.state.cooldownUntil
  let ready :=
    if g.sentThisProcess = false then later ready (t.started + t.spacing source t.started)
    else ready
  let ready := recent.foldl (fun ready r =>
    if cls = .quoter ∧ r.cls = cls then later ready (r.At + second)
    else if cls = .logs ∧ r.cls = cls then later ready (r.At + 10 * second)
    else ready) ready
  let count := load one (now - minute) recent
  let totalWeight := load weighed (now - minute) recent
  let ready := behind ready minute (recent.find? fun r => now - minute < r.At ∧
    (count ≥ t.cfg.cap source ∨ source = .binance ∧ totalWeight + weight > 60))
  let funding60 := load (ofClass .funding) (now - minute) recent
  let funding300 := load (ofClass .funding) (now - 5 * minute) recent
  let ready :=
    if cls = .funding ∧ (funding60 ≥ 2 ∨ funding300 ≥ 10) then
      behind ready (if funding300 ≥ 10 then 5 * minute else minute)
        (recent.find? fun r => r.cls = .funding ∧ (funding300 ≥ 10 ∨ now - minute < r.At))
    else ready
  let logs300 := load (ofClass .logs) (now - 5 * minute) recent
  if cls = .logs ∧ logs300 ≥ t.cfg.logCap then
    behind ready (5 * minute) (recent.find? fun r => r.cls = .logs)
  else ready

/-- The weight of a request; an RPC counts once. -/
def requestWeight (source : Source) (path : String) : Nat :=
  if source = .rpc then 1
  else if path = "/fapi/v1/depth" then 2
  else if path = "/fapi/v1/fundingRate" ∨ path = "/fapi/v1/fundingInfo" then 0
  else 1

/-- The last request gets the time at which it is sent. -/
def stampLast (requestedAt : Int) (recent : List SentRequest) : List SentRequest :=
  recent.dropLast ++ recent.getLast?.toList.map fun r => { r with At := requestedAt }

/-- How a request ended; `limited` and `disabled` are what `responseLimit` reads in the answer. -/
structure Answer where
  status : Nat
  limited : Bool
  disabled : Bool
  network : Bool
  retryAfter : Option Int
  jitter : Nat
  usedWeight : Option Nat
deriving DecidableEq

/-- Doubled once for each but the first of `hits`, until it has reached the limit. -/
def doubled (limit : Int) : Nat → Int → Int
  | 0, pause => pause
  | n + 1, pause => if pause < limit then doubled limit n (pause * 2) else pause

def HostState.cool (s : HostState) (time : Int) : HostState :=
  { s with cooldownUntil := later s.cooldownUntil time }

def Transport.penalize (t : Transport) (source : Source) (now : Int) (a : Answer)
    (s : HostState) : HostState :=
  let s : HostState := { s with nextAt := later s.nextAt (now + t.spacing source now) }
  let s : HostState :=
    if a.status = 403 ∨ a.status = 418 ∨ a.disabled = true then { s with disabled := true }
    else if a.status = 429 ∨ a.limited = true then
      let limitHits := s.limitHits + 1
      let minutes := min 30 (doubled 30 (limitHits - 1) 5)
      HostState.cool { s with limitHits }
        (later (now + minutes * minute + a.jitter) (a.retryAfter.getD zeroTime))
    else if a.network = true ∨ a.status ≥ 500 then
      let failures := s.failures + 1
      HostState.cool { s with failures } (now + doubled 60 (failures - 1) 15 * second + a.jitter)
    else if a.status ≥ 200 ∧ a.status < 300 then { s with failures := 0 }
    else s
  let weightThreshold := if s.weightLimit > 0 then (s.weightLimit + 1) / 2 else 30
  if a.usedWeight.any (fun n => n ≥ weightThreshold) then s.cool (now + minute) else s

/-- How `saveGate` ends: when it fails, the file may hold the new state or the old one. -/
inductive Save where
  | ok
  | failed (renamed : Bool)
deriving DecidableEq

/-- A request that the gate has let through, with the gap that it reserved. -/
structure Admission where
  request : SentRequest
  cfg : TransportConfig
  gap : Int
deriving DecidableEq

/-- Where `Do` is, under the lock of the gate. -/
inductive Phase where
  | idle
  | reserved (a : Admission)
  | admitted (a : Admission)
  | sent
deriving DecidableEq

structure System where
  clock : Int
  transport : Transport
  gate : HostGate
  file : HostState
  phase : Phase
  admissions : List Admission
deriving DecidableEq

inductive Act where
  | wait (d : Nat)
  | start (cfg : TransportConfig)
  | markInitialized
  | acquire (cls : Class) (path : String) (save : Save)
  | confirm
  | abandon
  | send
  | answer (a : Answer) (save : Save)
  | cooldown (d : Int) (save : Save)
  | setWeightLimit (limit : Nat) (save : Save)
deriving DecidableEq

/-- `saveGate`. -/
def System.save (s : System) (save : Save) : System :=
  if s.gate.broken then s
  else
    match save with
    | .ok => { s with file := s.gate.state }
    | .failed renamed =>
        { s with
          gate := { s.gate with broken := true }
          file := if renamed then s.gate.state else s.file }

def System.setState (s : System) (state : HostState) : System :=
  { s with gate := { s.gate with state } }

/-- Requests of more than five minutes ago count no more. -/
def System.forget (s : System) : System :=
  s.setState { s.gate.state with
    recent := s.gate.state.recent.filter fun r => s.clock - 5 * minute < r.At }

/-- The request takes a slot, which is stored before it is sent. -/
def System.reserve (source : Source) (s : System) (cls : Class) (weight : Nat) (save : Save) :
    System :=
  let gap := s.transport.spacing source s.clock
  let request : SentRequest := ⟨s.clock, cls, weight⟩
  let reserved := (s.setState { s.gate.state with
    recent := s.gate.state.recent ++ [request], nextAt := s.clock + gap }).save save
  if save = .ok then { reserved with phase := .reserved ⟨request, s.transport.cfg, gap⟩ }
  else reserved

/-- One turn of `acquire`: the request is refused, or waits, or takes a slot. -/
def System.acquire (source : Source) (s : System) (cls : Class) (path : String) (save : Save) :
    System :=
  if s.gate.broken ∨ s.gate.state.disabled then s
  else
    let kept := s.forget
    let weight := requestWeight source path
    if kept.transport.ready source kept.gate kept.clock cls weight kept.gate.state.recent >
        kept.clock then kept
    else kept.reserve source cls weight save

def System.step (source : Source) (s : System) : Act → Option System
  | .wait d => some { s with clock := s.clock + d }
  | .start cfg =>
      -- whatever the process was doing, another one starts from the file
      if cfg.Valid then
        some { s with
          transport := ⟨cfg, s.clock, false⟩, gate := ⟨s.file, false, false⟩, phase := .idle }
      else none
  | .markInitialized => some { s with transport := { s.transport with initialized := true } }
  | .acquire cls path save =>
      if s.phase = .idle then some (s.acquire source cls path save) else none
  | .confirm =>
      match s.phase with
      | .reserved a =>
          if s.clock - a.request.At ≥ a.gap then some { s with phase := .idle }
          else
            some { s with
              gate := { s.gate with sentThisProcess := true }
              phase := .admitted a
              admissions := s.admissions ++ [a] }
      | _ => none
  | .abandon =>
      match s.phase with
      | .admitted _ => some { s with phase := .idle }
      | _ => none
  | .send =>
      match s.phase with
      | .admitted _ =>
          let requestedAt := cut s.clock
          some { s.setState { s.gate.state with
            recent := stampLast requestedAt s.gate.state.recent
            nextAt := later s.gate.state.nextAt
              (requestedAt + s.transport.spacing source requestedAt) } with phase := .sent }
      | _ => none
  | .answer a save =>
      match s.phase with
      | .sent =>
          some { (s.setState (s.transport.penalize source s.clock a s.gate.state)).save save with
            phase := .idle }
      | _ => none
  | .cooldown d save =>
      if s.phase = .idle then
        some ((s.setState (s.gate.state.cool (s.clock + max d (5 * minute)))).save save)
      else none
  | .setWeightLimit limit save =>
      if s.phase = .idle ∧ source = .binance ∧ limit > 0 then
        some ((s.setState { s.gate.state with weightLimit := limit }).save save)
      else none

def System.Step (source : Source) (s : System) (a : Act) (s' : System) : Prop :=
  s.step source a = some s'

/-- A process that starts without a file. -/
def System.initial (cfg : TransportConfig) (clock : Int) : System :=
  ⟨clock, ⟨cfg, clock, false⟩, ⟨.fresh, false, false⟩, .fresh, .idle, []⟩

end MarketInfo.Lst
