import MarketInfo.Lib.Listing
import MarketInfo.Model.Time
import MarketInfo.Reserve.Seal

/-! # The report on arbitrage windows

`Analyze` goes once over the blocks, in the order of their heights, and keeps for each route what
it knows of the block before: a positive quote goes on with the window of that block or opens one.
-/

namespace MarketInfo.DexArb

open Listing (sortBy)
open Reserve (Hash Address)

/-- `dex.Quote`, as far as the report reads it. -/
structure Quote where
  id : Hash
  hash : Hash
  manifest : Hash
  batch : Hash
  role : String
  route : String
  mode : String
  tokenIn : Address
  tokenOut : Address
  requested : Int
  amountIn : Option Int
  amountOut : Option Int
  status : String
deriving DecidableEq

/-- `dex.Block`, as far as the report reads it. Instants are nanoseconds of Unix time. -/
structure Block where
  number : UInt64
  hash : Hash
  manifest : Hash
  batch : Hash
  parent : Hash
  time : Int
  availableAt : Int
  capture : String
  canonical : Bool
  finality : String
  quoteCoverage : String
  actualQuotes : UInt32
  quoteMembers : Hash
  committed : Bool
deriving DecidableEq

structure Candidate where
  block : Block
  quote : Quote
  gross : Int
  budget : Option Int
  budgetOK : Bool
  complete : Bool
  reason : String
deriving DecidableEq

structure Window where
  alternatives : List Candidate
  id : Hash
  route : String
  manifest : Hash
  startBlock : UInt64
  endBlock : UInt64
  start : Int
  finish : Int
  firstAvailable : Int
  lastAvailable : Int
  observations : Nat
  confirmedNew : Bool
  continuityUnknown : Bool
  best : Candidate
deriving DecidableEq

structure RouteSummary where
  assessment : String := ""
  route : String
  completeBlocks : Nat := 0
  confirmedWindows : Nat := 0
  unknownFragments : Nat := 0
  positiveDates : Nat := 0
  maxDurationSeconds : Int := 0
  bestGross : Option Int := none
  bestAmount : Option Int := none
deriving DecidableEq

structure Report where
  blocks : Nat
  expectedHeights : UInt64
  quoteCompleteBlocks : Nat
  missingHeights : UInt64
  windows : List Window
  routes : List RouteSummary
  candidates : List Candidate
  warnings : List String
deriving DecidableEq

/-- What `Analyze` is given beside the blocks: the quotes of a batch, the ids of the routes, the sizes,
the tokens and the options. The hashes of a list of quotes and of the parts of a window's id are those
of their JSON. -/
structure Inputs where
  quotes : Hash → List Quote
  routes : List String
  sizes : List Int
  usdc : Address
  usdt : Address
  head : Bool
  capitalUSDT : Int
  route : String
  quotesHash : List Quote → Hash
  windowHash : String → Hash → Hash → Hash

variable (env : Inputs)

/-! ## Blocks -/

/-- The order of the blocks. -/
def blockLess (a b : Block) : Bool :=
  if a.number = b.number then decide (Hash.string a.manifest < Hash.string b.manifest)
  else decide (a.number < b.number)

/-- The blocks that are not passed over. -/
def Block.counted (b : Block) : Bool := b.committed && b.canonical && (env.head || b.finality == "finalized")

/-- `dex.QuoteDigest`. -/
def QuoteDigest (qs : List Quote) : Hash :=
  env.quotesHash (sortBy (fun a b => decide (Hash.string a.id < Hash.string b.id)) qs)

def membersOK (b : Block) : Bool :=
  (env.quotes b.batch).length == b.actualQuotes.toNat && QuoteDigest env (env.quotes b.batch) == b.quoteMembers

/-- A quote of the capital to enter with. -/
def isEntry (q : Quote) : Bool :=
  q.role == "capital_entry" && q.status == "ok" && q.mode == "exact_in" && q.tokenIn == env.usdt &&
    q.tokenOut == env.usdc && q.requested == env.capitalUSDT && q.amountIn == some q.requested &&
      q.amountOut.isSome

/-- The budget of a block: the last quote of the capital. -/
def budget (b : Block) : Option Int :=
  if membersOK env b then
    (env.quotes b.batch).foldl (fun budget q => if isEntry env q then q.amountOut else budget) none
  else none

/-! ## The quotes of a route -/

/-- Where the loop over the quotes of a block stands. -/
structure Scan where
  full : Bool
  seen : List Int := []
  alternatives : List Candidate := []
  unbudgeted : Option Candidate := none
  /-- The candidates within the budget, one after another. -/
  funded : List Candidate := []
  best : Option Candidate := none

/-- The better of two, the first if they are equal. -/
def better (best : Option Candidate) (c : Candidate) : Option Candidate :=
  match best with
  | none => some c
  | some b => if b.gross < c.gross then some c else some b

/-- A quote that counts for its block. -/
def validQuote (b : Block) (q : Quote) : Bool :=
  membersOK env b && env.sizes.contains q.requested && q.status == "ok" && q.mode == "exact_in" &&
    q.tokenIn == env.usdc && q.tokenOut == env.usdc && q.amountIn == some q.requested && q.amountOut.isSome &&
      q.hash == b.hash && q.batch == b.batch && q.manifest == b.manifest

def candidate (b : Block) (q : Quote) : Candidate where
  block := b
  quote := q
  gross := q.amountOut.getD 0 - q.requested
  budget := budget env b
  budgetOK := (budget env b).any fun n => q.requested ≤ n
  complete := false
  reason := "capital_or_cost_reserve_unknown"

/-- One turn of the loop. -/
def Scan.next (b : Block) (route : String) (s : Scan) (q : Quote) : Scan :=
  if q.role ≠ "strategy" ∨ q.route ≠ route then s
  else if q.requested ∈ s.seen then { s with full := false }
  else
    let s := { s with seen := s.seen ++ [q.requested] }
    if validQuote env b q = false then { s with full := false }
    else
      let c := candidate env b q
      let s := { s with alternatives := s.alternatives ++ [c], unbudgeted := better s.unbudgeted c }
      if c.budgetOK then
        let c := { c with reason := "costs_unspecified" }
        { s with funded := s.funded ++ [c], best := better s.best c }
      else s

/-- What the quotes of a block say about a route. -/
def scan (b : Block) (route : String) : Scan :=
  let s := (env.quotes b.batch).foldl (Scan.next env b route)
    { full := membersOK env b && (budget env b).isSome && b.capture == "live" }
  { s with full := s.full && s.seen.length == env.sizes.length }

/-! ## The loop over the blocks -/

inductive Kind
  | none | unknown | positive | negative
deriving DecidableEq

structure RouteState where
  last : UInt64 := 0
  hash : Hash := Vector.replicate 32 0
  manifest : Hash := Vector.replicate 32 0
  kind : Kind := .none
  window : Nat := 0
deriving DecidableEq

structure Run where
  blocks : Nat := 0
  quoteCompleteBlocks : Nat := 0
  windows : List Window := []
  candidates : List Candidate := []
  states : String → RouteState := fun _ => {}
  summaries : String → Option RouteSummary := fun _ => .none
  /-- The days of a route with a positive quote. -/
  days : String → List Int := fun _ => []
  heights : List UInt64 := []
  first : UInt64 := 0
  last : UInt64 := 0

/-- The block follows the one that the route has seen last. -/
def RouteState.continues (s : RouteState) (b : Block) : Bool :=
  s.last + 1 == b.number && s.hash == b.parent && s.manifest == b.manifest

/-- The best quote that a summary has seen. -/
def RouteSummary.raise (s : RouteSummary) (c : Candidate) : RouteSummary :=
  if s.bestGross.all fun g => g < c.gross then
    { s with bestGross := some c.gross, bestAmount := some c.quote.requested }
  else s

/-- A window goes on with a block. -/
def Window.extend (w : Window) (b : Block) (best : Candidate) (alternatives : List Candidate) : Window :=
  let w := { w with
    endBlock := b.number, finish := b.time, lastAvailable := b.availableAt, observations := w.observations + 1 }
  if w.best.gross < best.gross then { w with best := best, alternatives := alternatives } else w

def openWindow (route : String) (b : Block) (confirmed : Bool) (best : Candidate)
    (alternatives : List Candidate) : Window where
  alternatives := alternatives
  id := env.windowHash route b.manifest b.hash
  route := route
  manifest := b.manifest
  startBlock := b.number
  endBlock := b.number
  start := b.time
  finish := b.time
  firstAvailable := b.availableAt
  lastAvailable := b.availableAt
  observations := 1
  confirmedNew := confirmed
  continuityUnknown := !confirmed
  best := best

/-- `Time.Sub`. A duration that 64 bits do not hold is the longest there is. -/
def duration (t u : Int) : Int := max (-2 ^ 63) (min (2 ^ 63 - 1) (t - u))

/-- The seconds between the first and the last block of a window. -/
def Window.seconds (w : Window) : Int := (duration w.finish w.start).tdiv Time.second

/-- One route of one block. -/
def visit (b : Block) (run : Run) (route : String) : Run :=
  if env.route ≠ "" ∧ route ≠ env.route then run
  else
    let summary := (run.summaries route).getD { route := route }
    let previous := run.states route
    let continuous := previous.continues b
    let kind := if continuous then previous.kind else .unknown
    let s := scan env b route
    let summary := s.funded.foldl RouteSummary.raise summary
    let summary := if s.full then { summary with completeBlocks := summary.completeBlocks + 1 } else summary
    let state (kind : Kind) (window : Nat) : RouteState := ⟨b.number, b.hash, b.manifest, kind, window⟩
    match s.best with
    | some best =>
        if 0 < best.gross then
          let best := { best with complete := s.full }
          let run := { run with
            candidates := run.candidates ++ [best]
            days := Function.update run.days route ((run.days route).insert (b.time / (86400 * Time.second))) }
          let after := if s.full then .positive else .unknown
          if s.full ∧ continuous ∧ kind = .positive then
            let windows := run.windows.modify previous.window fun w => w.extend b best s.alternatives
            let seconds := ((windows[previous.window]?).map Window.seconds).getD 0
            { run with
              windows := windows
              states := Function.update run.states route (state after previous.window)
              summaries := Function.update run.summaries route
                (some { summary with maxDurationSeconds := max summary.maxDurationSeconds seconds }) }
          else
            let confirmed := s.full && continuous && kind == .negative
            let summary := if confirmed then { summary with confirmedWindows := summary.confirmedWindows + 1 }
              else { summary with unknownFragments := summary.unknownFragments + 1 }
            { run with
              windows := run.windows ++ [openWindow env route b confirmed best s.alternatives]
              states := Function.update run.states route (state after run.windows.length)
              summaries := Function.update run.summaries route (some summary) }
        else
          { run with
            states := Function.update run.states route
              (state (if s.full then .negative else .unknown) previous.window)
            summaries := Function.update run.summaries route (some summary) }
    | .none =>
        { run with
          candidates := run.candidates ++ (s.unbudgeted.toList.filter fun c => 0 < c.gross)
          states := Function.update run.states route (state .unknown previous.window)
          summaries := Function.update run.summaries route (some summary) }

/-- One block. -/
def step (run : Run) (b : Block) : Run :=
  let run := if b.number ∈ run.heights then run
    else { run with blocks := run.blocks + 1, heights := run.heights ++ [b.number] }
  let run := { run with
    first := if run.first = 0 ∨ b.number < run.first then b.number else run.first
    last := if run.last < b.number then b.number else run.last
    quoteCompleteBlocks := if membersOK env b ∧ b.quoteCoverage = "complete" ∧ b.capture = "live" then
      run.quoteCompleteBlocks + 1 else run.quoteCompleteBlocks }
  env.routes.foldl (visit env b) run

/-- The blocks that count, in order. -/
def countedBlocks (blocks : List Block) : List Block := (sortBy blockLess blocks).filter (Block.counted env)

def RouteSummary.assess (s : RouteSummary) (days : List Int) : RouteSummary :=
  { s with
    assessment := match s.bestGross with
      | .none => "unknown"
      | some g => if 0 < g then "gross_candidate" else "quoted_nonpositive"
    positiveDates := days.length }

def warnings : List String :=
  ["all routes share Sky PSM; simultaneous candidates are mutually exclusive",
    "block-end quotations do not establish inclusion, realized profit or APR",
    "USDC profits are not USDT returns; entry/exit and idle capital need separate accounting",
    "missing heights outside the observed endpoints cannot be measured from this report"]

/-- `Analyze`. -/
def Analyze (blocks : List Block) : Report :=
  let run := (countedBlocks env blocks).foldl (step env) {}
  let expected := if run.first ≠ 0 then run.last - run.first + 1 else 0
  let summaries := env.routes.dedup.filterMap fun r => (run.summaries r).map fun s => s.assess (run.days r)
  { blocks := run.blocks
    expectedHeights := expected
    quoteCompleteBlocks := run.quoteCompleteBlocks
    missingHeights := if run.first ≠ 0 then expected - UInt64.ofNat run.heights.length else 0
    windows := run.windows
    routes := sortBy (fun a b => decide (a.route < b.route)) summaries
    candidates := run.candidates
    warnings := warnings }

end MarketInfo.DexArb
