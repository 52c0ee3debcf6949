import MarketInfo.DexArb.Pass

/-! # Windows are the maximal positive runs

Where the counted blocks of one height are of different manifests and no route is listed twice, the
report does not depend on the order of the blocks, and the windows of a route are the maximal runs
of positive blocks each of which directly follows the one before.
-/

namespace MarketInfo.DexArb

open Listing (Sorted sortBy)
open Reserve (Hash)

/-! ## The order of the blocks -/

/-- The counted blocks of one height are of different manifests. -/
def Apart (env : Inputs) (blocks : List Block) : Prop :=
  (blocks.filter (Block.counted env)).Pairwise fun a b => ¬ (a.number = b.number ∧ a.manifest = b.manifest)

instance (env : Inputs) (blocks : List Block) : Decidable (Apart env blocks) :=
  inferInstanceAs (Decidable (List.Pairwise _ _))

variable {env : Inputs} {blocks blocks' : List Block} {r : String}

theorem Apart.sorted (h : Apart env blocks) : Sorted Block.place (countedBlocks env blocks) :=
  Listing.sorted_sortBy_filter blockLess_iff (h.imp fun hne heq => hne (place_inj heq))

theorem mem_countedBlocks {b : Block} : b ∈ countedBlocks env blocks ↔ b ∈ blocks ∧ b.counted env = true := by
  unfold countedBlocks
  rw [List.mem_filter, Listing.mem_sortBy]

theorem countedBlocks_perm (h : Apart env blocks) (hperm : blocks'.Perm blocks) :
    countedBlocks env blocks' = countedBlocks env blocks := by
  have h' : Apart env blocks' := by
    refine (hperm.symm.filter _).pairwise h fun hne heq => hne ⟨heq.1.symm, heq.2.symm⟩
  refine h'.sorted.ext h.sorted fun b => ?_
  rw [mem_countedBlocks, mem_countedBlocks, hperm.mem_iff]

theorem analyze_perm (h : Apart env blocks) (hperm : blocks'.Perm blocks) :
    Analyze env blocks' = Analyze env blocks := by
  unfold Analyze
  rw [countedBlocks_perm h hperm]

/-! ## Windows and runs -/

/-- The window contains the block. -/
def Covers (w : Window) (b : Block) : Prop :=
  w.manifest = b.manifest ∧ w.startBlock ≤ b.number ∧ b.number ≤ w.endBlock

instance (w : Window) (b : Block) : Decidable (Covers w b) := inferInstanceAs (Decidable (_ ∧ _ ∧ _))

variable {total : List Block} {gs : List (List Block)} {run : Run} {g : List Block} {w : Window}

theorem Describes.heights (h : Describes env total r g w) (hchain : g.IsChain (Joined env total r)) (n : UInt64) :
    (∃ b ∈ g, b.number = n) ↔ w.startBlock ≤ n ∧ n ≤ w.endBlock := by
  rcases h.first with ⟨first, hfirst, -, hstart, -⟩
  rcases h.last with ⟨last, hlast, -, hend⟩
  have hbetween : (∃ b ∈ g, b.number.toNat = n.toNat) ↔
      first.number.toNat ≤ n.toNat ∧ n.toNat ≤ last.number.toNat :=
    Runs.exists_mem_iff_between (fun _ _ hjoined => hjoined.1.2.1) hchain hfirst hlast n.toNat
  simp only [UInt64.toNat_inj] at hbetween
  rw [hbetween, hstart, hend, UInt64.le_iff_toNat_le, UInt64.le_iff_toNat_le]

theorem Describes.manifest (h : Describes env total r g w) (hchain : g.IsChain (Joined env total r)) :
    ∀ b ∈ g, b.manifest = w.manifest := by
  rcases h.first with ⟨first, hfirst, hmanifest, -⟩
  rw [hmanifest]
  exact Runs.same_of_mem (fun _ _ hjoined => hjoined.1.2.2.2) hchain hfirst

theorem Knows.mem_run (h : Knows env total r total gs run) {b : Block} :
    (∃ g ∈ gs, b ∈ g) ↔ b ∈ total ∧ positiveAt env r b = true := by
  rw [← List.mem_flatten, h.blocks, List.mem_filter]

theorem Knows.covers_iff (h : Knows env total r total gs run) (hsorted : Sorted Block.place total)
    (hg : g ∈ gs) (hdescribes : Describes env total r g w) {b : Block} (hb : b ∈ total) : Covers w b ↔ b ∈ g := by
  have hchain := h.maximal.chain g hg
  constructor
  · rintro ⟨hmanifest, hheight⟩
    rcases (hdescribes.heights hchain b.number).2 hheight with ⟨c, hc, hnumber⟩
    -- the block of the run at this height is the only one of its manifest
    have hplace : c.place = b.place := by
      unfold Block.place
      rw [hnumber, hdescribes.manifest hchain c hc, hmanifest]
    rwa [← hsorted.eq_of_rank (h.mem_run.1 ⟨g, hg, hc⟩).1 hb hplace]
  · intro hmem
    exact ⟨(hdescribes.manifest hchain b hmem).symm, (hdescribes.heights hchain b.number).1 ⟨b, hmem, rfl⟩⟩

/-! ## The report -/

/-- What the report says of a route. -/
structure WindowsExact (env : Inputs) (blocks : List Block) (r : String) (report : Report) : Prop where
  /-- Every height between the ends of a window is that of a counted block. -/
  solid : ∀ w ∈ windowsOf r report.windows, w.startBlock ≤ w.endBlock ∧ ∀ n, w.startBlock ≤ n → n ≤ w.endBlock →
    ∃ b ∈ countedBlocks env blocks, b.manifest = w.manifest ∧ b.number = n
  disjoint : (windowsOf r report.windows).Pairwise fun v w => v.manifest = w.manifest → v.endBlock < w.startBlock
  exact : ∀ b ∈ countedBlocks env blocks,
    (∃ w ∈ windowsOf r report.windows, Covers w b) ↔ positiveAt env r b = true
  joined : ∀ a ∈ countedBlocks env blocks, ∀ b ∈ countedBlocks env blocks,
    positiveAt env r a = true → positiveAt env r b = true →
      ((∃ w ∈ windowsOf r report.windows, Covers w a ∧ Covers w b) ↔
        Relation.ReflTransGen (Joined env (countedBlocks env blocks) r) a b ∨
          Relation.ReflTransGen (Joined env (countedBlocks env blocks) r) b a)
  confirmed : ∀ w ∈ windowsOf r report.windows, ∀ b ∈ countedBlocks env blocks,
    b.manifest = w.manifest → b.number = w.startBlock →
      (w.confirmedNew = true ↔ Confirmed env (countedBlocks env blocks) r b)
  listed : countedBlocks env blocks ≠ [] → ∃ s ∈ report.routes, s.route = r
  counts : ∀ s ∈ report.routes, s.route = r →
    s.confirmedWindows = (windowsOf r report.windows).countP (·.confirmedNew) ∧
      s.confirmedWindows + s.unknownFragments = (windowsOf r report.windows).length

/-! ## The summaries -/

/-- Each summary has the name of its route. -/
def Named (run : Run) : Prop := ∀ r s, run.summaries r = some s → s.route = r

theorem Named.visit (h : Named run) (b : Block) (r : String) : Named (visit env b run r) := by
  by_cases hchosen : Chosen env r
  · have hcounts : ∀ {run' : Run} {n m : Nat}, Counts r run run' n m → Named run' := by
      rintro run' n m ⟨s, hs, hroute, -⟩ r' s' hs'
      rw [hs] at hs'
      by_cases hsame : r' = r
      · rw [hsame, Function.update_self] at hs'
        cases hs'
        rw [hroute, hsame]
        cases hold : run.summaries r with
        | none => rfl
        | some old => exact h r old hold
      · rw [Function.update_of_ne hsame] at hs'
        exact h r' s' hs'
    cases visit_spec hchosen b run with
    | extended _ _ _ _ _ _ h => exact hcounts h
    | opened _ _ _ _ _ _ _ _ h => exact hcounts h
    | passed _ _ _ h => exact hcounts h
  · rw [visit_of_not_chosen hchosen]
    exact h

theorem Named.step (h : Named run) (b : Block) : Named (DexArb.step env run b) := by
  unfold DexArb.step
  refine List.foldlRecOn env.routes _ ?_ fun run hrun r _ => Named.visit hrun b r
  intro r s hs
  refine h r s ?_
  rw [← hs]
  simp only
  split <;> rfl

theorem named_run (cs : List Block) : Named (cs.foldl (DexArb.step env) {}) :=
  List.foldlRecOn cs _ (fun _ _ hs => nomatch hs) fun _ hrun b _ => hrun.step b

theorem mem_routes {s : RouteSummary} : s ∈ (Analyze env blocks).routes ↔
    ∃ r ∈ env.routes, ∃ old, ((countedBlocks env blocks).foldl (step env) {}).summaries r = some old ∧
      s = old.assess (((countedBlocks env blocks).foldl (step env) {}).days r) := by
  simp only [Analyze, Listing.mem_sortBy, List.mem_filterMap, List.mem_dedup, Option.map_eq_some_iff]
  simp only [eq_comm]

/-! ## The result -/

theorem windows_exact (hroutes : env.routes.Nodup) (hapart : Apart env blocks) (hr : r ∈ env.routes)
    (hchosen : Chosen env r) : WindowsExact env blocks r (Analyze env blocks) := by
  have hsorted := hapart.sorted
  rcases allKnow_run hroutes hsorted r hchosen with ⟨gs, hknows⟩
  rw [seenBy, if_pos hr] at hknows
  have hnamed : Named ((countedBlocks env blocks).foldl (step env) {}) := named_run _
  have hrun := Runs.exists_left hknows.windows
  have hwindow := Runs.exists_right hknows.windows
  have hsummary : ∀ s ∈ (Analyze env blocks).routes, s.route = r →
      ∃ old, ((countedBlocks env blocks).foldl (step env) {}).summaries r = some old ∧
        s.confirmedWindows = old.confirmedWindows ∧ s.unknownFragments = old.unknownFragments := by
    intro s hs hroute
    rcases mem_routes.1 hs with ⟨r', -, old, hold, rfl⟩
    have hsame : r' = r := (hnamed r' old hold).symm.trans hroute
    exact ⟨old, hsame ▸ hold, rfl, rfl⟩
  constructor
  · -- a run takes every height between its ends
    intro w hw
    rcases hrun w hw with ⟨g, hg, hdescribes⟩
    have hheights := hdescribes.heights (hknows.maximal.chain g hg)
    constructor
    · rcases hdescribes.first with ⟨b, hb, -, hstart, -⟩
      rw [hstart]
      exact ((hheights b.number).1 ⟨b, List.mem_of_head? hb, rfl⟩).2
    · intro n hfrom hto
      rcases (hheights n).2 ⟨hfrom, hto⟩ with ⟨b, hb, hnumber⟩
      exact ⟨b, (hknows.mem_run.1 ⟨g, hg, hb⟩).1, hdescribes.manifest (hknows.maximal.chain g hg) b hb, hnumber⟩
  · -- the runs one after another are in the order of the blocks
    have hflat : Sorted Block.place gs.flatten := by
      rw [hknows.blocks]
      exact hsorted.filter _
    refine Runs.pairwise_right ?_ hknows.windows (List.pairwise_flatten.1 hflat).2
    intro g g' w w' hw hw' hbefore hmanifest
    rcases hw.last with ⟨b, hb, hmanifestLast, hend⟩
    rcases hw'.first with ⟨b', hb', hmanifest', hstart, -⟩
    have hplace := hbefore b (List.mem_of_getLast? hb) b' (List.mem_of_head? hb')
    rw [hend, hstart, UInt64.lt_iff_toNat_lt]
    rcases Prod.Lex.toLex_lt_toLex.1 hplace with hlt | ⟨_, hlt⟩
    · exact hlt
    · rw [← hmanifestLast, ← hmanifest', hmanifest] at hlt
      exact absurd hlt (lt_irrefl _)
  · intro b hb
    rw [show positiveAt env r b = true ↔ ∃ g ∈ gs, b ∈ g by rw [hknows.mem_run]; simp [hb]]
    constructor
    · rintro ⟨w, hw, hcovers⟩
      rcases hrun w hw with ⟨g, hg, hdescribes⟩
      exact ⟨g, hg, (hknows.covers_iff hsorted hg hdescribes hb).1 hcovers⟩
    · rintro ⟨g, hg, hmem⟩
      rcases hwindow g hg with ⟨w, hw, hdescribes⟩
      exact ⟨w, hw, (hknows.covers_iff hsorted hg hdescribes hb).2 hmem⟩
  · intro a ha b hb hapositive hbpositive
    -- the run of the later block has the earlier one, too
    have hsame : ∀ a ∈ countedBlocks env blocks, ∀ b ∈ countedBlocks env blocks, positiveAt env r b = true →
        Relation.ReflTransGen (Joined env (countedBlocks env blocks) r) a b →
          ∃ w ∈ windowsOf r (Analyze env blocks).windows, Covers w a ∧ Covers w b := by
      intro a ha b hb hpositive hreach
      rcases hknows.mem_run.2 ⟨hb, hpositive⟩ with ⟨g, hg, hmem⟩
      rcases hwindow g hg with ⟨w, hw, hdescribes⟩
      have hback := hknows.maximal.mem_of_reaches
        (fun _ _ _ h h' => hsorted.next_unique h.1.1 h'.1.1) hreach hg hmem
      exact ⟨w, hw, (hknows.covers_iff hsorted hg hdescribes ha).2 hback,
        (hknows.covers_iff hsorted hg hdescribes hb).2 hmem⟩
    constructor
    · rintro ⟨w, hw, hcoversA, hcoversB⟩
      rcases hrun w hw with ⟨g, hg, hdescribes⟩
      exact Runs.reaches_of_mem (hknows.maximal.chain g hg)
        ((hknows.covers_iff hsorted hg hdescribes ha).1 hcoversA)
        ((hknows.covers_iff hsorted hg hdescribes hb).1 hcoversB)
    · intro hreach
      rcases hreach with hreach | hreach
      · exact hsame a ha b hb hbpositive hreach
      · rcases hsame b hb a ha hapositive hreach with ⟨w, hw, hcoversB, hcoversA⟩
        exact ⟨w, hw, hcoversA, hcoversB⟩
  · -- the block is the first one of the run
    intro w hw b hb hmanifest hnumber
    rcases hrun w hw with ⟨g, hg, hdescribes⟩
    rcases hdescribes.first with ⟨first, hfirst, hmanifest', hstart, hiff⟩
    have hplace : b.place = first.place := by
      unfold Block.place
      rw [hnumber, hstart, hmanifest, hmanifest']
    have hmem := (hknows.mem_run.1 ⟨g, hg, List.mem_of_head? hfirst⟩).1
    rw [hsorted.eq_of_rank hb hmem hplace]
    exact hiff
  · intro hne
    rcases Option.isSome_iff_exists.1 (hknows.listed hne) with ⟨old, hold⟩
    exact ⟨_, mem_routes.2 ⟨r, hr, old, hold, rfl⟩, hnamed r old hold⟩
  · intro s hs hroute
    rcases hsummary s hs hroute with ⟨old, hold, hconfirmed, hunknown⟩
    have hsum : ((countedBlocks env blocks).foldl (step env) {}).summary r = old := by
      rw [Run.summary, hold]
      rfl
    have hfirst := hknows.confirmed
    have hsecond := hknows.unknown
    rw [hsum] at hfirst hsecond
    rw [hconfirmed, hunknown, hfirst, hsecond]
    refine ⟨rfl, ?_⟩
    have hcount := List.length_eq_countP_add_countP (·.confirmedNew) (l := windowsOf r (Analyze env blocks).windows)
    simp only [Bool.not_eq_true, Bool.decide_eq_false] at hcount
    exact hcount.symm

def filled (n : UInt8) : Hash := Vector.replicate 32 n

/-- A live block. -/
def liveBlock (number : UInt64) (hash parent manifest : UInt8) : Block where
  number := number
  hash := filled hash
  manifest := filled manifest
  batch := filled hash
  parent := filled parent
  time := 0
  availableAt := 0
  capture := "live"
  canonical := true
  finality := "finalized"
  quoteCoverage := "complete"
  actualQuotes := 2
  quoteMembers := filled hash
  committed := true

/-- A quote of 100 in a block. -/
def quoteOf (b : Block) (role : String) (tokenIn : UInt8) (out : Int) : Quote where
  id := filled tokenIn
  hash := b.hash
  manifest := b.manifest
  batch := b.batch
  role := role
  route := "r"
  mode := "exact_in"
  tokenIn := Vector.replicate 20 tokenIn
  tokenOut := Vector.replicate 20 1
  requested := 100
  amountIn := some 100
  amountOut := some out
  status := "ok"

/-- Each block with its budget and with what comes of 100. -/
def quoted (rows : List (Block × Int × Int)) (routes : List String) : Inputs where
  quotes batch := match rows.find? fun x => x.1.batch = batch with
    | some (b, budget, out) => [quoteOf b "capital_entry" 2 budget, quoteOf b "strategy" 1 out]
    | none => []
  routes := routes
  sizes := [100]
  usdc := Vector.replicate 20 1
  usdt := Vector.replicate 20 2
  head := false
  capitalUSDT := 100
  route := ""
  quotesHash qs := ((qs.getLast?).map Quote.hash).getD (filled 0)
  windowHash _ _ start := start

def lossBlock : Block := liveBlock 5 1 0 9
def gainBlock : Block := liveBlock 6 2 1 9
def laterBlock : Block := liveBlock 7 3 2 9

/-- A block without a positive quote, and two with one. -/
def threeQuoted : Inputs := quoted [(lossBlock, 100, 90), (gainBlock, 100, 110), (laterBlock, 100, 120)] ["r"]

example : (Analyze threeQuoted [laterBlock, lossBlock, gainBlock]).windows.map
    (fun w => (w.startBlock, w.endBlock, w.confirmedNew)) = [(6, 7, true)] := by decide +kernel

/-- The same heights under another manifest. -/
def otherGain : Block := liveBlock 6 12 11 10
def otherLater : Block := liveBlock 7 13 12 10

def twoManifests : Inputs :=
  quoted [(gainBlock, 100, 110), (otherGain, 100, 110), (laterBlock, 100, 110), (otherLater, 100, 110)] ["r"]

/-- Another block of the height and manifest of `gainBlock`. -/
def twinBlock : Block := liveBlock 6 4 1 9

def overBudget : Inputs := quoted [(lossBlock, 50, 90), (gainBlock, 100, 110)] ["r"]
def twins : Inputs := quoted [(gainBlock, 100, 110), (twinBlock, 100, 120)] ["r"]
def listedTwice : Inputs := quoted [(gainBlock, 100, 110)] ["r", "r"]

end MarketInfo.DexArb
