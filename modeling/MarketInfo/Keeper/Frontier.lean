import MarketInfo.Keeper.Steps

/-! # The evidence frontier

The cursor moves over a window only when its pages form one complete chain with
complete children; the window then goes, with its rows and no others.
-/

namespace MarketInfo.Keeper

open Json (Text)

variable {sha256 : Text → Vector UInt8 32} {factBytes : Capture → Option (List UInt8)}

/-! ## Complete windows -/

/-- What `advance` reads off a window row. -/
structure Closed (win : Window) : Prop where
  valid : win.invalid = false
  ended : win.ended = true
  visited : win.visited = win.count
  children : win.childrenDone = win.count

/-- The recorded pages of a window form one chain of tokens from the empty token
to the end, with each recorded page once and its child done. -/
structure CompletePages (sha256 : Text → Vector UInt8 32) (w : Work) (W : Text) : Prop where
  chain : ∃ tokens, tokens ≠ [] ∧ tokens.Nodup ∧ Walked sha256 w.pages W tokens [] ∧
    ∀ key row, w.pages.get key = some row → row.window = W →
      ∃ t ∈ tokens, key = runtimePageID sha256 W t
  children : ∀ key row, w.pages.get key = some row → row.window = W → row.childDone = true ∧
    ∃ p, w.parents.get (runtimeParentID row.capture) = some p ∧ p.capture = row.capture ∧
      p.complete = true
  parents : ∀ id p, w.parents.get id = some p → p.window = W →
    ∃ row, w.pages.get p.pageKey = some row ∧ row.capture = p.capture ∧ row.window = W

/-- The counters of a window row say that the window is complete. -/
theorem Inv.complete {w : Work} (h : Inv sha256 w) {W : Text} {win : Window}
    (hwin : w.windows.get W = some win) (hclosed : Closed win) : CompletePages sha256 w W := by
  have hW := (h.windows W win hwin).2
  have hv := hW.valid hclosed.valid
  rcases hv.walk.chain with ⟨tokens, hwalk, hnodup, hall, hend⟩
  rcases hend hclosed.ended with ⟨hnext, hne⟩
  have hvisited : ∀ key row, w.pages.get key = some row → row.window = W → row.visited = true := by
    intro key row hrow hrW
    have hcount : w.pages.count (fun r => decide (r.window = W) && r.visited) =
        w.pages.count fun r => decide (r.window = W) := by
      rw [hv.walk.visits, hv.rows, hclosed.visited]
    have himp := OrderedMap.imp_of_count_eq (fun r hr => (Bool.and_eq_true _ _ ▸ hr).1) hcount
      hrow (decide_eq_true hrW)
    exact (Bool.and_eq_true _ _ ▸ himp).2
  have hdone : ∀ id p, w.parents.get id = some p → p.window = W → p.complete = true := by
    intro id p hp hpW
    have hcount : w.parents.count (fun q => decide (q.window = W) && q.complete) =
        w.parents.count fun q => decide (q.window = W) := by
      rw [hW.done, hW.count, hclosed.children]
    have himp := OrderedMap.imp_of_count_eq (fun q hq => (Bool.and_eq_true _ _ ▸ hq).1) hcount
      hp (decide_eq_true hpW)
    exact (Bool.and_eq_true _ _ ▸ himp).2
  refine ⟨⟨tokens, hne, hnodup, hnext ▸ hwalk, fun key row hrow hrW =>
    hall key row hrow hrW (hvisited key row hrow hrW)⟩, ?_, hv.own⟩
  intro key row hrow hrW
  rcases h.pages key row hrow with ⟨-, -, p, hp, -, hcap, hpW, hrdone⟩
  have hcomplete := hdone _ p hp (hpW.trans hrW)
  exact ⟨hrdone.trans hcomplete, p, hp, hcap, hcomplete⟩

/-! ## Retiring -/

theorem lt_append (a : Text) {l : Text} (h : l ≠ []) : a < a ++ l := by
  induction a with
  | nil =>
      rcases l with _ | ⟨c, l⟩
      · exact absurd rfl h
      · exact List.nil_lt_cons c l
  | cons c a ih =>
      rw [List.cons_append, List.cons_lt_cons_iff]
      exact .inr ⟨rfl, ih⟩

/-- A row whose key begins with the window's. -/
def underWindow (window : Text) (e : Text × Page) : Bool := (window ++ ['/']).isPrefixOf e.1

theorem underWindow_iff {window : Text} {e : Text × Page} :
    underWindow window e = true ↔ (window ++ ['/']) <+: e.1 := List.isPrefixOf_iff_prefix

/-- Of the rows scanned past a window's key, those under the key come first. -/
theorem mem_takeWhile_under {window : Text} {rows : List (Text × Page)}
    (hsorted : rows.Pairwise fun a b => a.1 < b.1) (hpast : ∀ e ∈ rows, window ++ ['/'] < e.1)
    (e : Text × Page) :
    e ∈ rows.takeWhile (underWindow window) ↔ e ∈ rows ∧ (window ++ ['/']) <+: e.1 := by
  induction rows with
  | nil => simp
  | cons a rows ih =>
      rw [List.pairwise_cons] at hsorted
      have ih' := ih hsorted.2 fun b hb => hpast b (List.mem_cons_of_mem _ hb)
      by_cases ha : underWindow window a = true
      · rw [List.takeWhile_cons_of_pos ha, List.mem_cons, List.mem_cons, ih']
        constructor
        · intro he
          rcases he with rfl | he
          · exact ⟨.inl rfl, underWindow_iff.mp ha⟩
          · exact ⟨.inr he.1, he.2⟩
        · intro he
          rcases he.1 with heq | hmem
          · exact .inl heq
          · exact .inr ⟨hmem, he.2⟩
      · rw [List.takeWhile_cons_of_neg ha]
        constructor
        · intro he
          cases he
        · intro he
          rcases List.mem_cons.mp he.1 with rfl | hmem
          · exact absurd (underWindow_iff.mpr he.2) ha
          · -- A later row under the key would put this row under it too.
            exact absurd (underWindow_iff.mpr (prefix_of_between (hpast a List.mem_cons_self).le
              (hsorted.1 e hmem) he.2)) ha

/-- The rows a retired window loses. -/
theorem retireRows_eq {window : Text} {rows : List (Text × Page)} (w : Work)
    (hdone : ∀ e ∈ rows, underWindow window e = true → e.2.childDone = true) :
    w.retireRows window rows = .ok { w with
      parents := w.parents.deleteAll
        ((rows.takeWhile (underWindow window)).map fun e => runtimeParentID e.2.capture)
      pages := w.pages.deleteAll ((rows.takeWhile (underWindow window)).map Prod.fst) } := by
  induction rows generalizing w with
  | nil => rfl
  | cons a rows ih =>
      rw [Work.retireRows]
      change (if underWindow window a = false then _ else _) = _
      by_cases ha : underWindow window a = true
      · have hadone := hdone a List.mem_cons_self ha
        rw [if_neg (by simp [ha]), if_neg (by simp [hadone]),
          ih _ fun e he => hdone e (List.mem_cons_of_mem _ he), List.takeWhile_cons_of_pos ha]
        rfl
      · rw [if_pos (by simpa using ha), List.takeWhile_cons_of_neg ha]
        rfl

/-- What is left of a retired window, and of the others. -/
structure Retired (W : Text) (w w' : Work) : Prop where
  windows : ∀ W' win, w'.windows.get W' = some win ↔ w.windows.get W' = some win ∧ W' ≠ W
  pages : ∀ key row, w'.pages.get key = some row ↔ w.pages.get key = some row ∧ row.window ≠ W
  parents : ∀ id p, w'.parents.get id = some p ↔ w.parents.get id = some p ∧ p.window ≠ W
  order : w'.order = w.order

theorem Inv.retire {w : Work} (h : Inv sha256 w) {W : Text} {win : Window}
    (hwin : w.windows.get W = some win) (hclosed : Closed win) :
    ∃ w', w.retire W = .ok w' ∧ Retired W w w' ∧ Inv sha256 w' := by
  have hcomplete := h.complete hwin hclosed
  -- The window has a page, so its key is the key of a capture.
  have hcap : ∃ cap, runtimeWindowID cap = W ∧ W ≠ [] := by
    rcases hcomplete.chain with ⟨tokens, hne, -, hwalk, -⟩
    rcases List.exists_mem_of_ne_nil tokens hne with ⟨t, ht⟩
    rcases hwalk.row t ht with ⟨row, hrow, -⟩
    have hrW : row.window = W := runtimePageID_inj (h.keysOk _ row hrow).symm
    exact ⟨row.capture, hrW, (h.windows W win hwin).1⟩
  rcases hcap with ⟨cap, hcapW, hW⟩
  have hunder : ∀ key row, w.pages.get key = some row →
      (underWindow W (key, row) = true ↔ row.window = W) := by
    intro key row hrow
    rw [underWindow_iff]
    rcases h.pages key row hrow with ⟨hkey, hrW, -⟩
    constructor
    · intro hpre
      rw [hkey, ← hcapW] at hpre
      exact (window_under (hcapW ▸ hW) hrW hpre).symm.trans hcapW
    · intro hrow
      rw [hkey, hrow, runtimePageID]
      exact ⟨Discovery.hexText (sha256 row.page.fingerprintIn).toList, by simp⟩
  have hrows : w.pages.visit 128 w.pages.len (W ++ ['/']) = w.pages.past (W ++ ['/']) :=
    OrderedMap.visit_eq_past (by decide) (w.pages.past_length_le _)
  have hmem : ∀ key row, (key, row) ∈ (w.pages.past (W ++ ['/'])).takeWhile (underWindow W) ↔
      w.pages.get key = some row ∧ row.window = W := by
    intro key row
    rw [mem_takeWhile_under (w.pages.past_sorted _)
      (fun e he => (OrderedMap.mem_past.mp he).1), ← underWindow_iff, OrderedMap.mem_past]
    constructor
    · intro he
      exact ⟨he.1.2, (hunder key row he.1.2).mp he.2⟩
    · intro he
      refine ⟨⟨?_, he.1⟩, (hunder key row he.1).mpr he.2⟩
      have hkey : key = (W ++ ['/']) ++
          Discovery.hexText (sha256 row.page.fingerprintIn).toList := by
        rw [h.keysOk key row he.1, runtimePageID, he.2]
        simp
      rw [hkey]
      refine lt_append _ fun hnil => ?_
      have hlength := Discovery.length_hexText (sha256 row.page.fingerprintIn).toList
      rw [hnil, Vector.length_toList] at hlength
      cases hlength
  have hdone : ∀ e ∈ w.pages.past (W ++ ['/']), underWindow W e = true → e.2.childDone = true :=
    fun e he hpre => (hcomplete.children e.1 e.2 (OrderedMap.mem_past.mp he).2
      ((hunder e.1 e.2 (OrderedMap.mem_past.mp he).2).mp hpre)).1
  have hok := retireRows_eq w hdone
  generalize hgone : (w.pages.past (W ++ ['/'])).takeWhile (underWindow W) = gone at hok hmem
  have hpages : ∀ key row, (w.pages.deleteAll (gone.map Prod.fst)).get key = some row ↔
      w.pages.get key = some row ∧ row.window ≠ W := by
    intro key row
    rw [OrderedMap.get_deleteAll]
    split_ifs with hkey
    · rcases List.mem_map.mp hkey with ⟨e, he, rfl⟩
      have hrow := (hmem e.1 e.2).mp he
      constructor
      · intro hnone
        cases hnone
      · intro hrow'
        rw [hrow.1] at hrow'
        cases hrow'.1
        exact absurd hrow.2 hrow'.2
    · constructor
      · intro hrow
        exact ⟨hrow, fun hrW => hkey (List.mem_map.mpr ⟨(key, row), (hmem key row).mpr ⟨hrow, hrW⟩,
          rfl⟩)⟩
      · intro hrow
        exact hrow.1
  have hparents : ∀ id p, (w.parents.deleteAll
      (gone.map fun e => runtimeParentID e.2.capture)).get id = some p ↔
        w.parents.get id = some p ∧ p.window ≠ W := by
    intro id p
    rw [OrderedMap.get_deleteAll]
    split_ifs with hid
    · rcases List.mem_map.mp hid with ⟨e, he, rfl⟩
      have hrow := (hmem e.1 e.2).mp he
      rcases h.pages e.1 e.2 hrow.1 with ⟨-, -, q, hq, -, -, hqW, -⟩
      constructor
      · intro hnone
        cases hnone
      · intro hp
        rw [hq] at hp
        cases hp.1
        exact absurd (hqW.trans hrow.2) hp.2
    · constructor
      · intro hp
        refine ⟨hp, fun hpW => hid ?_⟩
        -- A parent of the window owns a page, which is among the rows that go.
        rcases hcomplete.parents id p hp hpW with ⟨row, hrow, hcap, hrW⟩
        refine List.mem_map.mpr ⟨(p.pageKey, row), (hmem _ row).mpr ⟨hrow, hrW⟩, ?_⟩
        rw [hcap]
        exact (h.order.ids id p hp).symm
      · intro hp
        exact hp.1
  have hwindows : ∀ W' win', (w.windows.delete W).get W' = some win' ↔
      w.windows.get W' = some win' ∧ W' ≠ W := by
    intro W' win'
    rw [OrderedMap.get_delete]
    by_cases hW' : W' = W
    · simp [hW']
    · simp [hW']
  refine ⟨{ w with
      parents := w.parents.deleteAll (gone.map fun e => runtimeParentID e.2.capture)
      pages := w.pages.deleteAll (gone.map Prod.fst)
      windows := w.windows.delete W }, ?_, ⟨hwindows, hpages, hparents, rfl⟩, ?_⟩
  · unfold Work.retire
    rw [hrows, hok]
    rfl
  · constructor
    · refine h.order.deleteAll fun id hid p hp => ?_
      rcases List.mem_map.mp hid with ⟨e, he, rfl⟩
      have hrow := (hmem e.1 e.2).mp he
      rcases (hcomplete.children e.1 e.2 hrow.1 hrow.2).2 with ⟨q, hq, -, hqdone⟩
      rw [hq] at hp
      cases hp
      simp [Parent.pending, hqdone]
    · intro id p hp hpW
      have hp' := (hparents id p).mp hp
      rcases h.parents id p hp'.1 hpW with ⟨hpid, ⟨win', hwin'⟩, row, hrow, hrW⟩
      exact ⟨hpid, ⟨win', (hwindows _ win').mpr ⟨hwin', hp'.2⟩⟩, row,
        (hpages _ row).mpr ⟨hrow, hrW ▸ hp'.2⟩, hrW⟩
    · intro key row hrow
      have hrow' := (hpages key row).mp hrow
      rcases h.pages key row hrow'.1 with ⟨hkey, hrW, q, hq, hqkey, hqcap, hqW, hqdone⟩
      exact ⟨hkey, hrW, q, (hparents _ q).mpr ⟨hq, hqW ▸ hrow'.2⟩, hqkey, hqcap, hqW, hqdone⟩
    · intro W' win' hwin'
      have hwin'' := (hwindows W' win').mp hwin'
      rcases h.windows W' win' hwin''.1 with ⟨hWne, hWok⟩
      refine ⟨hWne, hWok.frame h.keysOk ?_ ?_⟩
      · intro id p hpW
        refine Iff.trans (hparents id p) ⟨fun hp => hp.1, fun hp => ⟨hp, ?_⟩⟩
        rw [hpW]
        exact hwin''.2
      · intro key row hrW
        refine Iff.trans (hpages key row) ⟨fun hrow => hrow.1, fun hrow => ⟨hrow, ?_⟩⟩
        rw [hrW]
        exact hwin''.2

/-! ## Advancing -/

/-- The windows `advance` passes by: they end before the cursor or past the limit. -/
def Skipped (fromTime toTime : Time) (win : Window) : Prop :=
  ¬ win.toTime.After fromTime ∨ win.toTime.After toTime

/-- The cursor's move over the window under key `W`. -/
structure Moves (w : Work) (kind : EventKind) (fromTime toTime : Time) (W : Text) (win : Window) :
    Prop where
  row : w.windows.get W = some win
  ofKind : win.kind = kind
  begins : ¬ win.fromTime.After fromTime
  ends : win.toTime.After fromTime ∧ ¬ win.toTime.After toTime
  closed : Closed win
  earliest : ∀ W' win', w.windows.get W' = some win' → kind.text ++ ['/'] < W' → W' < W →
    Skipped fromTime toTime win'

theorem advanceOf_cases {w : Work} (h : Inv sha256 w) {kind : EventKind} {fromTime toTime : Time}
    {rows : List (Text × Window)} (hsorted : rows.Pairwise fun a b => a.1 < b.1)
    (hrows : ∀ e ∈ rows, w.windows.get e.1 = some e.2)
    (hbefore : ∀ W win, w.windows.get W = some win → kind.text ++ ['/'] < W →
      (W, win) ∈ rows ∨ (Skipped fromTime toTime win ∧ ∀ e ∈ rows, W < e.1)) :
    w.advanceOf kind fromTime toTime rows = .ok (w, fromTime) ∨
      ∃ W win w', Moves w kind fromTime toTime W win ∧ Retired W w w' ∧ Inv sha256 w' ∧
        w.advanceOf kind fromTime toTime rows = .ok (w', win.toTime) := by
  induction rows with
  | nil => exact .inl rfl
  | cons e rows ih =>
      rcases e with ⟨key, win⟩
      rw [List.pairwise_cons] at hsorted
      rw [Work.advanceOf]
      split_ifs with hstop hskip hopen
      · exact .inl rfl
      · refine ih hsorted.2 (fun e he => hrows e (List.mem_cons_of_mem _ he)) ?_
        intro W win' hwin' hafter
        rcases hbefore W win' hwin' hafter with hmem | ⟨hskipped, hlt⟩
        · rcases List.mem_cons.mp hmem with heq | hmem
          · cases heq
            exact .inr ⟨hskip, hsorted.1⟩
          · exact .inl hmem
        · exact .inr ⟨hskipped, fun e he => hlt e (List.mem_cons_of_mem _ he)⟩
      · exact .inl rfl
      · rw [not_or, not_not] at hstop hskip
        simp only [not_or, Bool.not_eq_true, Bool.not_eq_false, ne_eq, not_not] at hopen
        have hwin := hrows _ List.mem_cons_self
        have hclosed : Closed win := ⟨hopen.1, hopen.2.1, hopen.2.2.1, hopen.2.2.2⟩
        rcases h.retire hwin hclosed with ⟨w', hretire, hretired, hinv⟩
        refine .inr ⟨key, win, w', ⟨hwin, hstop.1, hstop.2, hskip, hclosed, ?_⟩, hretired, hinv, ?_⟩
        · intro W' win' hwin' hafter hlt
          rcases hbefore W' win' hwin' hafter with hmem | ⟨hskipped, -⟩
          · rcases List.mem_cons.mp hmem with heq | hmem
            · cases heq
              exact absurd hlt (lt_irrefl _)
            · exact absurd hlt (hsorted.1 _ hmem).asymm
          · exact hskipped
        · rw [hretire]
          rfl

theorem advance_cases {w : Work} (h : Inv sha256 w) (kind : EventKind) (fromTime toTime : Time) :
    w.advance kind fromTime toTime = .ok (w, fromTime) ∨
      ∃ W win w', Moves w kind fromTime toTime W win ∧ Retired W w w' ∧ Inv sha256 w' ∧
        w.advance kind fromTime toTime = .ok (w', win.toTime) := by
  unfold Work.advance
  split_ifs
  · exact .inl rfl
  · rw [OrderedMap.visit_eq_past (by decide) (w.windows.past_length_le _)]
    refine advanceOf_cases h (w.windows.past_sorted _) ?_ ?_
    · intro e he
      exact (OrderedMap.mem_past.mp he).2
    · intro W win hwin hafter
      exact .inl (OrderedMap.mem_past.mpr ⟨hafter, hwin⟩)

/-- The rows `next` reads are never inconsistent. -/
theorem Inv.next {w : Work} (h : Inv sha256 w) (now : Time) : ∃ cap, w.next now = .ok cap := by
  have key : ∀ rows : List (Text × Text), (∀ e ∈ rows, w.order.get e.1 = some e.2) →
      ∃ cap, w.nextOf now rows = .ok cap := by
    intro rows hrows
    induction rows with
    | nil => exact ⟨none, rfl⟩
    | cons e rows ih =>
        rcases e with ⟨key, id⟩
        rcases (h.order.order key id).mp (hrows _ List.mem_cons_self) with ⟨p, hp, -, hkey⟩
        rw [Work.nextOf, hp]
        simp only
        rw [if_neg (not_not.mpr hkey.symm)]
        split_ifs
        · exact ⟨_, rfl⟩
        · exact ih fun e he => hrows e (List.mem_cons_of_mem _ he)
  refine key _ fun e he => ?_
  rw [OrderedMap.visit_eq_past (by decide) (w.order.past_length_le _)] at he
  exact (OrderedMap.mem_past.mp he).2

/-! ## Runs -/

def State.start (evidence : EventKind → Time) : State := ⟨.empty, evidence⟩

/-- The calls of a run, all of them accepted. -/
def State.run (sha256 : Text → Vector UInt8 32) (factBytes : Capture → Option (List UInt8)) :
    State → List Call → Except WorkError State
  | k, [] => .ok k
  | k, call :: calls => do
      let k ← k.apply sha256 factBytes call
      k.run sha256 factBytes calls

/-- A complete child of the capture is among the calls. -/
def ChildOf (calls : List Call) (id : UUID) : Prop :=
  ∃ cap, Call.child cap ∈ calls ∧ cap.committed = true ∧ cap.captureKind = .enrichment ∧
    cap.status = .complete ∧ cap.parentCaptureId = some id

/-- Every complete parent has its child among the calls. -/
def CompletedBy (calls : List Call) (w : Work) : Prop :=
  ∀ id p, w.parents.get id = some p → p.complete = true → ChildOf calls p.capture.captureId

/-- One move of the cursor. -/
structure Advance (sha256 : Text → Vector UInt8 32) (calls : List Call) (kind : EventKind)
    (toTime : Time) (k k' : State) (W : Text) (win : Window) : Prop where
  moves : Moves k.work kind (k.evidenceCursors kind) toTime W win
  pages : CompletePages sha256 k.work W
  children : ∀ key row, k.work.pages.get key = some row → row.window = W →
    ChildOf calls row.capture.captureId
  retired : Retired W k.work k'.work
  cursor : k'.evidenceCursors = Function.update k.evidenceCursors kind win.toTime

theorem State.advanceEvidence_cases {k : State} (h : Inv sha256 k.work) (kind : EventKind)
    (toTime : Time) :
    k.advanceEvidence kind toTime = .ok k ∨
      ∃ W win k', Moves k.work kind (k.evidenceCursors kind) toTime W win ∧
        Retired W k.work k'.work ∧ Inv sha256 k'.work ∧
        k'.evidenceCursors = Function.update k.evidenceCursors kind win.toTime ∧
        k.advanceEvidence kind toTime = .ok k' := by
  unfold State.advanceEvidence
  rcases advance_cases h kind (k.evidenceCursors kind) toTime with
    hstay | ⟨W, win, w', hmoves, hretired, hinv, hok⟩
  · refine .inl ?_
    rw [hstay]
    show (if (k.evidenceCursors kind).After (k.evidenceCursors kind) then _ else _) = _
    rw [if_neg (lt_irrefl _)]
    rfl
  · refine .inr ⟨W, win, ⟨w', Function.update k.evidenceCursors kind win.toTime⟩, hmoves, hretired,
      hinv, rfl, ?_⟩
    rw [hok]
    show (if win.toTime.After (k.evidenceCursors kind) then _ else _) = _
    rw [if_pos hmoves.ends.1]
    rfl

theorem parent_completed {w w' : Work} {cap : Capture} {page : Option IndexPage}
    {evidence : EventKind → Time} (hok : w.parent sha256 factBytes cap page evidence = .ok w')
    (id : Text) (p : Parent) (hp : w'.parents.get id = some p) (hdone : p.complete = true) :
    w.parents.get id = some p := by
  have hset : ∀ q : Parent, q.complete = false →
      (w.parents.set (runtimeParentID cap) q).get id = some p → w.parents.get id = some p := by
    intro q hq hget
    rw [OrderedMap.get_set] at hget
    split_ifs at hget
    · cases hget
      rw [hq] at hdone
      cases hdone
    · exact hget
  unfold Work.parent at hok
  split_ifs at hok
  · cases hok
    exact hp
  · split at hok
    · split_ifs at hok
      cases hok
      exact hp
    · split at hok
      · split_ifs at hok
        · rcases page with _ | page
          · cases hok
          · unfold Work.parentPage at hok
            simp only at hok
            rw [Check.seq_eq_ok] at hok
            rcases Check.andThen_eq_ok.mp hok.2 with ⟨out, -, hrest⟩
            cases Except.ok.inj hrest
            exact hset _ rfl hp
        · cases hok
          exact hset _ rfl hp
      · cases hok
        exact hset _ rfl hp

theorem child_completed {w w' : Work} (h : Inv sha256 w) {cap : Capture}
    (hok : w.child cap = .ok w') (id : Text) (p : Parent) (hp : w'.parents.get id = some p)
    (hdone : p.complete = true) :
    (∃ q, w.parents.get id = some q ∧ q.complete = true ∧ q.capture = p.capture) ∨
      ChildOf [.child cap] p.capture.captureId := by
  rcases child_cases hok with rfl | ⟨parentId, q, w₁, hcommitted, hkind, hparent, hq, hopen, hfinish,
    rfl⟩
  · exact .inl ⟨p, hp, hdone, rfl⟩
  · have hsame : w₁.parents = w.parents := by
      rcases hfinish with ⟨-, hfinish⟩ | ⟨-, rfl⟩
      · rcases finishChild_cases hfinish with ⟨-, rfl⟩ | ⟨win, row, -, -, ⟨-, rfl⟩ | ⟨-, rfl⟩⟩
        · rfl
        · rfl
        · rfl
      · rfl
    rw [settleParent_get, hsame] at hp
    split_ifs at hp with hid hdrop
    · cases hp
      refine .inr ⟨cap, List.mem_singleton.mpr rfl, hcommitted, hkind, ?_, ?_⟩
      · rw [attempt_complete cap hopen] at hdone
        exact of_decide_eq_true hdone
      · rw [hparent, attempt_capture, uuid_text_injective (h.order.ids _ q hq)]
    · exact .inl ⟨p, hp, hdone, rfl⟩

/-- What one accepted call keeps. -/
theorem State.apply_inv {k k' : State} {call : Call} {calls : List Call} (h : Inv sha256 k.work)
    (hcalls : CompletedBy calls k.work) (hok : k.apply sha256 factBytes call = .ok k') :
    Inv sha256 k'.work ∧ CompletedBy (calls ++ [call]) k'.work := by
  have hmore : ∀ id, ChildOf calls id → ChildOf (calls ++ [call]) id := by
    intro id hchild
    rcases hchild with ⟨cap, hmem, hrest⟩
    exact ⟨cap, List.mem_append_left _ hmem, hrest⟩
  cases call with
  | parent cap page =>
      rcases Check.andThen_eq_ok.mp hok with ⟨w', hw', hk'⟩
      cases Except.ok.inj hk'
      refine ⟨h.parent hw', fun id p hp hdone => hmore _ ?_⟩
      exact hcalls id p (parent_completed hw' id p hp hdone) hdone
  | child cap =>
      rcases Check.andThen_eq_ok.mp hok with ⟨w', hw', hk'⟩
      cases Except.ok.inj hk'
      refine ⟨h.child hw', fun id p hp hdone => ?_⟩
      rcases child_completed h hw' id p hp hdone with ⟨q, hq, hqdone, hcap⟩ | hchild
      · exact hcap ▸ hmore _ (hcalls id q hq hqdone)
      · rcases hchild with ⟨cap', hmem, hrest⟩
        exact ⟨cap', List.mem_append_right _ hmem, hrest⟩
  | advance kind toTime =>
      have hadvance : k.advanceEvidence kind toTime = .ok k' := hok
      rcases State.advanceEvidence_cases h kind toTime with
        hstay | ⟨W, win, k'', -, hretired, hinv, -, hmove⟩
      · rw [hstay] at hadvance
        cases hadvance
        exact ⟨h, fun id p hp hdone => hmore _ (hcalls id p hp hdone)⟩
      · rw [hmove] at hadvance
        cases hadvance
        exact ⟨hinv, fun id p hp hdone =>
          hmore _ (hcalls id p ((hretired.parents id p).mp hp).1 hdone)⟩

theorem State.run_inv {k k' : State} {past calls : List Call} (h : Inv sha256 k.work)
    (hpast : CompletedBy past k.work) (hrun : k.run sha256 factBytes calls = .ok k') :
    Inv sha256 k'.work ∧ CompletedBy (past ++ calls) k'.work := by
  induction calls generalizing k past with
  | nil =>
      cases hrun
      rw [List.append_nil]
      exact ⟨h, hpast⟩
  | cons call calls ih =>
      rcases Check.andThen_eq_ok.mp hrun with ⟨k₁, hfirst, hrest⟩
      rcases State.apply_inv h hpast hfirst with ⟨hinv, hdone⟩
      have := ih hinv hdone hrest
      rwa [List.append_assoc] at this

/-- In every reached state the retry order lists exactly the pending parents and
`next` reads it without an error; the cursor moves over the earliest overlapping
window only, when its pages are complete, and takes away that window's rows. -/
theorem evidence_frontier (evidence : EventKind → Time) (calls : List Call) (k : State)
    (hrun : (State.start evidence).run sha256 factBytes calls = .ok k) :
    (∀ key id, k.work.order.get key = some id ↔ ∃ p, k.work.parents.get id = some p ∧
      p.complete = false ∧ p.attempts < 3 ∧ key = runtimeParentOrder p.capture) ∧
    (∀ now, ∃ cap, k.work.next now = .ok cap) ∧
    ∀ kind toTime, k.apply sha256 factBytes (.advance kind toTime) = .ok k ∨
      ∃ W win k', k.apply sha256 factBytes (.advance kind toTime) = .ok k' ∧
        Advance sha256 calls kind toTime k k' W win := by
  have hnone : CompletedBy [] (State.start evidence).work := by
    intro id p hp
    simp [State.start, Work.empty] at hp
  rcases State.run_inv (inv_empty sha256) hnone hrun with ⟨h, hcalls⟩
  refine ⟨?_, h.next, ?_⟩
  · intro key id
    rw [h.order.order]
    simp [Parent.pending, and_assoc]
  · intro kind toTime
    rcases State.advanceEvidence_cases h kind toTime with
      hstay | ⟨W, win, k', hmoves, hretired, -, hcursor, hok⟩
    · exact .inl hstay
    · have hpages := h.complete hmoves.row hmoves.closed
      refine .inr ⟨W, win, k', hok, hmoves, hpages, ?_, hretired, hcursor⟩
      intro key row hrow hrW
      rcases (hpages.children key row hrow hrW).2 with ⟨p, hp, hcap, hdone⟩
      exact hcap ▸ hcalls _ p hp hdone

/-! ## Nested windows -/

/-- The digest of the empty token, the only token of the runs below. -/
def emptyTokenDigest : Text → Vector UInt8 32 := fun _ =>
  #v[0xe3, 0xb0, 0xc4, 0x42, 0x98, 0xfc, 0x1c, 0x14, 0x9a, 0xfb, 0xf4, 0xc8, 0x99, 0x6f, 0xb9, 0x24,
    0x27, 0xae, 0x41, 0xe4, 0x64, 0x9b, 0x93, 0x4c, 0xa4, 0x95, 0x99, 0x1b, 0x78, 0x52, 0xb8, 0x55]

/-- A live index capture of one window, the last of its pages. -/
def lastPageCapture (n : UInt8) (fromTime toTime : Int) : Capture where
  captureId := ⟨List.replicate 16 n, rfl⟩
  captureStartedAt := ⟨20, 0⟩
  captureKind := .eventIndex
  captureMode := .live
  requestedFrom := some ⟨fromTime, 0⟩
  requestedTo := some ⟨toTime, 0⟩
  eventKind := .rentResource
  availableAt := ⟨30, 0⟩
  status := .complete
  paginationExhausted := true
  committed := true
  parentCaptureId := none

def lastPage (cap : Capture) : IndexPage where
  captureId := cap.captureId
  captureStartedAt := cap.captureStartedAt
  scanID := ['w']
  fingerprintIn := []
  fingerprintOut := []
  requestStartedAt := ⟨25, 0⟩
  availableAt := ⟨30, 0⟩
  payloadHash := List.replicate 32 0

def childCapture (cap : Capture) : Capture :=
  { cap with captureId := ⟨List.replicate 16 99, rfl⟩
             captureKind := .enrichment
             parentCaptureId := some cap.captureId }

/-- A wide window with its page and child, and a window inside it with its page only. -/
def nestedCalls : List Call :=
  [.parent (lastPageCapture 1 0 10) (some (lastPage (lastPageCapture 1 0 10))),
    .child (childCapture (lastPageCapture 1 0 10)),
    .parent (lastPageCapture 2 5 8) (some (lastPage (lastPageCapture 2 5 8)))]

theorem evidence_frontier_nested : ∃ k, (State.start fun _ => ⟨0, 0⟩).run emptyTokenDigest
    (fun _ => none) nestedCalls = .ok k ∧ ∀ now, ∃ cap, k.work.next now = .ok cap := by
  have hok : ((State.start fun _ => ⟨0, 0⟩).run emptyTokenDigest (fun _ => none)
      nestedCalls).isOk = true := by decide +kernel
  cases hrun : (State.start fun _ => ⟨0, 0⟩).run emptyTokenDigest (fun _ => none) nestedCalls with
  | error e =>
      rw [hrun] at hok
      cases hok
  | ok k => exact ⟨k, rfl, (evidence_frontier _ nestedCalls k hrun).2.1⟩

/-- The cursor passes the inner window together with the wide one. -/
theorem nested_window_passed : ∃ k k' W win,
    (State.start fun _ => ⟨0, 0⟩).run emptyTokenDigest (fun _ => none) nestedCalls = .ok k ∧
    k.apply emptyTokenDigest (fun _ => none) (.advance .rentResource ⟨10, 0⟩) = .ok k' ∧
    k.work.windows.get W = some win ∧ win.kind = .rentResource ∧
    win.toTime.After (k.evidenceCursors .rentResource) ∧
    ¬ win.toTime.After (k'.evidenceCursors .rentResource) ∧
    ¬ CompletePages emptyTokenDigest k.work W := by
  generalize hW : runtimeWindowID (lastPageCapture 2 5 8) = W
  generalize hkey : runtimePageID emptyTokenDigest W [] = key
  have hcheck : (((State.start fun _ => ⟨0, 0⟩).run emptyTokenDigest (fun _ => none)
      nestedCalls).toOption.map fun k =>
        ((k.work.windows.get W).map fun win => (win.kind, win.toTime),
          (k.work.pages.get key).map fun row => (row.window, row.childDone),
          k.evidenceCursors .rentResource,
          (k.apply emptyTokenDigest (fun _ => none) (.advance .rentResource ⟨10, 0⟩)).toOption.map
            fun k' => k'.evidenceCursors .rentResource)) =
      some (some (.rentResource, ⟨8, 0⟩), some (W, false), ⟨0, 0⟩, some ⟨10, 0⟩) := by
    subst hkey hW
    decide +kernel
  cases hrun : (State.start fun _ => ⟨0, 0⟩).run emptyTokenDigest (fun _ => none) nestedCalls with
  | error e =>
      rw [hrun] at hcheck
      cases hcheck
  | ok k =>
      rw [hrun] at hcheck
      have hparts := Option.some.inj hcheck
      simp only [Prod.mk.injEq, Option.map_eq_some_iff] at hparts
      rcases hparts with ⟨⟨win, hwin, hkind, hto⟩, ⟨row, hrow, hrW, hdone⟩, hcursor, k', hk', hcursor'⟩
      have hstep : k.apply emptyTokenDigest (fun _ => none) (.advance .rentResource ⟨10, 0⟩) =
          .ok k' := by
        cases hstep : k.apply emptyTokenDigest (fun _ => none) (.advance .rentResource ⟨10, 0⟩) with
        | error e =>
            rw [hstep] at hk'
            cases hk'
        | ok k'' =>
            rw [hstep] at hk'
            exact congrArg Except.ok (Option.some.inj hk')
      refine ⟨k, k', W, win, rfl, hstep, hwin, hkind, ?_, ?_, fun hpages => ?_⟩
      · rw [hto, hcursor]
        decide
      · rw [hto, hcursor']
        decide
      · have := (hpages.children _ row hrow hrW).1
        rw [hdone] at this
        cases this

end MarketInfo.Keeper
