import MarketInfo.Keeper.Invariant

/-! # Windows through pages and walks

The walk of a window keeps its chain, and the rows of one window say nothing
about another's.
-/

namespace MarketInfo.Keeper

open Json (Text)

variable {sha256 : Text → Vector UInt8 32}

/-- The key of a page row tells the row's window and token. -/
def KeysOk (sha256 : Text → Vector UInt8 32) (pages : OrderedMap Text Page) : Prop :=
  ∀ key row, pages.get key = some row →
    key = runtimePageID sha256 row.window row.page.fingerprintIn

theorem Marks.keysOk {W : Text} {pages pages' : OrderedMap Text Page} (h : Marks W pages pages')
    (hkeys : KeysOk sha256 pages) : KeysOk sha256 pages' := by
  intro key row' hget
  rcases h.rows key row' hget with ⟨row, hrow, hcap, hpage, -⟩
  rw [hkeys key row hrow, Page.window, Page.window, hcap, hpage]

/-! ## The chain of the walked window -/

/-- One more visited page at the end of the chain. -/
theorem ChainOk.extend {pages : OrderedMap Text Page} {W : Text} {win : Window} {row : Page}
    (h : ChainOk sha256 pages W win) (hkeys : KeysOk sha256 pages)
    (hget : pages.get (runtimePageID sha256 W win.next) = some row)
    (hin : row.page.fingerprintIn = win.next) (hnew : row.visited = false) (ended : Bool)
    (hended : ended = true → row.page.fingerprintOut = []) :
    ChainOk sha256 (pages.set (runtimePageID sha256 W win.next) { row with visited := true }) W
      { win with visited := win.visited + 1
                 next := row.page.fingerprintOut
                 ended := ended } := by
  have hW : row.window = W := runtimePageID_inj (hkeys _ _ hget).symm
  have hkeep : ∀ key r, pages.get key = some r → r.visited = true →
      (pages.set (runtimePageID sha256 W win.next) { row with visited := true }).get key =
        some r := fun key r hr hv => (Marks.visit hget hW hnew).other key r hr (.inr hv)
  rcases h.chain with ⟨tokens, hwalk, hnodup, hall, -⟩
  constructor
  · have hcount := OrderedMap.count_set_old hget { row with visited := true }
      fun r => decide (r.window = W) && r.visited
    have hnow : (decide (({ row with visited := true } : Page).window = W) && true) = true := by
      rw [Bool.and_true]
      exact decide_eq_true hW
    rw [hnow, hnew, Bool.and_false, h.visits] at hcount
    simpa using hcount
  · refine ⟨tokens ++ [win.next], ?_, ?_, ?_, ?_⟩
    · have hself := OrderedMap.get_set_self pages (runtimePageID sha256 W win.next)
        { row with visited := true }
      have hwalk' := hwalk.mono fun key r hr hv => ⟨r, hkeep key r hr hv, rfl, hv⟩
      exact @Walked.snoc _ _ _ _ _ { row with visited := true } hwalk' hself hin rfl
    · -- A token of the chain is the token of a visited page, and this page was not visited.
      refine List.nodup_append.mpr ⟨hnodup, List.nodup_singleton _, ?_⟩
      intro t ht t' ht' heq
      rw [List.mem_singleton.mp ht'] at heq
      subst heq
      rcases hwalk.row _ ht with ⟨r, hr, -, hv⟩
      rw [hget] at hr
      cases hr
      rw [hnew] at hv
      cases hv
    · intro key r hr hrW hv
      rw [OrderedMap.get_set] at hr
      split_ifs at hr with hkey
      · exact ⟨win.next, List.mem_append_right _ (List.mem_singleton.mpr rfl), hkey⟩
      · rcases hall key r hr hrW hv with ⟨t, ht, hkt⟩
        exact ⟨t, List.mem_append_left _ ht, hkt⟩
    · intro he
      exact ⟨hended he, by simp⟩

/-- What the walk does: marks on its own window, a chain as long as the window
stays valid, and no change to the counts of parents. -/
structure WalkSpec (sha256 : Text → Vector UInt8 32) (W : Text) (pages : OrderedMap Text Page)
    (win : Window) (out : OrderedMap Text Page × Window) : Prop where
  marks : Marks W pages out.1
  count : out.2.count = win.count
  childrenDone : out.2.childrenDone = win.childrenDone
  valid : out.2.invalid = false →
    win.invalid = false ∧ (ChainOk sha256 pages W win → ChainOk sha256 out.1 W out.2)

theorem walkLoop_spec (W : Text) (fuel : Nat) (pages : OrderedMap Text Page) (win : Window)
    (hkeys : KeysOk sha256 pages) (hopen : win.ended = false) :
    WalkSpec sha256 W pages win (walkLoop sha256 W fuel pages win) := by
  induction fuel generalizing pages win with
  | zero => exact ⟨Marks.refl W pages, rfl, rfl, fun h => ⟨h, id⟩⟩
  | succ fuel ih =>
      rw [walkLoop]
      split
      · exact ⟨Marks.refl W pages, rfl, rfl, fun h => ⟨h, id⟩⟩
      · next row hget =>
          have hW : row.window = W := runtimePageID_inj (hkeys _ _ hget).symm
          split_ifs with hbad hout
          · exact ⟨Marks.refl W pages, rfl, rfl, fun h => by cases h⟩
          · rw [not_or, not_not, Bool.not_eq_true] at hbad
            refine ⟨Marks.visit hget hW hbad.2, rfl, rfl, fun h => ⟨h, fun hchain => ?_⟩⟩
            have := hchain.extend hkeys hget hbad.1 hbad.2 true fun _ => hout
            rwa [hout] at this
          · rw [not_or, not_not, Bool.not_eq_true] at hbad
            have hmark := Marks.visit hget hW hbad.2
            have hrest := ih _ { win with visited := win.visited + 1
                                          next := row.page.fingerprintOut } (hmark.keysOk hkeys)
              hopen
            refine ⟨hmark.trans hrest.marks, hrest.count, hrest.childrenDone, fun h => ?_⟩
            rcases hrest.valid h with ⟨hvalid, hstep⟩
            refine ⟨hvalid, fun hchain => hstep ?_⟩
            refine hchain.extend hkeys hget hbad.1 hbad.2 win.ended fun he => ?_
            rw [hopen] at he
            cases he

theorem walk_spec (W : Text) (pages : OrderedMap Text Page) (win : Window)
    (hkeys : KeysOk sha256 pages) : WalkSpec sha256 W pages win (walk sha256 W pages win) := by
  unfold walk
  split_ifs with hstop
  · exact ⟨Marks.refl W pages, rfl, rfl, fun h => ⟨h, id⟩⟩
  · rw [not_or, Bool.not_eq_true, Bool.not_eq_true] at hstop
    exact walkLoop_spec W _ pages win hkeys hstop.2

/-- The pages bound the turns of a walk: more fuel changes nothing. -/
theorem walkLoop_fuel (W : Text) {fuel : Nat} {pages : OrderedMap Text Page} {win : Window}
    (hfuel : pages.count (fun row => !row.visited) < fuel) :
    walkLoop sha256 W (fuel + 1) pages win = walkLoop sha256 W fuel pages win := by
  induction fuel generalizing pages win with
  | zero => omega
  | succ fuel ih =>
      conv_lhs => rw [walkLoop]
      conv_rhs => rw [walkLoop]
      cases hget : pages.get (runtimePageID sha256 W win.next) with
      | none => rfl
      | some row =>
          simp only
          split_ifs with hbad hout
          · rfl
          · rfl
          · rw [not_or, not_not, Bool.not_eq_true] at hbad
            have hcount := OrderedMap.count_set_old hget { row with visited := true }
              fun row => !row.visited
            rw [hbad.2] at hcount
            refine ih ?_
            simp only [Bool.not_false, Bool.toNat_true, Bool.not_true, Bool.toNat_false] at hcount
            omega

/-! ## Frames -/

/-- The two maps have the same parents of window `W`. -/
def SameParents (W : Text) (parents parents' : OrderedMap Text Parent) : Prop :=
  ∀ id p, p.window = W → (parents'.get id = some p ↔ parents.get id = some p)

/-- The two maps have the same pages of window `W`. -/
def SameRows (W : Text) (pages pages' : OrderedMap Text Page) : Prop :=
  ∀ key row, row.window = W → (pages'.get key = some row ↔ pages.get key = some row)

/-- A chain depends on the visited pages of its window only. -/
theorem ChainOk.frame {pages pages' : OrderedMap Text Page} {W : Text} {win : Window}
    (h : ChainOk sha256 pages W win) (hkeys : KeysOk sha256 pages)
    (hcount : pages'.count (fun row => decide (row.window = W) && row.visited) =
      pages.count fun row => decide (row.window = W) && row.visited)
    (hkeep : ∀ key row, pages.get key = some row → row.window = W →
      ∃ row', pages'.get key = some row' ∧ row'.page = row.page ∧ row'.visited = row.visited)
    (hback : ∀ key row', pages'.get key = some row' → row'.window = W →
      ∃ row, pages.get key = some row ∧ row.window = W ∧ row'.visited = row.visited) :
    ChainOk sha256 pages' W win := by
  rcases h.chain with ⟨tokens, hwalk, hnodup, hall, hend⟩
  refine ⟨hcount.trans h.visits, tokens, ?_, hnodup, ?_, hend⟩
  · clear hall hnodup hend
    generalize win.next = next at hwalk
    induction hwalk with
    | nil => exact .nil
    | snoc _ hget hin hvisited ih =>
        rcases hkeep _ _ hget (runtimePageID_inj (hkeys _ _ hget).symm) with
          ⟨row', hget', hpage, hsame⟩
        rw [← hpage]
        exact .snoc ih hget' (by rw [hpage, hin]) (hsame.trans hvisited)
  · intro key row' hget hW hv
    rcases hback key row' hget hW with ⟨row, hrow, hrW, hsame⟩
    exact hall key row hrow hrW (hsame ▸ hv)

theorem ChainOk.sameRows {pages pages' : OrderedMap Text Page} {W : Text} {win : Window}
    (h : ChainOk sha256 pages W win) (hkeys : KeysOk sha256 pages)
    (hrows : SameRows W pages pages') : ChainOk sha256 pages' W win := by
  refine h.frame hkeys (OrderedMap.count_congr fun key row hrow => ?_) ?_ ?_
  · rw [Bool.and_eq_true, decide_eq_true_eq] at hrow
    exact hrows key row hrow.1
  · intro key row hget hW
    exact ⟨row, (hrows key row hW).mpr hget, rfl, rfl⟩
  · intro key row hget hW
    exact ⟨row, (hrows key row hW).mp hget, hW, rfl⟩

/-- What happens to other windows' rows does not matter to a window. -/
theorem WindowOk.frame {parents parents' : OrderedMap Text Parent}
    {pages pages' : OrderedMap Text Page} {W : Text} {win : Window}
    (h : WindowOk sha256 parents pages W win) (hkeys : KeysOk sha256 pages)
    (hparents : SameParents W parents parents') (hrows : SameRows W pages pages') :
    WindowOk sha256 parents' pages' W win where
  count := by
    rw [← h.count]
    exact OrderedMap.count_congr fun id p hp => hparents id p (decide_eq_true_eq.mp hp)
  done := by
    rw [← h.done]
    refine OrderedMap.count_congr fun id p hp => hparents id p ?_
    rw [Bool.and_eq_true, decide_eq_true_eq] at hp
    exact hp.1
  valid hvalid := by
    have hw := h.valid hvalid
    refine ⟨?_, ?_, hw.walk.sameRows hkeys hrows⟩
    · rw [← hw.rows]
      exact OrderedMap.count_congr fun key row hrow => hrows key row (decide_eq_true_eq.mp hrow)
    · intro id p hp hpW
      rcases hw.own id p ((hparents id p hpW).mp hp) hpW with ⟨row, hrow, hcap, hrW⟩
      exact ⟨row, (hrows _ row hrW).mpr hrow, hcap, hrW⟩

/-- A parent replaced by one of the same window, page and capture. -/
theorem WindowOk.setParent {parents : OrderedMap Text Parent} {pages : OrderedMap Text Page}
    {W id : Text} {win : Window} {p p' : Parent} (h : WindowOk sha256 parents pages W win)
    (hp : parents.get id = some p) (hcap : p'.capture = p.capture) (hwin : p'.window = p.window)
    (hkey : p'.pageKey = p.pageKey) (done : Nat)
    (hdone : done + (decide (p.window = W) && p.complete).toNat =
      win.childrenDone + (decide (p.window = W) && p'.complete).toNat) :
    WindowOk sha256 (parents.set id p') pages W { win with childrenDone := done } where
  count := by
    rw [← h.count]
    exact OrderedMap.count_set_same hp (by rw [hwin])
  done := by
    have hcount := OrderedMap.count_set_old hp p' fun q => decide (q.window = W) && q.complete
    rw [h.done, hwin] at hcount
    show (parents.set id p').count _ = done
    omega
  valid hvalid := by
    have hw := h.valid hvalid
    refine ⟨hw.rows, ?_, ⟨hw.walk.visits, hw.walk.chain⟩⟩
    intro id' q hq hqW
    rw [OrderedMap.get_set] at hq
    split_ifs at hq with hid
    · cases hq
      rw [hkey, hcap]
      exact hw.own id p hp (hwin ▸ hqW)
    · exact hw.own id' q hq hqW

/-- A page row whose child is marked done. -/
theorem WindowOk.setPage {parents : OrderedMap Text Parent} {pages : OrderedMap Text Page}
    {W key : Text} {win : Window} {row : Page} (h : WindowOk sha256 parents pages W win)
    (hkeys : KeysOk sha256 pages) (hget : pages.get key = some row) (done : Bool) :
    WindowOk sha256 parents (pages.set key { row with childDone := done }) W win where
  count := h.count
  done := h.done
  valid hvalid := by
    have hw := h.valid hvalid
    have hkeep : ∀ key' r, pages.get key' = some r → ∃ r', (pages.set key
        { row with childDone := done }).get key' = some r' ∧ r'.capture = r.capture ∧
        r'.page = r.page ∧ r'.visited = r.visited := by
      intro key' r hr
      rw [OrderedMap.get_set]
      split_ifs with hk
      · rw [hk, hget] at hr
        cases hr
        exact ⟨_, rfl, rfl, rfl, rfl⟩
      · exact ⟨r, hr, rfl, rfl, rfl⟩
    refine ⟨?_, ?_, hw.walk.frame hkeys ?_ ?_ ?_⟩
    · rw [← hw.rows]
      exact OrderedMap.count_set_same hget rfl
    · intro id p hp hpW
      rcases hw.own id p hp hpW with ⟨r, hr, hcap, hrW⟩
      rcases hkeep _ r hr with ⟨r', hr', hcap', -, -⟩
      refine ⟨r', hr', hcap'.trans hcap, ?_⟩
      rw [Page.window, hcap']
      exact hrW
    · exact OrderedMap.count_set_same hget rfl
    · intro key' r hr _
      rcases hkeep key' r hr with ⟨r', hr', -, hpage, hv⟩
      exact ⟨r', hr', hpage, hv⟩
    · intro key' r' hr' hrW
      rw [OrderedMap.get_set] at hr'
      split_ifs at hr' with hk
      · cases hr'
        exact ⟨row, hk ▸ hget, hrW, rfl⟩
      · exact ⟨r', hr', hrW, rfl⟩

end MarketInfo.Keeper
