import MarketInfo.Keeper.Keys

/-! # What holds of the work

The retry order lists the pending parents; every page row belongs to one parent
of its window; and as long as a window is not marked invalid, its visited pages
are a chain of continuation tokens that starts at the empty one.
-/

namespace MarketInfo.Keeper

open Json (Text)

/-- The window of a page row. -/
def Page.window (row : Page) : Text := runtimeWindowID row.capture

/-- Walking from the empty token over visited pages of window `W`, through
`tokens`, up to the token `next`. -/
inductive Walked (sha256 : Text → Vector UInt8 32) (pages : OrderedMap Text Page) (W : Text) :
    List Text → Text → Prop
  | nil : Walked sha256 pages W [] []
  | snoc {tokens : List Text} {t : Text} {row : Page} : Walked sha256 pages W tokens t →
      pages.get (runtimePageID sha256 W t) = some row → row.page.fingerprintIn = t →
      row.visited = true → Walked sha256 pages W (tokens ++ [t]) row.page.fingerprintOut

/-- The walk of a window: its visited pages are exactly those of one chain. -/
structure ChainOk (sha256 : Text → Vector UInt8 32) (pages : OrderedMap Text Page) (W : Text)
    (win : Window) : Prop where
  visits : pages.count (fun row => decide (row.window = W) && row.visited) = win.visited
  chain : ∃ tokens, Walked sha256 pages W tokens win.next ∧ tokens.Nodup ∧
    (∀ key row, pages.get key = some row → row.window = W → row.visited = true →
      ∃ t ∈ tokens, key = runtimePageID sha256 W t) ∧
    (win.ended = true → win.next = [] ∧ tokens ≠ [])

/-- A window that is not marked invalid: every parent owns its page row. -/
structure ValidWindow (sha256 : Text → Vector UInt8 32) (parents : OrderedMap Text Parent)
    (pages : OrderedMap Text Page) (W : Text) (win : Window) : Prop where
  rows : pages.count (fun row => decide (row.window = W)) = win.count
  own : ∀ id p, parents.get id = some p → p.window = W →
    ∃ row, pages.get p.pageKey = some row ∧ row.capture = p.capture ∧ row.window = W
  walk : ChainOk sha256 pages W win

structure WindowOk (sha256 : Text → Vector UInt8 32) (parents : OrderedMap Text Parent)
    (pages : OrderedMap Text Page) (W : Text) (win : Window) : Prop where
  count : parents.count (fun p => decide (p.window = W)) = win.count
  done : parents.count (fun p => decide (p.window = W) && p.complete) = win.childrenDone
  valid : win.invalid = false → ValidWindow sha256 parents pages W win

/-- A page row and the parent that brought it. -/
def PageOk (sha256 : Text → Vector UInt8 32) (parents : OrderedMap Text Parent) (key : Text)
    (row : Page) : Prop :=
  key = runtimePageID sha256 row.window row.page.fingerprintIn ∧ row.window ≠ [] ∧
    ∃ p, parents.get (runtimeParentID row.capture) = some p ∧ p.pageKey = key ∧
      p.capture = row.capture ∧ p.window = row.window ∧ row.childDone = p.complete

/-- A parent of a window has that window's row and a page row. -/
def ParentOk (windows : OrderedMap Text Window) (pages : OrderedMap Text Page) (p : Parent) :
    Prop :=
  p.window ≠ [] → p.window = runtimeWindowID p.capture ∧
    (∃ win, windows.get p.window = some win) ∧
    ∃ row, pages.get p.pageKey = some row ∧ row.window = p.window

/-- The retry order lists exactly the pending parents, each under its key. -/
structure OrderOk (parents : OrderedMap Text Parent) (order : OrderedMap Text Text) : Prop where
  ids : ∀ id p, parents.get id = some p → id = runtimeParentID p.capture
  order : ∀ key id, order.get key = some id ↔
    ∃ p, parents.get id = some p ∧ p.pending = true ∧ key = runtimeParentOrder p.capture

structure Inv (sha256 : Text → Vector UInt8 32) (w : Work) : Prop where
  order : OrderOk w.parents w.order
  parents : ∀ id p, w.parents.get id = some p → ParentOk w.windows w.pages p
  pages : ∀ key row, w.pages.get key = some row → PageOk sha256 w.parents key row
  windows : ∀ W win, w.windows.get W = some win →
    W ≠ [] ∧ WindowOk sha256 w.parents w.pages W win

theorem inv_empty (sha256 : Text → Vector UInt8 32) : Inv sha256 Work.empty where
  order := { ids := fun _ _ h => by simp [Work.empty] at h
             order := fun _ _ => by simp [Work.empty] }
  parents _ _ h := by simp [Work.empty] at h
  pages _ _ h := by simp [Work.empty] at h
  windows _ _ h := by simp [Work.empty] at h

/-! ## The retry order -/

section order

variable {parents : OrderedMap Text Parent} {order : OrderedMap Text Text}

/-- Two parents under one retry key are the same row. -/
theorem OrderOk.id_unique (h : OrderOk parents order) {id id' : Text} {p q : Parent}
    (hp : parents.get id = some p) (hq : parents.get id' = some q)
    (hkey : runtimeParentOrder p.capture = runtimeParentOrder q.capture) : id = id' := by
  rw [h.ids id p hp, h.ids id' q hq, runtimeParentID, runtimeParentID,
    runtimeParentOrder_inj hkey]

/-- A new pending parent enters the order under its key. -/
theorem OrderOk.add (h : OrderOk parents order) {p : Parent} (hp : p.pending = true)
    (hnew : parents.get (runtimeParentID p.capture) = none) :
    OrderOk (parents.set (runtimeParentID p.capture) p)
      (order.set (runtimeParentOrder p.capture) (runtimeParentID p.capture)) where
  ids id q hq := by
    rw [OrderedMap.get_set] at hq
    split_ifs at hq with hid
    · rw [hid, ← Option.some.inj hq]
    · exact h.ids id q hq
  order key id := by
    rw [OrderedMap.get_set, OrderedMap.get_set]
    constructor
    · intro hget
      split_ifs at hget with hkey
      · rw [if_pos (Option.some.inj hget).symm]
        exact ⟨p, rfl, hp, hkey⟩
      · rcases (h.order key id).mp hget with ⟨q, hq, hpend, hqkey⟩
        have hid : id ≠ runtimeParentID p.capture := by
          intro hid
          rw [hid, hnew] at hq
          cases hq
        exact ⟨q, by rw [if_neg hid, hq], hpend, hqkey⟩
    · intro hrow
      rcases hrow with ⟨q, hq, hpend, hqkey⟩
      split_ifs at hq with hid
      · cases hq
        rw [if_pos hqkey, hid]
      · have hkey : key ≠ runtimeParentOrder p.capture := by
          intro hkey
          have hcap := runtimeParentOrder_inj (hkey.symm.trans hqkey)
          exact hid (by rw [h.ids id q hq, runtimeParentID, runtimeParentID, hcap])
        rw [if_neg hkey]
        exact (h.order key id).mpr ⟨q, hq, hpend, hqkey⟩

/-- A parent that stays pending keeps its place. -/
theorem OrderOk.keep (h : OrderOk parents order) {id : Text} {p p' : Parent}
    (hp : parents.get id = some p) (hcap : p'.capture = p.capture) (hpend : p.pending = true)
    (hpend' : p'.pending = true) : OrderOk (parents.set id p') order where
  ids id' q hq := by
    rw [OrderedMap.get_set] at hq
    split_ifs at hq with hid
    · rw [hid, ← Option.some.inj hq, hcap]
      exact h.ids id p hp
    · exact h.ids id' q hq
  order key id' := by
    rw [h.order, OrderedMap.get_set]
    by_cases hid : id' = id
    · rw [if_pos hid, hid]
      constructor
      · intro hrow
        rcases hrow with ⟨q, hq, -, hkey⟩
        rw [hp] at hq
        cases hq
        exact ⟨p', rfl, hpend', hcap ▸ hkey⟩
      · intro hrow
        rcases hrow with ⟨q, hq, -, hkey⟩
        cases hq
        exact ⟨p, hp, hpend, hcap ▸ hkey⟩
    · rw [if_neg hid]

/-- A parent whose retries are over leaves the order, whether its row stays or not. -/
theorem OrderOk.drop (h : OrderOk parents order) {id : Text} {p : Parent}
    (hp : parents.get id = some p) {parents' : OrderedMap Text Parent}
    (hother : ∀ id', id' ≠ id → parents'.get id' = parents.get id')
    (hself : ∀ q, parents'.get id = some q → q.capture = p.capture ∧ q.pending = false) :
    OrderOk parents' (order.delete (runtimeParentOrder p.capture)) where
  ids id' q hq := by
    by_cases hid : id' = id
    · rw [hid] at hq ⊢
      rw [(hself q hq).1]
      exact h.ids id p hp
    · rw [hother id' hid] at hq
      exact h.ids id' q hq
  order key id' := by
    rw [OrderedMap.get_delete]
    constructor
    · intro hget
      split_ifs at hget with hkey
      rcases (h.order key id').mp hget with ⟨q, hq, hpend, hqkey⟩
      have hid : id' ≠ id := by
        intro hid
        rw [hid, hp] at hq
        cases hq
        exact hkey hqkey
      exact ⟨q, by rw [hother id' hid, hq], hpend, hqkey⟩
    · intro hrow
      rcases hrow with ⟨q, hq, hpend, hqkey⟩
      have hid : id' ≠ id := by
        intro hid
        rw [hid] at hq
        rw [(hself q hq).2] at hpend
        cases hpend
      rw [hother id' hid] at hq
      have hkey : key ≠ runtimeParentOrder p.capture := fun hkey =>
        hid (h.id_unique hq hp (hqkey.symm.trans hkey))
      rw [if_neg hkey]
      exact (h.order key id').mpr ⟨q, hq, hpend, hqkey⟩

/-- Rows that were not pending can go without a change to the order. -/
theorem OrderOk.deleteAll (h : OrderOk parents order) {ids : List Text}
    (hids : ∀ id ∈ ids, ∀ p, parents.get id = some p → p.pending = false) :
    OrderOk (parents.deleteAll ids) order where
  ids id p hp := by
    rw [OrderedMap.get_deleteAll] at hp
    split_ifs at hp
    exact h.ids id p hp
  order key id := by
    rw [h.order, OrderedMap.get_deleteAll]
    by_cases hid : id ∈ ids
    · rw [if_pos hid]
      constructor
      · intro hrow
        rcases hrow with ⟨q, hq, hpend, -⟩
        rw [hids id hid q hq] at hpend
        cases hpend
      · intro hrow
        rcases hrow with ⟨q, hq, -⟩
        cases hq
    · rw [if_neg hid]

end order

/-! ## Walking changes only marks of its own window -/

/-- What a walk of window `W` may do to the page rows. -/
structure Marks (W : Text) (pages pages' : OrderedMap Text Page) : Prop where
  rows : ∀ key row', pages'.get key = some row' → ∃ row, pages.get key = some row ∧
    row'.capture = row.capture ∧ row'.page = row.page ∧ row'.childDone = row.childDone
  keeps : ∀ key row, pages.get key = some row → ∃ row', pages'.get key = some row' ∧
    row'.capture = row.capture ∧ row'.page = row.page ∧ row'.childDone = row.childDone
  other : ∀ key row, pages.get key = some row → row.window ≠ W ∨ row.visited = true →
    pages'.get key = some row
  count : ∀ W', pages'.count (fun row => decide (row.window = W')) =
    pages.count fun row => decide (row.window = W')
  visits : ∀ W', W' ≠ W → pages'.count (fun row => decide (row.window = W') && row.visited) =
    pages.count fun row => decide (row.window = W') && row.visited

theorem Marks.refl (W : Text) (pages : OrderedMap Text Page) : Marks W pages pages where
  rows _ row h := ⟨row, h, rfl, rfl, rfl⟩
  keeps _ row h := ⟨row, h, rfl, rfl, rfl⟩
  other _ _ h _ := h
  count _ := rfl
  visits _ _ := rfl

theorem Marks.trans {W : Text} {a b c : OrderedMap Text Page} (hab : Marks W a b)
    (hbc : Marks W b c) : Marks W a c where
  rows key row'' h := by
    rcases hbc.rows key row'' h with ⟨row', hrow', h1, h2, h3⟩
    rcases hab.rows key row' hrow' with ⟨row, hrow, g1, g2, g3⟩
    exact ⟨row, hrow, h1.trans g1, h2.trans g2, h3.trans g3⟩
  keeps key row h := by
    rcases hab.keeps key row h with ⟨row', hrow', h1, h2, h3⟩
    rcases hbc.keeps key row' hrow' with ⟨row'', hrow'', g1, g2, g3⟩
    exact ⟨row'', hrow'', g1.trans h1, g2.trans h2, g3.trans h3⟩
  other key row h hcase := hbc.other key row (hab.other key row h hcase) hcase
  count W' := (hbc.count W').trans (hab.count W')
  visits W' hne := (hbc.visits W' hne).trans (hab.visits W' hne)

/-- Marking one unvisited page of the window. -/
theorem Marks.visit {W key : Text} {pages : OrderedMap Text Page} {row : Page}
    (hget : pages.get key = some row) (hW : row.window = W) (hnew : row.visited = false) :
    Marks W pages (pages.set key { row with visited := true }) where
  rows key' row' h := by
    rw [OrderedMap.get_set] at h
    split_ifs at h with hkey
    · cases h
      exact ⟨row, hkey ▸ hget, rfl, rfl, rfl⟩
    · exact ⟨row', h, rfl, rfl, rfl⟩
  keeps key' row' h := by
    rw [OrderedMap.get_set]
    by_cases hkey : key' = key
    · rw [if_pos hkey]
      rw [hkey, hget] at h
      cases h
      exact ⟨_, rfl, rfl, rfl, rfl⟩
    · rw [if_neg hkey]
      exact ⟨row', h, rfl, rfl, rfl⟩
  other key' row' h hcase := by
    have hkey : key' ≠ key := by
      intro hkey
      rw [hkey, hget] at h
      cases h
      rcases hcase with hcase | hcase
      · exact hcase hW
      · rw [hnew] at hcase
        cases hcase
    rw [OrderedMap.get_set_ne _ _ hkey, h]
  count W' := OrderedMap.count_set_same hget rfl
  visits W' hne := by
    have hW' : ¬ row.window = W' := fun h => hne (h.symm.trans hW)
    have hW'' : ¬ { row with visited := true }.window = W' := hW'
    refine OrderedMap.count_set_same hget ?_
    rw [decide_eq_false hW', decide_eq_false hW'']
    rfl

theorem Walked.mono {sha256 : Text → Vector UInt8 32} {pages pages' : OrderedMap Text Page}
    {W next : Text} {tokens : List Text} (h : Walked sha256 pages W tokens next)
    (hkeep : ∀ key row, pages.get key = some row → row.visited = true →
      ∃ row', pages'.get key = some row' ∧ row'.page = row.page ∧ row'.visited = true) :
    Walked sha256 pages' W tokens next := by
  induction h with
  | nil => exact .nil
  | snoc _ hget hin hvisited ih =>
      rcases hkeep _ _ hget hvisited with ⟨row', hget', hpage, hvisited'⟩
      rw [← hpage]
      exact .snoc ih hget' (by rw [hpage, hin]) hvisited'

/-- Every token of a chain is a visited page of its window. -/
theorem Walked.row {sha256 : Text → Vector UInt8 32} {pages : OrderedMap Text Page}
    {W next : Text} {tokens : List Text} (h : Walked sha256 pages W tokens next) :
    ∀ t ∈ tokens, ∃ row, pages.get (runtimePageID sha256 W t) = some row ∧
      row.page.fingerprintIn = t ∧ row.visited = true := by
  induction h with
  | nil => intro t ht; cases ht
  | snoc _ hget hin hvisited ih =>
      intro t ht
      rcases List.mem_append.mp ht with ht | ht
      · exact ih t ht
      · rw [List.mem_singleton.mp ht]
        exact ⟨_, hget, hin, hvisited⟩

end MarketInfo.Keeper
