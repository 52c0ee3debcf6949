import MarketInfo.Keeper.Windows

/-! # Every call keeps the invariant

A new page enters with its parent, its window and its place in the retry order;
a child changes one parent and its page; retiring takes one window's rows away.
-/

namespace MarketInfo.Keeper

open Json (Text)

variable {sha256 : Text → Vector UInt8 32} {factBytes : Capture → Option (List UInt8)}

theorem Inv.keysOk {w : Work} (h : Inv sha256 w) : KeysOk sha256 w.pages :=
  fun key row hrow => (h.pages key row hrow).1

/-- Pages of a window that has no row: there are none, nor parents. -/
theorem Inv.no_window {w : Work} (h : Inv sha256 w) {W : Text} (hW : W ≠ [])
    (hnone : w.windows.get W = none) :
    (∀ id p, w.parents.get id = some p → p.window ≠ W) ∧
      ∀ key row, w.pages.get key = some row → row.window ≠ W := by
  have hparents : ∀ id p, w.parents.get id = some p → p.window ≠ W := by
    intro id p hp hpW
    subst hpW
    rcases h.parents id p hp hW with ⟨-, ⟨win, hwin⟩, -⟩
    rw [hnone] at hwin
    cases hwin
  refine ⟨hparents, fun key row hrow hrW => ?_⟩
  rcases h.pages key row hrow with ⟨-, -, p, hp, -, -, hpW, -⟩
  exact hparents _ p hp (hpW.trans hrW)

/-! ## A new parent -/

theorem runtimeWindowID_ne {cap : Capture} {fromTime toTime : Time}
    (hfrom : cap.requestedFrom = some fromTime) (hto : cap.requestedTo = some toTime) :
    runtimeWindowID cap ≠ [] := by
  simp [runtimeWindowID, hfrom, hto]

/-- The window a new page finds, before it is counted. -/
theorem Inv.windowOf {w : Work} (h : Inv sha256 w) (cap : Capture) (page : IndexPage)
    (fromTime toTime : Time) (hne : runtimeWindowID cap ≠ []) :
    WindowOk sha256 w.parents w.pages (runtimeWindowID cap)
      (w.windowOf cap page fromTime toTime) := by
  have hstart : WindowOk sha256 w.parents w.pages (runtimeWindowID cap)
      ((w.windows.get (runtimeWindowID cap)).getD
        ⟨cap.eventKind, fromTime, toTime, page.scanID, 0, 0, 0, [], false, false⟩) := by
    cases hget : w.windows.get (runtimeWindowID cap) with
    | some win => exact (h.windows _ win hget).2
    | none =>
        rcases h.no_window hne hget with ⟨hparents, hpages⟩
        refine ⟨?_, ?_, fun _ => ⟨?_, fun id p hp hpW => absurd hpW (hparents id p hp), ?_, ?_⟩⟩
        · exact OrderedMap.count_eq_zero fun id p hp => decide_eq_false (hparents id p hp)
        · refine OrderedMap.count_eq_zero fun id p hp => ?_
          rw [decide_eq_false (hparents id p hp), Bool.false_and]
        · exact OrderedMap.count_eq_zero fun key row hrow => decide_eq_false (hpages key row hrow)
        · refine OrderedMap.count_eq_zero fun key row hrow => ?_
          rw [decide_eq_false (hpages key row hrow), Bool.false_and]
        · exact ⟨[], .nil, List.nodup_nil, fun key row hrow hrW => absurd hrW (hpages key row hrow),
            fun hended => by cases hended⟩
  unfold Work.windowOf
  simp only
  split_ifs
  · exact ⟨hstart.count, hstart.done, fun hvalid => by cases hvalid⟩
  · exact hstart

/-- A new page row: the page map grows, or the window is marked invalid. -/
theorem recordPage_cases {w : Work} (h : Inv sha256 w) {cap : Capture} {page : IndexPage}
    {key : Text} {win : Window} {out : OrderedMap Text Page × Window}
    (hnew : w.parents.get (runtimeParentID cap) = none)
    (hrecord : w.recordPage factBytes cap page key win = .ok out) :
    (w.pages.get key = none ∧ out = (w.pages.set key ⟨cap, page, false, false⟩, win)) ∨
      ((∃ row, w.pages.get key = some row) ∧ out = (w.pages, { win with invalid := true })) := by
  unfold Work.recordPage at hrecord
  cases hget : w.pages.get key with
  | none =>
      rw [hget] at hrecord
      exact .inl ⟨rfl, (Except.ok.inj hrecord).symm⟩
  | some previous =>
      rw [hget] at hrecord
      simp only at hrecord
      split_ifs at hrecord with hdistinct
      · exact .inr ⟨⟨previous, rfl⟩, (Except.ok.inj hrecord).symm⟩
      · -- A row of the same capture has a parent, and this capture has none.
        rcases h.pages key previous hget with ⟨-, -, p, hp, -⟩
        rw [runtimeParentID, not_not.mp hdistinct] at hp
        rw [runtimeParentID, hp] at hnew
        cases hnew

/-- The page map a new parent starts its walk on. -/
theorem newPage_window {w : Work} {cap : Capture} {page : IndexPage} {win : Window} (p : Parent)
    (hnew : w.parents.get (runtimeParentID cap) = none)
    (hfree : w.pages.get (runtimePageID sha256 (runtimeWindowID cap) page.fingerprintIn) = none)
    (hp : p = ⟨cap, 0, Time.zero, [], false, runtimeWindowID cap,
      runtimePageID sha256 (runtimeWindowID cap) page.fingerprintIn⟩)
    (hwin : WindowOk sha256 w.parents w.pages (runtimeWindowID cap) win) :
    WindowOk sha256 (w.parents.set (runtimeParentID cap) p)
      (w.pages.set (runtimePageID sha256 (runtimeWindowID cap) page.fingerprintIn)
        ⟨cap, page, false, false⟩) (runtimeWindowID cap) { win with count := win.count + 1 } := by
  have hpW : p.window = runtimeWindowID cap := by rw [hp]
  have hpdone : p.complete = false := by rw [hp]
  have hrowW : ({ capture := cap, page := page, visited := false, childDone := false } : Page).window
      = runtimeWindowID cap := rfl
  have hkeep : ∀ key row, w.pages.get key = some row →
      (w.pages.set (runtimePageID sha256 (runtimeWindowID cap) page.fingerprintIn)
        ⟨cap, page, false, false⟩).get key = some row := by
    intro key row hrow
    rw [OrderedMap.get_set_ne _ _ ?_, hrow]
    intro hkey
    rw [hkey, hfree] at hrow
    cases hrow
  refine ⟨?_, ?_, fun hvalid => ?_⟩
  · rw [OrderedMap.count_set_new hnew, hwin.count, hpW, decide_eq_true rfl]
    rfl
  · rw [OrderedMap.count_set_new hnew, hwin.done, hpdone, Bool.and_false]
    rfl
  · have hv := hwin.valid hvalid
    refine ⟨?_, ?_, ⟨?_, ?_⟩⟩
    · rw [OrderedMap.count_set_new hfree, hv.rows, hrowW, decide_eq_true rfl]
      rfl
    · intro id q hq hqW
      rw [OrderedMap.get_set] at hq
      split_ifs at hq with hid
      · cases hq
        rw [hp]
        exact ⟨_, OrderedMap.get_set_self _ _ _, rfl, rfl⟩
      · rcases hv.own id q hq hqW with ⟨row, hrow, hcap, hrW⟩
        exact ⟨row, hkeep _ row hrow, hcap, hrW⟩
    · rw [OrderedMap.count_set_new hfree, hv.walk.visits, Bool.and_false]
      rfl
    · rcases hv.walk.chain with ⟨tokens, hwalk, hnodup, hall, hend⟩
      refine ⟨tokens, ?_, hnodup, ?_, hend⟩
      · exact hwalk.mono fun key row hrow hvis => ⟨row, hkeep key row hrow, rfl, hvis⟩
      · intro key row hrow hrW hvis
        rw [OrderedMap.get_set] at hrow
        split_ifs at hrow with hkey
        · cases hrow
          cases hvis
        · exact hall key row hrow hrW hvis

/-- What recording a page leaves for the walk. -/
structure Recorded (sha256 : Text → Vector UInt8 32) (w : Work) (cap : Capture) (page : IndexPage)
    (p : Parent) (pages : OrderedMap Text Page) (win : Window) : Prop where
  back : ∀ key row, pages.get key = some row → w.pages.get key = some row ∨
    (key = p.pageKey ∧ row = ⟨cap, page, false, false⟩)
  keep : ∀ key row, w.pages.get key = some row → pages.get key = some row
  own : ∃ row, pages.get p.pageKey = some row
  window : WindowOk sha256 (w.parents.set (runtimeParentID cap) p) pages (runtimeWindowID cap)
    { win with count := win.count + 1 }

theorem recordPage_recorded {w : Work} (h : Inv sha256 w) {cap : Capture} {page : IndexPage}
    {win : Window} {p : Parent} {out : OrderedMap Text Page × Window}
    (hnew : w.parents.get (runtimeParentID cap) = none)
    (hp : p = ⟨cap, 0, Time.zero, [], false, runtimeWindowID cap,
      runtimePageID sha256 (runtimeWindowID cap) page.fingerprintIn⟩)
    (hwin : WindowOk sha256 w.parents w.pages (runtimeWindowID cap) win)
    (hrecord : w.recordPage factBytes cap page p.pageKey win = .ok out) :
    Recorded sha256 w cap page p out.1 out.2 := by
  have hkey : p.pageKey = runtimePageID sha256 (runtimeWindowID cap) page.fingerprintIn := by rw [hp]
  rcases recordPage_cases h hnew hrecord with ⟨hfree, rfl⟩ | ⟨hrow, rfl⟩
  · refine ⟨?_, ?_, ⟨_, OrderedMap.get_set_self _ _ _⟩, ?_⟩
    · intro key row hget
      rw [OrderedMap.get_set] at hget
      split_ifs at hget with hk
      · exact .inr ⟨hk, (Option.some.inj hget).symm⟩
      · exact .inl hget
    · intro key row hget
      rw [OrderedMap.get_set_ne _ _ ?_, hget]
      intro hk
      rw [hk, hfree] at hget
      cases hget
    · rw [hkey] at hfree ⊢
      exact newPage_window p hnew hfree hp hwin
  · refine ⟨fun key row hget => .inl hget, fun key row hget => hget, hrow, ?_, ?_, ?_⟩
    · rw [OrderedMap.count_set_new hnew, hwin.count, hp, decide_eq_true rfl]
      rfl
    · rw [OrderedMap.count_set_new hnew, hwin.done, hp, Bool.and_false]
      rfl
    · intro hvalid
      cases hvalid

/-- The walked window. -/
theorem WindowOk.walked {parents : OrderedMap Text Parent} {pages : OrderedMap Text Page}
    {W : Text} {win : Window} {out : OrderedMap Text Page × Window}
    (h : WindowOk sha256 parents pages W win) (hspec : WalkSpec sha256 W pages win out) :
    WindowOk sha256 parents out.1 W out.2 where
  count := h.count.trans hspec.count.symm
  done := h.done.trans hspec.childrenDone.symm
  valid hvalid := by
    rcases hspec.valid hvalid with ⟨hbefore, hchain⟩
    have hv := h.valid hbefore
    refine ⟨(hspec.marks.count W).trans (hv.rows.trans hspec.count.symm), ?_, hchain hv.walk⟩
    intro id p hp hpW
    rcases hv.own id p hp hpW with ⟨row, hrow, hcap, hrW⟩
    rcases hspec.marks.keeps _ row hrow with ⟨row', hrow', hcap', -, -⟩
    exact ⟨row', hrow', hcap'.trans hcap, by rw [Page.window, hcap']; exact hrW⟩

/-- A walk does not touch the rows of other windows. -/
theorem Marks.sameRows {W W' : Text} {pages pages' : OrderedMap Text Page}
    (h : Marks W pages pages') (hne : W' ≠ W) : SameRows W' pages pages' := by
  intro key row hrW
  have hother : row.window ≠ W := fun heq => hne (hrW.symm.trans heq)
  constructor
  · intro hget
    rcases h.rows key row hget with ⟨row₀, hrow₀, hcap, -, -⟩
    have hother₀ : row₀.window ≠ W := by
      rw [Page.window, ← hcap]
      exact hother
    rw [h.other key row₀ hrow₀ (.inl hother₀)] at hget
    rw [hrow₀, hget]
  · intro hget
    exact h.other key row hget (.inl hother)

theorem Inv.parentPage {w w' : Work} (h : Inv sha256 w) {cap : Capture} {page : IndexPage}
    {fromTime toTime : Time} (hnew : w.parents.get (runtimeParentID cap) = none)
    (hne : runtimeWindowID cap ≠ [])
    (hok : w.parentPage sha256 factBytes cap page fromTime toTime = .ok w') : Inv sha256 w' := by
  unfold Work.parentPage at hok
  rw [Check.seq_eq_ok] at hok
  rcases Check.andThen_eq_ok.mp hok.2 with ⟨out, hrecord, hrest⟩
  cases Except.ok.inj hrest
  clear hok hrest
  generalize hp : (⟨cap, 0, Time.zero, [], false, runtimeWindowID cap,
    runtimePageID sha256 (runtimeWindowID cap) page.fingerprintIn⟩ : Parent) = p
  have hcap : p.capture = cap := by rw [← hp]
  have hpW : p.window = runtimeWindowID cap := by rw [← hp]
  have hkey : p.pageKey = runtimePageID sha256 (runtimeWindowID cap) page.fingerprintIn := by
    rw [← hp]
  rw [← hkey] at hrecord
  have hrec := recordPage_recorded h hnew hp.symm (h.windowOf cap page fromTime toTime hne) hrecord
  have hkeys : KeysOk sha256 out.1 := by
    intro key row hrow
    rcases hrec.back key row hrow with hold | ⟨hk, rfl⟩
    · exact h.keysOk key row hold
    · exact hk.trans hkey
  have hspec := walk_spec (runtimeWindowID cap) out.1
    { out.2 with count := out.2.count + 1 } hkeys
  have hold : ∀ id q, w.parents.get id = some q →
      (w.parents.set (runtimeParentID cap) p).get id = some q := by
    intro id q hq
    rw [OrderedMap.get_set_ne _ _ ?_, hq]
    intro hid
    rw [hid, hnew] at hq
    cases hq
  constructor
  · have hpend : p.pending = true := by rw [← hp]; rfl
    have hadd := h.order.add hpend (by rw [hcap]; exact hnew)
    rw [hcap] at hadd
    exact hadd
  · intro id q hq hqW
    simp only at hq ⊢
    rw [OrderedMap.get_set] at hq
    split_ifs at hq with hid
    · cases hq
      rcases hrec.own with ⟨row, hrow⟩
      rcases hspec.marks.keeps _ row hrow with ⟨row', hrow', hrcap, -, -⟩
      have hrW : row.window = p.window := by
        have hk := hkeys _ row hrow
        rw [hkey] at hk
        rw [hpW]
        exact (runtimePageID_inj hk).symm
      refine ⟨by rw [hcap, hpW], ?_, row', hrow', by rw [Page.window, hrcap]; exact hrW⟩
      rw [hpW, OrderedMap.get_set_self]
      exact ⟨_, rfl⟩
    · rcases h.parents id q hq hqW with ⟨hqid, ⟨win, hwin⟩, row, hrow, hrW⟩
      rcases hspec.marks.keeps _ row (hrec.keep _ row hrow) with ⟨row', hrow', hrcap, -, -⟩
      refine ⟨hqid, ?_, row', hrow', by rw [Page.window, hrcap]; exact hrW⟩
      rw [OrderedMap.get_set]
      split_ifs
      · exact ⟨_, rfl⟩
      · exact ⟨win, hwin⟩
  · intro key row' hrow'
    rcases hspec.marks.rows key row' hrow' with ⟨row, hrow, hrcap, hrpage, hrdone⟩
    have hrowOk : PageOk sha256 (w.parents.set (runtimeParentID cap) p) key row := by
      rcases hrec.back key row hrow with hrow | ⟨hk, rfl⟩
      · rcases h.pages key row hrow with ⟨hk, hrW, q, hq, hrest⟩
        exact ⟨hk, hrW, q, hold _ q hq, hrest⟩
      · refine ⟨hk.trans hkey, hne, p, OrderedMap.get_set_self _ _ _, hk.symm, hcap, hpW, ?_⟩
        rw [← hp]
    rcases hrowOk with ⟨hk, hrW, q, hq, hqkey, hqcap, hqW, hqdone⟩
    have hwindow : row'.window = row.window := by rw [Page.window, Page.window, hrcap]
    refine ⟨by rw [hwindow, hrpage]; exact hk, by rw [hwindow]; exact hrW, q, ?_, hqkey,
      by rw [hrcap]; exact hqcap, by rw [hwindow]; exact hqW, hrdone.trans hqdone⟩
    rw [hrcap]
    exact hq
  · intro W win hwin
    simp only at hwin ⊢
    rw [OrderedMap.get_set] at hwin
    split_ifs at hwin with hW
    · cases hwin
      rw [hW]
      exact ⟨hne, hrec.window.walked hspec⟩
    · rcases h.windows W win hwin with ⟨hWne, hWok⟩
      refine ⟨hWne, hWok.frame h.keysOk ?_ ?_⟩
      · intro id q hqW
        have hqp : q ≠ p := fun heq => hW (by rw [← hqW, heq, hpW])
        rw [OrderedMap.get_set]
        split_ifs with hid
        · rw [hid, hnew]
          simp [Ne.symm hqp]
        · exact Iff.rfl
      · intro key row hrW
        refine Iff.trans (hspec.marks.sameRows hW key row hrW) ?_
        constructor
        · intro hget
          rcases hrec.back key row hget with hget | ⟨-, rfl⟩
          · exact hget
          · exact absurd hrW.symm hW
        · exact hrec.keep key row

/-- A parent outside the frontier. -/
theorem Inv.parentAlone {w : Work} (h : Inv sha256 w) {cap : Capture}
    (hnew : w.parents.get (runtimeParentID cap) = none) : Inv sha256 (w.parentAlone cap) := by
  have hold : ∀ id q, w.parents.get id = some q →
      (w.parents.set (runtimeParentID cap) ⟨cap, 0, Time.zero, [], false, [], []⟩).get id =
        some q := by
    intro id q hq
    rw [OrderedMap.get_set_ne _ _ ?_, hq]
    intro hid
    rw [hid, hnew] at hq
    cases hq
  constructor
  · exact h.order.add (p := ⟨cap, 0, Time.zero, [], false, [], []⟩) rfl hnew
  · intro id q hq hqW
    simp only [Work.parentAlone] at hq ⊢
    rw [OrderedMap.get_set] at hq
    split_ifs at hq with hid
    · cases hq
      exact absurd rfl hqW
    · exact h.parents id q hq hqW
  · intro key row hrow
    rcases h.pages key row hrow with ⟨hk, hrW, q, hq, hrest⟩
    exact ⟨hk, hrW, q, hold _ q hq, hrest⟩
  · intro W win hwin
    rcases h.windows W win hwin with ⟨hWne, hWok⟩
    refine ⟨hWne, hWok.frame h.keysOk ?_ fun key row _ => Iff.rfl⟩
    intro id q hqW
    show (w.parents.set _ _).get id = some q ↔ _
    rw [OrderedMap.get_set]
    split_ifs with hid
    · rw [hid, hnew]
      constructor
      · intro heq
        cases heq
        exact absurd hqW.symm hWne
      · intro heq
        cases heq
    · exact Iff.rfl

theorem Inv.parent {w w' : Work} (h : Inv sha256 w) {cap : Capture} {page : Option IndexPage}
    {evidence : EventKind → Time}
    (hok : w.parent sha256 factBytes cap page evidence = .ok w') : Inv sha256 w' := by
  unfold Work.parent at hok
  split_ifs at hok with hskip
  · cases hok
    exact h
  · cases hget : w.parents.get (runtimeParentID cap) with
    | some old =>
        rw [hget] at hok
        simp only at hok
        split_ifs at hok
        cases hok
        exact h
    | none =>
        rw [hget] at hok
        simp only at hok
        split at hok
        · next fromTime toTime hfrom hto =>
            split_ifs at hok
            · cases page with
              | none => cases hok
              | some page => exact h.parentPage hget (runtimeWindowID_ne hfrom hto) hok
            · cases hok
              exact h.parentAlone hget
        · cases hok
          exact h.parentAlone hget

/-! ## A child -/

@[simp] theorem attempt_capture (p : Parent) (cap : Capture) : (p.attempt cap).capture = p.capture :=
  rfl
@[simp] theorem attempt_window (p : Parent) (cap : Capture) : (p.attempt cap).window = p.window :=
  rfl
@[simp] theorem attempt_pageKey (p : Parent) (cap : Capture) :
    (p.attempt cap).pageKey = p.pageKey := rfl

theorem attempt_complete {p : Parent} (cap : Capture) (h : p.complete = false) :
    (p.attempt cap).complete = decide (cap.status = .complete) := by
  unfold Parent.attempt
  by_cases hs : cap.status = .complete
  · simp [hs]
  · simp [hs, h]

/-- What an accepted child does. -/
theorem child_cases {w w' : Work} {cap : Capture} (h : w.child cap = .ok w') :
    w' = w ∨ ∃ parentId p w₁, cap.committed = true ∧ cap.captureKind = .enrichment ∧
      cap.parentCaptureId = some parentId ∧ w.parents.get parentId.text = some p ∧
      p.complete = false ∧
      (cap.status = .complete ∧ w.finishChild p = .ok w₁ ∨ cap.status ≠ .complete ∧ w₁ = w) ∧
      w' = w₁.settleParent parentId.text (p.attempt cap) := by
  unfold Work.child at h
  by_cases hskip : cap.committed = false ∨ cap.captureKind ≠ .enrichment
  · rw [if_pos hskip] at h
    exact .inl (Except.ok.inj h).symm
  · rw [if_neg hskip] at h
    rw [not_or, Bool.not_eq_false, not_not] at hskip
    cases hparent : cap.parentCaptureId with
    | none =>
        rw [hparent] at h
        exact .inl (Except.ok.inj h).symm
    | some parentId =>
        rw [hparent] at h
        simp only at h
        cases hget : w.parents.get parentId.text with
        | none =>
            rw [hget] at h
            exact .inl (Except.ok.inj h).symm
        | some p =>
            rw [hget] at h
            simp only at h
            by_cases hknown : cap.captureId ∈ p.children ∨ p.complete = true
            · rw [if_pos hknown] at h
              exact .inl (Except.ok.inj h).symm
            · rw [if_neg hknown] at h
              rw [not_or, Bool.not_eq_true] at hknown
              by_cases hstatus : cap.status = .complete
              · rw [if_pos hstatus] at h
                rcases Check.andThen_eq_ok.mp h with ⟨w₁, hfinish, hw'⟩
                exact .inr ⟨parentId, p, w₁, hskip.1, hskip.2, rfl, hget, hknown.2,
                  .inl ⟨hstatus, hfinish⟩, (Except.ok.inj hw').symm⟩
              · rw [if_neg hstatus] at h
                exact .inr ⟨parentId, p, w, hskip.1, hskip.2, rfl, hget, hknown.2,
                  .inr ⟨hstatus, rfl⟩, (Except.ok.inj h).symm⟩

/-- The parent's row after settling: replaced, or dropped when it has no window. -/
theorem settleParent_get (w : Work) (id id' : Text) (p' : Parent) :
    (w.settleParent id p').parents.get id' =
      if id' = id then (if p'.window = [] ∧ p'.pending = false then none else some p')
      else w.parents.get id' := by
  unfold Work.settleParent
  simp only
  split_ifs with h hid hid
  · simp [hid]
  · simp [OrderedMap.get_delete, hid]
  · simp [hid]
  · simp [OrderedMap.get_set, hid]

theorem settleParent_order {w : Work} {id : Text} {p p' : Parent}
    (h : OrderOk w.parents w.order) (hp : w.parents.get id = some p)
    (hcap : p'.capture = p.capture) (hpend : p'.pending = true → p.pending = true) :
    OrderOk (w.settleParent id p').parents (w.settleParent id p').order := by
  by_cases hp' : p'.pending = true
  · have hset := h.keep hp hcap (hpend hp') hp'
    unfold Work.settleParent
    rw [if_pos hp', if_neg (by simp [hp'])]
    exact hset
  · have horder : (w.settleParent id p').order = w.order.delete (runtimeParentOrder p.capture) := by
      unfold Work.settleParent
      rw [if_neg hp', hcap]
    rw [horder]
    refine h.drop hp (fun id' hid => ?_) fun q hq => ?_
    · rw [settleParent_get, if_neg hid]
    · rw [settleParent_get, if_pos rfl] at hq
      split_ifs at hq
      cases hq
      exact ⟨hcap, by simpa using hp'⟩

/-- A window sees its parents settle. -/
theorem WindowOk.settle {w : Work} {pages : OrderedMap Text Page} {W id : Text} {win : Window}
    {p p' : Parent} (hW : W ≠ []) (h : WindowOk sha256 w.parents pages W win)
    (hp : w.parents.get id = some p) (hcap : p'.capture = p.capture) (hwin : p'.window = p.window)
    (hkey : p'.pageKey = p.pageKey) (hkeys : KeysOk sha256 pages) (done : Nat)
    (hdone : done + (decide (p.window = W) && p.complete).toNat =
      win.childrenDone + (decide (p.window = W) && p'.complete).toNat) :
    WindowOk sha256 (w.settleParent id p').parents pages W { win with childrenDone := done } := by
  by_cases hpW : p.window = []
  · -- A parent without a window is none of this one's.
    have hne : p.window ≠ W := fun heq => hW (heq.symm.trans hpW)
    rw [decide_eq_false hne] at hdone
    have hsame : done = win.childrenDone := by simpa using hdone
    rw [hsame]
    refine h.frame hkeys ?_ fun key row _ => Iff.rfl
    intro id' q hqW
    rw [settleParent_get]
    split_ifs with hid hdrop
    · rw [hid, hp]
      constructor
      · intro heq
        cases heq
      · intro heq
        cases heq
        exact absurd hqW hne
    · rw [hid, hp]
      constructor
      · intro heq
        cases heq
        exact absurd (hwin.symm.trans hqW) hne
      · intro heq
        cases heq
        exact absurd hqW hne
    · exact Iff.rfl
  · have hset := h.setParent hp hcap hwin hkey done hdone
    unfold Work.settleParent
    rw [if_neg (fun hdrop => hpW (hwin ▸ hdrop.1))]
    exact hset

/-- A row whose parent is not settled keeps it, and so does one whose parent keeps
its completion. -/
theorem PageOk.settle {w : Work} {id key : Text} {row : Page} {p p' : Parent}
    (h : PageOk sha256 w.parents key row) (hp : w.parents.get id = some p)
    (hcap : p'.capture = p.capture) (hwin : p'.window = p.window) (hkey : p'.pageKey = p.pageKey)
    (hdone : runtimeParentID row.capture = id → row.childDone = p'.complete) :
    PageOk sha256 (w.settleParent id p').parents key row := by
  rcases h with ⟨hk, hrW, q, hq, hqkey, hqcap, hqW, hqdone⟩
  refine ⟨hk, hrW, ?_⟩
  by_cases hid : runtimeParentID row.capture = id
  · rw [hid, hp] at hq
    cases hq
    refine ⟨p', ?_, hkey.trans hqkey, hcap.trans hqcap, hwin.trans hqW, hdone hid⟩
    rw [hid, settleParent_get, if_pos rfl, if_neg]
    intro hdrop
    exact hrW (by rw [← hqW, ← hwin, hdrop.1])
  · refine ⟨q, ?_, hqkey, hqcap, hqW, hqdone⟩
    rw [settleParent_get, if_neg hid]
    exact hq

theorem pending_of_attempt {p : Parent} {cap : Capture} (h : p.complete = false)
    (hpend : (p.attempt cap).pending = true) : p.pending = true := by
  have hattempts : (p.attempt cap).attempts = p.attempts + 1 := rfl
  simp only [Parent.pending, Bool.and_eq_true, Bool.not_eq_eq_eq_not, Bool.not_true,
    decide_eq_true_eq, hattempts] at hpend ⊢
  exact ⟨h, by omega⟩

/-- The parents of a settled work. -/
theorem ParentOk.settle {w : Work} {windows : OrderedMap Text Window}
    {pages : OrderedMap Text Page} {id : Text} {p p' : Parent} (hp : w.parents.get id = some p)
    (hcap : p'.capture = p.capture) (hwin : p'.window = p.window) (hkey : p'.pageKey = p.pageKey)
    (h : ∀ id q, w.parents.get id = some q → ParentOk windows pages q) :
    ∀ id' q, (w.settleParent id p').parents.get id' = some q → ParentOk windows pages q := by
  intro id' q hq
  rw [settleParent_get] at hq
  split_ifs at hq with hid hdrop
  · cases hq
    have hpOk := h id p hp
    unfold ParentOk at hpOk ⊢
    rw [hwin, hcap, hkey]
    exact hpOk
  · exact h id' q hq

/-- An attempt without a complete child changes the parent and its retry place. -/
theorem Inv.settle {w : Work} (h : Inv sha256 w) {id : Text} {p : Parent} {cap : Capture}
    (hp : w.parents.get id = some p) (hopen : p.complete = false) (hstatus : cap.status ≠ .complete) :
    Inv sha256 (w.settleParent id (p.attempt cap)) := by
  have hcomplete : (p.attempt cap).complete = false := by
    rw [attempt_complete cap hopen]
    exact decide_eq_false hstatus
  constructor
  · exact settleParent_order h.order hp (attempt_capture p cap) (pending_of_attempt hopen)
  · exact ParentOk.settle hp (attempt_capture p cap) rfl rfl h.parents
  · intro key row hrow
    refine (h.pages key row hrow).settle hp (attempt_capture p cap) rfl rfl fun hid => ?_
    rcases h.pages key row hrow with ⟨-, -, q, hq, -, -, -, hqdone⟩
    rw [hid, hp] at hq
    cases hq
    rw [hqdone, hopen, hcomplete]
  · intro W win hwin
    rcases h.windows W win hwin with ⟨hWne, hWok⟩
    exact ⟨hWne, hWok.settle hWne hp (attempt_capture p cap) rfl rfl h.keysOk
      win.childrenDone
      (by rw [hopen, hcomplete])⟩

/-- What a complete child leaves before its parent settles. -/
theorem finishChild_cases {w w₁ : Work} {p : Parent} (h : w.finishChild p = .ok w₁) :
    p.window = [] ∧ w₁ = w ∨ ∃ win row, w.windows.get p.window = some win ∧
      w.pages.get p.pageKey = some row ∧
      (row.capture.captureId = p.capture.captureId ∧
          w₁ = { w with
            windows := w.windows.set p.window { win with childrenDone := win.childrenDone + 1 }
            pages := w.pages.set p.pageKey { row with childDone := true } } ∨
        row.capture.captureId ≠ p.capture.captureId ∧
          w₁ = { w with
            windows := w.windows.set p.window
              { win with childrenDone := win.childrenDone + 1 } }) := by
  unfold Work.finishChild at h
  split_ifs at h with hwindow
  · exact .inl ⟨hwindow, (Except.ok.inj h).symm⟩
  · refine .inr ?_
    cases hwin : w.windows.get p.window with
    | none =>
        rw [hwin] at h
        cases h
    | some win =>
        rw [hwin] at h
        simp only at h
        cases hrow : w.pages.get p.pageKey with
        | none =>
            rw [hrow] at h
            cases h
        | some row =>
            rw [hrow] at h
            simp only at h
            refine ⟨win, row, rfl, rfl, ?_⟩
            split_ifs at h with hown hinvalid
            · exact .inl ⟨hown, (Except.ok.inj h).symm⟩
            · exact .inr ⟨hown, (Except.ok.inj h).symm⟩

/-- A complete child of a parent in a window, up to its page row. -/
theorem Inv.finish {w : Work} (h : Inv sha256 w) {id : Text} {p : Parent} {cap : Capture}
    {win : Window} {pages : OrderedMap Text Page} (hp : w.parents.get id = some p)
    (hopen : p.complete = false) (hstatus : cap.status = .complete) (hpW : p.window ≠ [])
    (hwin : w.windows.get p.window = some win)
    (hkeep : ∀ key row, w.pages.get key = some row →
      ∃ row', pages.get key = some row' ∧ row'.window = row.window)
    (hpages : ∀ key row, pages.get key = some row → PageOk sha256
      (w.settleParent id (p.attempt cap)).parents key row)
    (hwindows : ∀ W win, WindowOk sha256 w.parents w.pages W win →
      WindowOk sha256 w.parents pages W win) :
    Inv sha256 (({ w with
      windows := w.windows.set p.window { win with childrenDone := win.childrenDone + 1 }
      pages := pages } : Work).settleParent id (p.attempt cap)) := by
  have hcomplete : (p.attempt cap).complete = true := by
    rw [attempt_complete cap hopen]
    exact decide_eq_true hstatus
  have hkeys : KeysOk sha256 pages := fun key row hrow => (hpages key row hrow).1
  constructor
  · exact settleParent_order h.order hp (attempt_capture p cap) (pending_of_attempt hopen)
  · refine ParentOk.settle hp (attempt_capture p cap) rfl rfl ?_
    intro id' q hq hqW
    rcases h.parents id' q hq hqW with ⟨hqid, ⟨win', hwin'⟩, row, hrow, hrW⟩
    rcases hkeep _ row hrow with ⟨row', hrow', hsame⟩
    refine ⟨hqid, ?_, row', hrow', hsame.trans hrW⟩
    show ∃ win', (w.windows.set _ _).get q.window = some win'
    rw [OrderedMap.get_set]
    split_ifs
    · exact ⟨_, rfl⟩
    · exact ⟨win', hwin'⟩
  · exact hpages
  · intro W win' hwin'
    change (w.windows.set _ _).get W = some win' at hwin'
    rw [OrderedMap.get_set] at hwin'
    split_ifs at hwin' with hW
    · cases hwin'
      refine ⟨hW ▸ hpW, ?_⟩
      have hok := hwindows _ _ (h.windows p.window win hwin).2
      rw [← hW] at hok
      refine hok.settle (hW ▸ hpW) hp (attempt_capture p cap) rfl rfl hkeys _ ?_
      rw [hopen, hcomplete, decide_eq_true hW.symm]
      rfl
    · rcases h.windows W win' hwin' with ⟨hWne, hWok⟩
      refine ⟨hWne, ?_⟩
      refine (hwindows _ _ hWok).settle hWne hp (attempt_capture p cap) rfl rfl hkeys
        win'.childrenDone ?_
      rw [decide_eq_false fun heq => hW heq.symm]
      rfl

/-- The parent of a page is found under the page's own capture. -/
theorem Inv.page_key {w : Work} (h : Inv sha256 w) {id key : Text} {p : Parent} {row : Page}
    (hp : w.parents.get id = some p) (hrow : w.pages.get key = some row)
    (hid : runtimeParentID row.capture = id) : key = p.pageKey ∧ row.capture = p.capture := by
  rcases h.pages key row hrow with ⟨-, -, q, hq, hqkey, hqcap, -⟩
  rw [hid, hp] at hq
  cases hq
  exact ⟨hqkey.symm, hqcap.symm⟩

theorem Inv.child {w w' : Work} (h : Inv sha256 w) {cap : Capture} (hok : w.child cap = .ok w') :
    Inv sha256 w' := by
  rcases child_cases hok with rfl | ⟨parentId, p, w₁, -, -, -, hp, hopen, hfinish, rfl⟩
  · exact h
  · rcases hfinish with ⟨hstatus, hfinish⟩ | ⟨hstatus, rfl⟩
    · have hcomplete : (p.attempt cap).complete = true := by
        rw [attempt_complete cap hopen]
        exact decide_eq_true hstatus
      have hid := h.order.ids _ p hp
      rcases finishChild_cases hfinish with ⟨hpW, rfl⟩ | ⟨win, row, hwin, hrow, hcase⟩
      · -- No window waits for this parent.
        constructor
        · exact settleParent_order h.order hp (attempt_capture p cap) (pending_of_attempt hopen)
        · exact ParentOk.settle hp (attempt_capture p cap) rfl rfl h.parents
        · intro key row hrow
          refine (h.pages key row hrow).settle hp (attempt_capture p cap) rfl rfl fun hrid => ?_
          rcases h.pages key row hrow with ⟨-, hrW, q, hq, -, -, hqW, -⟩
          rw [hrid, hp] at hq
          cases hq
          exact absurd (hqW.symm.trans hpW) hrW
        · intro W win hwin
          rcases h.windows W win hwin with ⟨hWne, hWok⟩
          refine ⟨hWne, hWok.settle hWne hp (attempt_capture p cap) rfl rfl h.keysOk
      win.childrenDone ?_⟩
          rw [decide_eq_false fun heq => hWne (heq.symm.trans hpW)]
          rfl
      · have hpW : p.window ≠ [] := (h.windows _ win hwin).1
        rcases hcase with ⟨hown, rfl⟩ | ⟨hown, rfl⟩
        · refine h.finish hp hopen hstatus hpW hwin ?_ ?_ ?_
          · intro key r hr
            rw [OrderedMap.get_set]
            split_ifs with hkey
            · rw [hkey, hrow] at hr
              cases hr
              exact ⟨_, rfl, rfl⟩
            · exact ⟨r, hr, rfl⟩
          · intro key r hr
            rw [OrderedMap.get_set] at hr
            split_ifs at hr with hkey
            · cases hr
              rw [hkey]
              rcases h.pages _ row hrow with ⟨hk, hrW, q, hq, hqkey, hqcap, hqW, -⟩
              have hqp : runtimeParentID row.capture = parentId.text := by
                rw [hid, runtimeParentID, runtimeParentID, hown]
              rw [hqp, hp] at hq
              cases hq
              refine ⟨hk, hrW, p.attempt cap, ?_, hqkey, hqcap, hqW, hcomplete.symm⟩
              show (w.settleParent parentId.text (p.attempt cap)).parents.get
                (runtimeParentID row.capture) = _
              rw [hqp, settleParent_get, if_pos rfl, if_neg fun hdrop => hpW hdrop.1]
            · refine (h.pages key r hr).settle hp (attempt_capture p cap) rfl rfl fun hrid => ?_
              exact absurd (h.page_key hp hr hrid).1 hkey
          · intro W win' hW
            exact hW.setPage h.keysOk hrow true
        · refine h.finish hp hopen hstatus hpW hwin (fun key r hr => ⟨r, hr, rfl⟩) ?_
            fun W win' hW => hW
          intro key r hr
          refine (h.pages key r hr).settle hp (attempt_capture p cap) rfl rfl fun hrid => ?_
          -- The row under the parent's page key belongs to another capture.
          rcases h.page_key hp hr hrid with ⟨hkey, hcap⟩
          rw [hkey, hrow] at hr
          cases hr
          exact absurd (by rw [hcap]) hown
    · exact h.settle hp hopen hstatus

end MarketInfo.Keeper
