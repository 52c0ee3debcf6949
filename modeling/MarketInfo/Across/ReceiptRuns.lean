import MarketInfo.Across.ReceiptIndex

/-! # Receipt tasks over whole runs

Each step keeps the exactness of pages, schedule and index. An orphaned capture
takes its own contribution with it, a sealed one changes no flag, and the paged
selection finds what a scan of all tasks finds.
-/

namespace MarketInfo.Across

open Json (Text)

/-! ## Stamps -/

theorem Receipt.Stamped.zero : Receipt.zero.Stamped := .inl rfl

theorem attemptTime_stamped (r : Receipt) (clock : Option Clock) :
    Receipt.Stamped { r with lastAttempt := attemptTime clock } := by
  cases clock with
  | none => exact .inl rfl
  | some clock => exact .inr ⟨clock.positive, clock.bounded⟩

theorem Exact.getD_stamped {s : ReceiptState} (h : Exact s) (id : Text) :
    ((s.receiptPages.get id).getD Receipt.zero).Stamped := by
  cases hget : s.receiptPages.get id with
  | none => exact Receipt.Stamped.zero
  | some r => exact h.stamps id r hget

theorem sealed_stamped {r : Receipt} (h : r.Stamped) (parent : Text) : (r.sealed parent).Stamped := by
  unfold Receipt.sealed
  split
  · exact h
  · exact h

/-! ## Steps -/

/-- A loop keeps what each of its turns keeps. -/
theorem Exact.foldl {β : Type} {f : ReceiptState → β → ReceiptState} {xs : List β}
    {s : ReceiptState} (h : Exact s) (hf : ∀ s, Exact s → ∀ x ∈ xs, Exact (f s x)) :
    Exact (xs.foldl f s) := by
  induction xs generalizing s with
  | nil => exact h
  | cons x xs ih =>
      exact ih (hf s h x List.mem_cons_self) fun s hs y hy => hf s hs y (List.mem_cons_of_mem _ hy)

theorem Exact.receiptFact {s : ReceiptState} (h : Exact s) (ID : ReceiptTask → Text)
    (task : ReceiptTask) (block : Nat) (parent : Text) (bits : UInt8) (observed : Time) :
    Exact (s.receiptFact ID task block parent bits observed) :=
  h.receiptSet (withFact_recompute _ _ _ _ _ _) (h.getD_stamped _)

theorem Exact.sealOne {s : ReceiptState} (h : Exact s) {parent : Text} (hne : parent ≠ [])
    (id : Text) : Exact (s.sealOne parent id) := by
  unfold ReceiptState.sealOne
  cases hget : s.receiptPages.get id with
  | none => exact h
  | some r =>
      simp only
      split_ifs
      · exact h.receiptSet (sealed_recompute hne (h.flags id r hget))
          (sealed_stamped (h.stamps id r hget) parent)
      · exact h

theorem Exact.sealReceiptParents {s : ReceiptState} (h : Exact s) (c : ReceiptCapture) :
    Exact (s.sealReceiptParents c) := by
  unfold ReceiptState.sealReceiptParents
  split_ifs
  · exact h.foldl fun s hs id _ => hs.sealOne c.captureId.text_ne id
  · exact h

theorem Exact.orphanOne {s : ReceiptState} (h : Exact s) (parent id : Text) :
    Exact (s.orphanOne parent id) := by
  unfold ReceiptState.orphanOne
  simp only
  split_ifs
  · exact h.receiptDelete id
  · exact h.receiptSet (orphaned_recompute _ _) (h.getD_stamped id)

theorem Exact.revise {s : ReceiptState} (h : Exact s) (c : ReceiptCapture) : Exact (s.revise c) := by
  unfold ReceiptState.revise
  split_ifs
  · exact h.sealReceiptParents c
  · exact h.foldl fun s hs id _ => hs.orphanOne _ id

/-- The position of the cleanup is no part of the invariant. -/
theorem Exact.cleanup {s : ReceiptState} (h : Exact s) (after : Text) :
    Exact { s with receiptCleanupAfter := after } :=
  ⟨h.flags, h.stamps, h.schedule, h.index, h.tight⟩

theorem Exact.pruneReceipts {s : ReceiptState} (h : Exact s) (decoded : Nat → Nat → Bool) :
    Exact (s.pruneReceipts decoded) := by
  unfold ReceiptState.pruneReceipts
  simp only
  split
  · exact h.cleanup _
  · refine Exact.cleanup (h.foldl fun s hs e _ => ?_) _
    split_ifs
    · exact hs.receiptDelete e.1
    · exact hs

theorem Exact.batch {s : ReceiptState} (h : Exact s) (ID : ReceiptTask → Text)
    (USDC : Nat → Option Text) (b : ReceiptBatch) (before after : Nat → Nat → Bool) :
    Exact (s.batch ID USDC b before after) := by
  have hfacts : Exact ((b.facts USDC before).foldl (fun s fact =>
      s.receiptFact ID fact.1 fact.2.1 b.capture.captureId.text fact.2.2 b.capture.availableAt) s) :=
    h.foldl fun s hs fact _ => hs.receiptFact ID _ _ _ _ _
  exact (hfacts.sealReceiptParents b.capture).pruneReceipts after

theorem Exact.attempt {s : ReceiptState} (h : Exact s) (id : Text) (clock : Option Clock) :
    Exact (s.attempt id clock) := by
  unfold ReceiptState.attempt
  cases hget : s.receiptPages.get id with
  | none => exact h
  | some r =>
      simp only
      split_ifs
      · exact h.receiptSet (attempt_recompute (h.flags id r hget) _) (attemptTime_stamped r clock)
      · exact h

theorem Exact.startup {s : ReceiptState} (h : Exact s) : Exact s.startup := by
  refine h.foldl fun s' hs e he => ?_
  have hrow := OrderedMap.get_eq_some.mpr he
  split_ifs
  · exact hs.receiptSet (retry_recompute (h.flags e.1 e.2 hrow)) (h.stamps e.1 e.2 hrow)
  · exact hs

/-- Reopening rebuilds the index the tasks describe. -/
theorem Exact.reopen {s s' : ReceiptState} (h : Exact s) (hok : s.reopen = .ok s') : Exact s' := by
  unfold ReceiptState.reopen at hok
  split_ifs at hok
  cases hok
  have hhas : ∀ (es : List (Text × Receipt)) (index : ParentIndex) (q j : Text),
      (es.foldl (fun index e => (parentKeys e.2.parents).foldl
        (fun index parent => index.add e.1 parent) index) index).Has q j ↔
        index.Has q j ∨ ∃ e ∈ es, j = e.1 ∧ q ∈ parentKeys e.2.parents ∧ q ≠ [] := by
    intro es
    induction es with
    | nil => simp
    | cons e es ih =>
        intro index q j
        rw [List.foldl_cons, ih, ParentIndex.has_addAll]
        simp only [List.mem_cons, exists_eq_or_imp, or_assoc]
  have htight : ∀ (es : List (Text × Receipt)) (index : ParentIndex), index.Tight →
      (es.foldl (fun index e => (parentKeys e.2.parents).foldl
        (fun index parent => index.add e.1 parent) index) index).Tight := by
    intro es
    induction es with
    | nil => exact fun index htight => htight
    | cons e es ih => exact fun index htight => ih _ (htight.addAll _ _)
  refine ⟨h.flags, h.stamps, h.schedule, ?_, ?_⟩
  · intro parent id
    refine Iff.trans (hhas _ _ parent id) ?_
    constructor
    · intro hrow
      rcases hrow with ⟨ids, hids, -⟩ | ⟨e, he, rfl, hparent, hne⟩
      · cases hids
      · exact ⟨hne, e.2, OrderedMap.get_eq_some.mpr he, mem_parentKeys.mp hparent⟩
    · intro hrow
      rcases hrow with ⟨hne, r, hr, hparent⟩
      exact .inr ⟨(id, r), OrderedMap.get_eq_some.mp hr, rfl, mem_parentKeys.mpr hparent, hne⟩
  · exact htight _ _ fun q ids hq => by cases hq

theorem Exact.step {ID : ReceiptTask → Text} {USDC : Nat → Option Text} {s s' : ReceiptState}
    {a : ReceiptStep} (h : Exact s) (hok : s.step ID USDC a = .ok s') : Exact s' := by
  cases a with
  | batch b before after =>
      cases hok
      exact h.batch ID USDC b before after
  | revise c =>
      cases hok
      exact h.revise c
  | attempt id clock =>
      cases hok
      exact h.attempt id clock
  | startup =>
      cases hok
      exact h.startup
  | prune decoded =>
      cases hok
      exact h.pruneReceipts decoded
  | reopen => exact h.reopen hok

theorem Exact.run {ID : ReceiptTask → Text} {USDC : Nat → Option Text} {s s' : ReceiptState}
    {steps : List ReceiptStep} (h : Exact s) (hrun : s.run ID USDC steps = .ok s') : Exact s' := by
  induction steps generalizing s with
  | nil =>
      cases hrun
      exact h
  | cons a steps ih =>
      rw [ReceiptState.run] at hrun
      cases hstep : s.step ID USDC a with
      | error e =>
          rw [hstep] at hrun
          cases hrun
      | ok s₁ =>
          rw [hstep] at hrun
          exact ih (h.step hstep) hrun

/-! ## One capture's tasks -/

/-- A loop over different tasks, each turn touching its own. -/
theorem foldl_local {f : ReceiptState → Text → ReceiptState} {g : Option Receipt → Option Receipt}
    (hf : ∀ s id j, (f s id).receiptPages.get j =
      if j = id then g (s.receiptPages.get id) else s.receiptPages.get j)
    {ids : List Text} (hnodup : ids.Nodup) (s : ReceiptState) (j : Text) :
    (ids.foldl f s).receiptPages.get j =
      if j ∈ ids then g (s.receiptPages.get j) else s.receiptPages.get j := by
  induction ids generalizing s with
  | nil => simp
  | cons id ids ih =>
      rw [List.nodup_cons] at hnodup
      rw [List.foldl_cons, ih hnodup.2, hf]
      by_cases hj : j = id
      · subst hj
        simp [hnodup.1]
      · simp [hj]

theorem parentReceipts_nodup (s : ReceiptState) (parent : Text) :
    (s.parentReceipts parent).Nodup := by
  refine List.Nodup.map_on ?_ ?_
  · intro a ha b hb hab
    exact Prod.ext hab rfl
  · exact ((s.receiptParents.get parent).getD .empty).sorted.imp fun {a b} hlt heq =>
      absurd (congrArg Prod.fst heq) hlt.ne

theorem Exact.mem_parentReceipts {s : ReceiptState} (h : Exact s) {parent id : Text}
    (hne : parent ≠ []) : id ∈ s.parentReceipts parent ↔
      ∃ r, s.receiptPages.get id = some r ∧ (r.parents.get parent).isSome = true := by
  have hhas : id ∈ s.parentReceipts parent ↔ s.receiptParents.Has parent id := by
    unfold ReceiptState.parentReceipts ParentIndex.Has
    cases hget : s.receiptParents.get parent with
    | none => simp [OrderedMap.empty]
    | some ids =>
        rw [Option.getD_some, List.mem_map]
        constructor
        · intro hmem
          rcases hmem with ⟨e, he, rfl⟩
          exact ⟨ids, rfl, OrderedMap.get_eq_some.mpr he⟩
        · intro hmem
          rcases hmem with ⟨ids', heq, hid⟩
          cases heq
          exact ⟨(id, ()), OrderedMap.get_eq_some.mp hid, rfl⟩
  rw [hhas, h.index]
  exact ⟨fun hrow => hrow.2, fun hrow => ⟨hne, hrow⟩⟩

theorem receiptDelete_get (s : ReceiptState) (id j : Text) :
    (s.receiptDelete id).receiptPages.get j = if j = id then none else s.receiptPages.get j := by
  unfold ReceiptState.receiptDelete
  cases hget : s.receiptPages.get id with
  | none =>
      by_cases hj : j = id
      · rw [if_pos hj, hj]
        exact hget
      · rw [if_neg hj]
  | some old =>
      by_cases hj : j = id
      · rw [if_pos hj, hj]
        exact s.receiptPages.get_delete_self id
      · rw [if_neg hj]
        exact s.receiptPages.get_delete_ne hj

theorem receiptSet_get (s : ReceiptState) (id j : Text) (r : Receipt) :
    (s.receiptSet id r).receiptPages.get j =
      if j = id then some r else s.receiptPages.get j := by
  by_cases hj : j = id
  · rw [if_pos hj, hj]
    exact s.receiptPages.get_set_self id r
  · rw [if_neg hj]
    exact s.receiptPages.get_set_ne r hj

/-- What a task is without one capture's contribution, if anything is left. -/
def withoutParent (parent : Text) (r : Receipt) : Option Receipt :=
  if (r.parents.get parent).isSome = false then some r
  else if (r.parents.delete parent).entries = [] then none
  else some (r.orphaned parent)

/-- Orphaning a capture removes its own contribution from every task. -/
theorem Exact.orphan_pages {s : ReceiptState} (h : Exact s) {c : ReceiptCapture}
    (hcanonical : c.canonical = false) (id : Text) : (s.revise c).receiptPages.get id =
      (s.receiptPages.get id).bind (withoutParent c.captureId.text) := by
  generalize hp : c.captureId.text = parent
  have hne : parent ≠ [] := hp ▸ c.captureId.text_ne
  have hlocal : ∀ (s : ReceiptState) (id j : Text), (s.orphanOne parent id).receiptPages.get j =
      if j = id then (s.receiptPages.get id).bind (fun r =>
        if (r.parents.delete parent).entries = [] then none else some (r.orphaned parent))
      else s.receiptPages.get j := by
    intro s id j
    unfold ReceiptState.orphanOne
    simp only
    have hparents : ∀ r : Receipt, (r.orphaned parent).parents = r.parents.delete parent :=
      fun r => rfl
    rw [hparents]
    cases hget : s.receiptPages.get id with
    | none =>
        rw [Option.getD_none, if_pos (by rfl), receiptDelete_get]
        rfl
    | some r =>
        rw [Option.getD_some, Option.bind_some]
        split_ifs with hempty hj hj
        · rw [receiptDelete_get, if_pos hj]
        · rw [receiptDelete_get, if_neg hj]
        · rw [receiptSet_get, if_pos hj]
        · rw [receiptSet_get, if_neg hj]
  unfold ReceiptState.revise
  rw [if_neg (by simp [hcanonical]), hp, foldl_local (g := fun row => row.bind fun r =>
    if (r.parents.delete parent).entries = [] then none else some (r.orphaned parent)) hlocal
    (parentReceipts_nodup s parent)]
  cases hget : s.receiptPages.get id with
  | none => simp
  | some r =>
      rw [Option.bind_some, Option.bind_some, withoutParent]
      by_cases hmem : id ∈ s.parentReceipts parent
      · rcases (h.mem_parentReceipts hne).mp hmem with ⟨r', hr', hsome⟩
        rw [hget] at hr'
        cases hr'
        have hlisted : ¬ (r.parents.get parent).isSome = false := by
          rw [hsome]
          decide
        rw [if_pos hmem, if_neg hlisted]
      · have hnone : (r.parents.get parent).isSome = false := by
          cases hsome : (r.parents.get parent).isSome with
          | false => rfl
          | true => exact absurd ((h.mem_parentReceipts hne).mpr ⟨r, hget, hsome⟩) hmem
        rw [if_neg hmem, if_pos hnone]

/-- The flags of a task. -/
def Receipt.flagsOf (r : Receipt) : Bool × Bool × Bool × Bool × Bool :=
  (r.refund, r.known, r.feeComplete, r.transfers, r.pending)

theorem sealed_flagsOf (r : Receipt) (parent : Text) : (r.sealed parent).flagsOf = r.flagsOf := by
  unfold Receipt.sealed
  split
  · rfl
  · rfl

/-- Sealing moves bits and changes no flag. -/
theorem seal_flags (s : ReceiptState) (c : ReceiptCapture) (id : Text) :
    ((s.sealReceiptParents c).receiptPages.get id).map Receipt.flagsOf =
      (s.receiptPages.get id).map Receipt.flagsOf := by
  unfold ReceiptState.sealReceiptParents
  split_ifs
  · have hone : ∀ (s : ReceiptState) (parent j : Text),
        ((s.sealOne parent j).receiptPages.get id).map Receipt.flagsOf =
          (s.receiptPages.get id).map Receipt.flagsOf := by
      intro s parent j
      unfold ReceiptState.sealOne
      cases hget : s.receiptPages.get j with
      | none => rfl
      | some r =>
          simp only
          split_ifs
          · rw [receiptSet_get]
            split_ifs with hid
            · rw [hid, hget, Option.map_some, Option.map_some, sealed_flagsOf]
            · rfl
          · rfl
    generalize s.parentReceipts c.captureId.text = ids
    induction ids generalizing s with
    | nil => rfl
    | cons j ids ih => rw [List.foldl_cons, ih, hone]
  · rfl

end MarketInfo.Across
