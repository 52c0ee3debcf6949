import MarketInfo.Across.Receipts

/-! # Receipt dependencies stay exact

Pages, schedule and parent index say the same about every task: the flags are
those of the parents' bits, the schedule lists the pending tasks under their
keys, and the index is the inverse of the parents.
-/

namespace MarketInfo.Across

open Json (Text)

/-! ## Bits -/

theorem or_and_ne_zero (a b mask : UInt8) :
    (a ||| b) &&& mask ≠ 0 ↔ a &&& mask ≠ 0 ∨ b &&& mask ≠ 0 := by
  have hsplit : ((a ||| b) &&& mask).toNat = (a &&& mask).toNat ||| (b &&& mask).toNat := by
    simp [Nat.and_or_distrib_right]
  have hzero : ∀ x : UInt8, x ≠ 0 ↔ x.toNat ≠ 0 := fun x => by
    rw [ne_eq, ne_eq, ← UInt8.toNat_inj]
    rfl
  rw [hzero, hzero (a &&& mask), hzero (b &&& mask), hsplit, ne_eq, Nat.or_eq_zero_iff]
  exact not_and_or

/-- A bit is set in the whole exactly when some parent contributed it. -/
theorem orAll_ne_zero (parents : OrderedMap Text UInt8) (mask : UInt8) :
    orAll parents &&& mask ≠ 0 ↔ ∃ parent bits, parents.get parent = some bits ∧
      bits &&& mask ≠ 0 := by
  have hlist : ∀ es : List (Text × UInt8),
      es.foldr (fun e bits => e.2 ||| bits) 0 &&& mask ≠ 0 ↔ ∃ e ∈ es, e.2 &&& mask ≠ 0 := by
    intro es
    induction es with
    | nil => simp
    | cons e es ih =>
        rw [List.foldr_cons, or_and_ne_zero, ih]
        simp
  rw [orAll, hlist]
  constructor
  · intro h
    rcases h with ⟨e, he, hbits⟩
    exact ⟨e.1, e.2, OrderedMap.get_eq_some.mpr he, hbits⟩
  · intro h
    rcases h with ⟨parent, bits, hget, hbits⟩
    exact ⟨(parent, bits), OrderedMap.get_eq_some.mp hget, hbits⟩

theorem flagged_congr (r : Receipt) {a b : UInt8}
    (h : ∀ mask, a &&& mask ≠ 0 ↔ b &&& mask ≠ 0) : r.flagged a = r.flagged b := by
  have hmask : ∀ mask, (a &&& mask != 0) = (b &&& mask != 0) := by
    intro mask
    rw [Bool.eq_iff_iff, bne_iff_ne, bne_iff_ne]
    exact h mask
  simp only [Receipt.flagged, hmask]

theorem recompute_recompute (r : Receipt) : r.recompute.recompute = r.recompute := rfl

theorem withFact_recompute (r : Receipt) (task : ReceiptTask) (block : Nat) (parent : Text)
    (bits : UInt8) (observed : Time) :
    (r.withFact task block parent bits observed).recompute =
      r.withFact task block parent bits observed := recompute_recompute _

theorem orphaned_recompute (r : Receipt) (parent : Text) :
    (r.orphaned parent).recompute = r.orphaned parent := recompute_recompute _

/-- Moving a parent's bits to the unnamed parent keeps every bit. -/
theorem sealed_recompute {r : Receipt} {parent : Text} (hne : parent ≠ [])
    (h : r.recompute = r) : (r.sealed parent).recompute = r.sealed parent := by
  unfold Receipt.sealed
  cases hget : r.parents.get parent with
  | none => exact h
  | some bits =>
      have hsame : ∀ mask, orAll ((r.parents.set [] ((r.parents.get []).getD 0 ||| bits)).delete
          parent) &&& mask ≠ 0 ↔ orAll r.parents &&& mask ≠ 0 := by
        intro mask
        rw [orAll_ne_zero, orAll_ne_zero]
        constructor
        · intro hbits
          rcases hbits with ⟨q, b, hq, hb⟩
          rw [OrderedMap.get_delete] at hq
          split_ifs at hq with hqp
          rw [OrderedMap.get_set] at hq
          split_ifs at hq with hq0
          · cases hq
            rcases (or_and_ne_zero _ _ _).mp hb with hold | hnew
            · cases hold0 : r.parents.get [] with
              | none =>
                  rw [hold0] at hold
                  exact absurd (by simp) hold
              | some b₀ =>
                  rw [hold0] at hold
                  exact ⟨[], b₀, hold0, hold⟩
            · exact ⟨parent, bits, hget, hnew⟩
          · exact ⟨q, b, hq, hb⟩
        · intro hbits
          rcases hbits with ⟨q, b, hq, hb⟩
          have hzero : ((r.parents.set [] ((r.parents.get []).getD 0 ||| bits)).delete parent).get
              [] = some ((r.parents.get []).getD 0 ||| bits) := by
            rw [OrderedMap.get_delete_ne _ hne.symm, OrderedMap.get_set_self]
          by_cases hqp : q = parent
          · rw [hqp, hget] at hq
            cases hq
            exact ⟨[], _, hzero, (or_and_ne_zero _ _ _).mpr (.inr hb)⟩
          · by_cases hq0 : q = []
            · rw [hq0] at hq
              refine ⟨[], _, hzero, (or_and_ne_zero _ _ _).mpr (.inl ?_)⟩
              rw [hq]
              exact hb
            · exact ⟨q, b, by rw [OrderedMap.get_delete_ne _ hqp, OrderedMap.get_set_ne _ _ hq0, hq],
                hb⟩
      have hflags : ∀ parents, (Receipt.flagged { r with parents := parents } (orAll r.parents)) =
          { r with parents := parents } := by
        intro parents
        have hr : r.flagged (orAll r.parents) = r := h
        exact congrArg (fun r' : Receipt => { r' with parents := parents }) hr
      simp only
      rw [Receipt.recompute, flagged_congr _ hsame]
      exact hflags _

theorem retry_recompute {r : Receipt} (h : r.recompute = r) :
    Receipt.recompute { r with pending := true, retryUnknown := true } =
      { r with pending := true, retryUnknown := true } := by
  have hflags : Receipt.recompute { r with pending := true, retryUnknown := true } =
      { r.recompute with pending := true, retryUnknown := true } := by
    simp [Receipt.recompute, Receipt.flagged]
  rw [hflags, h]

theorem attempt_recompute {r : Receipt} (h : r.recompute = r) (at' : Time) :
    Receipt.recompute { r with lastAttempt := at' } = { r with lastAttempt := at' } := by
  have hflags : Receipt.recompute { r with lastAttempt := at' } =
      { r.recompute with lastAttempt := at' } := rfl
  rw [hflags, h]

/-! ## Schedule keys -/

theorem length_fixedDigits (width n : Nat) : (fixedDigits width n).length = width := by
  induction width generalizing n with
  | zero => rfl
  | succ width ih => simp [fixedDigits, ih]

theorem length_stampText (n : Int) : (stampText n).length = 20 := by
  unfold stampText
  split_ifs
  · simp [length_fixedDigits]
  · simp [length_fixedDigits]

/-- A schedule key identifies its task. -/
theorem receiptScheduleKey_inj {id id' : Text} {r r' : Receipt}
    (h : receiptScheduleKey id r = receiptScheduleKey id' r') : id = id' := by
  have htail := (List.cons.inj (List.cons.inj h).2).2
  have hparts := List.append_inj htail (by rw [length_stampText, length_stampText])
  exact (List.cons.inj hparts.2).2

/-! ## The parent index -/

/-- The index lists task `id` under `parent`. -/
def ParentIndex.Has (index : ParentIndex) (parent id : Text) : Prop :=
  ∃ ids, index.get parent = some ids ∧ ids.get id = some ()

/-- No capture is listed without a task. -/
def ParentIndex.Tight (index : ParentIndex) : Prop :=
  ∀ parent ids, index.get parent = some ids → ids.entries ≠ []

theorem entries_set_ne {κ ν : Type} [LinearOrder κ] (m : OrderedMap κ ν) (k : κ) (v : ν) :
    (m.set k v).entries ≠ [] := by
  intro h
  have hmem := OrderedMap.get_eq_some.mp (m.get_set_self k v)
  rw [h] at hmem
  cases hmem

theorem ParentIndex.has_add (index : ParentIndex) (id parent q j : Text) :
    (index.add id parent).Has q j ↔ index.Has q j ∨ (j = id ∧ q = parent ∧ q ≠ []) := by
  unfold ParentIndex.add
  split_ifs with hnone
  · constructor
    · exact .inl
    · intro h
      rcases h with h | ⟨-, hq, hne⟩
      · exact h
      · exact absurd (hq.trans hnone) hne
  · unfold ParentIndex.Has
    by_cases hq : q = parent
    · subst hq
      simp only [OrderedMap.get_set_self, Option.some.injEq, exists_eq_left', OrderedMap.get_set]
      cases hget : index.get q with
      | none => by_cases hj : j = id <;> simp [hj, hnone]
      | some ids => by_cases hj : j = id <;> simp [hj, hnone]
    · rw [OrderedMap.get_set_ne _ _ hq]
      simp [hq]

theorem ParentIndex.Tight.add {index : ParentIndex} (h : index.Tight) (id parent : Text) :
    (index.add id parent).Tight := by
  unfold ParentIndex.add
  split_ifs
  · exact h
  · intro q ids hq
    rw [OrderedMap.get_set] at hq
    split_ifs at hq
    · cases hq
      exact entries_set_ne _ _ _
    · exact h q ids hq

theorem ParentIndex.has_remove (index : ParentIndex) (id parent q j : Text) :
    (index.remove id parent).Has q j ↔ index.Has q j ∧ ¬ (j = id ∧ q = parent) := by
  unfold ParentIndex.remove ParentIndex.Has
  cases hget : index.get parent with
  | none =>
      constructor
      · intro h
        refine ⟨h, fun hcase => ?_⟩
        rcases h with ⟨ids, hids, -⟩
        rw [hcase.2, hget] at hids
        cases hids
      · exact fun h => h.1
  | some ids =>
      simp only
      by_cases hq : q = parent
      · subst hq
        split_ifs with hempty
        · have hnone : (ids.delete id).get j = none := by
            cases hj : (ids.delete id).get j with
            | none => rfl
            | some u =>
                have hmem := OrderedMap.get_eq_some.mp hj
                rw [hempty] at hmem
                cases hmem
          rw [OrderedMap.get_delete] at hnone
          simp only [OrderedMap.get_delete_self, hget, Option.some.injEq, exists_eq_left']
          by_cases hj : j = id
          · simp [hj]
          · rw [if_neg hj] at hnone
            simp [hnone]
        · simp only [OrderedMap.get_set_self, hget, Option.some.injEq, exists_eq_left',
            OrderedMap.get_delete]
          by_cases hj : j = id <;> simp [hj]
      · split_ifs
        · rw [OrderedMap.get_delete_ne _ hq]
          simp [hq]
        · rw [OrderedMap.get_set_ne _ _ hq]
          simp [hq]

theorem ParentIndex.Tight.remove {index : ParentIndex} (h : index.Tight) (id parent : Text) :
    (index.remove id parent).Tight := by
  unfold ParentIndex.remove
  cases hget : index.get parent with
  | none => exact h
  | some ids =>
      simp only
      split_ifs with hempty
      · intro q ids' hq
        rw [OrderedMap.get_delete] at hq
        split_ifs at hq
        exact h q ids' hq
      · intro q ids' hq
        rw [OrderedMap.get_set] at hq
        split_ifs at hq
        · cases hq
          exact hempty
        · exact h q ids' hq

theorem ParentIndex.has_addAll (index : ParentIndex) (id : Text) (ps : List Text) (q j : Text) :
    (ps.foldl (fun index parent => index.add id parent) index).Has q j ↔
      index.Has q j ∨ (j = id ∧ q ∈ ps ∧ q ≠ []) := by
  induction ps generalizing index with
  | nil => simp
  | cons p ps ih =>
      rw [List.foldl_cons, ih, ParentIndex.has_add, List.mem_cons]
      tauto

theorem ParentIndex.has_removeAll (index : ParentIndex) (id : Text) (ps : List Text)
    (q j : Text) : (ps.foldl (fun index parent => index.remove id parent) index).Has q j ↔
      index.Has q j ∧ ¬ (j = id ∧ q ∈ ps) := by
  induction ps generalizing index with
  | nil => simp
  | cons p ps ih =>
      rw [List.foldl_cons, ih, ParentIndex.has_remove, List.mem_cons]
      tauto

theorem ParentIndex.Tight.addAll {index : ParentIndex} (h : index.Tight) (id : Text)
    (ps : List Text) : (ps.foldl (fun index parent => index.add id parent) index).Tight := by
  induction ps generalizing index with
  | nil => exact h
  | cons p ps ih => exact ih (h.add id p)

theorem ParentIndex.Tight.removeAll {index : ParentIndex} (h : index.Tight) (id : Text)
    (ps : List Text) : (ps.foldl (fun index parent => index.remove id parent) index).Tight := by
  induction ps generalizing index with
  | nil => exact h
  | cons p ps ih => exact ih (h.remove id p)

theorem mem_parentKeys {parents : OrderedMap Text UInt8} {parent : Text} :
    parent ∈ parentKeys parents ↔ (parents.get parent).isSome = true := by
  rw [parentKeys, List.mem_map, Option.isSome_iff_exists]
  constructor
  · intro h
    rcases h with ⟨e, he, rfl⟩
    exact ⟨e.2, OrderedMap.get_eq_some.mpr he⟩
  · intro h
    rcases h with ⟨bits, hbits⟩
    exact ⟨(parent, bits), OrderedMap.get_eq_some.mp hbits, rfl⟩

/-! ## The invariant -/

/-- The last attempt is none or a positive 64-bit clock reading. -/
def Receipt.Stamped (r : Receipt) : Prop :=
  r.lastAttempt.IsZero ∨ 0 < r.lastAttempt.unixNano ∧ r.lastAttempt.unixNano < 2 ^ 63

structure Exact (s : ReceiptState) : Prop where
  flags : ∀ id r, s.receiptPages.get id = some r → r.recompute = r
  stamps : ∀ id r, s.receiptPages.get id = some r → r.Stamped
  schedule : ∀ key id, s.receiptSchedule.get key = some id ↔
    ∃ r, s.receiptPages.get id = some r ∧ r.pending = true ∧ key = receiptScheduleKey id r
  index : ∀ parent id, s.receiptParents.Has parent id ↔ parent ≠ [] ∧
    ∃ r, s.receiptPages.get id = some r ∧ (r.parents.get parent).isSome = true
  tight : s.receiptParents.Tight

theorem exact_empty : Exact .empty where
  flags _ _ h := by simp [ReceiptState.empty] at h
  stamps _ _ h := by simp [ReceiptState.empty] at h
  schedule _ _ := by simp [ReceiptState.empty]
  index _ _ := by simp [ReceiptState.empty, ParentIndex.Has]
  tight _ _ h := by simp [ReceiptState.empty] at h

/-- The schedule and the index without what an old task has there. -/
theorem Exact.cleared {s : ReceiptState} (h : Exact s) (id : Text) :
    (∀ key j, (unschedule s.receiptSchedule id ((s.receiptPages.get id).getD Receipt.zero)).get key =
        some j ↔ j ≠ id ∧ ∃ r, s.receiptPages.get j = some r ∧ r.pending = true ∧
          key = receiptScheduleKey j r) ∧
      ∀ q j, ((parentKeys ((s.receiptPages.get id).getD Receipt.zero).parents).foldl
        (fun index parent => index.remove id parent) s.receiptParents).Has q j ↔
          j ≠ id ∧ q ≠ [] ∧ ∃ r, s.receiptPages.get j = some r ∧
            (r.parents.get q).isSome = true := by
  constructor
  · intro key j
    unfold unschedule
    cases hget : s.receiptPages.get id with
    | none =>
        rw [Option.getD_none, if_neg (by simp [Receipt.zero]), h.schedule]
        constructor
        · intro hrow
          refine ⟨?_, hrow⟩
          intro hj
          rcases hrow with ⟨r, hr, -⟩
          rw [hj, hget] at hr
          cases hr
        · exact fun hrow => hrow.2
    | some old =>
        rw [Option.getD_some]
        split_ifs with hpend
        · rw [OrderedMap.get_delete]
          split_ifs with hkey
          · constructor
            · intro hnone
              cases hnone
            · intro hrow
              rcases hrow with ⟨hj, r, -, -, hkey'⟩
              exact absurd (receiptScheduleKey_inj (hkey'.symm.trans hkey)) hj
          · rw [h.schedule]
            constructor
            · intro hrow
              refine ⟨?_, hrow⟩
              intro hj
              rcases hrow with ⟨r, hr, -, hkey'⟩
              rw [hj, hget] at hr
              cases hr
              exact hkey (hj ▸ hkey')
            · exact fun hrow => hrow.2
        · rw [h.schedule]
          constructor
          · intro hrow
            refine ⟨?_, hrow⟩
            intro hj
            rcases hrow with ⟨r, hr, hpend', -⟩
            rw [hj, hget] at hr
            cases hr
            exact hpend hpend'
          · exact fun hrow => hrow.2
  · intro q j
    rw [ParentIndex.has_removeAll, h.index, mem_parentKeys]
    constructor
    · intro hrow
      rcases hrow with ⟨⟨hq, r, hr, hparent⟩, hnot⟩
      refine ⟨?_, hq, r, hr, hparent⟩
      intro hj
      subst hj
      rw [hr] at hnot
      exact hnot ⟨rfl, hparent⟩
    · intro hrow
      exact ⟨hrow.2, fun hcase => hrow.1 hcase.1⟩

theorem Exact.receiptSet {s : ReceiptState} (h : Exact s) {id : Text} {r : Receipt}
    (hflags : r.recompute = r) (hstamp : r.Stamped) : Exact (s.receiptSet id r) := by
  rcases h.cleared id with ⟨hsched, hindex⟩
  constructor
  · intro j r' hr'
    change (s.receiptPages.set id r).get j = some r' at hr'
    rw [OrderedMap.get_set] at hr'
    split_ifs at hr'
    · cases hr'
      exact hflags
    · exact h.flags j r' hr'
  · intro j r' hr'
    change (s.receiptPages.set id r).get j = some r' at hr'
    rw [OrderedMap.get_set] at hr'
    split_ifs at hr'
    · cases hr'
      exact hstamp
    · exact h.stamps j r' hr'
  · intro key j
    have hpages : ∀ j r', (s.receiptPages.set id r).get j = some r' ↔
        (j = id ∧ r' = r) ∨ (j ≠ id ∧ s.receiptPages.get j = some r') := by
      intro j r'
      rw [OrderedMap.get_set]
      by_cases hj : j = id
      · simp [hj, eq_comm]
      · simp [hj]
    show (if r.pending then _ else _ : OrderedMap Text Text).get key = some j ↔
      ∃ r', (s.receiptPages.set id r).get j = some r' ∧ _
    simp only [hpages]
    split_ifs with hpend
    · rw [OrderedMap.get_set]
      split_ifs with hkey
      · constructor
        · intro hj
          cases hj
          exact ⟨r, .inl ⟨rfl, rfl⟩, hpend, hkey⟩
        · intro hrow
          rcases hrow with ⟨r', -, -, hkey'⟩
          rw [receiptScheduleKey_inj (hkey.symm.trans hkey')]
      · rw [hsched]
        constructor
        · intro hrow
          rcases hrow with ⟨hj, r', hr', hp, hk⟩
          exact ⟨r', .inr ⟨hj, hr'⟩, hp, hk⟩
        · intro hrow
          rcases hrow with ⟨r', ⟨hj, rfl⟩ | ⟨hj, hr'⟩, hp, hk⟩
          · exact absurd (hj ▸ hk) hkey
          · exact ⟨hj, r', hr', hp, hk⟩
    · rw [hsched]
      constructor
      · intro hrow
        rcases hrow with ⟨hj, r', hr', hp, hk⟩
        exact ⟨r', .inr ⟨hj, hr'⟩, hp, hk⟩
      · intro hrow
        rcases hrow with ⟨r', ⟨hj, rfl⟩ | ⟨hj, hr'⟩, hp, hk⟩
        · exact absurd hp hpend
        · exact ⟨hj, r', hr', hp, hk⟩
  · intro parent j
    show ((parentKeys r.parents).foldl _ _ : ParentIndex).Has parent j ↔ _ ∧
      ∃ r', (s.receiptPages.set id r).get j = some r' ∧ _
    rw [ParentIndex.has_addAll, hindex, mem_parentKeys]
    by_cases hj : j = id
    · subst hj
      simp [and_comm]
    · rw [OrderedMap.get_set_ne _ _ hj]
      simp [hj]
  · exact (h.tight.removeAll _ _).addAll _ _

theorem Exact.receiptDelete {s : ReceiptState} (h : Exact s) (id : Text) :
    Exact (s.receiptDelete id) := by
  rcases h.cleared id with ⟨hsched, hindex⟩
  unfold ReceiptState.receiptDelete
  cases hget : s.receiptPages.get id with
  | none => exact h
  | some old =>
      rw [hget, Option.getD_some] at hsched hindex
      have hpages : ∀ j r', (s.receiptPages.delete id).get j = some r' ↔
          j ≠ id ∧ s.receiptPages.get j = some r' := by
        intro j r'
        rw [OrderedMap.get_delete]
        by_cases hj : j = id
        · simp [hj]
        · simp [hj]
      constructor
      · intro j r' hr'
        exact h.flags j r' ((hpages j r').mp hr').2
      · intro j r' hr'
        exact h.stamps j r' ((hpages j r').mp hr').2
      · intro key j
        refine Iff.trans (hsched key j) ?_
        simp only [hpages]
        tauto
      · intro parent j
        refine Iff.trans (hindex parent j) ?_
        simp only [hpages]
        tauto
      · exact h.tight.removeAll _ _

end MarketInfo.Across
