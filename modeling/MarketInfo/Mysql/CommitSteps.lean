import MarketInfo.Mysql.CommitInvariant

/-! # Every step keeps the invariant

One lemma a statement: what it reads of the store and of the other transactions is
what the change that it makes needs.
-/

namespace MarketInfo.Mysql

/-! ## What the statements read -/

theorem Inv.not_claimed {s : System} (h : Inv s) {id : BatchID} (hid : s.claimed id = false) {c : Nat}
    {t : Tx} (ht : s.txs c = some t) : t.delivery.id ≠ id := by
  intro heq
  unfold System.claimed at hid
  rw [List.any_eq_false] at hid
  have hc := hid c (List.mem_range.mpr (h.good c t ht).conn)
  rw [ht] at hc
  simp [heq] at hc

theorem Inv.not_held {s : System} (h : Inv s) {conn : Nat} {rs : List Record}
    (hheld : s.held conn rs = false) {c : Nat} {t : Tx} (hc : c ≠ conn) (ht : s.txs c = some t)
    {q r : Record} (hq : q ∈ t.rows) (hr : r ∈ rs) : q.rowKey ≠ r.rowKey := by
  intro heq
  unfold System.held at hheld
  rw [List.any_eq_false] at hheld
  refine hheld c (List.mem_range.mpr (h.good c t ht).conn) ?_
  rw [decide_eq_true_iff, ht]
  refine ⟨hc, ?_⟩
  rw [Option.any_some, List.any_eq_true]
  refine ⟨q, hq, List.any_eq_true.mpr ⟨r, hr, ?_⟩⟩
  exact decide_eq_true heq

theorem stored_none {s : System} {t : Tx} {r : Record} (h : s.stored t r = none) {q : Record}
    (hq : q ∈ t.rows ++ s.rows) : q.rowKey ≠ r.rowKey := by
  intro heq
  unfold System.stored at h
  have hnot := List.find?_eq_none.mp h q hq
  exact hnot (decide_eq_true heq)

theorem stored_some {s : System} {t : Tx} {r o : Record} (h : s.stored t r = some o) :
    o ∈ t.rows ++ s.rows ∧ o.rowKey = r.rowKey := by
  unfold System.stored at h
  refine ⟨List.mem_of_find?_eq_some h, ?_⟩
  have hkey := List.find?_some h
  exact of_decide_eq_true hkey

theorem mem_of_mem_distinct {rs : List Record} {q : Record} (h : q ∈ distinct rs) : q ∈ rs := by
  induction rs with
  | nil => exact h
  | cons r rs ih =>
      rcases List.mem_cons.mp h with rfl | h
      · exact List.mem_cons_self ..
      · exact List.mem_cons_of_mem _ (ih (List.mem_filter.mp h).1)

theorem distinct_keys (rs : List Record) :
    (distinct rs).Pairwise fun q r => q.rowKey ≠ r.rowKey := by
  induction rs with
  | nil => exact List.Pairwise.nil
  | cons r rs ih =>
      refine List.pairwise_cons.mpr ⟨fun q hq => ?_, ih.filter _⟩
      have hne := (List.mem_filter.mp hq).2
      exact (of_decide_eq_true hne).symm

theorem exists_distinct {rs : List Record} {r : Record} (h : r ∈ rs) :
    ∃ q ∈ distinct rs, q.rowKey = r.rowKey := by
  induction rs with
  | nil => cases h
  | cons x rs ih =>
      rcases List.mem_cons.mp h with rfl | h
      · exact ⟨r, List.mem_cons_self .., rfl⟩
      · rcases ih h with ⟨q, hq, hkey⟩
        by_cases hx : q.rowKey = x.rowKey
        · exact ⟨x, List.mem_cons_self .., hx ▸ hkey⟩
        · exact ⟨q, List.mem_cons_of_mem _ (List.mem_filter.mpr ⟨hq, decide_eq_true hx⟩), hkey⟩

/-- Without a clash one row of each key stands for all rows of the statement. -/
theorem same_distinct {rs : List Record} (hclash : clash rs = false) {r : Record} (h : r ∈ rs) :
    ∃ q ∈ distinct rs, q.Same r := by
  rcases exists_distinct h with ⟨q, hq, hkey⟩
  refine ⟨q, hq, hkey, ?_⟩
  by_contra hne
  unfold clash at hclash
  rw [List.any_eq_false] at hclash
  refine hclash q (mem_of_mem_distinct hq) ?_
  exact List.any_eq_true.mpr ⟨r, h, decide_eq_true ⟨hkey, hne⟩⟩

/-! ## Writing rows -/

theorem Good.write {s : System} {c : Nat} {t : Tx} (h : Good s c t) {fresh : List Record} {n : Nat}
    (hkeys : fresh.Pairwise fun q r => q.rowKey ≠ r.rowKey) (hin : ∀ q ∈ fresh, q ∈ t.rest)
    (hnew : ∀ q ∈ fresh, ∀ r ∈ t.rows ++ s.rows, r.rowKey ≠ q.rowKey)
    (hcov : ∀ r ∈ t.rest.take n, ∃ q ∈ fresh ++ (t.rows ++ s.rows), q.Same r) :
    Good s c { t with rows := t.rows ++ fresh, rest := t.rest.drop n } := by
  refine ⟨h.conn, h.fresh, ?_, fun q hq => ?_, fun q hq r hr => ?_, fun r hr => ?_, fun r hr => ?_,
    fun hasked => ?_⟩
  · exact List.pairwise_append.mpr ⟨h.keys, hkeys, fun q hq r hr =>
      hnew r hr q (List.mem_append_left _ hq)⟩
  · rcases List.mem_append.mp hq with hq | hq
    · exact h.own q hq
    · exact h.rest q (hin q hq)
  · rcases List.mem_append.mp hq with hq | hq
    · exact h.apart q hq r hr
    · exact (hnew q hq r (List.mem_append_right _ hr)).symm
  · exact h.rest r (List.mem_of_mem_drop hr)
  · dsimp only
    rw [List.append_assoc]
    rcases h.covers r hr with hleft | ⟨q, hq, hsame⟩
    · rw [← List.take_append_drop n t.rest] at hleft
      rcases List.mem_append.mp hleft with htake | hdrop
      · right
        rcases hcov r htake with ⟨q, hq, hsame⟩
        refine ⟨q, ?_, hsame⟩
        simp only [List.mem_append] at hq ⊢
        tauto
      · exact .inl hdrop
    · right
      refine ⟨q, ?_, hsame⟩
      simp only [List.mem_append] at hq ⊢
      tauto
  · have hnil := h.asked hasked
    simp [hnil]

/-- A statement writes rows with keys that nobody holds. -/
theorem Inv.write {s : System} (h : Inv s) {w c : Nat} {t : Tx} (first : Bool)
    (hw : (s.writers w).phase.conn = some c) (ht : s.txs c = some t)
    (hd : t.delivery = (s.writers w).delivery) {fresh : List Record} {n : Nat}
    (hkeys : fresh.Pairwise fun q r => q.rowKey ≠ r.rowKey) (hin : ∀ q ∈ fresh, q ∈ t.rest)
    (hnew : ∀ q ∈ fresh, ∀ r ∈ t.rows ++ s.rows, r.rowKey ≠ q.rowKey)
    (hheld : ∀ c' t', c' ≠ c → s.txs c' = some t' → ∀ q ∈ t'.rows, ∀ r ∈ fresh,
      q.rowKey ≠ r.rowKey)
    (hcov : ∀ r ∈ t.rest.take n, ∃ q ∈ fresh ++ (t.rows ++ s.rows), q.Same r) :
    Inv ((s.setTx c (some { t with rows := t.rows ++ fresh, rest := t.rest.drop n })).setPhase w
      (.facts first c)) := by
  refine h.setTx hw ((h.good c t ht).write hkeys hin hnew hcov) (fun c' t' hne ht' => ?_)
    (fun c' hc => by cases hc; rfl) fun t' ht' => ?_
  · have hap := h.apart c c' t t' ht ht' hne.symm
    refine ⟨hap.1, fun q hq r hr => ?_⟩
    rcases List.mem_append.mp hq with hq | hq
    · exact hap.2 q hq r hr
    · exact (hheld c' t' hne ht' r hr q hq).symm
  · rw [setTx_self] at ht'
    cases ht'
    exact hd

/-! ## The steps -/

theorem committed_true {s : System} {d : Delivery} (h : s.committed d = some true) :
    ∃ x ∈ s.ingest, x.id = d.id ∧ x.header = d.header := by
  unfold System.committed at h
  rcases Option.map_eq_some_iff.mp h with ⟨x, hx, hheader⟩
  have hid := List.find?_some hx
  exact ⟨x, List.mem_of_find?_eq_some hx, of_decide_eq_true hid, of_decide_eq_true hheader⟩

theorem Inv.read {s s' : System} (h : Inv s) {w : Nat} (hs : s.read w = some s') : Inv s' := by
  unfold System.read at hs
  dsimp only at hs
  split at hs
  · split at hs
    · cases hs
      exact h.setPhase w (by simp [Phase.conn]) trivial
    · rename_i hcommitted
      cases hs
      exact h.setPhase w (by simp [Phase.conn]) (committed_true hcommitted)
    · cases hs
      exact h.setPhase w (by simp [Phase.conn]) trivial
  · split at hs
    · cases hs
      exact h.setPhase w (by simp [Phase.conn]) trivial
    · rename_i hcommitted
      cases hs
      exact h.setPhase w (by simp [Phase.conn]) (committed_true hcommitted)
    · cases hs
      exact h.setPhase w (by simp [Phase.conn]) trivial
  · cases hs

theorem Inv.claimStep {s s' : System} (h : Inv s) {w : Nat} (hs : s.claim w = some s') :
    Inv s' := by
  unfold System.claim at hs
  dsimp only at hs
  split at hs
  · rename_i first hphase
    split_ifs at hs with hduplicate hclaimed
    · cases hs
      exact h.setPhase w (by simp [Phase.conn]) trivial
    · cases hs
      refine h.claim first (by rw [hphase]; rfl) (fun x hx heq => hduplicate ?_) fun c t ht =>
        h.not_claimed (by simpa using hclaimed) ht
      exact List.any_eq_true.mpr ⟨x, hx, decide_eq_true heq⟩
  · cases hs

theorem Inv.send {s s' : System} (h : Inv s) {w n : Nat} (hs : s.send w n = some s') : Inv s' := by
  unfold System.send at hs
  dsimp only at hs
  split at hs
  · rename_i first c hphase
    have hw : (s.writers w).phase.conn = some c := by rw [hphase]; rfl
    split at hs
    · rename_i t r ht hr
      have hd : t.delivery = (s.writers w).delivery := by
        have hfits := h.fits w
        rw [hphase] at hfits
        exact hfits t ht
      split_ifs at hs with hchunk hclash hfirst hfound hheld hheld hdiffers
      · cases hs
        exact h.setPhase w (by simp [Phase.conn]) trivial
      · cases hs
        exact (h.rollback c).setPhase w (by simp [Phase.conn]) trivial
      · -- the rows are inserted without having been looked for
        cases hs
        have hclash' : clash (t.rest.take n) = false := by simpa using hclash
        have hnone : ∀ q ∈ t.rest.take n, s.stored t q = none := fun q hq => by
          by_contra hsome
          exact hfound (List.any_eq_true.mpr ⟨q, hq, Option.isSome_iff_ne_none.mpr hsome⟩)
        refine h.write first hw ht hd (distinct_keys _)
          (fun q hq => List.mem_of_mem_take (mem_of_mem_distinct hq))
          (fun q hq x hx => stored_none (hnone q (mem_of_mem_distinct hq)) hx)
          (fun c' t' hne ht' x hx q hq => h.not_held (by simpa using hheld) hne ht' hx
            (mem_of_mem_distinct hq)) fun x hx => ?_
        rcases same_distinct hclash' hx with ⟨q, hq, hsame⟩
        exact ⟨q, List.mem_append_left _ hq, hsame⟩
      · cases hs
        exact h.setPhase w (by simp [Phase.conn]) trivial
      · -- the rows that are not found will be inserted, the others agree
        cases hs
        have hclash' : clash (t.rest.take n) = false := by simpa using hclash
        refine h.setPhase w (fun c' hc' => by rw [← hc', hw]; rfl) fun t' ht' => ?_
        rw [ht] at ht'
        cases ht'
        refine ⟨hd, (distinct_keys _).filter _, fun q hq => ?_, fun x hx => ?_⟩
        · exact List.mem_of_mem_take (mem_of_mem_distinct (List.mem_filter.mp hq).1)
        · rcases same_distinct hclash' hx with ⟨q, hq, hsame⟩
          cases hstored : s.stored t q with
          | none =>
              refine ⟨q, List.mem_append_left _ (List.mem_filter.mpr ⟨hq, ?_⟩), hsame⟩
              rw [hstored]
              rfl
          | some o =>
              rcases stored_some hstored with ⟨ho, hkey⟩
              refine ⟨o, List.mem_append_right _ ho, hkey.trans hsame.1, ?_⟩
              have hagrees : o.content = q.content := by
                by_contra hne
                refine hdiffers (List.any_eq_true.mpr ⟨q, mem_of_mem_distinct hq, ?_⟩)
                rw [hstored, Option.any_some]
                exact decide_eq_true hne
              exact hagrees.trans hsame.2
    · cases hs
  · cases hs

theorem Inv.insert {s s' : System} (h : Inv s) {w : Nat} (hs : s.insert w = some s') : Inv s' := by
  unfold System.insert at hs
  split at hs
  · rename_i first c n absent hphase
    have hw : (s.writers w).phase.conn = some c := by rw [hphase]; rfl
    split at hs
    · rename_i t ht
      have hfits := h.fits w
      rw [hphase] at hfits
      rcases hfits t ht with ⟨hd, habsent⟩
      split_ifs at hs with hfound hheld
      · cases hs
        exact h.setPhase w (by simp [Phase.conn]) trivial
      · cases hs
        have hnone : ∀ q ∈ absent, s.stored t q = none := fun q hq => by
          by_contra hsome
          exact hfound (List.any_eq_true.mpr ⟨q, hq, Option.isSome_iff_ne_none.mpr hsome⟩)
        exact h.write first hw ht hd habsent.keys habsent.next
          (fun q hq x hx => stored_none (hnone q hq) hx)
          (fun c' t' hne ht' x hx q hq => h.not_held (by simpa using hheld) hne ht' hx hq)
          habsent.covers
    · cases hs
  · cases hs

theorem Inv.stamp {s s' : System} (h : Inv s) {w : Nat} (hs : s.stamp w = some s') : Inv s' := by
  unfold System.stamp at hs
  split at hs
  · rename_i first c hphase
    have hw : (s.writers w).phase.conn = some c := by rw [hphase]; rfl
    split at hs
    · rename_i t ht
      split_ifs at hs with hrest
      cases hs
      refine h.setPhase w (fun c' hc' => by rw [← hc', hw]; rfl) fun t' ht' => ?_
      rw [ht] at ht'
      cases ht'
      have hfits := h.fits w
      rw [hphase] at hfits
      exact ⟨hfits t ht, hrest⟩
    · cases hs
  · cases hs

/-- A writer that asks for the commit has written everything. -/
theorem Inv.committing {s : System} (h : Inv s) {w c : Nat} {t : Tx}
    (hphase : (s.writers w).phase = .commit c) (ht : s.txs c = some t) :
    t.delivery = (s.writers w).delivery ∧ t.rest = [] := by
  have hfits := h.fits w
  rw [hphase] at hfits
  exact hfits t ht

theorem Inv.commit {s s' : System} (h : Inv s) {w : Nat} (hs : s.commit w = some s') : Inv s' := by
  unfold System.commit at hs
  split at hs
  · rename_i c hphase
    split at hs
    · rename_i t ht
      cases hs
      rcases h.committing hphase ht with ⟨hd, hrest⟩
      refine (h.publish ht hrest).setPhase w (by simp [Phase.conn]) ⟨t.delivery, ?_, ?_⟩
      · exact List.mem_append_right _ (List.mem_singleton_self _)
      · change t.delivery.id = (s.writers w).delivery.id ∧
          t.delivery.header = (s.writers w).delivery.header
        rw [hd]
        exact ⟨rfl, rfl⟩
    · cases hs
  · cases hs

theorem Inv.fail {s s' : System} (h : Inv s) {w : Nat} (hs : s.fail w = some s') : Inv s' := by
  unfold System.fail at hs
  split at hs
  · cases hs
  · cases hs
  · rename_i c hphase
    have hw : (s.writers w).phase.conn = some c := by rw [hphase]; rfl
    split at hs
    · rename_i t ht
      cases hs
      rcases h.committing hphase ht with ⟨-, hrest⟩
      have hg := h.good c t ht
      refine h.setTx hw ⟨hg.conn, hg.fresh, hg.keys, hg.own, hg.apart, hg.rest, hg.covers,
        fun _ => hrest⟩ (fun c' t' hne ht' => h.apart c c' t t' ht ht' hne.symm)
        (by simp [Phase.conn]) trivial
    · cases hs
      exact h.setPhase w (by simp [Phase.conn]) trivial
  · cases hs
    exact h.setPhase w (by simp [Phase.conn]) trivial

theorem Inv.server {s s' : System} (h : Inv s) {c : Nat} {commit : Bool}
    (hs : s.server c commit = some s') : Inv s' := by
  unfold System.server at hs
  split at hs
  · rename_i t ht
    split_ifs at hs with hcommit hasked
    · cases hs
      exact h.publish ht ((h.good c t ht).asked hasked)
    · cases hs
      exact h.rollback c
  · cases hs

/-- A writer takes another delivery, without a connection yet. -/
theorem Inv.start {s : System} (h : Inv s) (w : Nat) (d : Delivery) (own : Bool) :
    Inv (s.start w d own) := by
  have hself : (s.start w d own).writers w =
      ⟨if own then .precheck true else .done .fenced, d⟩ := by
    simp [System.start]
  have hne : ∀ {w'}, w' ≠ w → (s.start w d own).writers w' = s.writers w' := fun hw => by
    simp [System.start, hw]
  have hold : ∀ w' c, ((s.start w d own).writers w').phase.conn = some c →
      (s.writers w').phase.conn = some c := by
    intro w' c hc
    by_cases hw : w' = w
    · subst hw
      rw [hself] at hc
      cases own <;> cases hc
    · rwa [hne hw] at hc
  refine ⟨⟨h.ids, h.keys, h.shown, h.origin, fun c t ht => ?_, h.apart⟩,
    fun w' c hc => h.conns w' c (hold w' c hc),
    fun w₁ w₂ c h₁ h₂ => h.single w₁ w₂ c (hold w₁ c h₁) (hold w₂ c h₂), fun w' => ?_⟩
  · exact (h.good c t ht).same (le_refl _) rfl rfl
  · by_cases hw : w' = w
    · subst hw
      rw [hself]
      cases own <;> trivial
    · rw [hne hw]
      exact (h.fits w').mono (fun _ _ _ ht => ht) (fun _ hx => hx) fun _ hq => hq

theorem Inv.step {s s' : System} (h : Inv s) {a : Act} (hs : s.Step a s') : Inv s' := by
  unfold System.Step System.step at hs
  cases a with
  | start w d own =>
      dsimp only at hs
      split at hs
      · cases hs
        exact h.start w d own
      · cases hs
        exact h.start w d own
      · cases hs
  | read w => exact h.read hs
  | fence w same =>
      dsimp only at hs
      split at hs
      · cases hs
        cases same with
        | true => exact h.setPhase w (by simp [Phase.conn]) trivial
        | false => exact h.setPhase w (by simp [Phase.conn]) trivial
      · cases hs
  | claim w => exact h.claimStep hs
  | send w n => exact h.send hs
  | insert w => exact h.insert hs
  | stamp w => exact h.stamp hs
  | commit w => exact h.commit hs
  | fail w => exact h.fail hs
  | server c commit => exact h.server hs

end MarketInfo.Mysql
