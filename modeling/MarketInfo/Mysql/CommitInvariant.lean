import MarketInfo.Mysql.Commit

/-! # What the committed rows and the transactions keep

Every committed ingest row comes with its fact rows, and every committed fact row
with an ingest row. An open transaction holds rows with keys of its own, and what
it has not written yet is either still to be written or stored with the same
contents, so that its commit keeps all of this.
-/

namespace MarketInfo.Mysql

structure Good (s : System) (c : Nat) (t : Tx) : Prop where
  conn : c < s.next
  fresh : ∀ d ∈ s.ingest, d.id ≠ t.delivery.id
  keys : t.rows.Pairwise fun q r => q.rowKey ≠ r.rowKey
  own : ∀ q ∈ t.rows, q ∈ t.delivery.records
  apart : ∀ q ∈ t.rows, ∀ r ∈ s.rows, q.rowKey ≠ r.rowKey
  rest : ∀ r ∈ t.rest, r ∈ t.delivery.records
  covers : ∀ r ∈ t.delivery.records, r ∈ t.rest ∨ ∃ q ∈ t.rows ++ s.rows, q.Same r
  asked : t.asked = true → t.rest = []

/-- A transaction stays good where the store is the same. -/
theorem Good.same {s s' : System} {c : Nat} {t : Tx} (h : Good s c t) (hnext : s.next ≤ s'.next)
    (hingest : s'.ingest = s.ingest) (hrows : s'.rows = s.rows) : Good s' c t := by
  refine ⟨h.conn.trans_le hnext, ?_, h.keys, h.own, ?_, h.rest, ?_, h.asked⟩
  · rw [hingest]
    exact h.fresh
  · rw [hrows]
    exact h.apart
  · rw [hrows]
    exact h.covers

/-- Two transactions hold rows with different keys. -/
def Tx.Apart (t u : Tx) : Prop :=
  t.delivery.id ≠ u.delivery.id ∧ ∀ q ∈ t.rows, ∀ r ∈ u.rows, q.rowKey ≠ r.rowKey

theorem Tx.Apart.symm {t u : Tx} (h : t.Apart u) : u.Apart t :=
  ⟨h.1.symm, fun q hq r hr => (h.2 r hr q hq).symm⟩

structure Stores (s : System) : Prop where
  ids : s.ingest.Pairwise fun d e => d.id ≠ e.id
  keys : s.rows.Pairwise fun q r => q.rowKey ≠ r.rowKey
  shown : ∀ d ∈ s.ingest, ∀ r ∈ d.records, ∃ q ∈ s.rows, q.Same r
  origin : ∀ q ∈ s.rows, ∃ d ∈ s.ingest, q ∈ d.records
  good : ∀ c t, s.txs c = some t → Good s c t
  apart : ∀ c c' t u, s.txs c = some t → s.txs c' = some u → c ≠ c' → t.Apart u

def Phase.conn : Phase → Option Nat
  | .facts _ c => some c
  | .insert _ c _ _ => some c
  | .commit c => some c
  | _ => none

/-- The rows that a statement did not find, for the next `n` rows of the transaction. -/
structure Absent (s : System) (t : Tx) (n : Nat) (absent : List Record) : Prop where
  keys : absent.Pairwise fun q r => q.rowKey ≠ r.rowKey
  next : ∀ q ∈ absent, q ∈ t.rest
  covers : ∀ r ∈ t.rest.take n, ∃ q ∈ absent ++ (t.rows ++ s.rows), q.Same r

/-- What a phase says about the transaction on its connection, and success about the store. -/
def Fits (s : System) (d : Delivery) : Phase → Prop
  | .facts _ c => ∀ t, s.txs c = some t → t.delivery = d
  | .insert _ c n absent => ∀ t, s.txs c = some t → t.delivery = d ∧ Absent s t n absent
  | .commit c => ∀ t, s.txs c = some t → t.delivery = d ∧ t.rest = []
  | .done .success => ∃ x ∈ s.ingest, x.id = d.id ∧ x.header = d.header
  | _ => True

structure Inv (s : System) : Prop extends Stores s where
  conns : ∀ w c, (s.writers w).phase.conn = some c → c < s.next
  single : ∀ w w' c, (s.writers w).phase.conn = some c → (s.writers w').phase.conn = some c →
    w = w'
  fits : ∀ w, Fits s (s.writers w).delivery (s.writers w).phase

theorem inv_initial : Inv System.initial := by
  refine ⟨⟨List.Pairwise.nil, List.Pairwise.nil, by simp [System.initial],
    by simp [System.initial], ?_, ?_⟩, ?_, ?_, fun _ => trivial⟩
  · intro c t h
    cases h
  · intro c c' t u h
    cases h
  · intro w c h
    cases h
  · intro w w' c h
    cases h

/-- What a phase says stays true where its transaction is the same and the store has grown. -/
theorem Fits.mono {s s' : System} {d : Delivery} {p : Phase} (h : Fits s d p)
    (htx : ∀ c t, p.conn = some c → s'.txs c = some t → s.txs c = some t)
    (hingest : ∀ x ∈ s.ingest, x ∈ s'.ingest) (hrows : ∀ q ∈ s.rows, q ∈ s'.rows) :
    Fits s' d p := by
  have habsent : ∀ {t n absent}, Absent s t n absent → Absent s' t n absent := by
    intro t n absent ha
    refine ⟨ha.keys, ha.next, fun r hr => ?_⟩
    rcases ha.covers r hr with ⟨q, hq, hsame⟩
    refine ⟨q, ?_, hsame⟩
    simp only [List.mem_append] at hq ⊢
    rcases hq with hq | hq | hq
    · exact .inl hq
    · exact .inr (.inl hq)
    · exact .inr (.inr (hrows q hq))
  cases p with
  | facts first c => exact fun t ht => h t (htx c t rfl ht)
  | insert first c n absent =>
      intro t ht
      rcases h t (htx c t rfl ht) with ⟨hd, ha⟩
      exact ⟨hd, habsent ha⟩
  | commit c => exact fun t ht => h t (htx c t rfl ht)
  | done result =>
      cases result with
      | success =>
          rcases h with ⟨x, hx, hid⟩
          exact ⟨x, hingest x hx, hid⟩
      | _ => trivial
  | _ => trivial

@[simp] theorem setPhase_self (s : System) (w : Nat) (p : Phase) :
    (s.setPhase w p).writers w = ⟨p, (s.writers w).delivery⟩ := by
  simp [System.setPhase]

theorem setPhase_ne (s : System) {w w' : Nat} (p : Phase) (h : w' ≠ w) :
    (s.setPhase w p).writers w' = s.writers w' := by
  simp [System.setPhase, h]

/-- A writer goes on, with the connection it had or none. -/
theorem Inv.setPhase {s : System} (h : Inv s) (w : Nat) {p : Phase}
    (hconn : ∀ c, p.conn = some c → (s.writers w).phase.conn = some c)
    (hfits : Fits s (s.writers w).delivery p) : Inv (s.setPhase w p) := by
  have hold : ∀ w' c, ((s.setPhase w p).writers w').phase.conn = some c →
      (s.writers w').phase.conn = some c := by
    intro w' c hc
    by_cases hw : w' = w
    · subst hw
      rw [setPhase_self] at hc
      exact hconn c hc
    · rwa [setPhase_ne s p hw] at hc
  refine ⟨⟨h.ids, h.keys, h.shown, h.origin, fun c t ht => ?_, h.apart⟩,
    fun w' c hc => h.conns w' c (hold w' c hc),
    fun w' w'' c hc hc' => h.single w' w'' c (hold w' c hc) (hold w'' c hc'), fun w' => ?_⟩
  · exact (h.good c t ht).same (le_refl _) rfl rfl
  · by_cases hw : w' = w
    · subst hw
      rw [setPhase_self]
      exact hfits.mono (fun _ _ _ ht => ht) (fun _ hx => hx) fun _ hq => hq
    · rw [setPhase_ne s p hw]
      exact (h.fits w').mono (fun _ _ _ ht => ht) (fun _ hx => hx) fun _ hq => hq

@[simp] theorem setTx_self (s : System) (c : Nat) (t : Option Tx) : (s.setTx c t).txs c = t := by
  simp [System.setTx]

theorem setTx_ne (s : System) {c c' : Nat} (t : Option Tx) (h : c' ≠ c) :
    (s.setTx c t).txs c' = s.txs c' := by
  simp [System.setTx, h]

/-- A transaction is replaced by one that is as good and as far from the others. -/
theorem Stores.setTx {s : System} (h : Stores s) {c : Nat} {u : Tx} (hgood : Good s c u)
    (hapart : ∀ c' t', c' ≠ c → s.txs c' = some t' → u.Apart t') :
    Stores (s.setTx c (some u)) := by
  refine ⟨h.ids, h.keys, h.shown, h.origin, fun c' t' ht' => ?_, fun c₁ c₂ t₁ t₂ h₁ h₂ hne => ?_⟩
  · by_cases hc : c' = c
    · subst hc
      rw [setTx_self] at ht'
      cases ht'
      exact hgood.same (le_refl _) rfl rfl
    · rw [setTx_ne s _ hc] at ht'
      exact (h.good c' t' ht').same (le_refl _) rfl rfl
  · by_cases hc₁ : c₁ = c
    · subst hc₁
      rw [setTx_self] at h₁
      rw [setTx_ne s _ hne.symm] at h₂
      cases h₁
      exact hapart c₂ t₂ hne.symm h₂
    · rw [setTx_ne s _ hc₁] at h₁
      by_cases hc₂ : c₂ = c
      · subst hc₂
        rw [setTx_self] at h₂
        cases h₂
        exact (hapart c₁ t₁ hc₁ h₁).symm
      · rw [setTx_ne s _ hc₂] at h₂
        exact h.apart c₁ c₂ t₁ t₂ h₁ h₂ hne

/-- A writer changes the transaction on its connection and goes on. -/
theorem Inv.setTx {s : System} (h : Inv s) {w c : Nat} {u : Tx} {p : Phase}
    (hw : (s.writers w).phase.conn = some c) (hgood : Good s c u)
    (hapart : ∀ c' t', c' ≠ c → s.txs c' = some t' → u.Apart t')
    (hconn : ∀ c', p.conn = some c' → c' = c)
    (hfits : Fits (s.setTx c (some u)) (s.writers w).delivery p) :
    Inv ((s.setTx c (some u)).setPhase w p) := by
  have hold : ∀ w' c', (((s.setTx c (some u)).setPhase w p).writers w').phase.conn = some c' →
      (s.writers w').phase.conn = some c' := by
    intro w' c' hc
    by_cases hw' : w' = w
    · subst hw'
      rw [setPhase_self] at hc
      rw [hconn c' hc]
      exact hw
    · rwa [setPhase_ne _ p hw'] at hc
  have hstores := h.toStores.setTx hgood hapart
  refine ⟨⟨hstores.ids, hstores.keys, hstores.shown, hstores.origin, fun c' t' ht' => ?_,
    hstores.apart⟩, fun w' c' hc => h.conns w' c' (hold w' c' hc),
    fun w₁ w₂ c' h₁ h₂ => h.single w₁ w₂ c' (hold w₁ c' h₁) (hold w₂ c' h₂), fun w' => ?_⟩
  · exact (hstores.good c' t' ht').same (le_refl _) rfl rfl
  · by_cases hw' : w' = w
    · subst hw'
      rw [setPhase_self]
      exact hfits.mono (fun _ _ _ ht => ht) (fun _ hx => hx) fun _ hq => hq
    · rw [setPhase_ne _ p hw']
      refine (h.fits w').mono (fun c' t' hc ht => ?_) (fun _ hx => hx) fun _ hq => hq
      -- another writer's connection is another one
      have hne : c' ≠ c := by
        rintro rfl
        exact hw' (h.single w' w c' hc hw)
      change (s.setTx c (some u)).txs c' = some t' at ht
      rwa [setTx_ne s _ hne] at ht

theorem Inv.rollback {s : System} (h : Inv s) (c : Nat) : Inv (s.setTx c none) := by
  have hold : ∀ c' t', (s.setTx c none).txs c' = some t' → s.txs c' = some t' := by
    intro c' t' ht
    by_cases hc : c' = c
    · subst hc
      rw [setTx_self] at ht
      cases ht
    · rwa [setTx_ne s _ hc] at ht
  refine ⟨⟨h.ids, h.keys, h.shown, h.origin, fun c' t' ht => ?_, fun c₁ c₂ t₁ t₂ h₁ h₂ hne =>
    h.apart c₁ c₂ t₁ t₂ (hold c₁ t₁ h₁) (hold c₂ t₂ h₂) hne⟩, h.conns, h.single, fun w =>
    (h.fits w).mono (fun c' t' _ ht => hold c' t' ht) (fun _ hx => hx) fun _ hq => hq⟩
  exact (h.good c' t' (hold c' t' ht)).same (le_refl _) rfl rfl

/-- A writer without a connection opens a transaction for an ingest row that nobody holds. -/
theorem Inv.claim {s : System} (h : Inv s) {w : Nat} (first : Bool)
    (hw : (s.writers w).phase.conn = none)
    (hingest : ∀ x ∈ s.ingest, x.id ≠ (s.writers w).delivery.id)
    (hclaimed : ∀ c t, s.txs c = some t → t.delivery.id ≠ (s.writers w).delivery.id) :
    Inv (({ s with next := s.next + 1 }.setTx s.next
      (some ⟨(s.writers w).delivery, [], (s.writers w).delivery.records, false⟩)).setPhase w
        (.facts first s.next)) := by
  have hlt : ∀ c t, s.txs c = some t → c ≠ s.next := fun c t ht => (h.good c t ht).conn.ne
  have hwriter : ∀ w' c, w' ≠ w → (s.writers w').phase.conn = some c → c ≠ s.next := fun w' c _ hc =>
    (h.conns w' c hc).ne
  refine ⟨⟨h.ids, h.keys, h.shown, h.origin, fun c t ht => ?_, fun c₁ c₂ t₁ t₂ h₁ h₂ hne => ?_⟩,
    fun w' c hc => ?_, fun w₁ w₂ c h₁ h₂ => ?_, fun w' => ?_⟩
  · change Function.update s.txs s.next _ c = some t at ht
    by_cases hc : c = s.next
    · subst hc
      rw [Function.update_self] at ht
      cases ht
      exact ⟨Nat.lt_succ_self _, hingest, List.Pairwise.nil, by simp, by simp, fun _ hr => hr,
        fun _ hr => .inl hr, by simp⟩
    · rw [Function.update_of_ne hc] at ht
      exact (h.good c t ht).same (Nat.le_succ _) rfl rfl
  · change Function.update s.txs s.next _ c₁ = some t₁ at h₁
    change Function.update s.txs s.next _ c₂ = some t₂ at h₂
    by_cases hc₁ : c₁ = s.next
    · subst hc₁
      rw [Function.update_self] at h₁
      rw [Function.update_of_ne hne.symm] at h₂
      cases h₁
      exact ⟨(hclaimed c₂ t₂ h₂).symm, by simp⟩
    · rw [Function.update_of_ne hc₁] at h₁
      by_cases hc₂ : c₂ = s.next
      · subst hc₂
        rw [Function.update_self] at h₂
        cases h₂
        exact ⟨hclaimed c₁ t₁ h₁, by simp⟩
      · rw [Function.update_of_ne hc₂] at h₂
        exact h.apart c₁ c₂ t₁ t₂ h₁ h₂ hne
  · by_cases hw' : w' = w
    · subst hw'
      rw [setPhase_self] at hc
      cases hc
      exact Nat.lt_succ_self _
    · rw [setPhase_ne _ _ hw'] at hc
      exact Nat.lt_succ_of_lt (h.conns w' c hc)
  · by_cases hw₁ : w₁ = w
    · by_cases hw₂ : w₂ = w
      · rw [hw₁, hw₂]
      · subst hw₁
        rw [setPhase_self] at h₁
        rw [setPhase_ne _ _ hw₂] at h₂
        cases h₁
        exact absurd rfl (hwriter w₂ _ hw₂ h₂)
    · rw [setPhase_ne _ _ hw₁] at h₁
      by_cases hw₂ : w₂ = w
      · subst hw₂
        rw [setPhase_self] at h₂
        cases h₂
        exact absurd rfl (hwriter w₁ _ hw₁ h₁)
      · rw [setPhase_ne _ _ hw₂] at h₂
        exact h.single w₁ w₂ c h₁ h₂
  · by_cases hw' : w' = w
    · subst hw'
      rw [setPhase_self]
      intro t ht
      change Function.update s.txs s.next _ s.next = some t at ht
      rw [Function.update_self] at ht
      cases ht
      rfl
    · rw [setPhase_ne _ _ hw']
      refine (h.fits w').mono (fun c t hc ht => ?_) (fun _ hx => hx) fun _ hq => hq
      change Function.update s.txs s.next _ c = some t at ht
      rwa [Function.update_of_ne (hwriter w' c hw' hc)] at ht

/-- The commit of a transaction that has written everything. -/
theorem Inv.publish {s : System} (h : Inv s) {c : Nat} {t : Tx} (ht : s.txs c = some t)
    (hrest : t.rest = []) : Inv (s.publish c t) := by
  have hg := h.good c t ht
  have hold : ∀ c' t', (s.publish c t).txs c' = some t' → c' ≠ c ∧ s.txs c' = some t' := by
    intro c' t' ht'
    change Function.update s.txs c none c' = some t' at ht'
    by_cases hc : c' = c
    · subst hc
      rw [Function.update_self] at ht'
      cases ht'
    · rw [Function.update_of_ne hc] at ht'
      exact ⟨hc, ht'⟩
  have hingest : (s.publish c t).ingest = s.ingest ++ [t.delivery] := rfl
  have hrows : (s.publish c t).rows = s.rows ++ t.rows := rfl
  refine ⟨⟨?_, ?_, fun d hd r hr => ?_, fun q hq => ?_, fun c' t' ht' => ?_,
    fun c₁ c₂ t₁ t₂ h₁ h₂ hne => ?_⟩, h.conns, h.single, fun w => ?_⟩
  · rw [hingest, List.pairwise_append]
    refine ⟨h.ids, List.pairwise_singleton _ _, fun d hd e he => ?_⟩
    rw [List.mem_singleton.mp he]
    exact hg.fresh d hd
  · rw [hrows, List.pairwise_append]
    exact ⟨h.keys, hg.keys, fun q hq r hr => (hg.apart r hr q hq).symm⟩
  · rw [hingest, List.mem_append, List.mem_singleton] at hd
    rw [hrows]
    rcases hd with hd | rfl
    · rcases h.shown d hd r hr with ⟨q, hq, hsame⟩
      exact ⟨q, List.mem_append_left _ hq, hsame⟩
    · rcases hg.covers r hr with hleft | ⟨q, hq, hsame⟩
      · rw [hrest] at hleft
        cases hleft
      · exact ⟨q, List.mem_append.mpr (List.mem_append.mp hq).symm, hsame⟩
  · rw [hrows, List.mem_append] at hq
    rw [hingest]
    rcases hq with hq | hq
    · rcases h.origin q hq with ⟨d, hd, hqd⟩
      exact ⟨d, List.mem_append_left _ hd, hqd⟩
    · exact ⟨t.delivery, List.mem_append_right _ (List.mem_singleton_self _), hg.own q hq⟩
  · rcases hold c' t' ht' with ⟨hne, hs⟩
    have hg' := h.good c' t' hs
    have hap := h.apart c c' t t' ht hs hne.symm
    refine ⟨hg'.conn, fun d hd => ?_, hg'.keys, hg'.own, fun q hq r hr => ?_, hg'.rest,
      fun r hr => ?_, hg'.asked⟩
    · rw [hingest, List.mem_append, List.mem_singleton] at hd
      rcases hd with hd | rfl
      · exact hg'.fresh d hd
      · exact hap.1
    · rw [hrows, List.mem_append] at hr
      rcases hr with hr | hr
      · exact hg'.apart q hq r hr
      · exact (hap.2 r hr q hq).symm
    · refine (hg'.covers r hr).imp_right ?_
      rintro ⟨q, hq, hsame⟩
      rw [hrows]
      rw [← List.append_assoc]
      exact ⟨q, List.mem_append_left _ hq, hsame⟩
  · exact h.apart c₁ c₂ t₁ t₂ (hold c₁ t₁ h₁).2 (hold c₂ t₂ h₂).2 hne
  · refine (h.fits w).mono (fun c' t' _ ht' => (hold c' t' ht').2) (fun x hx => ?_) fun q hq => ?_
    · rw [hingest]
      exact List.mem_append_left _ hx
    · rw [hrows]
      exact List.mem_append_left _ hq

end MarketInfo.Mysql
