import MarketInfo.Mysql.CommitSteps

/-! # A minute is committed once

In every order of the writers' statements, with any of them failing and any answer
lost, the rows of a minute become visible in one step and stay as they are, success
is answered for what is stored only, and another content under the same identity
is a conflict.
-/

namespace MarketInfo.Mysql

/-- The writer whose step it is. -/
def Act.writer : Act → Option Nat
  | .start w _ _ => some w
  | .read w => some w
  | .fence w _ => some w
  | .claim w => some w
  | .send w _ => some w
  | .insert w => some w
  | .stamp w => some w
  | .commit w => some w
  | .fail w => some w
  | .server _ _ => none

/-- The store is as it was. -/
def System.Keeps (s s' : System) : Prop := s'.ingest = s.ingest ∧ s'.rows = s.rows

/-- A transaction's rows became visible, all of them at once. -/
def System.Shows (s : System) (t : Tx) (s' : System) : Prop :=
  s'.ingest = s.ingest ++ [t.delivery] ∧ s'.rows = s.rows ++ t.rows

theorem read_keeps {s s' : System} {w : Nat} (h : s.read w = some s') : s.Keeps s' := by
  unfold System.read at h
  dsimp only at h
  split at h
  · split at h <;> cases h <;> exact ⟨rfl, rfl⟩
  · split at h <;> cases h <;> exact ⟨rfl, rfl⟩
  · cases h

theorem claim_keeps {s s' : System} {w : Nat} (h : s.claim w = some s') : s.Keeps s' := by
  unfold System.claim at h
  dsimp only at h
  split at h
  · split_ifs at h <;> cases h <;> exact ⟨rfl, rfl⟩
  · cases h

theorem send_keeps {s s' : System} {w n : Nat} (h : s.send w n = some s') : s.Keeps s' := by
  unfold System.send at h
  dsimp only at h
  split at h
  · split at h
    · split_ifs at h <;> cases h <;> exact ⟨rfl, rfl⟩
    · cases h
  · cases h

theorem insert_keeps {s s' : System} {w : Nat} (h : s.insert w = some s') : s.Keeps s' := by
  unfold System.insert at h
  split at h
  · split at h
    · split_ifs at h <;> cases h <;> exact ⟨rfl, rfl⟩
    · cases h
  · cases h

theorem stamp_keeps {s s' : System} {w : Nat} (h : s.stamp w = some s') : s.Keeps s' := by
  unfold System.stamp at h
  split at h
  · split at h
    · split_ifs at h
      cases h
      exact ⟨rfl, rfl⟩
    · cases h
  · cases h

theorem fail_keeps {s s' : System} {w : Nat} (h : s.fail w = some s') : s.Keeps s' := by
  unfold System.fail at h
  split at h
  · cases h
  · cases h
  · split at h <;> cases h <;> exact ⟨rfl, rfl⟩
  · cases h
    exact ⟨rfl, rfl⟩

theorem commit_shows {s s' : System} {w : Nat} (h : s.commit w = some s') :
    ∃ c t, (s.writers w).phase = .commit c ∧ s.txs c = some t ∧ s.Shows t s' := by
  unfold System.commit at h
  split at h
  · rename_i c hphase
    split at h
    · rename_i t ht
      cases h
      exact ⟨c, t, hphase, ht, rfl, rfl⟩
    · cases h
  · cases h

/-- A step keeps the store, or it shows the rows of one open transaction: that of the writer whose
commit it is, or one that is left to the server. -/
theorem step_store {s s' : System} {a : Act} (h : s.Step a s') :
    s.Keeps s' ∨ ∃ c t, s.txs c = some t ∧ s.Shows t s' ∧
      ∀ w, a.writer = some w → (s.writers w).phase = .commit c := by
  unfold System.Step System.step at h
  cases a with
  | start w d own =>
      dsimp only at h
      split at h <;> cases h <;> exact .inl ⟨rfl, rfl⟩
  | read w => exact .inl (read_keeps h)
  | fence w same =>
      dsimp only at h
      split at h <;> cases h
      exact .inl ⟨rfl, rfl⟩
  | claim w => exact .inl (claim_keeps h)
  | send w n => exact .inl (send_keeps h)
  | insert w => exact .inl (insert_keeps h)
  | stamp w => exact .inl (stamp_keeps h)
  | commit w =>
      rcases commit_shows h with ⟨c, t, hphase, ht, hshows⟩
      refine .inr ⟨c, t, ht, hshows, fun w' hw' => ?_⟩
      cases hw'
      exact hphase
  | fail w => exact .inl (fail_keeps h)
  | server c commit =>
      unfold System.server at h
      dsimp only at h
      split at h
      · rename_i t ht
        split_ifs at h with hcommit hasked
        · cases h
          exact .inr ⟨c, t, ht, ⟨rfl, rfl⟩, fun w hw => by cases hw⟩
        · cases h
          exact .inl ⟨rfl, rfl⟩
      · cases h

theorem inv_run {s : System} {acts : List Act}
    (h : Transition.Run System.Step System.initial acts s) : Inv s :=
  h.invariant Inv inv_initial fun _ _ _ hs hinv => hinv.step hs

/-- The ingest row of an identity is unique. -/
theorem Stores.unique {s : System} (h : Stores s) {x y : Delivery} (hx : x ∈ s.ingest)
    (hy : y ∈ s.ingest) (hid : x.id = y.id) : x = y := by
  by_contra hne
  have hsymm : Std.Symm fun d e : Delivery => d.id ≠ e.id := ⟨fun _ _ hab => hab.symm⟩
  exact h.ids.forall hx hy hne hid

/-- So the row that is stored is the one that `Committed` reads. -/
theorem Stores.committed {s : System} (h : Stores s) {x d : Delivery} (hx : x ∈ s.ingest)
    (hid : x.id = d.id) : s.committed d = some (decide (x.header = d.header)) := by
  unfold System.committed
  cases hfind : s.ingest.find? fun y => y.id = d.id with
  | none =>
      have hnot := List.find?_eq_none.mp hfind x hx
      exact absurd (decide_eq_true hid) hnot
  | some y =>
      have hyid : y.id = d.id := by simpa using List.find?_some hfind
      rw [h.unique (List.mem_of_find?_eq_some hfind) hx (hyid.trans hid.symm)]
      rfl

/-- The statement of `Committed` answers a conflict where another content is stored. -/
theorem Inv.read_conflict {s : System} (h : Inv s) {w : Nat} {x : Delivery} (hx : x ∈ s.ingest)
    (hid : x.id = (s.writers w).delivery.id) (hheader : x.header ≠ (s.writers w).delivery.header)
    (hphase : (∃ first, (s.writers w).phase = .precheck first) ∨ (s.writers w).phase = .confirm) :
    s.Step (.read w) (s.setPhase w (.done .conflict)) := by
  have hcommitted := h.toStores.committed hx hid
  rw [decide_eq_false hheader] at hcommitted
  unfold System.Step System.step System.read
  rcases hphase with ⟨first, hphase⟩ | hphase
  · simp only [hphase, hcommitted]
  · simp only [hphase, hcommitted]

/-- A writer whose identity is stored has no transaction that it could commit. -/
theorem Inv.keeps_of_stored {s s' : System} (h : Inv s) {a : Act} {w : Nat} {x : Delivery}
    (hx : x ∈ s.ingest) (hid : x.id = (s.writers w).delivery.id) (hw : a.writer = some w)
    (hs : s.Step a s') : s.Keeps s' := by
  rcases step_store hs with hkeeps | ⟨c, t, ht, -, hphase⟩
  · exact hkeeps
  · rcases h.committing (hphase w hw) ht with ⟨hd, -⟩
    refine absurd ?_ ((h.good c t ht).fresh x hx)
    rw [hd]
    exact hid

/-- In every state that the writers and the server reach: ingest rows and fact rows are unique;
each ingest row comes with its fact rows and each fact row with an ingest row; a step adds one
ingest row and its fact rows at once or changes nothing; success is answered only for what is
stored; and a writer of another content under a stored identity changes nothing, is never
answered success, and is answered a conflict where it reads the row. -/
theorem commit_exactly_once {acts : List Act} {s : System}
    (hrun : Transition.Run System.Step System.initial acts s) :
    (s.ingest.Pairwise fun d e => d.id ≠ e.id) ∧
      (s.rows.Pairwise fun q r => q.rowKey ≠ r.rowKey) ∧
      (∀ d ∈ s.ingest, ∀ r ∈ d.records, ∃ q ∈ s.rows, q.Same r) ∧
      (∀ q ∈ s.rows, ∃ d ∈ s.ingest, q ∈ d.records) ∧
      (∀ a s', s.Step a s' → s.Keeps s' ∨ ∃ t, s.Shows t s') ∧
      (∀ w, (s.writers w).phase = .done .success →
        ∃ x ∈ s.ingest, x.id = (s.writers w).delivery.id ∧
          x.header = (s.writers w).delivery.header) ∧
      ∀ w, ∀ x ∈ s.ingest, x.id = (s.writers w).delivery.id →
        x.header ≠ (s.writers w).delivery.header →
          (s.writers w).phase ≠ .done .success ∧
            ((∃ first, (s.writers w).phase = .precheck first) ∨ (s.writers w).phase = .confirm →
              s.Step (.read w) (s.setPhase w (.done .conflict))) ∧
            ∀ a s', a.writer = some w → s.Step a s' → s.Keeps s' := by
  have h := inv_run hrun
  have hsuccess : ∀ w, (s.writers w).phase = .done .success →
      ∃ x ∈ s.ingest, x.id = (s.writers w).delivery.id ∧
        x.header = (s.writers w).delivery.header := fun w hphase => by
    have hfits := h.fits w
    rw [hphase] at hfits
    exact hfits
  refine ⟨h.ids, h.keys, h.shown, h.origin, fun a s' hs => ?_, hsuccess,
    fun w x hx hid hheader => ⟨fun hphase => ?_, h.read_conflict hx hid hheader,
      fun a s' hw hs => h.keeps_of_stored hx hid hw hs⟩⟩
  · rcases step_store hs with hkeeps | ⟨c, t, -, hshows, -⟩
    · exact .inl hkeeps
    · exact .inr ⟨t, hshows⟩
  · rcases hsuccess w hphase with ⟨y, hy, hyid, hyheader⟩
    refine hheader ?_
    rw [h.unique hx hy (hid.trans hyid.symm)]
    exact hyheader

def knownID : BatchID := ⟨"market", "cex", [7]⟩

def knownDelivery (digest : Hash) : Delivery :=
  ⟨knownID, ⟨digest, 1, 2, "books", 5, 60⟩, [⟨.orderBookMinute, [7], digest, 0⟩]⟩

/-- One writer commits a minute; another one then presents the identity with another content. -/
def knownActs : List Act :=
  [.start 0 (knownDelivery 1) true, .read 0, .fence 0 true, .claim 0, .send 0 1, .stamp 0,
    .commit 0, .start 1 (knownDelivery 2) true, .read 1]

theorem commit_exactly_once_conflict :
    ∃ s, Transition.Run System.Step System.initial knownActs s ∧
      (s.writers 0).phase = .done .success ∧ (s.writers 1).phase = .done .conflict ∧
      s.ingest = [knownDelivery 1] ∧ ∀ q ∈ s.rows, ∃ d ∈ s.ingest, q ∈ d.records := by
  have hrun : ∃ s, Transition.Run System.Step System.initial knownActs s ∧
      (s.writers 0).phase = .done .success ∧ (s.writers 1).phase = .done .conflict ∧
      s.ingest = [knownDelivery 1] :=
    ⟨_, .cons rfl (.cons rfl (.cons rfl (.cons rfl (.cons rfl (.cons rfl (.cons rfl
      (.cons rfl (.cons rfl (.nil _))))))))), rfl, rfl, rfl⟩
  rcases hrun with ⟨s, hrun, hsuccess, hconflict, hingest⟩
  exact ⟨s, hrun, hsuccess, hconflict, hingest, (commit_exactly_once hrun).2.2.2.1⟩

end MarketInfo.Mysql
