import MarketInfo.Across.ReceiptRuns

/-! # Selecting the next receipt

Under one urgency the schedule is in the order of the last attempts, so the
paged scan may stop at the first recent one, and what it returns is the least
schedulable task of all.
-/

namespace MarketInfo.Across

open Json (Text)

/-! ## Order of texts and numbers -/

theorem append_lt_append {a b : Text} (hlength : a.length = b.length) (h : a < b) (x y : Text) :
    a ++ x < b ++ y := by
  induction a generalizing b with
  | nil =>
      rw [List.length_nil] at hlength
      rw [List.length_eq_zero_iff.mp hlength.symm] at h
      exact absurd h (lt_irrefl _)
  | cons c a ih =>
      rcases b with _ | ⟨d, b⟩
      · cases hlength
      · rw [List.cons_lt_cons_iff] at h
        rw [List.cons_append, List.cons_append, List.cons_lt_cons_iff]
        rcases h with h | ⟨rfl, h⟩
        · exact .inl h
        · exact .inr ⟨rfl, ih (Nat.succ.inj hlength) h⟩

theorem append_lt_append_left (a : Text) {x y : Text} (h : x < y) : a ++ x < a ++ y := by
  induction a with
  | nil => exact h
  | cons c a ih =>
      rw [List.cons_append, List.cons_append, List.cons_lt_cons_iff]
      exact .inr ⟨rfl, ih⟩

theorem digitChar_lt {m n : Nat} (hmn : m < n) (hn : n < 10) :
    Nat.digitChar m < Nat.digitChar n := by
  interval_cases n <;> interval_cases m <;> decide

/-- Fixed-width digits are in the order of the numbers. -/
theorem fixedDigits_lt (width : Nat) {m n : Nat} (hmn : m < n) (hn : n < 10 ^ width) :
    fixedDigits width m < fixedDigits width n := by
  induction width generalizing m n with
  | zero => omega
  | succ width ih =>
      rw [pow_succ] at hn
      rw [fixedDigits, fixedDigits]
      by_cases hhigh : m / 10 < n / 10
      · exact append_lt_append (by rw [length_fixedDigits, length_fixedDigits])
          (ih hhigh (by omega)) _ _
      · have hsame : m / 10 = n / 10 := by omega
        rw [hsame]
        refine append_lt_append_left _ ?_
        rw [List.cons_lt_cons_iff]
        exact .inl (digitChar_lt (by omega) (by omega))

theorem stampText_lt {m n : Int} (hm : 0 ≤ m) (hmn : m < n) (hn : n < 2 ^ 63) :
    stampText m < stampText n := by
  unfold stampText
  rw [if_neg (by omega), if_neg (by omega)]
  exact fixedDigits_lt 20 (by omega) (by omega)

/-! ## The schedule under one urgency -/

theorem Receipt.Stamped.stamp {r : Receipt} (h : r.Stamped) : 0 ≤ r.stamp ∧ r.stamp < 2 ^ 63 := by
  unfold Receipt.stamp
  rcases h with h | h
  · rw [if_pos h]
    decide
  · split_ifs
    · decide
    · exact ⟨h.1.le, h.2⟩

theorem stamp_le_of_key {id id' : Text} {r r' : Receipt} (hr : r.Stamped) (hr' : r'.Stamped)
    (hurgent : r.urgent = r'.urgent)
    (hkey : receiptScheduleKey id r < receiptScheduleKey id' r') : r.stamp ≤ r'.stamp := by
  by_contra hlt
  have htext := stampText_lt hr'.stamp.1 (not_le.mp hlt) hr.stamp.2
  have hback : receiptScheduleKey id' r' < receiptScheduleKey id r := by
    unfold receiptScheduleKey
    rw [hurgent, List.cons_lt_cons_iff, List.cons_lt_cons_iff]
    refine .inr ⟨rfl, .inr ⟨rfl, ?_⟩⟩
    exact append_lt_append (by rw [length_stampText, length_stampText]) htext _ _
  exact lt_asymm hkey hback

/-- Past a recent attempt, every attempt is recent. -/
theorem recent_of_key {id id' : Text} {r r' : Receipt} {now : Time} (hr : r.Stamped)
    (hr' : r'.Stamped) (hurgent : r.urgent = r'.urgent)
    (hkey : receiptScheduleKey id r < receiptScheduleKey id' r') (hrecent : r.recent now = true) :
    r'.recent now = true := by
  have hle := stamp_le_of_key hr hr' hurgent hkey
  simp only [Receipt.recent, Bool.and_eq_true, Bool.not_eq_eq_eq_not, Bool.not_true,
    decide_eq_false_iff_not, decide_eq_true_eq] at hrecent ⊢
  rcases hr with hzero | hpos
  · exact absurd hzero hrecent.1
  · unfold Receipt.stamp at hle
    rw [if_neg hrecent.1] at hle
    split_ifs at hle with hzero'
    · omega
    · exact ⟨hzero', by omega⟩

/-- A pending task whose chain has a reader and that was not tried just now. -/
def Receipt.schedulable (r : Receipt) (readers : Nat → Bool) (now : Time) : Prop :=
  r.pending = true ∧ readers r.task.chainID = true ∧ r.recent now = false

/-- `e` is the least schedulable task under the urgencies `P`. -/
structure Least (s : ReceiptState) (readers : Nat → Bool) (now : Time) (P : Receipt → Prop)
    (e : Text × Receipt) : Prop where
  row : s.receiptPages.get e.1 = some e.2
  schedulable : e.2.schedulable readers now
  least : ∀ id r, s.receiptPages.get id = some r → P r → r.schedulable readers now →
    receiptScheduleKey e.1 e.2 ≤ receiptScheduleKey id r

theorem Least.unique {s : ReceiptState} {readers : Nat → Bool} {now : Time}
    {P : Receipt → Prop} {e e' : Text × Receipt} (h : Least s readers now P e)
    (h' : Least s readers now P e') (hP : P e.2) (hP' : P e'.2) : e = e' := by
  have hkey := le_antisymm (h.least _ _ h'.row hP' h'.schedulable)
    (h'.least _ _ h.row hP h.schedulable)
  have hid := receiptScheduleKey_inj hkey
  refine Prod.ext hid ?_
  have hrow := h.row
  rw [hid, h'.row] at hrow
  exact (Option.some.inj hrow).symm

theorem urgent_iff {c : Char} {id : Text} {r : Receipt} :
    ([c, '/'] : Text).isPrefixOf (receiptScheduleKey id r) = true ↔ r.urgent = c := by
  rw [List.isPrefixOf_iff_prefix]
  unfold receiptScheduleKey
  rw [List.cons_prefix_cons, List.cons_prefix_cons]
  constructor
  · intro h
    exact h.1.symm
  · intro h
    exact ⟨h.symm, rfl, List.nil_prefix⟩

theorem urgent_le_of_key {id id' : Text} {r r' : Receipt}
    (hkey : receiptScheduleKey id r < receiptScheduleKey id' r') : r.urgent ≤ r'.urgent := by
  unfold receiptScheduleKey at hkey
  rw [List.cons_lt_cons_iff] at hkey
  rcases hkey with h | ⟨h, -⟩
  · exact h.le
  · exact h.le

/-- What the rows under one urgency give: nothing schedulable, or the least of it. -/
theorem selectRows_spec {s : ReceiptState} (h : Exact s) (readers : Nat → Bool) (now : Time)
    (c : Char) {rows : List (Text × Text)} (hsorted : rows.Pairwise fun a b => a.1 < b.1)
    (hrows : ∀ e ∈ rows, s.receiptSchedule.get e.1 = some e.2 ∧ [c, '/'] < e.1) :
    ∃ out, s.selectRows readers now [c, '/'] rows = .ok out ∧
      ((out = none ∧ ∀ id r, (receiptScheduleKey id r, id) ∈ rows →
          s.receiptPages.get id = some r → r.urgent = c → ¬ r.schedulable readers now) ∨
        ∃ e : Text × Receipt, out = some e ∧ s.receiptPages.get e.1 = some e.2 ∧
          e.2.schedulable readers now ∧ e.2.urgent = c ∧
          ∀ id r, (receiptScheduleKey id r, id) ∈ rows → s.receiptPages.get id = some r →
            r.urgent = c → r.schedulable readers now →
            receiptScheduleKey e.1 e.2 ≤ receiptScheduleKey id r) := by
  induction rows with
  | nil => exact ⟨none, rfl, .inl ⟨rfl, fun id r hmem => by cases hmem⟩⟩
  | cons row rows ih =>
      rcases row with ⟨key, id⟩
      rw [List.pairwise_cons] at hsorted
      have hhead := hrows _ List.mem_cons_self
      rcases (h.schedule key id).mp hhead.1 with ⟨r, hr, hpending, rfl⟩
      -- The row behind a key of the rest, or of the head.
      have hcases : ∀ id' r', (receiptScheduleKey id' r', id') ∈
          (receiptScheduleKey id r, id) :: rows → s.receiptPages.get id' = some r' →
          (id' = id ∧ r' = r) ∨ (receiptScheduleKey id r < receiptScheduleKey id' r' ∧
            (receiptScheduleKey id' r', id') ∈ rows) := by
        intro id' r' hmem hr'
        rcases List.mem_cons.mp hmem with heq | hmem
        · have hid : id' = id := congrArg Prod.snd heq
          rw [hid, hr] at hr'
          exact .inl ⟨hid, (Option.some.inj hr').symm⟩
        · exact .inr ⟨hsorted.1 _ hmem, hmem⟩
      rw [ReceiptState.selectRows]
      by_cases hurgent : r.urgent = c
      · rw [if_neg (by rw [urgent_iff.mpr hurgent]; decide), hr]
        simp only
        rw [if_neg (by simp [hpending])]
        by_cases hrecent : r.recent now = true
        · rw [if_pos hrecent]
          refine ⟨none, rfl, .inl ⟨rfl, fun id' r' hmem hr' hu hs => ?_⟩⟩
          rcases hcases id' r' hmem hr' with ⟨-, rfl⟩ | ⟨hlt, -⟩
          · rw [hs.2.2] at hrecent
            cases hrecent
          · have hlater := recent_of_key (h.stamps id r hr) (h.stamps id' r' hr')
              (hurgent.trans hu.symm) hlt hrecent
            rw [hs.2.2] at hlater
            cases hlater
        · rw [if_neg hrecent]
          by_cases hreader : readers r.task.chainID = true
          · rw [if_pos hreader]
            refine ⟨_, rfl, .inr ⟨(id, r), rfl, hr, ⟨hpending, hreader, by simpa using hrecent⟩,
              hurgent, fun id' r' hmem hr' hu hs => ?_⟩⟩
            rcases hcases id' r' hmem hr' with ⟨rfl, rfl⟩ | ⟨hlt, -⟩
            · exact le_refl _
            · exact hlt.le
          · rw [if_neg hreader]
            rcases ih hsorted.2 (fun e he => hrows e (List.mem_cons_of_mem _ he)) with
              ⟨out, hout, hspec⟩
            refine ⟨out, hout, ?_⟩
            rcases hspec with ⟨hnone, hall⟩ | ⟨e, he, hrow, hs, hu, hleast⟩
            · refine .inl ⟨hnone, fun id' r' hmem hr' hu hs => ?_⟩
              rcases hcases id' r' hmem hr' with ⟨-, rfl⟩ | ⟨-, hmem⟩
              · exact hreader hs.2.1
              · exact hall id' r' hmem hr' hu hs
            · refine .inr ⟨e, he, hrow, hs, hu, fun id' r' hmem hr' hu' hs' => ?_⟩
              rcases hcases id' r' hmem hr' with ⟨-, rfl⟩ | ⟨-, hmem⟩
              · exact absurd hs'.2.1 hreader
              · exact hleast id' r' hmem hr' hu' hs'
      · -- Past the last row of an urgency there is none of it.
        have hnot : ([c, '/'] : Text).isPrefixOf (receiptScheduleKey id r) = false := by
          rw [← Bool.not_eq_true, urgent_iff]
          exact hurgent
        rw [if_pos hnot]
        refine ⟨none, rfl, .inl ⟨rfl, fun id' r' hmem hr' hu => ?_⟩⟩
        rcases hcases id' r' hmem hr' with ⟨-, rfl⟩ | ⟨hlt, -⟩
        · exact absurd hu hurgent
        · have hle := urgent_le_of_key hlt
          have hpast := hhead.2
          unfold receiptScheduleKey at hpast
          rw [List.cons_lt_cons_iff] at hpast
          rcases hpast with hpast | ⟨hpast, -⟩
          · rw [hu] at hle
            exact absurd hpast (not_lt.mpr hle)
          · exact absurd hpast.symm hurgent

/-- The plain scan finds the least schedulable task of all it visits. -/
theorem selectPlain_spec (readers : Nat → Bool) (now : Time) (rows : List (Text × Receipt))
    (chosen : Option (Text × Receipt)) :
    (selectPlain readers now rows chosen = none ∧ chosen = none ∧
        ∀ e ∈ rows, ¬ e.2.schedulable readers now) ∨
      ∃ best, selectPlain readers now rows chosen = some best ∧
        (chosen = some best ∨ best ∈ rows ∧ best.2.schedulable readers now) ∧
        (∀ e, chosen = some e → receiptScheduleKey best.1 best.2 ≤ receiptScheduleKey e.1 e.2) ∧
        ∀ e ∈ rows, e.2.schedulable readers now →
          receiptScheduleKey best.1 best.2 ≤ receiptScheduleKey e.1 e.2 := by
  induction rows generalizing chosen with
  | nil =>
      cases chosen with
      | none => exact .inl ⟨rfl, rfl, fun e he => by cases he⟩
      | some e =>
          refine .inr ⟨e, rfl, .inl rfl, fun e' he' => ?_, fun e' he' => by cases he'⟩
          cases he'
          exact le_refl _
  | cons e rows ih =>
      have hskip : (!e.2.pending || !readers e.2.task.chainID || e.2.recent now) = false ↔
          e.2.schedulable readers now := by
        simp only [Receipt.schedulable, Bool.or_eq_false_iff, Bool.not_eq_eq_eq_not, Bool.not_false,
          and_assoc]
      unfold selectPlain
      by_cases hs : e.2.schedulable readers now
      · rw [if_neg (by rw [hskip.mpr hs]; decide)]
        cases chosen with
        | none =>
            simp only
            rcases ih (some e) with ⟨-, hnone, -⟩ | ⟨best, hbest, hfrom, hle, hall⟩
            · cases hnone
            · refine .inr ⟨best, hbest, .inr ?_, fun e' he' => (by cases he'), ?_⟩
              · rcases hfrom with heq | ⟨hmem, hsb⟩
                · cases heq
                  exact ⟨List.mem_cons_self, hs⟩
                · exact ⟨List.mem_cons_of_mem _ hmem, hsb⟩
              · intro e' he' hs'
                rcases List.mem_cons.mp he' with rfl | he'
                · exact hle _ rfl
                · exact hall e' he' hs'
        | some old =>
            simp only
            split_ifs with hlt
            · rcases ih (some e) with ⟨-, hnone, -⟩ | ⟨best, hbest, hfrom, hle, hall⟩
              · cases hnone
              · refine .inr ⟨best, hbest, .inr ?_, fun e' he' => ?_, ?_⟩
                · rcases hfrom with heq | ⟨hmem, hsb⟩
                  · cases heq
                    exact ⟨List.mem_cons_self, hs⟩
                  · exact ⟨List.mem_cons_of_mem _ hmem, hsb⟩
                · cases he'
                  exact (hle e rfl).trans hlt.le
                · intro e' he' hs'
                  rcases List.mem_cons.mp he' with rfl | he'
                  · exact hle _ rfl
                  · exact hall e' he' hs'
            · rcases ih (some old) with ⟨-, hnone, -⟩ | ⟨best, hbest, hfrom, hle, hall⟩
              · cases hnone
              · refine .inr ⟨best, hbest, ?_, hle, ?_⟩
                · exact hfrom.imp_right fun hmem => ⟨List.mem_cons_of_mem _ hmem.1, hmem.2⟩
                · intro e' he' hs'
                  rcases List.mem_cons.mp he' with rfl | he'
                  · exact (hle old rfl).trans (not_lt.mp hlt)
                  · exact hall e' he' hs'
      · rw [if_pos (by
          rw [← Bool.not_eq_false, hskip]
          exact hs)]
        rcases ih chosen with ⟨hnone, hchosen, hall⟩ | ⟨best, hbest, hfrom, hle, hall⟩
        · refine .inl ⟨hnone, hchosen, fun e' he' => ?_⟩
          rcases List.mem_cons.mp he' with rfl | he'
          · exact hs
          · exact hall e' he'
        · refine .inr ⟨best, hbest, ?_, hle, fun e' he' hs' => ?_⟩
          · exact hfrom.imp_right fun hmem => ⟨List.mem_cons_of_mem _ hmem.1, hmem.2⟩
          · rcases List.mem_cons.mp he' with rfl | he'
            · exact absurd hs' hs
            · exact hall e' he' hs'

theorem urgent_cases (r : Receipt) : r.urgent = '0' ∨ r.urgent = '1' := by
  unfold Receipt.urgent
  split_ifs
  · exact .inl rfl
  · exact .inr rfl

/-- The rows of one urgency lie past its prefix. -/
theorem Exact.scheduled {s : ReceiptState} (h : Exact s) {id : Text} {r : Receipt} {c : Char}
    (hr : s.receiptPages.get id = some r) (hpending : r.pending = true) (hc : c ≤ r.urgent) :
    (receiptScheduleKey id r, id) ∈ s.receiptSchedule.past [c, '/'] := by
  refine OrderedMap.mem_past.mpr ⟨?_, (h.schedule _ id).mpr ⟨r, hr, hpending, rfl⟩⟩
  unfold receiptScheduleKey
  rw [List.cons_lt_cons_iff]
  rcases lt_or_eq_of_le hc with hlt | heq
  · exact .inl hlt
  · refine .inr ⟨heq, ?_⟩
    rw [List.cons_lt_cons_iff]
    refine .inr ⟨rfl, ?_⟩
    have hne : stampText r.stamp ++ '/' :: id ≠ [] := by simp
    rcases hlist : stampText r.stamp ++ '/' :: id with _ | ⟨d, l⟩
    · exact absurd hlist hne
    · exact List.nil_lt_cons d l

/-- The paged selection and a scan of all tasks find the same one. -/
theorem Exact.select {s : ReceiptState} (h : Exact s) (readers : Nat → Bool) (now : Time)
    {rows : List (Text × Receipt)} (hperm : rows.Perm s.receiptPages.entries) :
    s.selectReceipt readers now = .ok (selectPlain readers now rows none) := by
  have hmem : ∀ e : Text × Receipt, e ∈ rows ↔ s.receiptPages.get e.1 = some e.2 := fun e => by
    rw [hperm.mem_iff, OrderedMap.get_eq_some]
  have hvisit : ∀ pre, s.receiptSchedule.visit 1 s.receiptSchedule.len pre =
      s.receiptSchedule.past pre := fun pre =>
    OrderedMap.visit_eq_past (by decide) (s.receiptSchedule.past_length_le _)
  have hspec : ∀ c : Char, _ := fun c => selectRows_spec h readers now c
    (s.receiptSchedule.past_sorted [c, '/']) fun e he =>
      ⟨(OrderedMap.mem_past.mp he).2, (OrderedMap.mem_past.mp he).1⟩
  -- The plain scan's result, once a least task is known.
  have hplain : ∀ e, Least s readers now (fun _ => True) e →
      selectPlain readers now rows none = some e := by
    intro e he
    rcases selectPlain_spec readers now rows none with
      ⟨-, -, hall⟩ | ⟨best, hbest, hfrom, -, hall⟩
    · exact absurd he.schedulable (hall e ((hmem e).mpr he.row))
    · rcases hfrom with hnone | ⟨hin, hs⟩
      · cases hnone
      · have hleast : Least s readers now (fun _ => True) best :=
          ⟨(hmem best).mp hin, hs, fun id r hr _ hsr => hall (id, r) ((hmem (id, r)).mpr hr) hsr⟩
        rw [hbest, hleast.unique he trivial trivial]
  unfold ReceiptState.selectReceipt
  rw [hvisit, hvisit]
  rcases hspec '0' with ⟨out, hout, ⟨rfl, hnone⟩ | ⟨e, rfl, hrow, hs, hu, hleast⟩⟩
  · rw [hout]
    simp only
    rcases hspec '1' with ⟨out', hout', ⟨rfl, hnone'⟩ | ⟨e, rfl, hrow, hs, hu, hleast⟩⟩
    · rw [hout']
      rcases selectPlain_spec readers now rows none with
        ⟨hplain', -, -⟩ | ⟨best, -, hfrom, -, -⟩
      · rw [hplain']
      · rcases hfrom with heq | ⟨hin, hsb⟩
        · cases heq
        · have hrow := (hmem best).mp hin
          rcases urgent_cases best.2 with hu | hu
          · exact absurd hsb (hnone best.1 best.2 (h.scheduled hrow hsb.1 hu.ge) hrow hu)
          · exact absurd hsb (hnone' best.1 best.2 (h.scheduled hrow hsb.1 hu.ge) hrow hu)
    · rw [hout', hplain e ⟨hrow, hs, fun id r hr _ hsr => ?_⟩]
      rcases urgent_cases r with hur | hur
      · exact absurd hsr (hnone id r (h.scheduled hr hsr.1 hur.ge) hr hur)
      · exact hleast id r (h.scheduled hr hsr.1 hur.ge) hr hur hsr
  · rw [hout]
    simp only
    rw [hplain e ⟨hrow, hs, fun id r hr _ hsr => ?_⟩]
    rcases urgent_cases r with hur | hur
    · exact hleast id r (h.scheduled hr hsr.1 hur.ge) hr hur hsr
    · -- An urgent task comes before every other.
      refine le_of_lt ?_
      unfold receiptScheduleKey
      rw [hu, hur, List.cons_lt_cons_iff]
      exact .inl (by decide)

/-- A fill is recorded, its receipt is asked for, and its capture is orphaned. -/
def fillSteps : List ReceiptStep :=
  [.batch ⟨⟨⟨List.replicate 32 'c', rfl⟩, true, true, false, false, 1, ⟨1, 0⟩⟩,
      [⟨⟨10, ['b'], ['t']⟩, 7, WordAddress ['u'], false⟩], [], [], []⟩
      (fun _ _ => false) (fun _ _ => false),
    .attempt ['t'] (some ⟨⟨5, 0⟩, by decide, by decide⟩),
    .revise ⟨⟨List.replicate 32 'c', rfl⟩, false, true, false, false, 1, ⟨1, 0⟩⟩]

end MarketInfo.Across
