import MarketInfo.Funding.Store

/-! # As-of answers

The answer that all observations together determine for a cutoff, and when the
store, which keeps one observation a target, can still give it.
-/

namespace MarketInfo.Funding

/-! ## What the observations determine -/

/-- Some observation that existed at the cutoff targets its hour. -/
def SettlementExpected (obs : List FundingEstimate) (cutoff : Time) : Prop :=
  ∃ o ∈ obs, ¬ o.sourceTime.After cutoff ∧ targetsCutoffHour cutoff o = true

instance (obs : List FundingEstimate) (cutoff : Time) : Decidable (SettlementExpected obs cutoff) :=
  inferInstanceAs (Decidable (∃ o ∈ obs, ¬ o.sourceTime.After cutoff ∧
    targetsCutoffHour cutoff o = true))

/-- The observations an answer may be: fresh, and of the cutoff's hour where one
of it is expected. -/
def Eligible (obs : List FundingEstimate) (cutoff : Time) (maxAge : Int)
    (o : FundingEstimate) : Prop :=
  o ∈ obs ∧ fresh cutoff maxAge o = true ∧
    (SettlementExpected obs cutoff → targetsCutoffHour cutoff o = true)

/-- `ans` is the latest eligible observation, or nothing where none is. -/
def AsOf (obs : List FundingEstimate) (cutoff : Time) (maxAge : Int) :
    Option FundingEstimate → Prop
  | none => ∀ o, ¬ Eligible obs cutoff maxAge o
  | some o => Eligible obs cutoff maxAge o ∧
      ∀ o', Eligible obs cutoff maxAge o' → ¬ o'.sourceTime.After o.sourceTime

/-! ## Scanning the store -/

/-- The candidates of a scan that keeps the later one. -/
def keepLater (p : FundingEstimate → Bool) (best candidate : FundingEstimate) : FundingEstimate :=
  if p candidate then later best candidate else best

theorem scan_eq {instrumentID : UInt32} {cutoff : Time} {maxAge : Int}
    (order : List FundingEstimate) (scan : Scan) :
    order.foldl (Scan.visit instrumentID cutoff maxAge) scan =
      ⟨(order.filter (·.instrumentID = instrumentID)).foldl (keepLater (fresh cutoff maxAge))
          scan.latest,
        (order.filter (·.instrumentID = instrumentID)).foldl
          (keepLater fun f => fresh cutoff maxAge f && targetsCutoffHour cutoff f) scan.settlement,
        scan.settlementExpected ||
          (order.filter (·.instrumentID = instrumentID)).any (targetsCutoffHour cutoff)⟩ := by
  induction order generalizing scan with
  | nil => simp
  | cons f order ih =>
      rw [List.foldl_cons, ih]
      unfold Scan.visit
      by_cases hid : f.instrumentID = instrumentID
      · rw [if_neg (not_not.mpr hid), List.filter_cons_of_pos (by simpa using hid)]
        simp only [List.foldl_cons, List.any_cons]
        cases hfresh : fresh cutoff maxAge f with
        | false => simp [keepLater, hfresh, Bool.or_assoc]
        | true => simp [keepLater, hfresh, Bool.or_assoc]
      · rw [if_pos hid, List.filter_cons_of_neg (by simpa using hid)]

/-- The latest candidate of a list, if there is one. -/
theorem keepLater_spec {p : FundingEstimate → Bool} {l : List FundingEstimate}
    (hl : ∀ f ∈ l, ¬ f.sourceTime.IsZero) (best : FundingEstimate) :
    (l.foldl (keepLater p) best = best ∨
        l.foldl (keepLater p) best ∈ l ∧ p (l.foldl (keepLater p) best) = true) ∧
      (¬ best.sourceTime.IsZero →
        ¬ best.sourceTime.After (l.foldl (keepLater p) best).sourceTime) ∧
      ∀ f ∈ l, p f = true → ¬ (l.foldl (keepLater p) best).sourceTime.IsZero ∧
        ¬ f.sourceTime.After (l.foldl (keepLater p) best).sourceTime := by
  induction l generalizing best with
  | nil => simp
  | cons f l ih =>
      have hf := hl f (List.mem_cons_self ..)
      rcases ih (fun g hg => hl g (List.mem_cons_of_mem _ hg)) (keepLater p best f) with
        ⟨hfrom, hbest, hall⟩
      rw [List.foldl_cons]
      generalize l.foldl (keepLater p) (keepLater p best f) = r at hfrom hbest hall ⊢
      unfold keepLater later at hfrom hbest
      refine ⟨?_, ?_, ?_⟩
      · rcases hfrom with hfrom | ⟨hmem, hp⟩
        · split_ifs at hfrom with hp hlater
          · rw [hfrom]
            exact .inr ⟨List.mem_cons_self .., hp⟩
          · exact .inl hfrom
          · exact .inl hfrom
        · exact .inr ⟨List.mem_cons_of_mem _ hmem, hp⟩
      · intro hzero
        split_ifs at hbest with hp hlater
        · have hr := hbest hf
          rcases hlater with h | h
          · exact absurd h hzero
          · omega
        · exact hbest hzero
        · exact hbest hzero
      · intro g hg hp
        rcases List.mem_cons.mp hg with rfl | hg
        · rw [if_pos hp] at hfrom hbest
          have hnext : ¬ r.sourceTime.IsZero := by
            rcases hfrom with hfrom | ⟨hmem, -⟩
            · rw [hfrom]
              split_ifs with hlater
              · exact hf
              · exact fun h => hlater (.inl h)
            · exact hl r (List.mem_cons_of_mem _ hmem)
          split_ifs at hbest with hlater
          · exact ⟨hnext, hbest hf⟩
          · rw [not_or] at hlater
            have := hbest hlater.1
            exact ⟨hnext, by omega⟩
        · exact hall g hg hp

/-- Without a candidate the scan keeps what it had. -/
theorem keepLater_none {p : FundingEstimate → Bool} {l : List FundingEstimate}
    (h : ∀ f ∈ l, p f = false) (best : FundingEstimate) : l.foldl (keepLater p) best = best := by
  induction l generalizing best with
  | nil => rfl
  | cons f l ih =>
      rw [List.foldl_cons]
      unfold keepLater at ih ⊢
      rw [h f (List.mem_cons_self ..)]
      exact ih (fun g hg => h g (List.mem_cons_of_mem _ hg)) best

/-- The first candidate stays, unless a later one comes. -/
theorem keepLater_head {p : FundingEstimate → Bool} {l : List FundingEstimate}
    {best : FundingEstimate} (hzero : ¬ best.sourceTime.IsZero)
    (h : ∀ f ∈ l, p f = true → ¬ f.sourceTime.After best.sourceTime) :
    l.foldl (keepLater p) best = best := by
  induction l with
  | nil => rfl
  | cons f l ih =>
      have hstep : keepLater p best f = best := by
        unfold keepLater later
        split_ifs with hp hlater
        · rcases hlater with hlater | hlater
          · exact absurd hlater hzero
          · exact absurd hlater (h f (List.mem_cons_self ..) hp)
        · rfl
        · rfl
      rw [List.foldl_cons, hstep]
      exact ih fun g hg => h g (List.mem_cons_of_mem _ hg)

/-! ## The answer of a store -/

/-- The stored observations of an instrument. -/
def EstimateStore.of (s : EstimateStore) (instrumentID : UInt32) : List FundingEstimate :=
  s.values.filter (·.instrumentID = instrumentID)

/-- What a scan takes for the answer. -/
def EstimateStore.candidate (s : EstimateStore) (instrumentID : UInt32) (cutoff : Time)
    (maxAge : Int) (f : FundingEstimate) : Bool :=
  fresh cutoff maxAge f &&
    (!(s.of instrumentID).any (targetsCutoffHour cutoff) || targetsCutoffHour cutoff f)

theorem at_eq {s : EstimateStore} {order : List FundingEstimate} {instrumentID : UInt32}
    {cutoff : Time} {maxAge : Int} (horder : order.Perm s.values) (hid : instrumentID ≠ 0)
    (hage : 0 < maxAge) (havailable : s.available instrumentID = true) :
    s.at order instrumentID cutoff maxAge =
      found ((order.filter (·.instrumentID = instrumentID)).foldl
        (keepLater (s.candidate instrumentID cutoff maxAge)) .zero) := by
  -- the location of the cutoff matters to neither comparison
  change _ = found ((order.filter (·.instrumentID = instrumentID)).foldl
    (keepLater (s.candidate instrumentID cutoff.utc maxAge)) .zero)
  have hany : (order.filter (·.instrumentID = instrumentID)).any (targetsCutoffHour cutoff.utc) =
      (s.of instrumentID).any (targetsCutoffHour cutoff.utc) :=
    (horder.filter _).any_eq
  unfold EstimateStore.at
  rw [if_neg (not_or.mpr ⟨hid, not_le.mpr hage⟩), if_neg (by simp [havailable]), scan_eq]
  simp only [Bool.false_or, hany]
  unfold EstimateStore.candidate
  cases hcase : (s.of instrumentID).any (targetsCutoffHour cutoff.utc) with
  | false => simp
  | true => simp

section answers

variable {s : EstimateStore} {instrumentID : UInt32} {cutoff : Time} {maxAge : Int}
variable (hzero : ∀ f ∈ s.values, ¬ f.sourceTime.IsZero) (hid : instrumentID ≠ 0)
  (hage : 0 < maxAge) (havailable : s.available instrumentID = true)
include hzero hid hage havailable

/-- A lookup gives a latest candidate of the store, or nothing where none is. -/
theorem at_spec {order : List FundingEstimate} (horder : order.Perm s.values) :
    (s.at order instrumentID cutoff maxAge = none ∧
        ∀ f ∈ s.of instrumentID, s.candidate instrumentID cutoff maxAge f = false) ∨
      ∃ r ∈ s.of instrumentID, s.candidate instrumentID cutoff maxAge r = true ∧
        s.at order instrumentID cutoff maxAge = some r ∧
        ∀ f ∈ s.of instrumentID, s.candidate instrumentID cutoff maxAge f = true →
          ¬ f.sourceTime.After r.sourceTime := by
  have hmem : ∀ f, f ∈ order.filter (·.instrumentID = instrumentID) ↔ f ∈ s.of instrumentID :=
    fun f => (horder.filter _).mem_iff
  have hnonzero : ∀ f ∈ order.filter (·.instrumentID = instrumentID), ¬ f.sourceTime.IsZero :=
    fun f hf => hzero f (horder.mem_iff.mp (List.mem_of_mem_filter hf))
  rw [at_eq horder hid hage havailable]
  have hspec := keepLater_spec (p := s.candidate instrumentID cutoff maxAge) hnonzero .zero
  generalize (order.filter (·.instrumentID = instrumentID)).foldl
    (keepLater (s.candidate instrumentID cutoff maxAge)) .zero = r at hspec ⊢
  rcases hspec with ⟨hfrom | ⟨hin, hcand⟩, -, hall⟩
  · left
    refine ⟨by rw [hfrom]; rfl, fun f hf => ?_⟩
    by_contra hcand
    rw [Bool.not_eq_false] at hcand
    have hne := (hall f ((hmem f).mpr hf) hcand).1
    rw [hfrom] at hne
    exact hne rfl
  · right
    refine ⟨r, (hmem r).mp hin, hcand, ?_, fun f hf hc => (hall f ((hmem f).mpr hf) hc).2⟩
    exact if_neg (hall r hin hcand).1

/-- Any of the latest candidates is the answer for some order of the map. -/
theorem at_choose {r : FundingEstimate} (hr : r ∈ s.of instrumentID)
    (hcand : s.candidate instrumentID cutoff maxAge r = true)
    (hmax : ∀ f ∈ s.of instrumentID, s.candidate instrumentID cutoff maxAge f = true →
      ¬ f.sourceTime.After r.sourceTime) :
    ∃ order, order.Perm s.values ∧ s.at order instrumentID cutoff maxAge = some r := by
  rcases List.mem_filter.mp hr with ⟨hmem, hown⟩
  refine ⟨r :: s.values.erase r, (List.perm_cons_erase hmem).symm, ?_⟩
  have hfirst : keepLater (s.candidate instrumentID cutoff maxAge) .zero r = r := by
    unfold keepLater later
    rw [if_pos hcand, if_pos (.inl rfl)]
  rw [at_eq (List.perm_cons_erase hmem).symm hid hage havailable, List.filter_cons,
    if_pos hown, List.foldl_cons, hfirst, keepLater_head (hzero r hmem)]
  · exact if_neg (hzero r hmem)
  · intro f hf hc
    rcases List.mem_filter.mp hf with ⟨hf, hfid⟩
    exact hmax f (List.mem_filter.mpr ⟨List.mem_of_mem_erase hf, hfid⟩) hc

end answers

/-- A lookup answers as the observations do, in whatever order the map is iterated. -/
def EstimateStore.Answers (s : EstimateStore) (obs : List FundingEstimate) (instrumentID : UInt32)
    (cutoff : Time) (maxAge : Int) : Prop :=
  (∀ order, order.Perm s.values → AsOf obs cutoff maxAge (s.at order instrumentID cutoff maxAge)) ∧
    ∀ order order', order.Perm s.values → order'.Perm s.values →
      s.at order instrumentID cutoff maxAge = s.at order' instrumentID cutoff maxAge

/-- When it does. Where no observation is eligible, the store must not have lost
all observations of an expected hour and kept a fresh one of another. Where one
is, the instrument must be available, the hour expected from the store only if it
is from the observations, and the store must still hold exactly one latest
eligible observation. -/
def EstimateStore.Holds (s : EstimateStore) (obs : List FundingEstimate) (instrumentID : UInt32)
    (cutoff : Time) (maxAge : Int) : Prop :=
  ((∀ o, ¬ Eligible obs cutoff maxAge o) ∧
      (s.available instrumentID = true → 0 < maxAge →
        (s.of instrumentID).any (targetsCutoffHour cutoff) = false →
          ∀ r ∈ s.of instrumentID, fresh cutoff maxAge r = false)) ∨
    s.available instrumentID = true ∧ 0 < maxAge ∧
      ((s.of instrumentID).any (targetsCutoffHour cutoff) = true → SettlementExpected obs cutoff) ∧
      ∃ r ∈ s.of instrumentID, AsOf obs cutoff maxAge (some r) ∧
        ∀ r' ∈ s.of instrumentID, AsOf obs cutoff maxAge (some r') → r' = r

theorem candidate_iff {s : EstimateStore} {instrumentID : UInt32} {cutoff : Time} {maxAge : Int}
    {f : FundingEstimate} :
    s.candidate instrumentID cutoff maxAge f = true ↔ fresh cutoff maxAge f = true ∧
      ((s.of instrumentID).any (targetsCutoffHour cutoff) = true →
        targetsCutoffHour cutoff f = true) := by
  unfold EstimateStore.candidate
  cases (s.of instrumentID).any (targetsCutoffHour cutoff) with
  | false => simp
  | true => simp

/-- A store of observations answers exactly when it holds what the answer needs. -/
theorem answers_iff {s : EstimateStore} {obs : List FundingEstimate} {instrumentID : UInt32}
    {cutoff : Time} {maxAge : Int} (hobs : ∀ r ∈ s.of instrumentID, r ∈ obs)
    (hvalid : ∀ f ∈ s.values, f.instrumentID ≠ 0 ∧ ¬ f.sourceTime.IsZero) :
    s.Answers obs instrumentID cutoff maxAge ↔ s.Holds obs instrumentID cutoff maxAge := by
  have hzero : ∀ f ∈ s.values, ¬ f.sourceTime.IsZero := fun f hf => (hvalid f hf).2
  have hown : ∀ r ∈ s.of instrumentID, instrumentID ≠ 0 := by
    intro r hr
    rcases List.mem_filter.mp hr with ⟨hmem, heq⟩
    rw [← of_decide_eq_true heq]
    exact (hvalid r hmem).1
  by_cases hactive : instrumentID ≠ 0 ∧ 0 < maxAge ∧ s.available instrumentID = true
  · rcases hactive with ⟨hid, hage, havailable⟩
    constructor
    · rintro ⟨hasof, hsame⟩
      have hself := hasof s.values (List.Perm.refl _)
      rcases at_spec hzero hid hage havailable (List.Perm.refl s.values) with
        ⟨hnone, hno⟩ | ⟨r, hr, hcand, hsome, hmax⟩
      · rw [hnone] at hself
        refine .inl ⟨hself, fun _ _ hany r hr => ?_⟩
        have hfalse := hno r hr
        unfold EstimateStore.candidate at hfalse
        rw [hany] at hfalse
        simpa using hfalse
      · rw [hsome] at hself
        rcases candidate_iff.mp hcand with ⟨hfresh, hhour⟩
        have hexpected : (s.of instrumentID).any (targetsCutoffHour cutoff) = true →
            SettlementExpected obs cutoff := by
          intro hany
          have hnot : ¬ r.sourceTime.After cutoff := (of_decide_eq_true hfresh).1
          exact ⟨r, hobs r hr, hnot, hhour hany⟩
        refine .inr ⟨havailable, hage, hexpected, r, hr, hself, fun r' hr' hself' => ?_⟩
        -- another latest eligible observation would be the answer for some order
        have hcand' : s.candidate instrumentID cutoff maxAge r' = true :=
          candidate_iff.mpr ⟨hself'.1.2.1, fun hany => hself'.1.2.2 (hexpected hany)⟩
        have hmax' : ∀ f ∈ s.of instrumentID, s.candidate instrumentID cutoff maxAge f = true →
            ¬ f.sourceTime.After r'.sourceTime := by
          intro f hf hc
          have h1 := hmax f hf hc
          have h2 := hself'.2 r hself.1
          omega
        rcases at_choose hzero hid hage havailable hr' hcand' hmax' with ⟨order, horder, hat⟩
        have heq := hsame order s.values horder (List.Perm.refl _)
        rw [hat, hsome] at heq
        exact Option.some.inj heq
    · rintro (⟨hno, hlost⟩ | ⟨-, -, hexpected, r, hr, hself, honly⟩)
      · have hnone : ∀ order, order.Perm s.values →
            s.at order instrumentID cutoff maxAge = none := by
          intro order horder
          rcases at_spec hzero hid hage havailable horder with ⟨hnone, -⟩ | ⟨r, hr, hcand, -, -⟩
          · exact hnone
          · rcases candidate_iff.mp hcand with ⟨hfresh, hhour⟩
            cases hany : (s.of instrumentID).any (targetsCutoffHour cutoff) with
            | false =>
                have hstale := hlost havailable hage hany r hr
                rw [hfresh] at hstale
                cases hstale
            | true => exact absurd ⟨hobs r hr, hfresh, fun _ => hhour hany⟩ (hno r)
        refine ⟨fun order horder => ?_, fun order order' horder horder' => ?_⟩
        · rw [hnone order horder]
          exact hno
        · rw [hnone order horder, hnone order' horder']
      · have hcand : s.candidate instrumentID cutoff maxAge r = true :=
          candidate_iff.mpr ⟨hself.1.2.1, fun hany => hself.1.2.2 (hexpected hany)⟩
        have hsome : ∀ order, order.Perm s.values →
            s.at order instrumentID cutoff maxAge = some r := by
          intro order horder
          rcases at_spec hzero hid hage havailable horder with ⟨-, hfalse⟩ | ⟨q, hq, hcq, hat, hmax⟩
          · have := hfalse r hr
            rw [hcand] at this
            cases this
          · rcases candidate_iff.mp hcq with ⟨hfresh, hhour⟩
            have helig : Eligible obs cutoff maxAge q := by
              refine ⟨hobs q hq, hfresh, fun hexp => hhour ?_⟩
              exact List.any_eq_true.mpr ⟨r, hr, hself.1.2.2 hexp⟩
            have hlast : AsOf obs cutoff maxAge (some q) := by
              refine ⟨helig, fun o ho => ?_⟩
              have h1 := hself.2 o ho
              have h2 := hmax r hr hcand
              omega
            rw [hat, honly q hq hlast]
        refine ⟨fun order horder => ?_, fun order order' horder horder' => ?_⟩
        · rw [hsome order horder]
          exact hself
        · rw [hsome order horder, hsome order' horder']
  · -- nothing is ever answered
    have hnone : ∀ order, s.at order instrumentID cutoff maxAge = none := by
      intro order
      unfold EstimateStore.at
      split_ifs with hargs havail
      · rfl
      · rfl
      · rw [not_or, not_le] at hargs
        exact absurd ⟨hargs.1, hargs.2, by simpa using havail⟩ hactive
    constructor
    · rintro ⟨hasof, -⟩
      have hself := hasof s.values (List.Perm.refl _)
      rw [hnone] at hself
      refine .inl ⟨hself, fun havailable hage _ r hr => ?_⟩
      exact absurd ⟨hown r hr, hage, havailable⟩ hactive
    · rintro (⟨hno, -⟩ | ⟨havailable, hage, -, r, hr, -⟩)
      · refine ⟨fun order _ => ?_, fun order order' _ _ => ?_⟩
        · rw [hnone]
          exact hno
        · rw [hnone, hnone]
      · exact absurd ⟨hown r hr, hage, havailable⟩ hactive

/-! ## Runs -/

theorem keep_values {s : EstimateStore} {f v : FundingEstimate} (hv : v ∈ (s.keep f).values) :
    v ∈ s.values ∨ v = f := by
  have hset : ∀ v ∈ s.set f, v ∈ s.values ∨ v = f := by
    intro v hv
    rcases List.mem_append.mp hv with hv | hv
    · exact .inl (List.mem_of_mem_filter hv)
    · exact .inr (List.mem_singleton.mp hv)
  unfold EstimateStore.keep at hv
  simp only at hv
  split_ifs at hv with hnewer hprune
  · exact .inl hv
  · exact hset v (List.mem_of_mem_filter hv)
  · exact hset v hv

theorem foldl_values {calls : List Call} : ∀ {s : EstimateStore} {past : List FundingEstimate},
    (∀ v ∈ s.values, v ∈ past) →
      ∀ v ∈ (calls.foldl EstimateStore.call s).values, v ∈ past ++ observations calls := by
  induction calls with
  | nil =>
      intro s past h v hv
      exact List.mem_append_left _ (h v hv)
  | cons c calls ih =>
      intro s past h v hv
      cases c with
      | put f =>
          rcases hok : f.validate with e | ⟨⟩
          · have hcall : s.call (.put f) = s := by
              unfold EstimateStore.call EstimateStore.put
              simp only [hok]
            have hobs : observations (.put f :: calls) = observations calls := by
              simp [observations, hok]
            rw [List.foldl_cons, hcall] at hv
            rw [hobs]
            exact ih h v hv
          · have hcall : s.call (.put f) = s.keep f.utc := by
              unfold EstimateStore.call EstimateStore.put
              simp only [hok]
            have hobs : observations (.put f :: calls) = [f.utc] ++ observations calls := by
              simp [observations, hok]
            have hstep : ∀ v ∈ (s.keep f.utc).values, v ∈ past ++ [f.utc] := by
              intro v hv
              rcases keep_values hv with hv | rfl
              · exact List.mem_append_left _ (h v hv)
              · exact List.mem_append_right _ (List.mem_singleton_self _)
            rw [List.foldl_cons, hcall] at hv
            rw [hobs, ← List.append_assoc]
            exact ih hstep v hv
      | markUnavailable ids => exact ih (s := s.markUnavailable ids) h v hv

/-- What is stored was put. -/
theorem run_values {calls : List Call} {v : FundingEstimate} (hv : v ∈ (run calls).values) :
    v ∈ observations calls := by
  have hempty : ∀ v ∈ newEstimateStore.values, v ∈ ([] : List FundingEstimate) := by
    intro v hv
    cases hv
  simpa using foldl_values hempty v hv

theorem observations_valid {calls : List Call} {o : FundingEstimate} (ho : o ∈ observations calls) :
    o.instrumentID ≠ 0 ∧ ¬ o.sourceTime.IsZero := by
  unfold observations at ho
  rcases List.mem_filterMap.mp ho with ⟨c, -, hc⟩
  cases c with
  | put f =>
      simp only at hc
      split_ifs at hc with hok
      cases hc
      unfold FundingEstimate.validate at hok
      simp only [Check.seq_eq_ok, Check.failIf_eq_ok, not_or] at hok
      exact ⟨hok.1.1, hok.1.2.2⟩
  | markUnavailable ids => cases hc

/-- An observation of instrument 7 for the target at one hour. -/
def observed (minutes : Int) : FundingEstimate :=
  ⟨7, ⟨hour, 0⟩, ⟨1, -4⟩, ⟨minutes * Time.minute, 0⟩⟩

end MarketInfo.Funding
