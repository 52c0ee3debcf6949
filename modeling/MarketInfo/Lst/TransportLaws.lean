import MarketInfo.Lst.Transport

/-! # What the gate checks, and what its records account for

A request that the gate lets through finds every cap and spacing met by the records.
The records account for the admissions: each has one of its own, whose time is not
before the admission's, cut to the microsecond.
-/

namespace MarketInfo.Lst

/-! ## Loads -/

@[simp] theorem later_le {a b c : Int} : later a b ≤ c ↔ a ≤ c ∧ b ≤ c := by
  unfold later
  split_ifs <;> omega

theorem le_later_left (a b : Int) : a ≤ later a b := (later_le.mp (le_refl _)).1

theorem le_later_right (a b : Int) : b ≤ later a b := (later_le.mp (le_refl _)).2

theorem cut_le (t : Int) : cut t ≤ t := by
  unfold cut
  omega

theorem cut_mono {a b : Int} (h : a ≤ b) : cut a ≤ cut b := by
  unfold cut
  omega

variable {share : Class → Nat → Nat} {after : Int}

theorem load_append (xs ys : List SentRequest) :
    load share after (xs ++ ys) = load share after xs + load share after ys := by
  unfold load
  rw [List.filter_append, List.map_append, List.sum_append]

theorem load_singleton (r : SentRequest) :
    load share after [r] = if after < r.At then share r.cls r.weight else 0 := by
  unfold load
  by_cases h : after < r.At
  · simp [h]
  · simp [h]

/-- What is dropped before a time is not in the load after it. -/
theorem load_filter {floor : Int} (h : floor ≤ after) (xs : List SentRequest) :
    load share after (xs.filter fun r => floor < r.At) = load share after xs := by
  unfold load
  rw [List.filter_filter]
  congr 2
  refine List.filter_congr fun r _ => ?_
  by_cases hr : after < r.At
  · simp [hr, lt_of_le_of_lt h hr]
  · simp [hr]

theorem exists_of_load {xs : List SentRequest} (h : 0 < load share after xs) :
    ∃ r ∈ xs, after < r.At ∧ 0 < share r.cls r.weight := by
  unfold load at h
  by_contra hnone
  refine h.ne' (List.sum_eq_zero fun x hx => ?_)
  rcases List.mem_map.mp hx with ⟨r, hr, rfl⟩
  rcases List.mem_filter.mp hr with ⟨hmem, hafter⟩
  by_contra hne
  exact hnone ⟨r, hmem, by simpa using hafter, Nat.pos_of_ne_zero hne⟩

theorem load_pos {xs : List SentRequest} {r : SentRequest} (hr : r ∈ xs) (hafter : after < r.At)
    (hshare : 0 < share r.cls r.weight) : 0 < load share after xs := by
  unfold load
  refine Nat.lt_of_lt_of_le hshare (List.single_le_sum (fun _ _ => Nat.zero_le _) _ ?_)
  exact List.mem_map_of_mem (List.mem_filter.mpr ⟨hr, by simpa using hafter⟩)

theorem of_class {c cls : Class} {weight : Nat} (h : 0 < ofClass c cls weight) : cls = c := by
  unfold ofClass at h
  by_contra hne
  rw [if_neg hne] at h
  exact absurd h (lt_irrefl 0)

/-! ## What a turn of the gate checks -/

theorem fold_le {p : SentRequest → Prop} [DecidablePred p] {q : SentRequest → Prop}
    [DecidablePred q] {d e x now : Int} {recent : List SentRequest}
    (h : recent.foldl (fun ready r => if p r then later ready (r.At + d)
      else if q r then later ready (r.At + e) else ready) x ≤ now) :
    x ≤ now ∧ ∀ r ∈ recent, (p r → r.At + d ≤ now) ∧ (¬ p r → q r → r.At + e ≤ now) := by
  induction recent generalizing x with
  | nil => exact ⟨h, fun r hr => absurd hr List.not_mem_nil⟩
  | cons r recent ih =>
      rw [List.foldl_cons] at h
      rcases ih h with ⟨hx, hrest⟩
      rw [List.forall_mem_cons]
      split_ifs at hx with hp hq
      · rw [later_le] at hx
        exact ⟨hx.1, ⟨fun _ => hx.2, fun hnot => absurd hp hnot⟩, hrest⟩
      · rw [later_le] at hx
        exact ⟨hx.1, ⟨fun hp' => absurd hp' hp, fun _ _ => hx.2⟩, hrest⟩
      · exact ⟨hx, ⟨fun hp' => absurd hp' hp, fun _ hq' => absurd hq' hq⟩, hrest⟩

/-- What is found delays the request. -/
theorem behind_le {p : SentRequest → Bool} {x d now : Int} {recent : List SentRequest}
    (h : behind x d (recent.find? p) ≤ now) :
    x ≤ now ∧ ∀ r ∈ recent, p r = true → ∃ q ∈ recent, p q = true ∧ q.At + d ≤ now := by
  cases hfind : recent.find? p with
  | none =>
      rw [hfind] at h
      exact ⟨h, fun r hr hp => absurd hp (List.find?_eq_none.mp hfind r hr)⟩
  | some q =>
      rw [hfind] at h
      rcases later_le.mp h with ⟨hx, hq⟩
      exact ⟨hx, fun _ _ _ => ⟨q, List.mem_of_find?_eq_some hfind, List.find?_some hfind, hq⟩⟩

theorem requestWeight_le (source : Source) (path : String) : requestWeight source path ≤ 2 := by
  unfold requestWeight
  split_ifs <;> omega

theorem cap_pos (c : TransportConfig) (source : Source) : 0 < c.cap source := by
  unfold TransportConfig.cap
  dsimp only
  split_ifs <;> omega

theorem logCap_pos (c : TransportConfig) : 0 < c.logCap := by
  unfold TransportConfig.logCap
  split_ifs <;> omega

/-- What holds of the records when a request is let through. -/
structure Passes (source : Source) (t : Transport) (g : HostGate) (now : Int) (cls : Class)
    (weight : Nat) (recent : List SentRequest) : Prop where
  next : g.state.nextAt ≤ now
  cooldown : g.state.cooldownUntil ≤ now
  quoter : cls = .quoter → ∀ r ∈ recent, r.cls = .quoter → r.At + second ≤ now
  logs : cls = .logs → ∀ r ∈ recent, r.cls = .logs → r.At + 10 * second ≤ now
  requests : load one (now - minute) recent < t.cfg.cap source
  weighs : source = .binance → load weighed (now - minute) recent + weight ≤ 60
  funding : cls = .funding → load (ofClass .funding) (now - minute) recent < 2 ∧
    load (ofClass .funding) (now - 5 * minute) recent < 10
  logRange : cls = .logs → load (ofClass .logs) (now - 5 * minute) recent < t.cfg.logCap

theorem stage_le {c : Prop} [Decidable c] {p : SentRequest → Bool} {x d now : Int}
    {recent : List SentRequest} (h : (if c then behind x d (recent.find? p) else x) ≤ now) :
    x ≤ now ∧ (c → ∀ r ∈ recent, p r = true → ∃ q ∈ recent, p q = true ∧ q.At + d ≤ now) := by
  split_ifs at h with hc
  · rcases behind_le h with ⟨hx, hfound⟩
    exact ⟨hx, fun _ => hfound⟩
  · exact ⟨h, fun hc' => absurd hc' hc⟩

theorem passes_of_ready {source : Source} {t : Transport} {g : HostGate} {now : Int} {cls : Class}
    {weight : Nat} {recent : List SentRequest} (hweight : weight ≤ 2)
    (hrecent : ∀ r ∈ recent, now - 5 * minute < r.At)
    (h : t.ready source g now cls weight recent ≤ now) :
    Passes source t g now cls weight recent := by
  unfold Transport.ready at h
  rcases stage_le h with ⟨h, hlogs⟩
  rcases stage_le h with ⟨h, hfunding⟩
  rcases behind_le h with ⟨h, hcap⟩
  rcases fold_le h with ⟨h, hspaced⟩
  simp only [decide_eq_true_eq] at hlogs hfunding hcap
  have hstart : later g.state.nextAt g.state.cooldownUntil ≤ now := by
    split_ifs at h
    · exact (later_le.mp h).1
    · exact h
  -- a request in the last minute that counts against a cap delays the next one beyond now
  have hminute : ∀ r ∈ recent, now - minute < r.At →
      ¬ (load one (now - minute) recent ≥ t.cfg.cap source ∨
        source = .binance ∧ load weighed (now - minute) recent + weight > 60) := by
    intro r hr hafter hfull
    rcases hcap r hr ⟨hafter, hfull⟩ with ⟨q, -, ⟨hq, -⟩, hle⟩
    omega
  refine ⟨(later_le.mp hstart).1, (later_le.mp hstart).2, fun hcls r hr hrc => ?_,
    fun hcls r hr hrc => ?_, ?_, fun hsource => ?_, fun hcls => ?_, fun hcls => ?_⟩
  · exact (hspaced r hr).1 ⟨hcls, hrc.trans hcls.symm⟩
  · refine (hspaced r hr).2 (fun hq => ?_) ⟨hcls, hrc.trans hcls.symm⟩
    rw [hcls] at hq
    cases hq.1
  · by_contra hge
    have hpos := lt_of_lt_of_le (cap_pos t.cfg source) (not_lt.mp hge)
    rcases exists_of_load hpos with ⟨r, hr, hafter, -⟩
    exact hminute r hr hafter (.inl (not_lt.mp hge))
  · by_contra hgt
    have hpos : 0 < load weighed (now - minute) recent := by omega
    rcases exists_of_load hpos with ⟨r, hr, hafter, -⟩
    exact hminute r hr hafter (.inr ⟨hsource, not_le.mp hgt⟩)
  · by_contra hnot
    have hfull : load (ofClass .funding) (now - minute) recent ≥ 2 ∨
        load (ofClass .funding) (now - 5 * minute) recent ≥ 10 := by omega
    have hdelay := hfunding ⟨hcls, hfull⟩
    by_cases hten : load (ofClass .funding) (now - 5 * minute) recent ≥ 10
    · rcases exists_of_load (lt_of_lt_of_le (by omega) hten) with ⟨r, hr, -, hshare⟩
      rcases hdelay r hr ⟨of_class hshare, .inl hten⟩ with ⟨q, hq, -, hle⟩
      rw [if_pos hten] at hle
      have := hrecent q hq
      omega
    · have htwo := hfull.resolve_right hten
      rcases exists_of_load (lt_of_lt_of_le (by omega) htwo) with ⟨r, hr, hafter, hshare⟩
      rcases hdelay r hr ⟨of_class hshare, .inr hafter⟩ with ⟨q, hq, ⟨-, hqa⟩, hle⟩
      rw [if_neg hten] at hle
      have := hqa.resolve_left hten
      omega
  · by_contra hge
    have hpos := lt_of_lt_of_le (logCap_pos t.cfg) (not_lt.mp hge)
    rcases exists_of_load hpos with ⟨r, hr, -, hshare⟩
    rcases hlogs ⟨hcls, not_lt.mp hge⟩ r hr (of_class hshare) with ⟨q, hq, -, hle⟩
    have := hrecent q hq
    omega

/-! ## Records and admissions -/

/-- The record that an admission leaves at least: its time is cut to the microsecond. -/
def Admission.recorded (a : Admission) : SentRequest := { a.request with At := cut a.request.At }

/-- Of the requests after any later time, the records have the share of the admissions or more. -/
def Accounts (floor : Int) (recent : List SentRequest) (admissions : List Admission) : Prop :=
  ∀ (share : Class → Nat → Nat) (after : Int), floor ≤ after →
    load share after (admissions.map Admission.recorded) ≤ load share after recent

theorem Accounts.mono {floor floor' : Int} {recent : List SentRequest} {admissions : List Admission}
    (h : Accounts floor recent admissions) (hle : floor ≤ floor') :
    Accounts floor' recent admissions := fun share after hafter => h share after (hle.trans hafter)

theorem Accounts.filter {floor : Int} {recent : List SentRequest} {admissions : List Admission}
    (h : Accounts floor recent admissions) :
    Accounts floor (recent.filter fun r => floor < r.At) admissions := fun share after hafter => by
  rw [load_filter hafter]
  exact h share after hafter

/-- A record whose time is not before that of the admission. -/
theorem Accounts.concat {floor : Int} {recent : List SentRequest} {admissions : List Admission}
    (h : Accounts floor recent admissions) {a : Admission} {r : SentRequest}
    (hAt : cut a.request.At ≤ r.At) (hcls : r.cls = a.request.cls)
    (hweight : r.weight = a.request.weight) :
    Accounts floor (recent ++ [r]) (admissions ++ [a]) := fun share after hafter => by
  rw [List.map_append, List.map_singleton, load_append, load_append, load_singleton, load_singleton]
  have hold := h share after hafter
  have hshare : share a.recorded.cls a.recorded.weight = share r.cls r.weight := by
    rw [hcls, hweight]
    rfl
  have hrec : a.recorded.At = cut a.request.At := rfl
  rw [hshare, hrec]
  split_ifs <;> omega

theorem Accounts.left {floor : Int} {recent : List SentRequest} {xs ys : List Admission}
    (h : Accounts floor recent (xs ++ ys)) : Accounts floor recent xs :=
  fun share after hafter => by
    have hall := h share after hafter
    rw [List.map_append, load_append] at hall
    omega

theorem Accounts.exists {floor : Int} {recent : List SentRequest} {admissions : List Admission}
    (h : Accounts floor recent admissions) {b : Admission} (hb : b ∈ admissions)
    (hlate : floor < cut b.request.At) :
    ∃ r ∈ recent, r.cls = b.request.cls ∧ cut b.request.At ≤ r.At := by
  have hpos : 0 < load (ofClass b.request.cls) (cut b.request.At - 1)
      (admissions.map Admission.recorded) := by
    refine load_pos (List.mem_map_of_mem hb) (Int.sub_one_lt_iff.mpr (le_refl _)) ?_
    unfold ofClass
    rw [if_pos (show b.recorded.cls = b.request.cls from rfl)]
    exact Nat.one_pos
  rcases exists_of_load (lt_of_lt_of_le hpos (h _ _ (by omega))) with ⟨r, hr, hafter, hshare⟩
  exact ⟨r, hr, of_class hshare, by omega⟩

end MarketInfo.Lst
