import MarketInfo.Across.Quota
import Mathlib.Tactic.Linarith

/-! # Pacing, cooldown and yielding

An admission moves the next one on, and the provider cooldown only grows, so both
bound every admission after them. When the window of urgent requests is over, the
first urgent request that comes sets a deadline instead of being admitted, and
until a background request is admitted the deadline can only move on.
-/

namespace MarketInfo.Across

/-- What urgent requests find in an open window, after it, and before a deadline. -/
theorem yield_cases (q : SourceQuota) (now ready priority : Int) :
    (0 < priority → now < priority → q.yield true now ready priority = priority) ∧
      (0 < priority → priority ≤ now →
        q.yield true now ready priority = -(max now ready + q.interval)) ∧
      (priority < 0 → q.yield true now ready priority ≤ priority) ∧
      (priority = 0 → q.yield true now ready priority = 0) ∧
      (q.yield true now ready priority < 0 → ready < -q.yield true now ready priority) := by
  have hinterval := q.interval_pos
  unfold SourceQuota.yield
  simp only [true_and]
  have hopen : ¬ (priority > 0 ∧ now ≥ priority) →
      (if priority > 0 ∧ now ≥ priority then -(max now ready + q.interval) else priority) =
        priority := fun h => if_neg h
  refine ⟨fun hpos hlt => ?_, fun hpos hle => ?_, fun hneg => ?_, fun hzero => ?_,
    fun hdeadline => ?_⟩
  · rw [hopen (by omega), if_neg (by omega)]
  · -- the new deadline is after the time at which the source is ready
    rw [if_pos (show priority > 0 ∧ now ≥ priority from ⟨hpos, hle⟩), if_neg (by omega)]
  · rw [hopen (by omega)]
    split_ifs with hready <;> omega
  · rw [hopen (by omega), if_neg (by omega), hzero]
  · generalize (if priority > 0 ∧ now ≥ priority then -(max now ready + q.interval)
      else priority) = p at hdeadline ⊢
    split_ifs at hdeadline ⊢ with hready <;> omega

theorem yield_background (q : SourceQuota) (now ready priority : Int) :
    q.yield false now ready priority = priority := by
  simp [SourceQuota.yield]

/-- What one turn of a background request does. -/
theorem attempt_background (q : SourceQuota) {r : Request} (hr : r.urgent = false) (now : Int)
    (s : Timestamps) :
    ((q.attempt r now s).2 = .admitted ∧ s.cooldown ≤ now ∧ s.next ≤ now ∧
        (q.attempt r now s).1 = { s with next := now + r.members * q.interval, priority := 0 }) ∨
      ((q.attempt r now s).2 ≠ .admitted ∧ (q.attempt r now s).1 = s) := by
  unfold SourceQuota.attempt
  split_ifs with hdiscovery
  · exact .inr ⟨by simp, rfl⟩
  · simp only [hr, yield_background, Bool.false_eq_true, false_and, decide_false, if_false,
      true_and]
    split_ifs with hpos hwait hwait
    · exact .inr ⟨by simp, rfl⟩
    · exact .inl ⟨rfl, by omega, by omega, rfl⟩
    · exact .inr ⟨by simp, rfl⟩
    · exact .inl ⟨rfl, by omega, by omega, rfl⟩

/-- What one turn of an urgent request does: it is refused or waits in an open window, it is
admitted in one, it finds a window that is over, it waits for a deadline, or it opens a window. -/
theorem attempt_urgent (q : SourceQuota) {r : Request} (hr : r.urgent = true) (now : Int)
    (s : Timestamps) :
    ((q.attempt r now s).2 = .admitted ∧ s.cooldown ≤ now ∧ s.next ≤ now ∧
        (0 < s.priority → now < s.priority) ∧ (s.priority < 0 → -s.priority ≤ now) ∧
        (q.attempt r now s).1 = { s with
          next := now + r.members * q.interval
          priority := if 0 < s.priority then s.priority else now + q.lease r.remaining }) ∨
      ((q.attempt r now s).2 ≠ .admitted ∧ ∃ priority,
        (q.attempt r now s).1 = { s with priority } ∧
          (0 < s.priority → priority = s.priority ∨ s.priority ≤ now ∧ priority < 0 ∧
            priority = -(max now (max s.cooldown s.next) + q.interval)) ∧
          (s.priority < 0 → priority ≤ s.priority) ∧ (s.priority = 0 → priority = 0)) := by
  have hinterval := q.interval_pos
  unfold SourceQuota.attempt
  by_cases hdiscovery : r.discovery = true ∧ s.cooldown > now
  · rw [if_pos hdiscovery]
    exact .inr ⟨by simp, s.priority, rfl, fun _ => .inl rfl, fun _ => le_refl _, id⟩
  · rcases yield_cases q now (max s.cooldown s.next) s.priority with 
      ⟨hopen, hover, hmoved, hnone, hafter⟩
    rw [if_neg hdiscovery]
    simp only [hr, true_and, Bool.true_eq_false, false_and, if_false, decide_eq_true_eq]
    generalize q.yield true now (max s.cooldown s.next) s.priority = y at *
    by_cases hy : y < 0
    · by_cases hnow : now < -y
      · -- before the deadline
        simp only [hy, hnow, not_true_eq_false, and_self, and_false, if_true, if_false]
        rw [if_pos (by omega)]
        exact .inr ⟨by simp, y, rfl, fun hpos => by omega, hmoved, fun hzero => by omega⟩
      · -- from the deadline on, the source is ready
        simp only [hy, hnow, not_false_eq_true, and_self, and_false, if_true, if_false]
        have hready := hafter hy
        rw [if_neg (by omega)]
        refine .inl ⟨rfl, by omega, by omega, by omega, by omega, ?_⟩
        rw [if_neg (by omega)]
    · simp only [hy, false_and, if_false]
      by_cases hready : max s.cooldown s.next > now
      · rw [if_pos hready]
        exact .inr ⟨by simp, y, rfl, fun hpos => by omega, hmoved, hnone⟩
      · rw [if_neg hready]
        refine .inl ⟨rfl, by omega, by omega, by omega, by omega, ?_⟩
        by_cases hpos : 0 < s.priority
        · have hkept : y = s.priority := hopen hpos (by omega)
          rw [if_pos hpos, if_neg (by omega), hkept]
        · rw [if_neg hpos, if_pos (by omega)]

/-- One turn is refused for its size, or it is an attempt of at least one member. -/
theorem before_cases (q : SourceQuota) (r : Request) (now : Int) (s : Timestamps) :
    ((q.before r now s).1 = s ∧ (q.before r now s).2 ≠ .admitted) ∨
      (1 ≤ r.members ∧ q.before r now s = q.attempt r now s) := by
  unfold SourceQuota.before
  split_ifs with hmembers
  · exact .inl ⟨rfl, by simp⟩
  · exact .inr ⟨by omega, rfl⟩

theorem admits_bounds {q : SourceQuota} {s : Timestamps} {c : Call} (h : q.Admits s c) :
    s.cooldown ≤ c.now ∧ s.next ≤ c.now ∧ 1 ≤ c.members ∧
      (q.step s c).next = c.now + c.members * q.interval ∧
      (q.step s c).cooldown = s.cooldown := by
  rcases c with ⟨r, now⟩ | ⟨o, now⟩
  · change (q.before r now s).2 = .admitted at h
    change s.cooldown ≤ now ∧ s.next ≤ now ∧ 1 ≤ r.members ∧
      (q.before r now s).1.next = now + r.members * q.interval ∧
      (q.before r now s).1.cooldown = s.cooldown
    rcases before_cases q r now s with ⟨-, hrefused⟩ | ⟨hmembers, hattempt⟩
    · exact absurd h hrefused
    · rw [hattempt] at h ⊢
      cases hr : r.urgent with
      | false =>
          rcases attempt_background q hr now s with ⟨-, hcool, hnext, hstate⟩ | ⟨hnot, -⟩
          · rw [hstate]
            exact ⟨hcool, hnext, hmembers, rfl, rfl⟩
          · exact absurd h hnot
      | true =>
          rcases attempt_urgent q hr now s with ⟨-, hcool, hnext, -, -, hstate⟩ | ⟨hnot, -⟩
          · rw [hstate]
            exact ⟨hcool, hnext, hmembers, rfl, rfl⟩
          · exact absurd h hnot
  · exact h.elim

/-- A step that admits nothing keeps the next admission and shortens no cooldown. -/
theorem step_refused {q : SourceQuota} {s : Timestamps} {c : Call} (h : ¬ q.Admits s c) :
    (q.step s c).next = s.next ∧ s.cooldown ≤ (q.step s c).cooldown := by
  rcases c with ⟨r, now⟩ | ⟨o, now⟩
  · change ¬ (q.before r now s).2 = .admitted at h
    unfold SourceQuota.step
    rcases before_cases q r now s with ⟨hsame, -⟩ | ⟨-, hattempt⟩
    · simp [hsame]
    · rw [hattempt] at h
      simp only [hattempt]
      cases hr : r.urgent with
      | false =>
          rcases attempt_background q hr now s with ⟨hadmitted, -⟩ | ⟨-, hstate⟩
          · exact absurd hadmitted h
          · simp [hstate]
      | true =>
          rcases attempt_urgent q hr now s with ⟨hadmitted, -⟩ | ⟨-, priority, hstate, -⟩
          · exact absurd hadmitted h
          · simp [hstate]
  · unfold SourceQuota.step SourceQuota.after
    cases o with
    | success =>
        dsimp only
        split_ifs <;> exact ⟨rfl, le_refl _⟩
    | backoff retryAfter => exact ⟨rfl, le_max_left _ _⟩
    | other => exact ⟨rfl, le_refl _⟩

/-- The next admission and the cooldown only move on. -/
theorem step_mono (q : SourceQuota) (s : Timestamps) (c : Call) :
    s.next ≤ (q.step s c).next ∧ s.cooldown ≤ (q.step s c).cooldown := by
  by_cases hadmits : q.Admits s c
  · rcases admits_bounds hadmits with ⟨-, hnext, hmembers, hset, hcool⟩
    have hgap := mul_pos (by omega : 0 < c.members) q.interval_pos
    exact ⟨by omega, hcool.ge⟩
  · rcases step_refused hadmits with ⟨hnext, hcool⟩
    exact ⟨hnext.ge, hcool⟩

theorem run_mono (q : SourceQuota) (s : Timestamps) (calls : List Call) :
    s.next ≤ (q.run s calls).next ∧ s.cooldown ≤ (q.run s calls).cooldown := by
  induction calls generalizing s with
  | nil => exact ⟨le_refl _, le_refl _⟩
  | cons c calls ih =>
      have hstep := step_mono q s c
      have hrest := ih (q.step s c)
      exact ⟨hstep.1.trans hrest.1, hstep.2.trans hrest.2⟩

theorem run_append (q : SourceQuota) (s : Timestamps) (xs ys : List Call) :
    q.run s (xs ++ ys) = q.run (q.run s xs) ys := List.foldl_append ..

theorem lease_nonneg (q : SourceQuota) (remaining : Option Int) : 0 ≤ q.lease remaining := by
  have hinterval := q.interval_pos
  unfold SourceQuota.lease second
  cases remaining with
  | none =>
      dsimp only
      omega
  | some left =>
      dsimp only
      omega

/-- An urgent request is admitted in an open window, which it keeps, from a deadline on, or where
there is neither; in the last two cases it opens a window. -/
theorem admits_urgent {q : SourceQuota} {s : Timestamps} {c : Call} (h : q.Admits s c)
    (hurgent : c.Urgent) :
    (0 < s.priority → c.now < s.priority ∧ (q.step s c).priority = s.priority) ∧
      (s.priority < 0 → -s.priority ≤ c.now) ∧ (0 < c.now → 0 < (q.step s c).priority) := by
  rcases c with ⟨r, now⟩ | ⟨o, now⟩
  · change (q.before r now s).2 = .admitted at h
    change (0 < s.priority → now < s.priority ∧ (q.before r now s).1.priority = s.priority) ∧
      (s.priority < 0 → -s.priority ≤ now) ∧ (0 < now → 0 < (q.before r now s).1.priority)
    have hlease := lease_nonneg q r.remaining
    rcases before_cases q r now s with ⟨-, hrefused⟩ | ⟨-, hattempt⟩
    · exact absurd h hrefused
    · rw [hattempt] at h ⊢
      rcases attempt_urgent q hurgent now s with
        ⟨-, -, -, hopen, hover, hstate⟩ | ⟨hnot, -⟩
      · rw [hstate]
        refine ⟨fun hpos => ⟨hopen hpos, if_pos hpos⟩, hover, fun hnow => ?_⟩
        dsimp only
        split_ifs <;> omega
      · exact absurd h hnot
  · exact h.elim

/-- Where nothing is admitted a deadline can only move on, and an open window stays, unless an
urgent request finds it over: then there is a deadline after that request. -/
theorem refused_priority {q : SourceQuota} {s : Timestamps} {c : Call} (h : ¬ q.Admits s c) :
    (s.priority < 0 → (q.step s c).priority ≤ s.priority) ∧
      (0 < s.priority → (q.step s c).priority = s.priority ∨
        c.Urgent ∧ s.priority ≤ c.now ∧ (q.step s c).priority < 0 ∧
          c.now + q.interval ≤ -(q.step s c).priority) := by
  rcases c with ⟨r, now⟩ | ⟨o, now⟩
  · change ¬ (q.before r now s).2 = .admitted at h
    change (s.priority < 0 → (q.before r now s).1.priority ≤ s.priority) ∧
      (0 < s.priority → (q.before r now s).1.priority = s.priority ∨
        r.urgent = true ∧ s.priority ≤ now ∧ (q.before r now s).1.priority < 0 ∧
          now + q.interval ≤ -(q.before r now s).1.priority)
    rcases before_cases q r now s with ⟨hsame, -⟩ | ⟨-, hattempt⟩
    · simp [hsame]
    · rw [hattempt] at h ⊢
      cases hr : r.urgent with
      | false =>
          rcases attempt_background q hr now s with ⟨hadmitted, -⟩ | ⟨-, hstate⟩
          · exact absurd hadmitted h
          · simp [hstate]
      | true =>
          rcases attempt_urgent q hr now s with
            ⟨hadmitted, -⟩ | ⟨-, p, hstate, hwindow, hdeadline, -⟩
          · exact absurd hadmitted h
          · rw [hstate]
            refine ⟨hdeadline, fun hpos => (hwindow hpos).imp_right ?_⟩
            rintro ⟨hover, hneg, hp⟩
            refine ⟨rfl, hover, hneg, ?_⟩
            dsimp only
            omega
  · unfold SourceQuota.step SourceQuota.after
    cases o with
    | success =>
        dsimp only
        split_ifs <;> exact ⟨fun _ => le_refl _, fun _ => .inl rfl⟩
    | backoff retryAfter => exact ⟨fun _ => le_refl _, fun _ => .inl rfl⟩
    | other => exact ⟨fun _ => le_refl _, fun _ => .inl rfl⟩

/-- From a deadline on, without background admissions, urgent requests are admitted after it. -/
theorem run_deadline {q : SourceQuota} {s : Timestamps} {calls : List Call} {d : Call}
    (hneg : s.priority < 0) (hclock : (calls ++ [d]).Pairwise fun c d => c.now ≤ d.now)
    (honly : q.OnlyUrgent s calls) (hd : q.Admits (q.run s calls) d) (hurgent : d.Urgent) :
    -s.priority ≤ d.now := by
  induction calls generalizing s with
  | nil => exact (admits_urgent hd hurgent).2.1 hneg
  | cons c calls ih =>
      rcases List.pairwise_cons.mp hclock with ⟨hfirst, hrest⟩
      by_cases hadmits : q.Admits s c
      · have hover := (admits_urgent hadmits (honly.1 hadmits)).2.1 hneg
        exact hover.trans (hfirst d (by simp))
      · have hstep := (refused_priority hadmits).1 hneg
        have := ih (lt_of_le_of_lt hstep hneg) hrest honly.2 hd
        omega

/-- From an open window on, without background admissions, an urgent request that is admitted
after the window comes after another one that found the window over and set a deadline. -/
theorem run_window {q : SourceQuota} {s : Timestamps} {calls : List Call} {d : Call}
    (hpos : 0 < s.priority) (hclock : (calls ++ [d]).Pairwise fun c d => c.now ≤ d.now)
    (honly : q.OnlyUrgent s calls) (hd : q.Admits (q.run s calls) d) (hurgent : d.Urgent)
    (hafter : s.priority ≤ d.now) :
    ∃ before a rest D, calls = before ++ a :: rest ∧ a.Urgent ∧ s.priority ≤ a.now ∧
      (q.run s (before ++ [a])).priority = -D ∧ a.now + q.interval ≤ D ∧ D ≤ d.now := by
  induction calls generalizing s with
  | nil =>
      have hopen := ((admits_urgent hd hurgent).1 hpos).1
      change d.now < s.priority at hopen
      omega
  | cons c calls ih =>
      rcases List.pairwise_cons.mp hclock with ⟨hfirst, hrest⟩
      -- the window is still open after the step
      have hkept : (q.step s c).priority = s.priority →
          ∃ before a rest D, c :: calls = before ++ a :: rest ∧ a.Urgent ∧ s.priority ≤ a.now ∧
            (q.run s (before ++ [a])).priority = -D ∧ a.now + q.interval ≤ D ∧ D ≤ d.now := by
        intro hsame
        rcases ih (by omega) hrest honly.2 hd (by omega) with
          ⟨before, a, rest, D, rfl, ha, hover, hset, hfar, hD⟩
        rw [hsame] at hover
        exact ⟨c :: before, a, rest, D, rfl, ha, hover, hset, hfar, hD⟩
      by_cases hadmits : q.Admits s c
      · exact hkept ((admits_urgent hadmits (honly.1 hadmits)).1 hpos).2
      · rcases (refused_priority hadmits).2 hpos with hsame | ⟨ha, hover, hneg, hfar⟩
        · exact hkept hsame
        · have hdeadline := run_deadline hneg hrest honly.2 hd hurgent
          exact ⟨[], c, calls, _, rfl, ha, hover, (neg_neg _).symm, hfar, hdeadline⟩

/-- In any order of the steps: an admission keeps every later one at a distance of an interval for
each member; no request is admitted in a cooldown; and when the window that an urgent request
opened or used is over, later urgent ones come after a deadline that one of them set, or after
a background request. -/
theorem sourceQuota_paces {q : SourceQuota} {s : Timestamps} {before mid : List Call} {c d : Call}
    (hclock : Ticks (before ++ c :: (mid ++ [d])))
    (hd : q.Admits (q.run s (before ++ c :: mid)) d) :
    (q.Admits (q.run s before) c → c.now + c.members * q.interval ≤ d.now) ∧
      (q.run s (before ++ c :: mid)).cooldown ≤ d.now ∧
      (∀ retryAfter now, c = .after (.backoff retryAfter) now →
        now + pause (min ((q.run s before).failures + 1) 4) retryAfter ≤ d.now) ∧
      (d.Urgent → (q.run s (before ++ c :: mid)).priority < 0 →
        -(q.run s (before ++ c :: mid)).priority ≤ d.now) ∧
      (q.Admits (q.run s before) c → c.Urgent → d.Urgent →
        q.OnlyUrgent (q.run s (before ++ [c])) mid →
          0 < (q.run s (before ++ [c])).priority ∧
            ((q.run s (before ++ [c])).priority ≤ d.now →
              ∃ mid₁ a mid₂ D, mid = mid₁ ++ a :: mid₂ ∧ a.Urgent ∧
                (q.run s (before ++ [c])).priority ≤ a.now ∧
                (q.run s (before ++ c :: (mid₁ ++ [a]))).priority = -D ∧
                a.now + q.interval ≤ D ∧ D ≤ d.now)) := by
  have hsplit : ∀ rest, q.run s (before ++ c :: rest) =
      q.run (q.step (q.run s before) c) rest := fun rest => run_append q s before (c :: rest)
  have hfirst : q.run s (before ++ [c]) = q.step (q.run s before) c := hsplit []
  have hmono := run_mono q (q.step (q.run s before) c) mid
  rw [hsplit] at hd
  rcases admits_bounds hd with ⟨hcool, hnext, -⟩
  rcases List.pairwise_append.mp hclock.2 with ⟨-, hlater, -⟩
  rcases List.pairwise_cons.mp hlater with ⟨-, hrest⟩
  have hnow : 0 < c.now := hclock.1 c (by simp)
  refine ⟨fun hc => ?_, ?_, fun retryAfter now hc => ?_, fun hurgent hneg => ?_,
    fun hc hcurgent hurgent honly => ?_⟩
  · rw [← (admits_bounds hc).2.2.2.1]
    exact hmono.1.trans hnext
  · rw [hsplit]
    exact hcool
  · subst hc
    have hset : now + pause (min ((q.run s before).failures + 1) 4) retryAfter ≤
        (q.step (q.run s before) (.after (.backoff retryAfter) now)).cooldown := le_max_right _ _
    exact hset.trans (hmono.2.trans hcool)
  · rw [hsplit] at hneg ⊢
    exact (admits_urgent hd hurgent).2.1 hneg
  · rw [hfirst] at honly ⊢
    have hpos := (admits_urgent hc hcurgent).2.2 hnow
    refine ⟨hpos, fun hafter => ?_⟩
    rcases run_window hpos hrest honly hd hurgent hafter with
      ⟨mid₁, a, mid₂, D, hmid, ha, hover, hset, hfar, hD⟩
    refine ⟨mid₁, a, mid₂, D, hmid, ha, hover, ?_, hfar, hD⟩
    rw [hsplit]
    exact hset

def knownQuota : SourceQuota := ⟨second, 3, by decide, by decide, by decide⟩

def knownProbe : Request := ⟨true, false, 1, none⟩

/-- A probe whose window ends at 104 seconds; the probe at 105 yields until 106. -/
theorem sourceQuota_paces_probe :
    Ticks ([] ++ .before knownProbe (100 * second) ::
        ([.before knownProbe (105 * second)] ++ [.before knownProbe (106 * second)])) ∧
      knownQuota.Admits (knownQuota.run .zero ([] ++ .before knownProbe (100 * second) ::
        [.before knownProbe (105 * second)])) (.before knownProbe (106 * second)) ∧
      (101 * second ≤ 106 * second) := by
  have hclock : Ticks ([] ++ .before knownProbe (100 * second) ::
      ([.before knownProbe (105 * second)] ++ [.before knownProbe (106 * second)])) := by
    unfold Ticks
    decide
  have hd : knownQuota.Admits (knownQuota.run .zero ([] ++ .before knownProbe (100 * second) ::
      [.before knownProbe (105 * second)])) (.before knownProbe (106 * second)) := by
    decide
  exact ⟨hclock, hd, (sourceQuota_paces hclock hd).1 (by decide)⟩

end MarketInfo.Across
