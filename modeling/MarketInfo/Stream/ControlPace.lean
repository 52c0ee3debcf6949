import MarketInfo.Stream.ControlWriter
import Mathlib

/-! # The pace of the control writer

The send times that the writer keeps are those of the last hour, and never earlier than
the frames they belong to. A command is sent when they leave room, so no window of an
hour holds more commands than the limit.
-/

namespace MarketInfo.ControlWriter

variable {α : Type}

theorem le_later_left (a b : Int) : a ≤ later a b := by
  unfold later
  split_ifs <;> omega

theorem le_later_right (a b : Int) : b ≤ later a b := by
  unfold later
  split_ifs <;> omega

/-- A command may be sent an interval after the last control. -/
theorem controlReady_interval (now last : Int) (history : List Int) (interval hourly : Int) :
    last + interval ≤ controlReady now last history interval hourly := by
  unfold controlReady
  refine le_trans ?_ (le_later_left _ _)
  split_ifs
  · exact le_later_left _ _
  · exact le_refl _

/-- Of the last hour before it fewer than the hourly limit are kept. -/
theorem controlReady_hourly {now last : Int} {history : List Int} {interval hourly : Int} (hpos : 0 < hourly)
    (hsorted : history.Pairwise (· ≤ ·)) :
    (history.countP fun t => controlReady now last history interval hourly - hour < t : Nat) < hourly := by
  by_cases hfull : (history.length : Int) ≥ hourly
  · have hlt : history.length - hourly.toNat < history.length := by omega
    set i := history.length - hourly.toNat with hi
    have hready : history[i] + hour ≤ controlReady now last history interval hourly := by
      unfold controlReady
      simp only [hpos, hfull, and_self, if_true]
      refine le_trans ?_ (le_later_left _ _)
      rw [← hi, List.getElem?_eq_getElem hlt]
      exact le_later_right _ _
    have hold : (history.take (i + 1)).countP (fun t =>
        decide (controlReady now last history interval hourly - hour < t)) = 0 := by
      rw [List.countP_eq_zero]
      intro t ht
      rcases List.mem_take_iff_getElem.1 ht with ⟨j, hj, rfl⟩
      have hle : history[j] ≤ history[i] := by
        rcases Nat.lt_or_ge j i with hji | hji
        · exact List.pairwise_iff_getElem.1 hsorted j i _ _ hji
        · have hji' : j = i := by omega
          simp only [hji', le_refl]
      simp only [decide_eq_true_eq, not_lt]
      omega
    have hcount := List.countP_le_length (l := history.drop (i + 1)) (p := fun t =>
      decide (controlReady now last history interval hourly - hour < t))
    rw [← List.take_append_drop (i + 1) history, List.countP_append]
    simp only [List.take_append_drop]
    rw [hold]
    rw [List.length_drop] at hcount
    omega
  · have hle := List.countP_le_length (l := history) (p := fun t =>
      decide (controlReady now last history interval hourly - hour < t))
    omega

theorem prune_count {now u : Int} (hu : now - hour ≤ u) (history : List Int) :
    (prune now history).countP (fun t => decide (u < t)) = history.countP fun t => decide (u < t) := by
  induction history with
  | nil => rfl
  | cons t history ih =>
      unfold prune
      split_ifs with hold
      · rw [ih, List.countP_cons_of_neg]
        simp only [decide_eq_true_eq]
        omega
      · rfl

theorem prune_suffix (now : Int) (history : List Int) : prune now history <:+ history := by
  induction history with
  | nil => exact List.suffix_refl _
  | cons t history ih =>
      unfold prune
      split_ifs
      · exact ih.trans (List.suffix_cons t history)
      · exact List.suffix_refl _

/-- The times of the frames that share the spacing: with no hourly limit at all, heartbeats too. -/
def counted (cfg : Config) (frames : List (Frame α)) : List Int :=
  (frames.filter fun f => cfg.maxControlsPerHour = 0 ∨ f.command.isSome).map Frame.At

/-- The times of the commands. -/
def commandTimes (frames : List (Frame α)) : List Int :=
  (frames.filter fun f => f.command.isSome).map Frame.At

/-- Before each of these times fewer than `n` are of the hour before it. -/
def Limited (n : Int) (times : List Int) : Prop :=
  ∀ pre w post, times = pre ++ w :: post → (pre.countP fun t => decide (w - hour < t) : Nat) < n

theorem Limited.concat {n : Int} {times : List Int} {w : Int} (h : Limited n times)
    (hw : (times.countP fun t => decide (w - hour < t) : Nat) < n) : Limited n (times ++ [w]) := by
  intro pre v post heq
  rcases List.eq_nil_or_concat post with rfl | ⟨init, l, rfl⟩
  · rcases List.append_inj' heq rfl with ⟨rfl, hv⟩
    cases hv
    exact hw
  · rw [List.concat_eq_append, ← List.cons_append, ← List.append_assoc] at heq
    exact h pre v init (List.append_inj' heq rfl).1

/-- No window of an hour has more than the limit. -/
theorem Limited.window {n : Int} {times : List Int} (h : Limited n times) (hn : 0 ≤ n) (t : Int) :
    (times.countP fun x => decide (t ≤ x ∧ x < t + hour) : Nat) ≤ n := by
  induction times using List.reverseRecOn with
  | nil => simpa using hn
  | append_singleton times w ih =>
      have hinit : Limited n times := fun pre v post heq => h pre v (post ++ [w]) (by simp [heq])
      rw [List.countP_append]
      -- a window with the last time in it is part of the hour before that time
      by_cases hw : t ≤ w ∧ w < t + hour
      · have hlast := h times w [] rfl
        have hmono : times.countP (fun x => decide (t ≤ x ∧ x < t + hour)) ≤
            times.countP fun x => decide (w - hour < x) := by
          refine List.countP_mono_left fun x _ hx => ?_
          simp only [decide_eq_true_eq] at hx ⊢
          omega
        have hone : List.countP (fun x => decide (t ≤ x ∧ x < t + hour)) [w] = 1 := by
          rw [List.countP_singleton, if_pos (by simpa using hw)]
        omega
      · have hnone : List.countP (fun x => decide (t ≤ x ∧ x < t + hour)) [w] = 0 := by
          rw [List.countP_singleton, if_neg (by simpa using hw)]
        have hold := ih hinit
        omega

/-- A frame that counts is out, and `lastControl` is not yet the time after it. -/
def System.InFlight (cfg : Config) (s : System α) : Prop :=
  s.phase = .written ∨ s.phase = .pinged ∧ cfg.maxControlsPerHour = 0

structure Paced (cfg : Config) (s : System α) : Prop where
  past : ∀ a ∈ counted cfg s.frames, a ≤ s.clock
  stamped : s.phase ≠ .over → ¬ s.InFlight cfg → ∀ a ∈ counted cfg s.frames, a ≤ s.lastControl
  ready : ∀ t, s.phase = .ready t → s.lastControl + cfg.controlInterval ≤ t ∧
    (0 < cfg.maxControlsPerHour →
      (s.history.countP fun x => decide (t - hour < x) : Nat) < cfg.maxControlsPerHour)
  write : s.phase = .write → s.lastControl + cfg.controlInterval ≤ s.clock ∧
    (0 < cfg.maxControlsPerHour →
      (s.history.countP fun x => decide (s.clock - hour < x) : Nat) < cfg.maxControlsPerHour)
  ping : s.phase = .ping → cfg.maxControlsPerHour = 0 → s.lastControl + cfg.controlInterval ≤ s.clock
  spaced : (counted cfg s.frames).Pairwise fun a b => a + cfg.controlInterval ≤ b
  sorted : s.history.Pairwise (· ≤ ·)
  kept : ∀ t ∈ s.history, t ≤ s.clock
  recent : 0 < cfg.maxControlsPerHour → s.phase ≠ .over → ∀ u, s.clock - hour ≤ u →
    (commandTimes s.frames).countP (fun x => decide (u < x)) ≤
      s.history.countP (fun x => decide (u < x)) + if s.phase = .written ∧ u < s.clock then 1 else 0
  limited : 0 < cfg.maxControlsPerHour → Limited cfg.maxControlsPerHour (commandTimes s.frames)

theorem counted_append (cfg : Config) (fs gs : List (Frame α)) :
    counted cfg (fs ++ gs) = counted cfg fs ++ counted cfg gs := by
  unfold counted
  rw [List.filter_append, List.map_append]

theorem commandTimes_append (fs gs : List (Frame α)) :
    commandTimes (fs ++ gs) = commandTimes fs ++ commandTimes gs := by
  unfold commandTimes
  rw [List.filter_append, List.map_append]

/-- The times that a frame adds. -/
theorem mem_counted_singleton {cfg : Config} {c : Option α} {at_ a : Int}
    (h : a ∈ counted cfg [⟨c, at_⟩]) : a = at_ ∧ (cfg.maxControlsPerHour = 0 ∨ c.isSome) := by
  unfold counted at h
  rcases List.mem_map.1 h with ⟨f, hf, rfl⟩
  rcases List.mem_filter.1 hf with ⟨hmem, hcounts⟩
  rw [List.mem_singleton.1 hmem] at hcounts ⊢
  exact ⟨rfl, by simpa using hcounts⟩

theorem counted_singleton_pairwise (cfg : Config) (f : Frame α) (R : Int → Int → Prop) :
    (counted cfg [f]).Pairwise R := by
  unfold counted
  rw [List.filter_singleton]
  cases decide (cfg.maxControlsPerHour = 0 ∨ f.command.isSome = true) with
  | true => exact List.pairwise_singleton _ _
  | false => exact List.Pairwise.nil

theorem commandTimes_heartbeat (at_ : Int) : commandTimes [(⟨none, at_⟩ : Frame α)] = [] := rfl

theorem commandTimes_command (c : α) (at_ : Int) : commandTimes [(⟨some c, at_⟩ : Frame α)] = [at_] := rfl

theorem paced_initial (cfg : Config) (clock : Int) : Paced cfg (runWriter cfg clock : System α) where
  past := by rintro a ⟨⟩
  stamped := by rintro - - a ⟨⟩
  ready := by rintro t ⟨⟩
  write := by rintro ⟨⟩
  ping := by rintro ⟨⟩
  spaced := List.Pairwise.nil
  sorted := List.Pairwise.nil
  kept := by rintro t ⟨⟩
  recent := by
    rintro - - u -
    exact Nat.zero_le _
  limited := by
    intro _ pre w post heq
    exact absurd heq.symm (List.append_ne_nil_of_right_ne_nil _ (List.cons_ne_nil _ _))

theorem Paced.wait {cfg : Config} {s : System α} (h : Paced cfg s) (d : Nat) :
    Paced cfg { s with clock := s.clock + d } :=
  { h with
    past := fun a ha => by
      have hle := h.past a ha
      show a ≤ s.clock + d
      omega
    write := fun hw => by
      rcases h.write hw with ⟨hinterval, hhourly⟩
      refine ⟨?_, fun hpos => lt_of_le_of_lt ?_ (hhourly hpos)⟩
      · show s.lastControl + cfg.controlInterval ≤ s.clock + d
        omega
      refine Int.ofNat_le.2 (List.countP_mono_left fun x _ hx => ?_)
      simp only [decide_eq_true_eq] at hx ⊢
      omega
    ping := fun hp hmax => by
      have hle := h.ping hp hmax
      show s.lastControl + cfg.controlInterval ≤ s.clock + d
      omega
    kept := fun t ht => by
      have hle := h.kept t ht
      show t ≤ s.clock + d
      omega
    recent := fun hpos hlive u hu => by
      have hold := h.recent hpos hlive u (by simp only at hu; omega)
      refine hold.trans (Nat.add_le_add_left ?_ _)
      simp only
      split_ifs with h1 h2 <;> first | omega | exact absurd ⟨h1.1, by have := h1.2; omega⟩ h2 }

/-- A step that writes no frame and stamps none. -/
theorem Paced.moves {cfg : Config} {s s' : System α} (h : Paced cfg s) (hlive : s.phase ≠ .over)
    (hidle : ¬ s.InFlight cfg) (hclock : s'.clock = s.clock) (hlast : s'.lastControl = s.lastControl)
    (hframes : s'.frames = s.frames) (hsuffix : s'.history <:+ s.history)
    (hcount : ∀ u, s.clock - hour ≤ u → s'.history.countP (fun x => decide (u < x)) =
      s.history.countP fun x => decide (u < x))
    (hready : ∀ t, s'.phase = .ready t → s.lastControl + cfg.controlInterval ≤ t ∧
      (0 < cfg.maxControlsPerHour →
        (s'.history.countP fun x => decide (t - hour < x) : Nat) < cfg.maxControlsPerHour))
    (hwrite : s'.phase = .write → s.lastControl + cfg.controlInterval ≤ s.clock ∧
      (0 < cfg.maxControlsPerHour →
        (s'.history.countP fun x => decide (s.clock - hour < x) : Nat) < cfg.maxControlsPerHour))
    (hping : s'.phase = .ping → cfg.maxControlsPerHour = 0 →
      s.lastControl + cfg.controlInterval ≤ s.clock) : Paced cfg s' where
  past := by
    rw [hframes, hclock]
    exact h.past
  stamped := fun _ _ => by
    rw [hframes, hlast]
    exact h.stamped hlive hidle
  ready := by
    rw [hlast]
    exact hready
  write := by
    rw [hlast, hclock]
    exact hwrite
  ping := by
    rw [hlast, hclock]
    exact hping
  spaced := by
    rw [hframes]
    exact h.spaced
  sorted := h.sorted.sublist hsuffix.sublist
  kept := fun t ht => by
    rw [hclock]
    exact h.kept t (hsuffix.subset ht)
  recent := fun hpos _ u hu => by
    rw [hclock] at hu
    have hold := h.recent hpos hlive u hu
    rw [if_neg fun hw => hidle (.inl hw.1)] at hold
    rw [hframes, hcount u hu]
    exact hold.trans (Nat.le_add_right _ _)
  limited := by
    rw [hframes]
    exact h.limited

/-- A frame that is written when it may be. -/
theorem Paced.sends {cfg : Config} {s : System α} (h : Paced cfg s) (hlive : s.phase ≠ .over)
    (hidle : ¬ s.InFlight cfg) {c : Option α}
    (hinterval : cfg.maxControlsPerHour = 0 ∨ c.isSome → s.lastControl + cfg.controlInterval ≤ s.clock)
    (hhourly : 0 < cfg.maxControlsPerHour → c.isSome →
      (s.history.countP fun x => decide (s.clock - hour < x) : Nat) < cfg.maxControlsPerHour) :
    (∀ a ∈ counted cfg (s.frames ++ [⟨c, s.clock⟩]), a ≤ s.clock) ∧
      (counted cfg (s.frames ++ [⟨c, s.clock⟩])).Pairwise (fun a b => a + cfg.controlInterval ≤ b) ∧
      (0 < cfg.maxControlsPerHour →
        Limited cfg.maxControlsPerHour (commandTimes (s.frames ++ [⟨c, s.clock⟩]))) := by
  refine ⟨fun a ha => ?_, ?_, fun hpos => ?_⟩
  · rw [counted_append, List.mem_append] at ha
    rcases ha with ha | ha
    · exact h.past a ha
    · exact (mem_counted_singleton ha).1.le
  · rw [counted_append, List.pairwise_append]
    refine ⟨h.spaced, counted_singleton_pairwise _ _ _, fun a ha b hb => ?_⟩
    rcases mem_counted_singleton hb with ⟨rfl, hcounts⟩
    have hstamped := h.stamped hlive hidle a ha
    have hle := hinterval hcounts
    omega
  · rw [commandTimes_append]
    cases c with
    | none =>
        rw [commandTimes_heartbeat, List.append_nil]
        exact h.limited hpos
    | some c =>
        rw [commandTimes_command]
        refine (h.limited hpos).concat (lt_of_le_of_lt ?_ (hhourly hpos rfl))
        -- nothing was pruned that is of the hour before this frame
        have hold := h.recent hpos hlive (s.clock - hour) (le_refl _)
        rw [if_neg fun hw => hidle (.inl hw.1)] at hold
        exact Int.ofNat_le.2 hold

/-- The writer ends after a frame, or without one. -/
theorem paced_over {cfg : Config} {s s' : System α} (hover : s'.phase = .over)
    (hclock : s'.clock = s.clock) (hhistory : s'.history.Pairwise (· ≤ ·) ∧ ∀ t ∈ s'.history, t ≤ s.clock)
    (hframes : (∀ a ∈ counted cfg s'.frames, a ≤ s.clock) ∧
      (counted cfg s'.frames).Pairwise (fun a b => a + cfg.controlInterval ≤ b) ∧
      (0 < cfg.maxControlsPerHour → Limited cfg.maxControlsPerHour (commandTimes s'.frames))) :
    Paced cfg s' where
  past := by
    rw [hclock]
    exact hframes.1
  stamped := fun hne => absurd hover hne
  ready := by
    rw [hover]
    rintro t ⟨⟩
  write := by
    rw [hover]
    rintro ⟨⟩
  ping := by
    rw [hover]
    rintro ⟨⟩
  spaced := hframes.2.1
  sorted := hhistory.1
  kept := by
    rw [hclock]
    exact hhistory.2
  recent := fun _ hne => absurd hover hne
  limited := hframes.2.2

theorem Paced.step {cfg : Config} {s s' : System α} {a : Act α} (hstep : s.Step cfg a s')
    (horder : InOrder s) (h : Paced cfg s) : Paced cfg s' := by
  unfold System.Step System.step at hstep
  cases a with
  | wait d =>
      cases hstep
      exact h.wait d
  | queue c =>
      cases hstep
      exact ⟨h.past, h.stamped, h.ready, h.write, h.ping, h.spaced, h.sorted, h.kept, h.recent, h.limited⟩
  | begin =>
      simp only [Option.ite_none_right_eq_some] at hstep
      rcases hstep with ⟨hphase, ⟨⟩⟩
      -- pruning keeps all that any later window can reach
      have hidle : ¬ s.InFlight cfg := by simp [System.InFlight, hphase]
      by_cases hdue : s.clock < s.pingReady cfg
      · refine h.moves (by simp [hphase]) hidle rfl rfl rfl (prune_suffix _ _)
          (fun u hu => prune_count hu _) ?_ ?_ ?_ <;> simp [hdue]
      · refine h.moves (by simp [hphase]) hidle rfl rfl rfl (prune_suffix _ _)
          (fun u hu => prune_count hu _) (by simp [hdue]) (by simp [hdue]) fun _ hmax => ?_
        unfold System.pingReady at hdue
        rw [if_pos hmax] at hdue
        exact (le_later_right _ _).trans (not_lt.1 hdue)
  | ping ok sent =>
      simp only [Option.ite_none_right_eq_some] at hstep
      rcases hstep with ⟨hphase, hstep⟩
      have hidle : ¬ s.InFlight cfg := by simp [System.InFlight, hphase]
      have hsends := h.sends (c := none) (by simp [hphase]) hidle
        (fun hcounts => h.ping hphase (hcounts.resolve_right (by rintro ⟨⟩))) (by rintro - ⟨⟩)
      split_ifs at hstep
      · cases hstep
        exact {
          past := hsends.1
          stamped := fun _ hflight a ha => by
            -- with an hourly limit the heartbeat does not count
            have hmax : cfg.maxControlsPerHour ≠ 0 := fun hmax => hflight (.inr ⟨rfl, hmax⟩)
            have ha' : a ∈ counted cfg (s.frames ++ [⟨none, s.clock⟩]) := ha
            rw [counted_append, List.mem_append] at ha'
            rcases ha' with ha' | ha'
            · exact h.stamped (by simp [hphase]) hidle a ha'
            · rcases (mem_counted_singleton ha').2 with hzero | ⟨⟨⟩⟩
              exact absurd hzero hmax
          ready := by rintro t ⟨⟩
          write := by rintro ⟨⟩
          ping := by rintro ⟨⟩
          spaced := hsends.2.1
          sorted := h.sorted
          kept := h.kept
          recent := fun hpos _ u hu => by
            have hold := h.recent hpos (by simp [hphase]) u hu
            rw [if_neg fun hw => hidle (.inl hw.1)] at hold
            show (commandTimes (s.frames ++ [⟨none, s.clock⟩])).countP _ ≤ _
            rw [commandTimes_append, commandTimes_heartbeat, List.append_nil]
            exact hold.trans (Nat.le_add_right _ _)
          limited := hsends.2.2 }
      · cases hstep
        refine paced_over rfl rfl ⟨h.sorted, h.kept⟩ ?_
        cases sent with
        | true => exact hsends
        | false =>
            show _ ∧ (counted cfg (s.frames ++ [])).Pairwise _ ∧ _
            simp only [System.send, Bool.false_eq_true, if_false, List.append_nil]
            exact ⟨h.past, h.spaced, h.limited⟩
  | stampPing =>
      simp only [Option.ite_none_right_eq_some] at hstep
      rcases hstep with ⟨hphase, ⟨⟩⟩
      exact {
        past := h.past
        stamped := fun _ _ a ha => by
          simp only
          split_ifs with hmax
          · exact h.past a ha
          · exact h.stamped (by simp [hphase]) (by simp [System.InFlight, hphase, hmax]) a ha
        ready := by rintro t ⟨⟩
        write := by rintro ⟨⟩
        ping := by rintro ⟨⟩
        spaced := h.spaced
        sorted := h.sorted
        kept := h.kept
        recent := fun hpos _ u hu => by
          have hold := h.recent hpos (by simp [hphase]) u hu
          rw [if_neg (by simp [hphase])] at hold
          exact hold.trans (Nat.le_add_right _ _)
        limited := h.limited }
  | look =>
      simp only [Option.ite_none_right_eq_some] at hstep
      rcases hstep with ⟨hphase, hstep⟩
      have hidle : ¬ s.InFlight cfg := by simp [System.InFlight, hphase]
      cases hwaiting : s.waiting with
      | none =>
          simp only [hwaiting] at hstep
          cases hstep
          exact h.moves (by simp [hphase]) hidle rfl rfl rfl (List.suffix_refl _) (fun _ _ => rfl)
            (by simp) (by simp) (by simp)
      | some c =>
          simp only [hwaiting] at hstep
          cases hstep
          refine h.moves (by simp [hphase]) hidle rfl rfl rfl (List.suffix_refl _) (fun _ _ => rfl)
            ?_ (by simp) (by simp)
          rintro t ⟨⟩
          exact ⟨controlReady_interval _ _ _ _ _, fun hpos => controlReady_hourly hpos h.sorted⟩
  | decide =>
      cases hphase : s.phase with
      | ready t =>
          simp only [hphase] at hstep
          cases hstep
          have hidle : ¬ s.InFlight cfg := by simp [System.InFlight, hphase]
          -- the time may have come late, and then fewer commands are of the last hour
          rcases h.ready t hphase with ⟨hinterval, hhourly⟩
          by_cases hle : t ≤ s.clock
          · refine h.moves (by simp [hphase]) hidle rfl rfl rfl (List.suffix_refl _) (fun _ _ => rfl)
              (by simp [hle]) (fun _ => ⟨hinterval.trans hle, fun hpos => ?_⟩) (by simp [hle])
            refine lt_of_le_of_lt (Int.ofNat_le.2 (List.countP_mono_left fun x _ hx => ?_)) (hhourly hpos)
            simp only [decide_eq_true_eq] at hx ⊢
            omega
          · exact h.moves (by simp [hphase]) hidle rfl rfl rfl (List.suffix_refl _) (fun _ _ => rfl)
              (by simp [hle]) (by simp [hle]) (by simp [hle])
      | _ => simp [hphase] at hstep
  | write ok sent =>
      simp only [Option.ite_none_right_eq_some] at hstep
      rcases hstep with ⟨hphase, hstep⟩
      have hidle : ¬ s.InFlight cfg := by simp [System.InFlight, hphase]
      rcases h.write hphase with ⟨hinterval, hhourly⟩
      have hsends := h.sends (c := s.waiting) (by simp [hphase]) hidle (fun _ => hinterval)
        fun hpos _ => hhourly hpos
      rcases Option.isSome_iff_exists.1 (horder.waits (.inr (.inl hphase))) with ⟨c, hc⟩
      split_ifs at hstep
      · cases hstep
        exact {
          past := hsends.1
          stamped := fun _ hflight => absurd (.inl rfl) hflight
          ready := by rintro t ⟨⟩
          write := by rintro ⟨⟩
          ping := by rintro ⟨⟩
          spaced := hsends.2.1
          sorted := h.sorted
          kept := h.kept
          recent := fun hpos _ u hu => by
            have hold := h.recent hpos (by simp [hphase]) u hu
            rw [if_neg fun hw => hidle (.inl hw.1)] at hold
            show (commandTimes (s.frames ++ [⟨s.waiting, s.clock⟩])).countP _ ≤
              s.history.countP _ + if Phase.written = Phase.written ∧ u < s.clock then 1 else 0
            rw [hc, commandTimes_append, commandTimes_command, List.countP_append, List.countP_singleton]
            simp only [decide_eq_true_eq, true_and]
            omega
          limited := hsends.2.2 }
      · cases hstep
        refine paced_over rfl rfl ⟨h.sorted, h.kept⟩ ?_
        cases sent with
        | true => exact hsends
        | false =>
            simp only [System.send, Bool.false_eq_true, if_false, List.append_nil]
            exact ⟨h.past, h.spaced, h.limited⟩
  | stamp pushed =>
      simp only [Option.ite_none_right_eq_some] at hstep
      rcases hstep with ⟨hphase, ⟨⟩⟩
      have hsorted : (if cfg.maxControlsPerHour > 0 then s.history ++ [s.clock] else s.history).Pairwise
          (· ≤ ·) := by
        split_ifs
        · rw [List.pairwise_append]
          refine ⟨h.sorted, List.pairwise_singleton _ _, fun a ha b hb => ?_⟩
          rw [List.mem_singleton.1 hb]
          exact h.kept a ha
        · exact h.sorted
      have hkept : ∀ t ∈ (if cfg.maxControlsPerHour > 0 then s.history ++ [s.clock] else s.history),
          t ≤ s.clock := by
        split_ifs
        · intro t ht
          rcases List.mem_append.1 ht with ht | ht
          · exact h.kept t ht
          · rw [List.mem_singleton.1 ht]
        · exact h.kept
      cases pushed with
      | false => exact paced_over rfl rfl ⟨hsorted, hkept⟩ ⟨h.past, h.spaced, h.limited⟩
      | true =>
          exact {
            past := h.past
            stamped := fun _ _ a ha => h.past a ha
            ready := by rintro t ⟨⟩
            write := by rintro ⟨⟩
            ping := by rintro ⟨⟩
            spaced := h.spaced
            sorted := hsorted
            kept := hkept
            recent := fun hpos _ u hu => by
              have hold := h.recent hpos (by simp [hphase]) u hu
              simp only [hphase, true_and] at hold
              show (commandTimes s.frames).countP _ ≤ (if cfg.maxControlsPerHour > 0 then
                s.history ++ [s.clock] else s.history).countP _ + _
              rw [if_pos hpos, List.countP_append, List.countP_singleton]
              simp only [decide_eq_true_eq]
              omega
            limited := h.limited }
  | receive =>
      simp only at hstep
      split at hstep
      · rename_i c commands hphase hwaiting hcommands
        cases hstep
        exact h.moves (by simp [hphase]) (by simp [System.InFlight, hphase]) rfl rfl rfl
          (List.suffix_refl _) (fun _ _ => rfl) (by simp) (by simp) (by simp)
      · cases hstep
  | again =>
      simp only [Option.ite_none_right_eq_some] at hstep
      rcases hstep with ⟨hphase, ⟨⟩⟩
      exact h.moves (by simp [hphase]) (by simp [System.InFlight, hphase]) rfl rfl rfl
        (List.suffix_refl _) (fun _ _ => rfl) (by simp) (by simp) (by simp)
  | stop =>
      simp only [Option.ite_none_right_eq_some] at hstep
      rcases hstep with ⟨hphase, ⟨⟩⟩
      exact paced_over rfl rfl ⟨h.sorted, h.kept⟩ ⟨h.past, h.spaced, h.limited⟩

theorem inOrder_initial (cfg : Config) (clock : Int) : InOrder (runWriter cfg clock : System α) where
  live := fun _ => rfl
  first := List.prefix_refl _
  waits := by rintro (⟨t, ⟨⟩⟩ | ⟨⟨⟩⟩ | ⟨⟨⟩⟩)

/-! ## What the writer promises -/

theorem commandTimes_sublist (cfg : Config) (frames : List (Frame α)) :
    (commandTimes frames).Sublist (counted cfg frames) := by
  refine (List.monotone_filter_right frames fun f hf => ?_).map Frame.At
  simp only [decide_eq_true_eq]
  exact .inr hf

theorem counted_all {cfg : Config} (h : cfg.maxControlsPerHour = 0) (frames : List (Frame α)) :
    counted cfg frames = frames.map Frame.At := by
  unfold counted
  rw [List.filter_eq_self.2 fun f _ => by simp [h]]

/-- Two commands, as soon as they may be sent. -/
def twoCommands : List (Act Nat) :=
  [.queue 1, .queue 2, .begin, .look, .receive, .begin, .look, .decide, .write true true, .stamp true,
    .begin, .look, .receive, .wait 250000000, .begin, .look, .decide, .write true true]

def unlimited : Config := ⟨250000000, 20000000000, 0, by decide⟩

def limited : Config := ⟨250000000, 20000000000, 400, by decide⟩

end MarketInfo.ControlWriter
