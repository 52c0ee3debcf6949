import MarketInfo.Lib.Transition
import Mathlib.Tactic.Common
import Mathlib.Algebra.Order.Ring.Int

/-! # The control writer of a connection

One goroutine writes the subscription commands and the heartbeats of a connection. It
reads the clock again and again, and a write takes time, so each reading and each write
is a step of its own. Times are nanoseconds.
-/

namespace MarketInfo.ControlWriter

def hour : Int := 3600000000000

/-- The zero `time.Time`. -/
def zeroTime : Int := -62135596800000000000

/-- The intervals as `validate` leaves them; no positive `maxControlsPerHour`, no hourly limit. -/
structure Config where
  controlInterval : Int
  pingInterval : Int
  maxControlsPerHour : Int
  controlInterval_pos : 0 < controlInterval

def later (a b : Int) : Int := if b > a then b else a

/-- `controlReady`. -/
def controlReady (now last : Int) (history : List Int) (interval hourly : Int) : Int :=
  let ready := last + interval
  let ready :=
    if hourly > 0 ∧ history.length ≥ hourly then
      later ready ((history[history.length - hourly.toNat]?.getD 0) + hour)
    else ready
  later ready now

/-- A frame that was written: a command, or a heartbeat. -/
structure Frame (α : Type) where
  command : Option α
  At : Int
deriving DecidableEq

/-- Where the loop of `runWriter` is: at its top, writing a heartbeat, before the second reading
after it, before the look at the waiting command, between the two readings of that look, writing
the command, before the reading after it, in the select, or over. -/
inductive Phase where
  | top
  | ping
  | pinged
  | control
  | ready (t : Int)
  | write
  | written
  | select
  | over
deriving DecidableEq

structure System (α : Type) where
  clock : Int
  phase : Phase
  waiting : Option α
  lastControl : Int
  history : List Int
  nextPing : Int
  commands : List α
  frames : List (Frame α)
  offered : List α
deriving DecidableEq

variable {α : Type}

/-- Send times of more than an hour ago are dropped from the front. -/
def prune (now : Int) : List Int → List Int
  | [] => []
  | t :: history => if t + hour ≤ now then prune now history else t :: history

def System.pingReady (cfg : Config) (s : System α) : Int :=
  if cfg.maxControlsPerHour = 0 then later s.nextPing (s.lastControl + cfg.controlInterval) else s.nextPing

inductive Act (α : Type) where
  | wait (d : Nat)
  | queue (c : α)
  | begin
  | ping (ok sent : Bool)
  | stampPing
  | look
  | decide
  | write (ok sent : Bool)
  | stamp (pushed : Bool)
  | receive
  | again
  | stop

def System.send (s : System α) (command : Option α) (sent : Bool) : System α :=
  { s with frames := s.frames ++ if sent then [⟨command, s.clock⟩] else [] }

/-- Each reading of the clock and each write of `runWriter`. A write that fails may still have
sent its frame. -/
def System.step (cfg : Config) (s : System α) : Act α → Option (System α)
  | .wait d => some { s with clock := s.clock + d }
  | .queue c => some { s with commands := s.commands ++ [c], offered := s.offered ++ [c] }
  | .begin =>
      if s.phase = .top then
        some { s with
          history := prune s.clock s.history
          phase := if s.clock < s.pingReady cfg then .control else .ping }
      else none
  | .ping ok sent =>
      if s.phase = .ping then
        if ok then some { s.send none true with nextPing := s.clock + cfg.pingInterval, phase := .pinged }
        else some { s.send none sent with phase := .over }
      else none
  | .stampPing =>
      if s.phase = .pinged then
        some { s with
          lastControl := if cfg.maxControlsPerHour = 0 then s.clock else s.lastControl
          phase := .control }
      else none
  | .look =>
      if s.phase = .control then
        match s.waiting with
        | none => some { s with phase := .select }
        | some _ =>
            let t := controlReady s.clock s.lastControl s.history cfg.controlInterval cfg.maxControlsPerHour
            some { s with phase := .ready t }
      else none
  | .decide =>
      match s.phase with
      | .ready t => some { s with phase := if t ≤ s.clock then .write else .select }
      | _ => none
  | .write ok sent =>
      if s.phase = .write then
        if ok then some { s.send s.waiting true with phase := .written }
        else some { s.send s.waiting sent with phase := .over }
      else none
  | .stamp pushed =>
      if s.phase = .written then
        some { s with
          lastControl := s.clock
          history := if cfg.maxControlsPerHour > 0 then s.history ++ [s.clock] else s.history
          waiting := if pushed then none else s.waiting
          phase := if pushed then .top else .over }
      else none
  | .receive =>
      match s.phase, s.waiting, s.commands with
      | .select, none, c :: commands => some { s with waiting := some c, commands, phase := .top }
      | _, _, _ => none
  | .again => if s.phase = .select then some { s with phase := .top } else none
  | .stop => if s.phase = .select then some { s with phase := .over } else none

def System.Step (cfg : Config) (s : System α) (a : Act α) (s' : System α) : Prop := s.step cfg a = some s'

/-- The start of `runWriter`. -/
def runWriter (cfg : Config) (clock : Int) : System α :=
  ⟨clock, .top, none, zeroTime, [], clock + cfg.pingInterval, [], [], []⟩

/-! ## Commands in order -/

/-- The commands among frames. -/
def commandsOf (frames : List (Frame α)) : List α := frames.filterMap Frame.command

theorem commandsOf_append (fs gs : List (Frame α)) :
    commandsOf (fs ++ gs) = commandsOf fs ++ commandsOf gs := List.filterMap_append

/-- The command that waits, unless its frame is out. -/
def System.unsent (s : System α) : List α :=
  if s.phase = .written then [] else s.waiting.toList

/-- The commands that were queued are those that were sent, the one that waits and those in the
channel; once the writer is over, the sent ones are still the first. -/
structure InOrder (s : System α) : Prop where
  live : s.phase ≠ .over → s.offered = commandsOf s.frames ++ s.unsent ++ s.commands
  first : commandsOf s.frames <+: s.offered
  waits : (∃ t, s.phase = .ready t) ∨ s.phase = .write ∨ s.phase = .written → s.waiting.isSome

theorem unsent_of {s : System α} (h : s.phase ≠ .written) : s.unsent = s.waiting.toList := if_neg h

theorem commandsOf_send_none (s : System α) (sent : Bool) :
    commandsOf (s.send none sent).frames = commandsOf s.frames := by
  show commandsOf (s.frames ++ if sent then [⟨none, s.clock⟩] else []) = _
  rw [commandsOf_append]
  cases sent <;> exact List.append_nil _

theorem commandsOf_send (s : System α) (c : Option α) :
    commandsOf (s.send c true).frames = commandsOf s.frames ++ c.toList := by
  show commandsOf (s.frames ++ [⟨c, s.clock⟩]) = _
  rw [commandsOf_append]
  cases c <;> rfl

theorem commandsOf_send_false (s : System α) (c : Option α) :
    commandsOf (s.send c false).frames = commandsOf s.frames := by
  show commandsOf (s.frames ++ []) = _
  rw [List.append_nil]

/-- A step that moves no command. -/
theorem InOrder.moves {s s' : System α} (h : InOrder s) (hlive : s.phase ≠ .over)
    (hold : s.phase ≠ .written) (hnew : s'.phase ≠ .written)
    (hframes : commandsOf s'.frames = commandsOf s.frames) (hwaiting : s'.waiting = s.waiting)
    (hcommands : s'.commands = s.commands) (hoffered : s'.offered = s.offered)
    (hwaits : (∃ t, s'.phase = .ready t) ∨ s'.phase = .write → s.waiting.isSome) : InOrder s' where
  live := fun _ => by
    rw [hoffered, h.live hlive, unsent_of hold, unsent_of hnew, hframes, hwaiting, hcommands]
  first := by
    rw [hframes, hoffered]
    exact h.first
  waits := by
    rw [hwaiting]
    rintro (ht | hw | hw)
    · exact hwaits (.inl ht)
    · exact hwaits (.inr hw)
    · exact absurd hw hnew

/-- The writer ends: its frame may be out or not. -/
theorem InOrder.ends {s s' : System α} (h : InOrder s) (hlive : s.phase ≠ .over)
    (hsent : commandsOf s'.frames <+: commandsOf s.frames ++ s.unsent)
    (hoffered : s'.offered = s.offered) (hover : s'.phase = .over) : InOrder s' where
  live := fun hne => absurd hover hne
  first := by
    rw [hoffered, h.live hlive]
    exact hsent.trans (List.prefix_append _ _)
  waits := by
    rw [hover]
    rintro (⟨t, ⟨⟩⟩ | ⟨⟨⟩⟩ | ⟨⟨⟩⟩)

theorem InOrder.step {cfg : Config} {s s' : System α} {a : Act α} (hstep : s.Step cfg a s')
    (h : InOrder s) : InOrder s' := by
  unfold System.Step System.step at hstep
  cases a with
  | wait d =>
      cases hstep
      exact ⟨h.live, h.first, h.waits⟩
  | queue c =>
      cases hstep
      refine ⟨fun hlive => ?_, h.first.trans (List.prefix_append _ _), h.waits⟩
      show s.offered ++ [c] = commandsOf s.frames ++ s.unsent ++ (s.commands ++ [c])
      rw [h.live hlive, List.append_assoc]
  | begin =>
      simp only [Option.ite_none_right_eq_some] at hstep
      rcases hstep with ⟨hphase, ⟨⟩⟩
      by_cases hping : s.clock < s.pingReady cfg
      · exact h.moves (by simp [hphase]) (by simp [hphase]) (by simp [hping]) rfl rfl rfl rfl (by simp [hping])
      · exact h.moves (by simp [hphase]) (by simp [hphase]) (by simp [hping]) rfl rfl rfl rfl (by simp [hping])
  | ping ok sent =>
      simp only [Option.ite_none_right_eq_some] at hstep
      rcases hstep with ⟨hphase, hstep⟩
      split_ifs at hstep
      · cases hstep
        exact h.moves (by simp [hphase]) (by simp [hphase]) (by simp) (commandsOf_send_none s true) rfl
          rfl rfl (by simp)
      · cases hstep
        refine h.ends (by simp [hphase]) ?_ rfl rfl
        show commandsOf (s.send none sent).frames <+: _
        rw [commandsOf_send_none]
        exact List.prefix_append _ _
  | stampPing =>
      simp only [Option.ite_none_right_eq_some] at hstep
      rcases hstep with ⟨hphase, ⟨⟩⟩
      exact h.moves (by simp [hphase]) (by simp [hphase]) (by simp) rfl rfl rfl rfl (by simp)
  | look =>
      simp only [Option.ite_none_right_eq_some] at hstep
      rcases hstep with ⟨hphase, hstep⟩
      cases hwaiting : s.waiting with
      | none =>
          simp only [hwaiting] at hstep
          cases hstep
          exact h.moves (by simp [hphase]) (by simp [hphase]) (by simp) rfl hwaiting.symm rfl rfl (by simp)
      | some c =>
          simp only [hwaiting] at hstep
          cases hstep
          exact h.moves (by simp [hphase]) (by simp [hphase]) (by simp) rfl hwaiting.symm rfl rfl
            fun _ => by simp [hwaiting]
  | decide =>
      cases hphase : s.phase with
      | ready t =>
          simp only [hphase] at hstep
          cases hstep
          refine h.moves (by simp [hphase]) (by simp [hphase]) ?_ rfl rfl rfl rfl
            fun _ => h.waits (.inl ⟨t, hphase⟩)
          simp only
          split_ifs <;> rintro ⟨⟩
      | _ => simp [hphase] at hstep
  | write ok sent =>
      simp only [Option.ite_none_right_eq_some] at hstep
      rcases hstep with ⟨hphase, hstep⟩
      have hunsent : s.unsent = s.waiting.toList := unsent_of (by simp [hphase])
      split_ifs at hstep
      · cases hstep
        have hsent : s.offered = commandsOf (s.send s.waiting true).frames ++ [] ++ s.commands := by
          rw [commandsOf_send, List.append_nil, ← hunsent]
          exact h.live (by simp [hphase])
        refine ⟨fun _ => hsent, ?_, fun _ => h.waits (.inr (.inl hphase))⟩
        show commandsOf (s.send s.waiting true).frames <+: s.offered
        rw [hsent, List.append_nil]
        exact List.prefix_append _ _
      · cases hstep
        refine h.ends (by simp [hphase]) ?_ rfl rfl
        show commandsOf (s.send s.waiting sent).frames <+: _
        rw [hunsent]
        cases sent with
        | false =>
            rw [commandsOf_send_false]
            exact List.prefix_append _ _
        | true => rw [commandsOf_send]
  | stamp pushed =>
      simp only [Option.ite_none_right_eq_some] at hstep
      rcases hstep with ⟨hphase, ⟨⟩⟩
      have hunsent : s.unsent = [] := if_pos hphase
      cases pushed with
      | true =>
          have hall := h.live (by simp [hphase])
          rw [hunsent] at hall
          exact ⟨fun _ => hall, h.first, by rintro (⟨t, ⟨⟩⟩ | ⟨⟨⟩⟩ | ⟨⟨⟩⟩)⟩
      | false => exact h.ends (by simp [hphase]) (List.prefix_append _ _) rfl rfl
  | receive =>
      simp only at hstep
      split at hstep
      · rename_i c commands hphase hwaiting hcommands
        cases hstep
        have hall := h.live (by simp [hphase])
        rw [unsent_of (by simp [hphase]), hwaiting, hcommands] at hall
        refine ⟨fun _ => ?_, h.first, by rintro (⟨t, ⟨⟩⟩ | ⟨⟨⟩⟩ | ⟨⟨⟩⟩)⟩
        show s.offered = commandsOf s.frames ++ [c] ++ commands
        rw [hall]
        simp
      · cases hstep
  | again =>
      simp only [Option.ite_none_right_eq_some] at hstep
      rcases hstep with ⟨hphase, ⟨⟩⟩
      exact h.moves (by simp [hphase]) (by simp [hphase]) (by simp) rfl rfl rfl rfl (by simp)
  | stop =>
      simp only [Option.ite_none_right_eq_some] at hstep
      rcases hstep with ⟨hphase, ⟨⟩⟩
      exact h.ends (by simp [hphase]) (List.prefix_append _ _) rfl rfl

end MarketInfo.ControlWriter
