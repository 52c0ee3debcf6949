import Mathlib

/-! # Programs that may crash

A program calls a device again and again; every call may fail, and between two
calls the whole program may stop for good. `wp` is the weakest precondition of a
program for its result and for every state it may be stopped in.
-/

namespace CrashLogic

variable {C σ ε α β : Type} {R : C → Type}

/-- A program over calls `c` that answer with an `R c` or an error. -/
inductive Prog (R : C → Type) (ε α : Type) : Type where
  | ret (a : α)
  | fail (e : ε)
  | call (c : C) (k : Except ε (R c) → Prog R ε α)

namespace Prog

def bind (f : α → Prog R ε β) : Prog R ε α → Prog R ε β
  | .ret a => f a
  | .fail e => .fail e
  | .call c k => .call c fun r => bind f (k r)

instance : Monad (Prog R ε) where
  pure := .ret
  bind p f := bind f p

/-- The result, as a program. -/
def ofExcept : Except ε α → Prog R ε α
  | .ok a => .ret a
  | .error e => .fail e

/-- One call, whose error is the program's. -/
def run (c : C) : Prog R ε (R c) := .call c ofExcept

/-- The result of a program, error or not. -/
def attempt : Prog R ε α → Prog R ε (Except ε α)
  | .ret a => .ret (.ok a)
  | .fail e => .ret (.error e)
  | .call c k => .call c fun r => attempt (k r)

/-- `p`, then whatever became of it one more call. -/
def onExit (c : C) (p : Prog R ε α) : Prog R ε α :=
  bind (fun r => .call c fun _ => ofExcept r) (attempt p)

/-- `p`, then one more call if it failed. -/
def onError (c : C) (p : Prog R ε α) : Prog R ε α :=
  bind (fun r => match r with
    | .ok a => .ret a
    | .error e => .call c fun _ => .fail e) (attempt p)

end Prog

open Prog

variable {step : σ → (c : C) → Except ε (R c) → σ → Prop}

/-! ## Executions -/

/-- The program ran to its end. -/
inductive Exec (step : σ → (c : C) → Except ε (R c) → σ → Prop) :
    Prog R ε α → σ → Except ε α → σ → Prop where
  | ret (a : α) (s : σ) : Exec step (.ret a) s (.ok a) s
  | fail (e : ε) (s : σ) : Exec step (.fail e) s (.error e) s
  | call {c : C} {k : Except ε (R c) → Prog R ε α} {s s' s'' : σ} {r : Except ε (R c)} {x : Except ε α} :
      step s c r s' → Exec step (k r) s' x s'' → Exec step (.call c k) s x s''

/-- The program was stopped on its way, or before it began. -/
inductive Stops (step : σ → (c : C) → Except ε (R c) → σ → Prop) : Prog R ε α → σ → σ → Prop where
  | here (p : Prog R ε α) (s : σ) : Stops step p s s
  | later {c : C} {k : Except ε (R c) → Prog R ε α} {s s' s'' : σ} {r : Except ε (R c)} :
      step s c r s' → Stops step (k r) s' s'' → Stops step (.call c k) s s''

theorem exec_ofExcept (x : Except ε α) (s : σ) : Exec step (ofExcept x : Prog R ε α) s x s := by
  cases x with
  | ok a => exact .ret a s
  | error e => exact .fail e s

theorem exec_run {c : C} {s s' : σ} {r : Except ε (R c)} (h : step s c r s') : Exec step (run c) s r s' :=
  .call h (exec_ofExcept r s')

theorem Exec.attempt {p : Prog R ε α} {s s' : σ} {x : Except ε α} (h : Exec step p s x s') :
    Exec step (attempt p) s (.ok x) s' := by
  induction h with
  | ret a s => exact .ret _ s
  | fail e s => exact .ret _ s
  | call hstep _ ih => exact .call hstep ih

theorem Exec.bind {p : Prog R ε α} {f : α → Prog R ε β} {s s' s'' : σ} {a : α} {x : Except ε β}
    (h : Exec step p s (.ok a) s') (h' : Exec step (f a) s' x s'') : Exec step (p >>= f) s x s'' := by
  induction p generalizing s with
  | ret b =>
      cases h
      exact h'
  | fail e => cases h
  | call c k ih =>
      cases h with
      | call hstep hrest => exact .call hstep (ih _ hrest)

theorem Exec.bind_error {p : Prog R ε α} {f : α → Prog R ε β} {s s' : σ} {e : ε}
    (h : Exec step p s (.error e) s') : Exec step (p >>= f) s (.error e) s' := by
  induction p generalizing s with
  | ret b => cases h
  | fail e' =>
      cases h
      exact .fail e s'
  | call c k ih =>
      cases h with
      | call hstep hrest => exact .call hstep (ih _ hrest)

theorem Stops.bind {p : Prog R ε α} {f : α → Prog R ε β} {s s' s'' : σ} {a : α}
    (h : Exec step p s (.ok a) s') (h' : Stops step (f a) s' s'') : Stops step (p >>= f) s s'' := by
  induction p generalizing s with
  | ret b =>
      cases h
      exact h'
  | fail e => cases h
  | call c k ih =>
      cases h with
      | call hstep hrest => exact .later hstep (ih _ hrest)

/-! ## Weakest preconditions -/

/-- `Q` holds of the result, and `I` of every state on the way. -/
def wp (step : σ → (c : C) → Except ε (R c) → σ → Prop) (I : σ → Prop) :
    Prog R ε α → (Except ε α → σ → Prop) → σ → Prop
  | .ret a, Q, s => I s ∧ Q (.ok a) s
  | .fail e, Q, s => I s ∧ Q (.error e) s
  | .call c k, Q, s => I s ∧ ∀ r s', step s c r s' → wp step I (k r) Q s'

variable {I I' : σ → Prop} {Q Q' : Except ε α → σ → Prop} {s s' : σ}

theorem wp_exec {p : Prog R ε α} {x : Except ε α} (h : wp step I p Q s) (hexec : Exec step p s x s') :
    Q x s' := by
  induction hexec with
  | ret a s => exact h.2
  | fail e s => exact h.2
  | call hstep _ ih => exact ih (h.2 _ _ hstep)

theorem wp_here {p : Prog R ε α} (h : wp step I p Q s) : I s := by
  cases p with
  | ret a => exact h.1
  | fail e => exact h.1
  | call c k => exact h.1

theorem wp_stops {p : Prog R ε α} (h : wp step I p Q s) (hstops : Stops step p s s') : I s' := by
  induction hstops with
  | here p s => exact wp_here h
  | later hstep _ ih => exact ih (h.2 _ _ hstep)

/-- Consequence, with what holds on the way at hand. -/
theorem wp_mono {p : Prog R ε α} (h : wp step I p Q s) (hway : ∀ s', I s' → I' s')
    (himp : ∀ x s', I s' → Q x s' → Q' x s') : wp step I' p Q' s := by
  induction p generalizing s with
  | ret a => exact ⟨hway _ h.1, himp _ _ h.1 h.2⟩
  | fail e => exact ⟨hway _ h.1, himp _ _ h.1 h.2⟩
  | call c k ih => exact ⟨hway _ h.1, fun r s' hstep => ih r (h.2 r s' hstep)⟩

theorem wp_pure {a : α} (hI : I s) (hQ : Q (.ok a) s) : wp step I (pure a : Prog R ε α) Q s := ⟨hI, hQ⟩

theorem wp_fail {e : ε} (hI : I s) (hQ : Q (.error e) s) : wp step I (.fail e : Prog R ε α) Q s := ⟨hI, hQ⟩

theorem wp_ofExcept {x : Except ε α} (hI : I s) (hQ : Q x s) :
    wp step I (ofExcept x : Prog R ε α) Q s := by
  cases x with
  | ok a => exact ⟨hI, hQ⟩
  | error e => exact ⟨hI, hQ⟩

theorem wp_call {c : C} {k : Except ε (R c) → Prog R ε α} (hI : I s)
    (h : ∀ r s', step s c r s' → wp step I (k r) Q s') : wp step I (.call c k) Q s := ⟨hI, h⟩

/-- One call. -/
theorem wp_run {c : C} {Q : Except ε (R c) → σ → Prop} (hI : I s)
    (h : ∀ r s', step s c r s' → I s' ∧ Q r s') : wp step I (run c) Q s := by
  refine wp_call hI fun r s' hstep => ?_
  obtain ⟨hI', hQ⟩ := h r s' hstep
  exact wp_ofExcept hI' hQ

/-- The sequence rule: an error skips the rest. -/
theorem wp_bind {p : Prog R ε α} {f : α → Prog R ε β} {Q : Except ε β → σ → Prop}
    {mid : Except ε α → σ → Prop} (h : wp step I p mid s)
    (hok : ∀ a s', I s' → mid (.ok a) s' → wp step I (f a) Q s')
    (herror : ∀ e s', I s' → mid (.error e) s' → Q (.error e) s') : wp step I (p >>= f) Q s := by
  induction p generalizing s with
  | ret a => exact hok a s h.1 h.2
  | fail e => exact ⟨h.1, herror e s h.1 h.2⟩
  | call c k ih => exact ⟨h.1, fun r s' hstep => ih r (h.2 r s' hstep)⟩

theorem wp_attempt {p : Prog R ε α} {Q : Except ε (Except ε α) → σ → Prop}
    (h : wp step I p (fun x s' => Q (.ok x) s') s) : wp step I (attempt p) Q s := by
  induction p generalizing s with
  | ret a => exact h
  | fail e => exact h
  | call c k ih => exact ⟨h.1, fun r s' hstep => ih r (h.2 r s' hstep)⟩

/-- An attempt does not fail. -/
theorem wp_bind_attempt {p : Prog R ε α} {f : Except ε α → Prog R ε β} {Q : Except ε β → σ → Prop}
    {mid : Except ε α → σ → Prop} (h : wp step I p mid s)
    (hnext : ∀ x s', I s' → mid x s' → wp step I (f x) Q s') : wp step I (attempt p >>= f) Q s := by
  refine wp_bind (@wp_attempt C σ ε α R step I s p
    (fun x s' => ∃ y, x = .ok y ∧ mid y s') (wp_mono h (fun _ => id) fun x s' _ hmid => ⟨x, rfl, hmid⟩)) ?_ ?_
  · rintro x s' hI ⟨y, hy, hmid⟩
    obtain rfl := Except.ok.inj hy
    exact hnext x s' hI hmid
  · rintro e s' - ⟨y, hy, -⟩
    cases hy

theorem wp_onExit {c : C} {p : Prog R ε α} {mid : Except ε α → σ → Prop} (h : wp step I p mid s)
    (hexit : ∀ x s' r s'', I s' → mid x s' → step s' c r s'' → I s'' ∧ Q x s'') :
    wp step I (onExit c p) Q s := by
  refine wp_bind_attempt h fun x s' hI hmid => wp_call hI fun r s'' hstep => ?_
  obtain ⟨hI', hQ⟩ := hexit x s' r s'' hI hmid hstep
  exact wp_ofExcept hI' hQ

theorem wp_onError {c : C} {p : Prog R ε α} {mid : Except ε α → σ → Prop} (h : wp step I p mid s)
    (hok : ∀ a s', I s' → mid (.ok a) s' → Q (.ok a) s')
    (herror : ∀ e s' r s'', I s' → mid (.error e) s' → step s' c r s'' → I s'' ∧ Q (.error e) s'') :
    wp step I (onError c p) Q s := by
  refine wp_bind_attempt h fun x s' hI hmid => ?_
  cases x with
  | ok a => exact ⟨hI, hok a s' hI hmid⟩
  | error e => exact wp_call hI fun r s'' hstep => herror e s' r s'' hI hmid hstep

/-! ## Programs with calls of one kind -/

/-- Every call of the program is of the kind, whatever the answers are. -/
def Prog.Only (P : C → Prop) : Prog R ε α → Prop
  | .ret _ => True
  | .fail _ => True
  | .call c k => P c ∧ ∀ r, (k r).Only P

variable {P : C → Prop}

theorem only_ofExcept (x : Except ε α) : (ofExcept x : Prog R ε α).Only P := by
  cases x with
  | ok a => trivial
  | error e => trivial

theorem only_run {c : C} (h : P c) : (run c : Prog R ε (R c)).Only P := ⟨h, only_ofExcept⟩

theorem only_bind {p : Prog R ε α} {f : α → Prog R ε β} (h : p.Only P) (hf : ∀ a, (f a).Only P) :
    (p >>= f).Only P := by
  induction p with
  | ret a => exact hf a
  | fail e => trivial
  | call c k ih => exact ⟨h.1, fun r => ih r (h.2 r)⟩

theorem only_attempt {p : Prog R ε α} (h : p.Only P) : (attempt p).Only P := by
  induction p with
  | ret a => trivial
  | fail e => trivial
  | call c k ih => exact ⟨h.1, fun r => ih r (h.2 r)⟩

theorem only_onExit {c : C} {p : Prog R ε α} (hc : P c) (h : p.Only P) : (onExit c p).Only P :=
  only_bind (only_attempt h) fun r => ⟨hc, fun _ => only_ofExcept r⟩

theorem only_onError {c : C} {p : Prog R ε α} (hc : P c) (h : p.Only P) : (onError c p).Only P := by
  refine only_bind (only_attempt h) fun r => ?_
  cases r with
  | ok a => trivial
  | error e => exact ⟨hc, fun _ => trivial⟩

/-- What every call of the kind keeps is kept all the way. -/
theorem wp_only {p : Prog R ε α} (h : p.Only P)
    (hstep : ∀ s c r s', P c → I s → step s c r s' → I s') (hI : I s) :
    wp step I p (fun _ _ => True) s := by
  induction p generalizing s with
  | ret a => exact ⟨hI, trivial⟩
  | fail e => exact ⟨hI, trivial⟩
  | call c k ih => exact ⟨hI, fun r s' hs => ih r (h.2 r) (hstep s c r s' h.1 hI hs)⟩

/-- A program runs to its end when its calls are answered. -/
theorem exists_exec {p : Prog R ε α} (h : p.Only P) (hanswer : ∀ s c, P c → ∃ r s', step s c r s') (s : σ) :
    ∃ x s', Exec step p s x s' := by
  induction p generalizing s with
  | ret a => exact ⟨_, _, .ret a s⟩
  | fail e => exact ⟨_, _, .fail e s⟩
  | call c k ih =>
      obtain ⟨r, s', hs⟩ := hanswer s c h.1
      obtain ⟨x, s'', hrest⟩ := ih r (h.2 r) s'
      exact ⟨x, s'', .call hs hrest⟩

end CrashLogic
