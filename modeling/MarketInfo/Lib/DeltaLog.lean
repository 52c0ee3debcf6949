import Mathlib

/-! # Delta logs

A log of timed deltas over an initial state, read at a time by replaying the
deltas up to it. `Recorded` relates such a log to the history it was written
from: replay at a recorded time gives the state recorded then. A history grows
by a delta that turns the last state into the next (`Recorded.write`), or silently
when the next state is the last one (`Recorded.skip`).

States are replayed in one representation and recorded in another; `R` relates
the two.
-/

namespace DeltaLog

variable {σ τ δ : Type*}

/-- The deltas up to time `n`, in order. -/
def upTo (log : List (Nat × δ)) (n : Nat) : List (Nat × δ) :=
  log.takeWhile fun e => decide (e.1 ≤ n)

/-- Apply a list of deltas. -/
def applyAll (apply : σ → δ → σ) (s : σ) (log : List (Nat × δ)) : σ :=
  log.foldl (fun s e => apply s e.2) s

/-- The state at time `n`. -/
def replayTo (apply : σ → δ → σ) (init : σ) (log : List (Nat × δ)) (n : Nat) : σ :=
  applyAll apply init (upTo log n)

@[simp] theorem applyAll_nil (apply : σ → δ → σ) (s : σ) : applyAll apply s [] = s := rfl

theorem applyAll_append (apply : σ → δ → σ) (s : σ) (l m : List (Nat × δ)) :
    applyAll apply s (l ++ m) = applyAll apply (applyAll apply s l) m := List.foldl_append

theorem upTo_eq_self {log : List (Nat × δ)} {n : Nat} (h : ∀ e ∈ log, e.1 ≤ n) : upTo log n = log := by
  unfold upTo
  rw [List.takeWhile_eq_self_iff]
  intro e he
  simpa using h e he

/-- A later delta is not read. -/
theorem upTo_concat_of_lt {log : List (Nat × δ)} {n k : Nat} {d : δ} (hk : k < n) :
    upTo (log ++ [(n, d)]) k = upTo log k := by
  unfold upTo
  rw [List.takeWhile_append]
  split
  · rename_i hall
    have hstop : [(n, d)].takeWhile (fun e => decide (e.1 ≤ k)) = [] := by
      simp
      omega
    rw [hstop, List.append_nil, (List.takeWhile_sublist _).eq_of_length hall]
  · rfl

/-! ## One time after another -/

/-- The deltas past time `n`. -/
def after (log : List (Nat × δ)) (n : Nat) : List (Nat × δ) :=
  log.dropWhile fun e => decide (e.1 ≤ n)

theorem upTo_append_after (log : List (Nat × δ)) (n : Nat) : upTo log n ++ after log n = log :=
  List.takeWhile_append_dropWhile

theorem upTo_cons_of_le {e : Nat × δ} {es : List (Nat × δ)} {n : Nat} (h : e.1 ≤ n) :
    upTo (e :: es) n = e :: upTo es n :=
  List.takeWhile_cons_of_pos (by simpa using h)

theorem upTo_cons_of_lt {e : Nat × δ} {es : List (Nat × δ)} {n : Nat} (h : n < e.1) :
    upTo (e :: es) n = [] :=
  List.takeWhile_cons_of_neg (by simpa using h)

theorem after_cons_of_le {e : Nat × δ} {es : List (Nat × δ)} {n : Nat} (h : e.1 ≤ n) :
    after (e :: es) n = after es n :=
  List.dropWhile_cons_of_pos (by simpa using h)

theorem after_cons_of_lt {e : Nat × δ} {es : List (Nat × δ)} {n : Nat} (h : n < e.1) :
    after (e :: es) n = e :: es :=
  List.dropWhile_cons_of_neg (by simpa using h)

/-- Before its first delta a log has nothing to read. -/
theorem upTo_eq_nil {log : List (Nat × δ)} {n : Nat} (h : ∀ e ∈ log, n < e.1) :
    upTo log n = [] ∧ after log n = log := by
  cases log with
  | nil => exact ⟨rfl, rfl⟩
  | cons e es =>
      have he := h e (by simp)
      exact ⟨upTo_cons_of_lt he, after_cons_of_lt he⟩

/-- A delta at the next time is the first one not yet read. -/
theorem next_of_mem {log : List (Nat × δ)} {n : Nat} {d : δ}
    (hinc : log.Pairwise fun a b => a.1 < b.1) (hd : (n + 1, d) ∈ log) :
    after log n = (n + 1, d) :: after log (n + 1) ∧ upTo log (n + 1) = upTo log n ++ [(n + 1, d)] := by
  induction log with
  | nil => cases hd
  | cons e es ih =>
      obtain ⟨hhead, htail⟩ := List.pairwise_cons.1 hinc
      rcases List.mem_cons.1 hd with rfl | hd
      · -- what follows is later still
        obtain ⟨hnil, hself⟩ := upTo_eq_nil hhead
        dsimp only at hnil hself
        rw [after_cons_of_lt (Nat.lt_succ_self n), after_cons_of_le (Nat.le_refl (n + 1)),
          upTo_cons_of_le (Nat.le_refl (n + 1)), upTo_cons_of_lt (Nat.lt_succ_self n), hnil, hself]
        exact ⟨rfl, rfl⟩
      · have hlt : e.1 < n + 1 := hhead _ hd
        obtain ⟨hafter, hupTo⟩ := ih htail hd
        rw [after_cons_of_le (Nat.le_of_lt_succ hlt), after_cons_of_le hlt.le,
          upTo_cons_of_le hlt.le, upTo_cons_of_le (Nat.le_of_lt_succ hlt), hupTo]
        exact ⟨hafter, rfl⟩

/-- Without a delta at the next time nothing is read. -/
theorem next_of_not_mem {log : List (Nat × δ)} {n : Nat} (hno : ∀ e ∈ log, e.1 ≠ n + 1) :
    after log n = after log (n + 1) ∧ upTo log (n + 1) = upTo log n := by
  induction log with
  | nil => exact ⟨rfl, rfl⟩
  | cons e es ih =>
      obtain ⟨hafter, hupTo⟩ := ih fun f hf => hno f (by simp [hf])
      have he := hno e (by simp)
      by_cases hle : e.1 ≤ n
      · have hle' : e.1 ≤ n + 1 := Nat.le_succ_of_le hle
        rw [after_cons_of_le hle, after_cons_of_le hle', upTo_cons_of_le hle, upTo_cons_of_le hle',
          hupTo]
        exact ⟨hafter, rfl⟩
      · have hlt : n + 1 < e.1 := by omega
        have hlt' : n < e.1 := by omega
        rw [after_cons_of_lt hlt, after_cons_of_lt hlt', upTo_cons_of_lt hlt, upTo_cons_of_lt hlt']
        exact ⟨rfl, rfl⟩

/-! ## Properties of each delta -/

/-- Every delta, against the state it is applied to. -/
def Each (P : σ → δ → Prop) (apply : σ → δ → σ) (init : σ) (log : List (Nat × δ)) : Prop :=
  ∀ front e back, log = front ++ e :: back → P (applyAll apply init front) e.2

theorem Each.nil {P : σ → δ → Prop} {apply : σ → δ → σ} {init : σ} : Each P apply init [] := by
  intro front e back h
  simp at h

theorem each_cons {P : σ → δ → Prop} {apply : σ → δ → σ} {init : σ} {e : Nat × δ}
    {log : List (Nat × δ)} :
    Each P apply init (e :: log) ↔ P init e.2 ∧ Each P apply (apply init e.2) log := by
  constructor
  · intro h
    refine ⟨h [] e log rfl, ?_⟩
    intro front f back hsplit
    exact h (e :: front) f back (by rw [hsplit]; rfl)
  · rintro ⟨he, hrest⟩ front f back hsplit
    cases front with
    | nil =>
        obtain ⟨rfl, -⟩ := List.cons.inj hsplit
        exact he
    | cons g gs =>
        obtain ⟨rfl, htail⟩ := List.cons.inj hsplit
        exact hrest gs f back htail

theorem Each.concat {P : σ → δ → Prop} {apply : σ → δ → σ} {init : σ} {log : List (Nat × δ)}
    {e : Nat × δ} (h : Each P apply init log) (he : P (applyAll apply init log) e.2) :
    Each P apply init (log ++ [e]) := by
  intro front f back hsplit
  rcases List.eq_nil_or_concat back with rfl | ⟨mid, last, rfl⟩
  · obtain ⟨rfl, hlast⟩ := List.append_inj' hsplit rfl
    rw [← (List.cons.inj hlast).1]
    exact he
  · -- the delta is one of the old ones
    rw [List.concat_eq_append, ← List.cons_append, ← List.append_assoc] at hsplit
    obtain ⟨hold, -⟩ := List.append_inj' hsplit rfl
    exact h front f mid hold

/-! ## Recorded histories -/

/-- The log reads back every state of the history at its time. -/
structure Recorded (R : σ → τ → Prop) (apply : σ → δ → σ) (init : σ) (log : List (Nat × δ))
    (history : List (Nat × τ)) : Prop where
  times : history.Pairwise fun a b => a.1 < b.1
  increasing : log.Pairwise fun a b => a.1 < b.1
  logged : ∀ e ∈ log, ∃ x, (e.1, x) ∈ history
  replays : ∀ e ∈ history, R (replayTo apply init log e.1) e.2

variable {R : σ → τ → Prop} {apply : σ → δ → σ} {init : σ} {log : List (Nat × δ)}
  {history : List (Nat × τ)}

theorem Recorded.empty : Recorded R apply init [] [] :=
  ⟨.nil, .nil, by simp, by simp⟩

/-- The first state is the initial one. -/
theorem Recorded.start {n : Nat} {x : τ} (h : R init x) : Recorded R apply init [] [(n, x)] := by
  refine ⟨List.pairwise_singleton _ _, .nil, by simp, ?_⟩
  intro e he
  rw [List.mem_singleton.1 he]
  exact h

/-- The last recorded time bounds the history. -/
theorem Recorded.le_last (h : Recorded R apply init log history) {m : Nat} {x : τ}
    (hlast : history.getLast? = some (m, x)) : ∀ e ∈ history, e.1 ≤ m := by
  obtain ⟨front, rfl⟩ := List.getLast?_eq_some_iff.1 hlast
  intro e he
  rcases List.mem_append.1 he with he | he
  · exact ((List.pairwise_append.1 h.times).2.2 e he (m, x) (by simp)).le
  · rw [List.mem_singleton.1 he]

/-- Every delta was logged at a recorded time. -/
theorem Recorded.log_le_last (h : Recorded R apply init log history) {m : Nat} {x : τ}
    (hlast : history.getLast? = some (m, x)) : ∀ e ∈ log, e.1 ≤ m := by
  intro e he
  obtain ⟨y, hy⟩ := h.logged e he
  exact h.le_last hlast _ hy

/-- The whole log replays to the last state. -/
theorem Recorded.last (h : Recorded R apply init log history) {m : Nat} {x : τ}
    (hlast : history.getLast? = some (m, x)) : R (applyAll apply init log) x := by
  have hr := h.replays (m, x) (List.mem_of_getLast? hlast)
  unfold replayTo at hr
  rwa [upTo_eq_self (h.log_le_last hlast)] at hr

theorem pairwise_concat {α : Type*} {r : α → α → Prop} {l : List α} {a : α} (hl : l.Pairwise r)
    (ha : ∀ b ∈ l, r b a) : (l ++ [a]).Pairwise r := by
  refine List.pairwise_append.2 ⟨hl, List.pairwise_singleton _ _, ?_⟩
  intro b hb c hc
  rw [List.mem_singleton.1 hc]
  exact ha b hb

/-- Recording a new state by a delta from the last one. -/
theorem Recorded.write (h : Recorded R apply init log history) {m n : Nat} {x y : τ} {d : δ}
    (hlast : history.getLast? = some (m, x)) (hn : m < n) (hd : ∀ s, R s x → R (apply s d) y) :
    Recorded R apply init (log ++ [(n, d)]) (history ++ [(n, y)]) := by
  have hle := h.le_last hlast
  have hlog := h.log_le_last hlast
  refine ⟨pairwise_concat h.times fun e he => (hle e he).trans_lt hn,
    pairwise_concat h.increasing fun e he => (hlog e he).trans_lt hn, ?_, ?_⟩
  · intro e he
    rcases List.mem_append.1 he with he | he
    · obtain ⟨z, hz⟩ := h.logged e he
      exact ⟨z, List.mem_append_left _ hz⟩
    · rw [List.mem_singleton.1 he]
      exact ⟨y, by simp⟩
  · intro e he
    rcases List.mem_append.1 he with he | he
    · -- earlier times do not read the new delta
      unfold replayTo
      rw [upTo_concat_of_lt ((hle e he).trans_lt hn)]
      exact h.replays e he
    · rw [List.mem_singleton.1 he]
      unfold replayTo
      rw [upTo_eq_self, applyAll_append]
      · exact hd _ (h.last hlast)
      · intro e he
        rcases List.mem_append.1 he with he | he
        · exact ((hlog e he).trans_lt hn).le
        · rw [List.mem_singleton.1 he]

/-- Recording a state that is already the last one. -/
theorem Recorded.skip (h : Recorded R apply init log history) {m n : Nat} {x y : τ}
    (hlast : history.getLast? = some (m, x)) (hn : m < n) (hsame : ∀ s, R s x → R s y) :
    Recorded R apply init log (history ++ [(n, y)]) := by
  have hle := h.le_last hlast
  refine ⟨pairwise_concat h.times fun e he => (hle e he).trans_lt hn, h.increasing, ?_, ?_⟩
  · intro e he
    obtain ⟨z, hz⟩ := h.logged e he
    exact ⟨z, List.mem_append_left _ hz⟩
  · intro e he
    rcases List.mem_append.1 he with he | he
    · exact h.replays e he
    · rw [List.mem_singleton.1 he]
      unfold replayTo
      rw [upTo_eq_self fun e he => ((h.log_le_last hlast e he).trans_lt hn).le]
      exact hsame _ (h.last hlast)

/-- The state after each delta of the log was recorded. -/
theorem Recorded.after_each (h : Recorded R apply init log history) {front back : List (Nat × δ)}
    {e : Nat × δ} (hlog : log = front ++ e :: back) :
    ∃ x, (e.1, x) ∈ history ∧ R (applyAll apply init (front ++ [e])) x := by
  obtain ⟨x, hx⟩ := h.logged e (by simp [hlog])
  refine ⟨x, hx, ?_⟩
  have hr := h.replays _ hx
  have hcut : upTo log e.1 = front ++ [e] := by
    have hinc := h.increasing
    rw [hlog] at hinc ⊢
    obtain ⟨-, hback, hcross⟩ := List.pairwise_append.1 hinc
    unfold upTo
    rw [List.takeWhile_append_of_pos, List.takeWhile_cons_of_pos (by simp)]
    · congr 2
      cases back with
      | nil => rfl
      | cons b bs =>
          have := (List.pairwise_cons.1 hback).1 b (by simp)
          rw [List.takeWhile_cons_of_neg (by simpa using this)]
    · intro a ha
      simpa using (hcross a ha e (by simp)).le
  unfold replayTo at hr
  rwa [hcut] at hr

end DeltaLog
