import Mathlib

/-! # Maximal runs

Lists of elements each of which steps to the next, such that nothing steps to the first of any.
Where no two elements step to one, each list is all that can be reached.
-/

namespace Runs

variable {α : Type*} {step : α → α → Prop}

/-- Runs that cannot be made longer at the front. -/
structure Maximal (step : α → α → Prop) (gs : List (List α)) : Prop where
  chain : ∀ g ∈ gs, g.IsChain step
  fresh : ∀ g ∈ gs, ∀ b ∈ g.head?, ∀ a, ¬ step a b

theorem Maximal.nil : Maximal step [] := ⟨nofun, nofun⟩

theorem Maximal.concat {gs : List (List α)} (h : Maximal step gs) {b : α} (hfresh : ∀ a, ¬ step a b) :
    Maximal step (gs ++ [[b]]) where
  chain := by
    intro g hg
    rcases List.mem_append.1 hg with hg | hg
    · exact h.chain g hg
    · rw [List.mem_singleton.1 hg]
      exact List.isChain_singleton b
  fresh := by
    intro g hg c hc a
    rcases List.mem_append.1 hg with hg | hg
    · exact h.fresh g hg c hc a
    · rw [List.mem_singleton.1 hg] at hc
      rw [← Option.some.inj hc]
      exact hfresh a

/-- The last run goes on. -/
theorem Maximal.extend {gs : List (List α)} {g : List α} {a b : α} (h : Maximal step (gs ++ [g]))
    (hlast : g.getLast? = some a) (hstep : step a b) : Maximal step (gs ++ [g ++ [b]]) where
  chain := by
    intro g' hg'
    rcases List.mem_append.1 hg' with hg' | hg'
    · exact h.chain g' (List.mem_append_left _ hg')
    · rw [List.mem_singleton.1 hg', List.isChain_append]
      refine ⟨h.chain g (by simp), List.isChain_singleton b, ?_⟩
      intro x hx y hy
      rw [hlast] at hx
      rw [← Option.some.inj hx, ← Option.some.inj hy]
      exact hstep
  fresh := by
    intro g' hg' c hc x
    rcases List.mem_append.1 hg' with hg' | hg'
    · exact h.fresh g' (List.mem_append_left _ hg') c hc x
    · rw [List.mem_singleton.1 hg'] at hc
      have hhead : g.head? = some c := by
        rcases g with _ | ⟨d, g⟩
        · cases hlast
        · exact hc
      exact h.fresh g (by simp) c hhead x

/-- An element of a run is its first one, or another one of the run steps to it. -/
theorem exists_before {g : List α} (h : g.IsChain step) {b : α} (hb : b ∈ g) :
    g.head? = some b ∨ ∃ a ∈ g, step a b := by
  induction g with
  | nil => cases hb
  | cons c g ih =>
      rcases List.mem_cons.1 hb with rfl | hb
      · exact .inl rfl
      · rcases ih h.tail hb with hhead | ⟨a, ha, hstep⟩
        · rcases g with _ | ⟨d, g⟩
          · cases hb
          · rw [← Option.some.inj hhead]
            exact .inr ⟨c, List.mem_cons_self, (List.isChain_cons_cons.1 h).1⟩
        · exact .inr ⟨a, List.mem_cons_of_mem _ ha, hstep⟩

/-- Of two elements of a run one reaches the other. -/
theorem reaches_of_mem {g : List α} (h : g.IsChain step) {a b : α} (ha : a ∈ g) (hb : b ∈ g) :
    Relation.ReflTransGen step a b ∨ Relation.ReflTransGen step b a := by
  have hreach : g.IsChain (Relation.ReflTransGen step) := h.imp fun _ _ => .single
  have hpairs : g.Pairwise (Relation.ReflTransGen step) := List.isChain_iff_pairwise.1 hreach
  clear h hreach
  induction hpairs with
  | nil => cases ha
  | cons hfirst _ ih =>
      rcases List.mem_cons.1 ha with rfl | ha'
      · rcases List.mem_cons.1 hb with rfl | hb'
        · exact .inl .refl
        · exact .inl (hfirst b hb')
      · rcases List.mem_cons.1 hb with rfl | hb'
        · exact .inr (hfirst a ha')
        · exact ih ha' hb'

/-- What reaches an element of a run is in the run. -/
theorem Maximal.mem_of_reaches {gs : List (List α)} (h : Maximal step gs)
    (hback : ∀ a b c, step a c → step b c → a = b) {a b : α} (hreach : Relation.ReflTransGen step a b)
    {g : List α} (hg : g ∈ gs) (hb : b ∈ g) : a ∈ g := by
  induction hreach with
  | refl => exact hb
  | tail _ hstep ih =>
      -- the first of a run has nothing before it, and any other only what the run has there
      rcases exists_before (h.chain g hg) hb with hhead | ⟨c, hc, hstep'⟩
      · exact absurd hstep (h.fresh g hg _ hhead _)
      · rw [hback _ _ _ hstep hstep'] at ih
        exact ih hc

/-! ## Runs that count -/

/-- What a step keeps, all of a run has in common. -/
theorem same_of_mem {β : Type*} {key : α → β} (hkey : ∀ a b, step a b → key a = key b) {g : List α}
    (h : g.IsChain step) {first : α} (hfirst : g.head? = some first) : ∀ c ∈ g, key c = key first := by
  intro c hc
  have hhead : first ∈ g := List.mem_of_head? hfirst
  have hsame : ∀ a b, Relation.ReflTransGen step a b → key a = key b := by
    intro a b hreach
    induction hreach with
    | refl => rfl
    | tail _ hstep ih => exact ih.trans (hkey _ _ hstep)
  rcases reaches_of_mem h hc hhead with hreach | hreach
  · exact hsame _ _ hreach
  · exact (hsame _ _ hreach).symm

/-- A run whose steps count one up takes exactly the values between those of its ends. -/
theorem exists_mem_iff_between {height : α → Nat} (hheight : ∀ a b, step a b → height a + 1 = height b)
    {g : List α} (h : g.IsChain step) {first last : α} (hfirst : g.head? = some first)
    (hlast : g.getLast? = some last) (n : Nat) :
    (∃ c ∈ g, height c = n) ↔ height first ≤ n ∧ n ≤ height last := by
  induction g generalizing first n with
  | nil => cases hfirst
  | cons a g ih =>
      rw [← Option.some.inj hfirst]
      rcases g with _ | ⟨b, g⟩
      · rw [← Option.some.inj hlast]
        simp [le_antisymm_iff, and_comm]
      · rw [List.isChain_cons_cons] at h
        have hstep := hheight a b h.1
        have hrest := fun n => ih h.2 rfl hlast n
        have hle : height b ≤ height last := ((hrest (height b)).1 ⟨b, List.mem_cons_self, rfl⟩).2
        rw [List.exists_mem_cons_iff, hrest]
        omega

/-! ## What stands for the runs -/

variable {β : Type*} {R : α → β → Prop} {l : List α} {m : List β}

theorem exists_right (h : List.Forall₂ R l m) : ∀ a ∈ l, ∃ b ∈ m, R a b := by
  intro a ha
  induction h with
  | nil => cases ha
  | @cons _ b _ _ hab _ ih =>
      rcases List.mem_cons.1 ha with rfl | ha
      · exact ⟨b, List.mem_cons_self, hab⟩
      · rcases ih ha with ⟨c, hc, hac⟩
        exact ⟨c, List.mem_cons_of_mem _ hc, hac⟩

theorem exists_left (h : List.Forall₂ R l m) : ∀ b ∈ m, ∃ a ∈ l, R a b := exists_right h.flip

theorem pairwise_right {S : α → α → Prop} {T : β → β → Prop}
    (hST : ∀ a a' b b', R a b → R a' b' → S a a' → T b b') (h : List.Forall₂ R l m) (hl : l.Pairwise S) :
    m.Pairwise T := by
  induction h with
  | nil => exact .nil
  | cons hab hrest ih =>
      rcases List.pairwise_cons.1 hl with ⟨hfirst, hl⟩
      refine List.pairwise_cons.2 ⟨?_, ih hl⟩
      intro b' hb'
      rcases exists_left hrest b' hb' with ⟨a', ha', hab'⟩
      exact hST _ _ _ _ hab hab' (hfirst a' ha')

end Runs
