import Mathlib

/-! # Leaders of classes

One pass over a collection that keeps, in each class, the element that comes before all
others seen so far. With a strict order that compares any two of a class, the order in
which the elements are visited does not matter.
-/

namespace Leader

variable {α γ : Type*} (classOf : α → Option γ) (before : α → α → Prop)

section

variable [DecidableEq γ] [DecidableRel before]

/-- One element more: it is skipped, or it leads its class, or it does not. -/
def keep (best : γ → Option α) (a : α) : γ → Option α :=
  match classOf a with
  | none => best
  | some c =>
      match best c with
      | none => Function.update best c (some a)
      | some old => if before a old then Function.update best c (some a) else best

def leaders (xs : List α) : γ → Option α := xs.foldl (keep classOf before) fun _ => none

theorem leaders_append_singleton (xs : List α) (a : α) :
    leaders classOf before (xs ++ [a]) = keep classOf before (leaders classOf before xs) a := by
  unfold leaders
  rw [List.foldl_append]
  rfl

end

/-- The leader of a class, or nobody where the class is empty. -/
def Leads (xs : List α) (c : γ) : Option α → Prop
  | none => ∀ a ∈ xs, classOf a ≠ some c
  | some a => a ∈ xs ∧ classOf a = some c ∧ ∀ b ∈ xs, classOf b = some c → b = a ∨ before a b

variable {classOf before}

/-- An element of another class changes nothing. -/
theorem Leads.append_other {xs : List α} {c : γ} {o : Option α} {a : α} (h : Leads classOf before xs c o)
    (ha : classOf a ≠ some c) : Leads classOf before (xs ++ [a]) c o := by
  rcases o with _ | leader
  · intro b hb
    rcases List.mem_append.1 hb with hb | hb
    · exact h b hb
    · rw [List.mem_singleton.1 hb]
      exact ha
  · obtain ⟨hmem, hclass, hfirst⟩ := h
    refine ⟨List.mem_append_left _ hmem, hclass, ?_⟩
    intro b hb hbc
    rcases List.mem_append.1 hb with hb | hb
    · exact hfirst b hb hbc
    · rw [List.mem_singleton.1 hb] at hbc
      exact absurd hbc ha

theorem Leads.first {xs : List α} {c : γ} {a : α} (h : Leads classOf before xs c none)
    (ha : classOf a = some c) : Leads classOf before (xs ++ [a]) c (some a) := by
  refine ⟨List.mem_append_right _ List.mem_cons_self, ha, ?_⟩
  intro b hb hbc
  rcases List.mem_append.1 hb with hb | hb
  · exact absurd hbc (h b hb)
  · exact .inl (List.mem_singleton.1 hb)

theorem Leads.beaten {xs : List α} {c : γ} {old a : α} (h : Leads classOf before xs c (some old))
    (ha : classOf a = some c) (hbefore : before a old)
    (htrans : ∀ x y z, before x y → before y z → before x z) :
    Leads classOf before (xs ++ [a]) c (some a) := by
  refine ⟨List.mem_append_right _ List.mem_cons_self, ha, ?_⟩
  intro b hb hbc
  rcases List.mem_append.1 hb with hb | hb
  · rcases h.2.2 b hb hbc with rfl | hlater
    · exact .inr hbefore
    · exact .inr (htrans a old b hbefore hlater)
  · exact .inl (List.mem_singleton.1 hb)

theorem Leads.stays {xs : List α} {c : γ} {old a : α} (h : Leads classOf before xs c (some old))
    (hcompare : a = old ∨ before old a) : Leads classOf before (xs ++ [a]) c (some old) := by
  refine ⟨List.mem_append_left _ h.1, h.2.1, ?_⟩
  intro b hb hbc
  rcases List.mem_append.1 hb with hb | hb
  · exact h.2.2 b hb hbc
  · rw [List.mem_singleton.1 hb]
    exact hcompare

/-- The pass finds the leader of every class. -/
theorem leads_leaders [DecidableEq γ] [DecidableRel before]
    (htrans : ∀ x y z, before x y → before y z → before x z)
    {xs : List α} (htotal : ∀ a ∈ xs, ∀ b ∈ xs, a = b ∨ before a b ∨ before b a) (c : γ) :
    Leads classOf before xs c (leaders classOf before xs c) := by
  induction xs using List.reverseRecOn with
  | nil => exact fun a ha => absurd ha List.not_mem_nil
  | append_singleton xs a ih =>
      have hprior := ih fun x hx y hy => htotal x (List.mem_append_left _ hx) y (List.mem_append_left _ hy)
      rw [leaders_append_singleton]
      unfold keep
      rcases hclass : classOf a with _ | d
      · refine hprior.append_other ?_
        rw [hclass]
        exact nofun
      · dsimp only
        by_cases hdc : d = c
        · subst hdc
          rcases hold : leaders classOf before xs d with _ | old
          · rw [hold] at hprior
            simpa using hprior.first hclass
          · rw [hold] at hprior
            dsimp only
            by_cases hbefore : before a old
            · rw [if_pos hbefore, Function.update_self]
              exact hprior.beaten hclass hbefore htrans
            · rw [if_neg hbefore, hold]
              refine hprior.stays ?_
              rcases htotal a (List.mem_append_right _ List.mem_cons_self) old
                (List.mem_append_left _ hprior.1) with heq | h | h
              · exact .inl heq
              · exact absurd h hbefore
              · exact .inr h
        · have hne : classOf a ≠ some c := by
            rw [hclass]
            exact fun h => hdc (Option.some.inj h)
          have hother : ∀ best : γ → Option α, Function.update best d (some a) c = best c := fun best =>
            Function.update_of_ne (Ne.symm hdc) _ _
          have hsame : (match leaders classOf before xs d with
              | none => Function.update (leaders classOf before xs) d (some a)
              | some old => if before a old then Function.update (leaders classOf before xs) d (some a)
                  else leaders classOf before xs) c = leaders classOf before xs c := by
            rcases leaders classOf before xs d with _ | old
            · exact hother _
            · dsimp only
              split
              · exact hother _
              · rfl
          rw [hsame]
          exact hprior.append_other hne

/-- There is one leader at most, whatever else the collections hold. -/
theorem Leads.unique (hasymm : ∀ x y, before x y → ¬ before y x) {xs ys : List α} {c : γ} {o o' : Option α}
    (h : Leads classOf before xs c o) (h' : Leads classOf before ys c o')
    (hmem : ∀ a, classOf a = some c → (a ∈ xs ↔ a ∈ ys)) : o = o' := by
  rcases o with _ | a
  · rcases o' with _ | b
    · rfl
    · exact absurd h'.2.1 (h b ((hmem b h'.2.1).2 h'.1))
  · rcases o' with _ | b
    · exact absurd h.2.1 (h' a ((hmem a h.2.1).1 h.1))
    · rcases h.2.2 b ((hmem b h'.2.1).2 h'.1) h'.2.1 with rfl | hab
      · rfl
      · rcases h'.2.2 a ((hmem a h.2.1).1 h.1) h.2.1 with rfl | hba
        · rfl
        · exact absurd hba (hasymm a b hab)

end Leader
