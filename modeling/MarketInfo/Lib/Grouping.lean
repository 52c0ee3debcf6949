import Mathlib

/-! # Grouping

Values collected under keys as they come, the way `m[k] = append(m[k], a)` fills a map.
A group is the part of the list under its key, so the sizes of the groups and what they
hold together do not depend on the order of the list.
-/

namespace Grouping

variable {κ α : Type*} [DecidableEq κ] (key : α → κ)

/-- `m[key(a)] = append(m[key(a)], a)`. -/
def add (m : List (κ × List α)) (a : α) : List (κ × List α) :=
  match m with
  | [] => [(key a, [a])]
  | g :: rest => if g.1 = key a then (g.1, g.2 ++ [a]) :: rest else g :: add rest a

/-- The map that a whole list fills. -/
def group (l : List α) : List (κ × List α) := l.foldl (add key) []

/-- The part of a list under a key. -/
def under (k : κ) (l : List α) : List α := l.filter fun a => decide (key a = k)

@[simp] theorem mem_under {k : κ} {l : List α} {a : α} : a ∈ under key k l ↔ a ∈ l ∧ key a = k := by
  simp [under]

theorem length_under {l m : List α} (h : l.Perm m) (k : κ) :
    (under key k l).length = (under key k m).length :=
  (h.filter _).length_eq

theorem keys_add (m : List (κ × List α)) (a : α) (k : κ) :
    k ∈ (add key m a).map Prod.fst ↔ k ∈ m.map Prod.fst ∨ k = key a := by
  induction m with
  | nil => simp [add]
  | cons g rest ih =>
      rw [add]
      split
      · rename_i hkey
        rw [List.map_cons, List.map_cons, List.mem_cons]
        constructor
        · exact Or.inl
        · rintro (h | rfl)
          · exact h
          · exact Or.inl hkey.symm
      · simp only [List.map_cons, List.mem_cons, ih, or_assoc]

theorem nodup_add {m : List (κ × List α)} (h : (m.map Prod.fst).Nodup) (a : α) :
    ((add key m a).map Prod.fst).Nodup := by
  induction m with
  | nil => simp [add]
  | cons g rest ih =>
      rw [List.map_cons, List.nodup_cons] at h
      rw [add]
      split
      · exact List.nodup_cons.2 h
      · rename_i hkey
        rw [List.map_cons, List.nodup_cons, keys_add]
        exact ⟨fun hmem => hmem.elim h.1 hkey, ih h.2⟩

/-- Only the group of the added value changes. -/
theorem mem_add {m : List (κ × List α)} (h : (m.map Prod.fst).Nodup) {a : α} {g : κ × List α} :
    g ∈ add key m a ↔ (g.1 ≠ key a ∧ g ∈ m) ∨ (g.1 = key a ∧ ∃ as, g.2 = as ++ [a] ∧
      ((g.1, as) ∈ m ∨ (as = [] ∧ g.1 ∉ m.map Prod.fst))) := by
  induction m with
  | nil =>
      rcases g with ⟨k, as⟩
      simp [add]
  | cons g₀ rest ih =>
      rcases g₀ with ⟨k₀, as₀⟩
      rcases g with ⟨k, as⟩
      rw [List.map_cons, List.nodup_cons] at h
      rw [add]
      dsimp only at h ⊢
      split
      · rename_i hkey
        subst hkey
        rw [List.mem_cons]
        constructor
        · rintro (heq | hmem)
          · cases heq
            exact .inr ⟨rfl, as₀, rfl, .inl List.mem_cons_self⟩
          · have hne : k ≠ key a := fun heq => h.1 (heq ▸ List.mem_map_of_mem hmem)
            exact .inl ⟨hne, List.mem_cons_of_mem _ hmem⟩
        · rintro (⟨hne, hmem⟩ | ⟨rfl, bs, rfl, hold | ⟨-, hnew⟩⟩)
          · rcases List.mem_cons.1 hmem with heq | hmem
            · cases heq
              exact absurd rfl hne
            · exact .inr hmem
          · rcases List.mem_cons.1 hold with heq | hmem
            · cases heq
              exact .inl rfl
            · exact absurd (List.mem_map_of_mem hmem) h.1
          · exact absurd List.mem_cons_self hnew
      · rename_i hkey
        rw [List.mem_cons, ih h.2, List.map_cons, List.mem_cons, List.mem_cons]
        constructor
        · rintro (heq | ⟨hne, hmem⟩ | ⟨rfl, bs, rfl, hold⟩)
          · cases heq
            exact .inl ⟨hkey, .inl rfl⟩
          · exact .inl ⟨hne, .inr hmem⟩
          · refine .inr ⟨rfl, bs, rfl, ?_⟩
            rcases hold with hold | ⟨hnil, hnew⟩
            · exact .inl (List.mem_cons_of_mem _ hold)
            · exact .inr ⟨hnil, fun hmem => hmem.elim (fun heq => hkey heq.symm) hnew⟩
        · rintro (⟨hne, heq | hmem⟩ | ⟨rfl, bs, rfl, hold | ⟨hnil, hnew⟩⟩)
          · exact .inl heq
          · exact .inr (.inl ⟨hne, hmem⟩)
          · rcases List.mem_cons.1 hold with heq | hmem
            · cases heq
              exact absurd rfl hkey
            · exact .inr (.inr ⟨rfl, bs, rfl, .inl hmem⟩)
          · exact .inr (.inr ⟨rfl, bs, rfl, .inr ⟨hnil, fun hmem => hnew (.inr hmem)⟩⟩)

theorem add_flatMap (m : List (κ × List α)) (a : α) :
    ((add key m a).flatMap Prod.snd).Perm (m.flatMap Prod.snd ++ [a]) := by
  induction m with
  | nil => simp [add]
  | cons g rest ih =>
      rw [add]
      split
      · simp only [List.flatMap_cons, List.append_assoc]
        exact List.perm_append_comm.append_left g.2
      · simp only [List.flatMap_cons, List.append_assoc]
        exact ih.append_left g.2

/-- What a map is when a list has filled it. -/
structure Groups (l : List α) (m : List (κ × List α)) : Prop where
  nodup : (m.map Prod.fst).Nodup
  mem : ∀ g, g ∈ m ↔ g.2 = under key g.1 l ∧ g.2 ≠ []
  perm : (m.flatMap Prod.snd).Perm l

theorem groups_nil : Groups key ([] : List α) [] := by
  refine ⟨List.nodup_nil, fun g => ?_, List.Perm.refl _⟩
  simp [under]

theorem Groups.mem_keys {l : List α} {m : List (κ × List α)} (h : Groups key l m) (k : κ) :
    k ∈ m.map Prod.fst ↔ under key k l ≠ [] := by
  constructor
  · intro hmem
    rcases List.mem_map.1 hmem with ⟨g, hg, rfl⟩
    have hg' := (h.mem g).1 hg
    exact hg'.1 ▸ hg'.2
  · intro hne
    exact List.mem_map.2 ⟨(k, under key k l), (h.mem _).2 ⟨rfl, hne⟩, rfl⟩

theorem Groups.concat {l : List α} {m : List (κ × List α)} (h : Groups key l m) (a : α) :
    Groups key (l ++ [a]) (add key m a) := by
  refine ⟨nodup_add key h.nodup a, fun g => ?_, (add_flatMap key m a).trans (h.perm.append_right [a])⟩
  rcases g with ⟨k, as⟩
  have hunder : under key k (l ++ [a]) = under key k l ++ if key a = k then [a] else [] := by
    unfold under
    rw [List.filter_append, List.filter_cons]
    simp
  have hkeys : k ∉ m.map Prod.fst ↔ under key k l = [] := by
    rw [h.mem_keys key, not_not]
  rw [mem_add key h.nodup, hunder]
  dsimp only
  by_cases hkey : key a = k
  · rw [if_pos hkey]
    constructor
    · rintro (⟨hne, -⟩ | ⟨-, bs, rfl, hold | ⟨rfl, hnew⟩⟩)
      · exact absurd hkey.symm hne
      · exact ⟨congrArg (· ++ [a]) ((h.mem _).1 hold).1, by simp⟩
      · exact ⟨by rw [hkeys.1 hnew], by simp⟩
    · rintro ⟨rfl, -⟩
      refine .inr ⟨hkey.symm, under key k l, rfl, ?_⟩
      by_cases hnil : under key k l = []
      · exact .inr ⟨hnil, hkeys.2 hnil⟩
      · exact .inl ((h.mem _).2 ⟨rfl, hnil⟩)
  · rw [if_neg hkey, List.append_nil]
    constructor
    · rintro (⟨-, hmem⟩ | ⟨heq, -⟩)
      · exact (h.mem _).1 hmem
      · exact absurd heq.symm hkey
    · exact fun hmem => .inl ⟨fun heq => hkey heq.symm, (h.mem _).2 hmem⟩

theorem groups_group (l : List α) : Groups key l (group key l) := by
  induction l using List.reverseRecOn with
  | nil => exact groups_nil key
  | append_singleton l a ih =>
      unfold group at ih ⊢
      rw [List.foldl_append]
      exact ih.concat key a

variable {key}

/-- Groups counted by key and size. -/
theorem Groups.countP_eq {l : List α} {m : List (κ × List α)} (h : Groups key l m) (p : κ → Nat → Bool) :
    (m.countP fun g => p g.1 g.2.length) = (l.map key).dedup.countP fun k => p k (under key k l).length := by
  have hkeys : (m.map Prod.fst).Perm (l.map key).dedup := by
    refine (List.perm_ext_iff_of_nodup h.nodup (List.nodup_dedup _)).2 fun k => ?_
    rw [h.mem_keys, List.mem_dedup, List.mem_map]
    constructor
    · intro hne
      rcases List.exists_mem_of_ne_nil _ hne with ⟨a, ha⟩
      exact ⟨a, (mem_under key).1 ha⟩
    · rintro ⟨a, ha⟩
      exact List.ne_nil_of_mem ((mem_under key).2 ha)
  rw [← hkeys.countP_eq, List.countP_map]
  refine List.countP_congr fun g hg => ?_
  rw [Function.comp_apply, ← ((h.mem g).1 hg).1]

/-- The values of the groups that are chosen by key and size. -/
theorem chosen_perm {l : List α} {m : List (κ × List α)} (h : Groups key l m) (p : κ → Nat → Bool) :
    ((m.filter fun g => p g.1 g.2.length).flatMap Prod.snd).Perm
      (l.filter fun a => p (key a) (under key (key a) l).length) := by
  have hgroup : ∀ g ∈ m, ∀ a ∈ g.2, p (key a) (under key (key a) l).length = p g.1 g.2.length := by
    intro g hg a ha
    have hg' := ((h.mem g).1 hg).1
    have hkey : key a = g.1 := ((mem_under key).1 (hg' ▸ ha)).2
    rw [hkey, ← hg']
  have hsplit : (m.filter fun g => p g.1 g.2.length).flatMap Prod.snd =
      (m.flatMap Prod.snd).filter fun a => p (key a) (under key (key a) l).length := by
    clear h
    induction m with
    | nil => rfl
    | cons g rest ih =>
        have hrest := ih fun g' hg' => hgroup g' (List.mem_cons_of_mem _ hg')
        rw [List.flatMap_cons, List.filter_append, ← hrest, List.filter_cons]
        have hg := hgroup g List.mem_cons_self
        split
        · rename_i hp
          have hall := List.filter_eq_self.2 fun a ha => (hg a ha).trans hp
          rw [List.flatMap_cons, hall]
        · rename_i hp
          have hnone := List.filter_eq_nil_iff.2 fun a ha heq => hp ((hg a ha).symm.trans heq)
          rw [hnone, List.nil_append]
  rw [hsplit]
  exact h.perm.filter _

end Grouping
