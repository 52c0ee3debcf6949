import Mathlib.Data.List.Perm.Basic
import Mathlib.Data.List.Nodup
import Mathlib.Tactic.Tauto

/-! # Rows that are written once

A table keeps a row for each key. A row that the table holds already may be put
again, another row of its key may not. What comes of putting many rows is told by
which rows they are: neither their order nor a repetition matters.
-/

namespace WriteOnce

variable {σ κ : Type*} [DecidableEq σ] [DecidableEq κ] (key : σ → κ)

/-- Put one row; `none` is a conflict. -/
def put (held : List σ) (s : σ) : Option (List σ) :=
  if s ∈ held then some held
  else if key s ∈ held.map key then none
  else some (held ++ [s])

def putAll (held rows : List σ) : Option (List σ) := rows.foldlM (put key) held

/-- The rows that are not held, each where it comes first. -/
def fresh (held : List σ) : List σ → List σ
  | [] => []
  | s :: rows => if s ∈ held then fresh held rows else s :: fresh (held ++ [s]) rows

/-- No two rows have one key. -/
def Agree (xs : List σ) : Prop := ∀ a ∈ xs, ∀ b ∈ xs, key a = key b → a = b

variable {key}

omit [DecidableEq σ] [DecidableEq κ] in
theorem Agree.mono {xs ys : List σ} (h : Agree key ys) (hsub : ∀ a ∈ xs, a ∈ ys) : Agree key xs :=
  fun a ha b hb => h a (hsub a ha) b (hsub b hb)

theorem mem_fresh {held rows : List σ} {a : σ} : a ∈ fresh held rows ↔ a ∈ rows ∧ a ∉ held := by
  induction rows generalizing held with
  | nil => simp [fresh]
  | cons s rows ih =>
      unfold fresh
      split
      · rename_i hs
        rw [ih, List.mem_cons]
        constructor
        · exact fun h => ⟨.inr h.1, h.2⟩
        · rintro ⟨rfl | h, hnot⟩
          · exact absurd hs hnot
          · exact ⟨h, hnot⟩
      · rename_i hs
        rw [List.mem_cons, ih, List.mem_cons, List.mem_append, List.mem_singleton]
        constructor
        · rintro (rfl | h)
          · exact ⟨.inl rfl, hs⟩
          · exact ⟨.inr h.1, fun h' => h.2 (.inl h')⟩
        · rintro ⟨rfl | h, hnot⟩
          · exact .inl rfl
          · by_cases hsame : a = s
            · exact .inl hsame
            · exact .inr ⟨h, by tauto⟩

theorem mem_append_fresh {held rows : List σ} {a : σ} :
    a ∈ held ++ fresh held rows ↔ a ∈ held ++ rows := by
  rw [List.mem_append, mem_fresh, List.mem_append]
  tauto

/-- Only which rows are held matters. -/
theorem fresh_congr {held held' : List σ} (rows : List σ) (h : ∀ a, a ∈ held ↔ a ∈ held') :
    fresh held rows = fresh held' rows := by
  induction rows generalizing held held' with
  | nil => rfl
  | cons s rows ih =>
      unfold fresh
      rw [ih h, @ih (held ++ [s]) (held' ++ [s]) fun a => by
        rw [List.mem_append, List.mem_append, h]]
      simp only [h]

theorem nodup_fresh (held rows : List σ) : (fresh held rows).Nodup := by
  induction rows generalizing held with
  | nil => exact List.nodup_nil
  | cons s rows ih =>
      unfold fresh
      split
      · exact ih held
      · refine List.nodup_cons.mpr ⟨fun h => ?_, ih _⟩
        exact (mem_fresh.mp h).2 (by simp)

theorem fresh_append (held rows rows' : List σ) :
    fresh held (rows ++ rows') = fresh held rows ++ fresh (held ++ fresh held rows) rows' := by
  induction rows generalizing held with
  | nil => simp [fresh]
  | cons s rows ih =>
      rw [List.cons_append, fresh, fresh]
      split
      · exact ih held
      · rw [ih, List.cons_append, List.append_assoc, List.singleton_append]

/-- A row can be put iff no other row of its key is held. -/
theorem put_eq_some_iff {held held' : List σ} {s : σ} (h : Agree key held) :
    put key held s = some held' ↔ Agree key (held ++ [s]) ∧ held' = held ++ fresh held [s] := by
  unfold put
  by_cases hs : s ∈ held
  · rw [if_pos hs, Option.some_inj]
    have hagree : Agree key (held ++ [s]) :=
      h.mono fun a ha => (List.mem_append.mp ha).elim id fun ha => List.mem_singleton.mp ha ▸ hs
    have hfresh : fresh held [s] = [] := by simp [fresh, hs]
    rw [hfresh, List.append_nil]
    exact ⟨fun heq => ⟨hagree, heq.symm⟩, fun heq => heq.2.symm⟩
  · have hfresh : fresh held [s] = [s] := by simp [fresh, hs]
    rw [if_neg hs, hfresh]
    split
    · rename_i hkey
      obtain ⟨b, hb, hbs⟩ := List.mem_map.mp hkey
      constructor
      · intro hnone
        cases hnone
      · intro hagree
        -- the row of that key that is held is another one
        have hsame : b = s := hagree.1 b (by simp [hb]) s (by simp) hbs
        exact absurd (hsame ▸ hb) hs
    · rename_i hkey
      rw [Option.some_inj]
      have hagree : Agree key (held ++ [s]) := by
        intro a ha b hb hab
        rcases List.mem_append.mp ha with hheld | hnew <;>
          rcases List.mem_append.mp hb with hheld' | hnew'
        · exact h a hheld b hheld' hab
        · exact absurd (List.mem_map.mpr ⟨a, hheld, hab.trans (by rw [List.mem_singleton.mp hnew'])⟩) hkey
        · have hs' : a = s := List.mem_singleton.mp hnew
          exact absurd (List.mem_map.mpr ⟨b, hheld', hab.symm.trans (by rw [hs'])⟩) hkey
        · rw [List.mem_singleton.mp hnew, List.mem_singleton.mp hnew']
      exact ⟨fun heq => ⟨hagree, heq.symm⟩, fun heq => heq.2.symm⟩

/-- Rows can be put one after another iff no two rows, held or put, share a key; then the table
has grown by those that are new. -/
theorem putAll_eq_some_iff {held held' rows : List σ} (h : Agree key held) :
    putAll key held rows = some held' ↔
      Agree key (held ++ rows) ∧ held' = held ++ fresh held rows := by
  induction rows generalizing held with
  | nil =>
      rw [putAll, List.foldlM_nil, fresh, List.append_nil]
      exact ⟨fun heq => ⟨h, (Option.some.inj heq).symm⟩, fun heq => by rw [heq.2]; rfl⟩
  | cons s rows ih =>
      rw [putAll, List.foldlM_cons]
      have hsplit : fresh held (s :: rows) =
          fresh held [s] ++ fresh (held ++ fresh held [s]) rows := fresh_append held [s] rows
      constructor
      · intro hrun
        obtain ⟨next, hput, hrest⟩ := Option.bind_eq_some_iff.mp hrun
        obtain ⟨hagree, rfl⟩ := (put_eq_some_iff h).mp hput
        have hnext : Agree key (held ++ fresh held [s]) :=
          hagree.mono fun a ha => mem_append_fresh.mp ha
        obtain ⟨hall, rfl⟩ := (ih hnext).mp hrest
        refine ⟨hall.mono fun a ha => ?_, by rw [hsplit, List.append_assoc]⟩
        rw [List.mem_append, mem_append_fresh]
        simp only [List.mem_append, List.mem_cons, List.not_mem_nil, or_false] at ha ⊢
        tauto
      · rintro ⟨hall, rfl⟩
        have hagree : Agree key (held ++ [s]) := hall.mono fun a ha => by
          simp only [List.mem_append, List.mem_cons, List.not_mem_nil, or_false] at ha ⊢
          tauto
        have hnext : Agree key (held ++ fresh held [s]) :=
          hagree.mono fun a ha => mem_append_fresh.mp ha
        refine Option.bind_eq_some_iff.mpr ⟨_, (put_eq_some_iff h).mpr ⟨hagree, rfl⟩, ?_⟩
        refine (ih hnext).mpr ⟨hall.mono fun a ha => ?_, by rw [hsplit, List.append_assoc]⟩
        rw [List.mem_append, mem_append_fresh] at ha
        simp only [List.mem_append, List.mem_cons, List.not_mem_nil, or_false] at ha ⊢
        tauto

theorem putAll_append (held rows rows' : List σ) :
    putAll key held (rows ++ rows') = putAll key held rows >>= fun next => putAll key next rows' :=
  List.foldlM_append ..

/-- Whoever knows which rows there are knows whether they conflict, and what they leave but for
the order. -/
theorem putAll_congr {held rows rows' : List σ} (h : Agree key held)
    (hsame : ∀ a, a ∈ rows ↔ a ∈ rows') :
    Option.Rel List.Perm (putAll key held rows) (putAll key held rows') := by
  have hmem : ∀ a, a ∈ held ++ rows ↔ a ∈ held ++ rows' := fun a => by
    rw [List.mem_append, List.mem_append, hsame]
  have hperm : (held ++ fresh held rows).Perm (held ++ fresh held rows') := by
    refine (List.Perm.refl held).append ?_
    refine (List.perm_ext_iff_of_nodup (nodup_fresh held rows) (nodup_fresh held rows')).mpr ?_
    intro a
    rw [mem_fresh, mem_fresh, hsame]
  cases hleft : putAll key held rows with
  | some next =>
      obtain ⟨hagree, rfl⟩ := (putAll_eq_some_iff h).mp hleft
      rw [(putAll_eq_some_iff h).mpr ⟨hagree.mono fun a ha => (hmem a).mpr ha, rfl⟩]
      exact .some hperm
  | none =>
      cases hright : putAll key held rows' with
      | none => exact .none
      | some next =>
          obtain ⟨hagree, -⟩ := (putAll_eq_some_iff h).mp hright
          have hback := (putAll_eq_some_iff h).mpr
            ⟨hagree.mono fun a ha => (hmem a).mp ha, rfl⟩
          rw [hback] at hleft
          cases hleft

/-! ## Cuts -/

theorem nodup_append_fresh {held : List σ} (h : held.Nodup) (rows : List σ) :
    (held ++ fresh held rows).Nodup := by
  refine List.nodup_append.mpr ⟨h, nodup_fresh held rows, ?_⟩
  rintro a ha b hb rfl
  exact (mem_fresh.mp hb).2 ha

theorem fresh_eq_filter (held rows : List σ) :
    fresh held rows = (fresh [] rows).filter fun s => decide (s ∉ held) := by
  -- the rows seen so far, on either side
  suffices h : ∀ seen, fresh (held ++ seen) rows = (fresh seen rows).filter fun s => decide (s ∉ held) by
    simpa using h []
  induction rows with
  | nil => exact fun _ => rfl
  | cons s rows ih =>
      intro seen
      unfold fresh
      have hnext := ih (seen ++ [s])
      by_cases hseen : s ∈ seen
      · rw [if_pos (by simp [hseen]), if_pos hseen]
        exact ih seen
      · rw [if_neg hseen]
        by_cases hheld : s ∈ held
        · rw [if_pos (by simp [hheld]), List.filter_cons_of_neg (by simp [hheld]), ← hnext]
          refine fresh_congr rows fun a => ?_
          simp only [List.mem_append, List.mem_singleton]
          constructor
          · rintro (h | h)
            · exact .inl h
            · exact .inr (.inl h)
          · rintro (h | h | rfl)
            · exact .inl h
            · exact .inr h
            · exact .inl hheld
        · rw [if_neg (by simp [hheld, hseen]), List.filter_cons_of_pos (by simp [hheld]), List.append_assoc, hnext]

/-- Rows with the keys of a cut, and the cut's own distinct rows: the cut can be put iff it agrees
with itself and with them, and it adds those that are not held. -/
theorem putAll_eq_of_cut {held rows us : List σ} (h : Agree key held)
    (hcut : putAll key [] rows = some us) :
    putAll key held rows =
      if ∀ s ∈ held, ∀ u ∈ us, key s = key u → s = u then
        some (held ++ us.filter fun u => decide (u ∉ held)) else none := by
  have hempty : Agree key ([] : List σ) := fun a ha => by cases ha
  obtain ⟨hrows, rfl⟩ := (putAll_eq_some_iff hempty).mp hcut
  rw [List.nil_append] at hrows ⊢
  have hmem : ∀ a, a ∈ fresh [] rows ↔ a ∈ rows := fun a => by simp [mem_fresh]
  split
  · rename_i hcross
    refine (putAll_eq_some_iff h).mpr ⟨?_, by rw [← fresh_eq_filter]⟩
    intro a ha b hb hab
    rcases List.mem_append.mp ha with hheld | hrow <;>
      rcases List.mem_append.mp hb with hheld' | hrow'
    · exact h a hheld b hheld' hab
    · exact hcross a hheld b ((hmem b).mpr hrow') hab
    · exact (hcross b hheld' a ((hmem a).mpr hrow) hab.symm).symm
    · exact hrows a hrow b hrow' hab
  · rename_i hcross
    cases hrun : putAll key held rows with
    | none => rfl
    | some next =>
        obtain ⟨hall, -⟩ := (putAll_eq_some_iff h).mp hrun
        refine absurd (fun s hs u hu hsu => ?_) hcross
        exact hall s (by simp [hs]) u (by simp [(hmem u).mp hu]) hsu

/-- Rows that do not agree among themselves cannot be put anywhere. -/
theorem putAll_eq_none_of_cut {held rows : List σ} (h : Agree key held)
    (hcut : putAll key [] rows = none) : putAll key held rows = none := by
  have hempty : Agree key ([] : List σ) := fun a ha => by cases ha
  cases hrun : putAll key held rows with
  | none => rfl
  | some next =>
      obtain ⟨hall, -⟩ := (putAll_eq_some_iff h).mp hrun
      have hrows : putAll key [] rows = some ([] ++ fresh [] rows) :=
        (putAll_eq_some_iff hempty).mpr ⟨hall.mono fun a ha => by simpa using .inr ha, rfl⟩
      rw [hrows] at hcut
      cases hcut

/-- A key is held at most once. -/
theorem filter_key {held : List σ} (h : Agree key held) (hnodup : held.Nodup) (k : κ) :
    (held.filter fun s => decide (key s = k)) = [] ∧ k ∉ held.map key ∨
      ∃ s ∈ held, key s = k ∧ (held.filter fun s => decide (key s = k)) = [s] := by
  by_cases hk : k ∈ held.map key
  · obtain ⟨s, hs, hsk⟩ := List.mem_map.mp hk
    refine .inr ⟨s, hs, hsk, ?_⟩
    have hsame : (held.filter fun a => decide (key a = k)) = held.filter fun a => a == s := by
      refine List.filter_congr fun a ha => ?_
      rw [beq_eq_decide, decide_eq_decide]
      exact ⟨fun hak => h a ha s hs (hak.trans hsk.symm), fun has => has ▸ hsk⟩
    rw [hsame, List.filter_beq, List.count_eq_one_of_mem hnodup hs, List.replicate_one]
  · refine .inl ⟨List.filter_eq_nil_iff.mpr fun s hs hsk => ?_, hk⟩
    exact hk (List.mem_map.mpr ⟨s, hs, of_decide_eq_true hsk⟩)

end WriteOnce
