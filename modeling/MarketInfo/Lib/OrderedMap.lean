import Mathlib

/-! # Ordered maps

A finite map kept as its entries in key order, with what a paged key store
offers: lookup, replacement, deletion, and bounded scans past a key. A loop of
such scans visits exactly the entries past the key it starts from.
-/

/-- The entries of a finite map, in increasing key order. -/
structure OrderedMap (κ ν : Type*) [LinearOrder κ] where
  entries : List (κ × ν)
  sorted : entries.Pairwise fun a b => a.1 < b.1

namespace OrderedMap

variable {κ ν : Type*} [LinearOrder κ]

/-- The entries with the value of `k` replaced, or `k` put in its place. -/
def insertEntry (k : κ) (v : ν) : List (κ × ν) → List (κ × ν)
  | [] => [(k, v)]
  | e :: es =>
      if k < e.1 then (k, v) :: e :: es
      else if k = e.1 then (k, v) :: es
      else e :: insertEntry k v es

theorem mem_of_mem_insertEntry {k : κ} {v : ν} {e : κ × ν} {es : List (κ × ν)}
    (h : e ∈ insertEntry k v es) : e = (k, v) ∨ e ∈ es := by
  induction es with
  | nil => simpa [insertEntry] using h
  | cons a es ih =>
      simp only [insertEntry] at h
      split_ifs at h with hlt heq
      · simpa using h
      · rcases List.mem_cons.mp h with h | h
        · exact .inl h
        · exact .inr (List.mem_cons_of_mem _ h)
      · rcases List.mem_cons.mp h with h | h
        · exact .inr (h ▸ List.mem_cons_self)
        · exact (ih h).imp_right (List.mem_cons_of_mem _)

theorem sorted_insertEntry {es : List (κ × ν)} (hs : es.Pairwise fun a b => a.1 < b.1)
    (k : κ) (v : ν) : (insertEntry k v es).Pairwise fun a b => a.1 < b.1 := by
  induction es with
  | nil => simp [insertEntry]
  | cons a es ih =>
      rw [List.pairwise_cons] at hs
      simp only [insertEntry]
      split_ifs with hlt heq
      · refine List.pairwise_cons.mpr ⟨fun b hb => ?_, List.pairwise_cons.mpr hs⟩
        rcases List.mem_cons.mp hb with rfl | hb
        · exact hlt
        · exact hlt.trans (hs.1 b hb)
      · exact List.pairwise_cons.mpr ⟨fun b hb => heq ▸ hs.1 b hb, hs.2⟩
      · refine List.pairwise_cons.mpr ⟨fun b hb => ?_, ih hs.2⟩
        rcases mem_of_mem_insertEntry hb with rfl | hb
        · exact lt_of_le_of_ne (not_lt.mp hlt) (Ne.symm heq)
        · exact hs.1 b hb

/-! ## Operations -/

def empty : OrderedMap κ ν := ⟨[], List.Pairwise.nil⟩

def get (m : OrderedMap κ ν) (k : κ) : Option ν :=
  (m.entries.find? fun e => e.1 = k).map Prod.snd

def set (m : OrderedMap κ ν) (k : κ) (v : ν) : OrderedMap κ ν :=
  ⟨insertEntry k v m.entries, sorted_insertEntry m.sorted k v⟩

def delete (m : OrderedMap κ ν) (k : κ) : OrderedMap κ ν :=
  ⟨m.entries.filter fun e => e.1 ≠ k, m.sorted.filter _⟩

/-- The entries past a key, in key order. -/
def past (m : OrderedMap κ ν) (after : κ) : List (κ × ν) :=
  m.entries.filter fun e => after < e.1

/-- At most `limit` entries, strictly past `after`. -/
def scan (m : OrderedMap κ ν) (after : κ) (limit : Nat) : List (κ × ν) :=
  (m.past after).take limit

/-- The entries a loop of scans reads: each scan starts past the last key of
the one before it, and an empty scan ends the loop. -/
def visit (m : OrderedMap κ ν) (limit : Nat) : Nat → κ → List (κ × ν)
  | 0, _ => []
  | fuel + 1, after =>
      match (m.scan after limit).getLast? with
      | none => []
      | some last => m.scan after limit ++ visit m limit fuel last.1

/-- The number of entries. -/
def len (m : OrderedMap κ ν) : Nat := m.entries.length

/-- The number of entries whose value satisfies `p`. -/
def count (m : OrderedMap κ ν) (p : ν → Bool) : Nat := m.entries.countP fun e => p e.2

/-! ## Lookups -/

theorem find?_eq_some {es : List (κ × ν)} (hs : es.Pairwise fun a b => a.1 < b.1) {k : κ}
    {v : ν} : (es.find? fun e => e.1 = k).map Prod.snd = some v ↔ (k, v) ∈ es := by
  induction es with
  | nil => simp
  | cons a es ih =>
      rw [List.pairwise_cons] at hs
      by_cases ha : a.1 = k
      · rw [List.find?_cons_of_pos (by simpa using ha)]
        constructor
        · intro h
          have hv : a.2 = v := by simpa using h
          exact List.mem_cons.mpr (.inl (Prod.ext ha.symm hv.symm))
        · intro h
          rcases List.mem_cons.mp h with rfl | h
          · rfl
          · exact absurd (hs.1 _ h) (by simp [ha])
      · rw [List.find?_cons_of_neg (by simpa using ha), ih hs.2, List.mem_cons]
        constructor
        · exact .inr
        · intro h
          rcases h with rfl | h
          · exact absurd rfl ha
          · exact h

theorem get_eq_some {m : OrderedMap κ ν} {k : κ} {v : ν} :
    m.get k = some v ↔ (k, v) ∈ m.entries := find?_eq_some m.sorted

@[simp] theorem get_empty (k : κ) : (empty : OrderedMap κ ν).get k = none := rfl

theorem mem_insertEntry_ne {k : κ} {v : ν} {e : κ × ν} (hne : e.1 ≠ k) {es : List (κ × ν)} :
    e ∈ insertEntry k v es ↔ e ∈ es := by
  have hkv : e ≠ (k, v) := fun h => hne (h ▸ rfl)
  induction es with
  | nil => simpa [insertEntry] using hkv
  | cons a es ih =>
      simp only [insertEntry]
      split_ifs with hlt heq
      · simp [hkv]
      · have ha : e ≠ a := fun h => hne (h ▸ heq.symm)
        simp [hkv, ha]
      · simp [ih]

theorem mem_insertEntry_self (k : κ) (v : ν) (es : List (κ × ν)) :
    (k, v) ∈ insertEntry k v es := by
  induction es with
  | nil => simp [insertEntry]
  | cons a es ih =>
      simp only [insertEntry]
      split_ifs
      · exact List.mem_cons_self
      · exact List.mem_cons_self
      · exact List.mem_cons_of_mem _ ih

@[simp] theorem get_set_self (m : OrderedMap κ ν) (k : κ) (v : ν) : (m.set k v).get k = some v :=
  get_eq_some.mpr (mem_insertEntry_self k v m.entries)

theorem get_set_ne (m : OrderedMap κ ν) {k k' : κ} (v : ν) (h : k' ≠ k) :
    (m.set k v).get k' = m.get k' :=
  Option.ext fun w => by
    rw [get_eq_some, get_eq_some]
    exact mem_insertEntry_ne h

theorem get_set (m : OrderedMap κ ν) (k k' : κ) (v : ν) :
    (m.set k v).get k' = if k' = k then some v else m.get k' := by
  split_ifs with h
  · rw [h, get_set_self]
  · exact get_set_ne m v h

theorem get_delete (m : OrderedMap κ ν) (k k' : κ) :
    (m.delete k).get k' = if k' = k then none else m.get k' := by
  refine Option.ext fun w => ?_
  rw [get_eq_some]
  split_ifs with h
  · simp [delete, h]
  · simp [delete, h, get_eq_some]

@[simp] theorem get_delete_self (m : OrderedMap κ ν) (k : κ) : (m.delete k).get k = none := by
  simp [get_delete]

theorem get_delete_ne (m : OrderedMap κ ν) {k k' : κ} (h : k' ≠ k) :
    (m.delete k).get k' = m.get k' := by
  simp [get_delete, h]

/-! ## Scans -/

theorem mem_past {m : OrderedMap κ ν} {after k : κ} {v : ν} :
    (k, v) ∈ m.past after ↔ after < k ∧ m.get k = some v := by
  simp [past, get_eq_some, and_comm]

theorem past_sorted (m : OrderedMap κ ν) (after : κ) :
    (m.past after).Pairwise fun a b => a.1 < b.1 := m.sorted.filter _

/-- Past the last key of a scan lie the entries the scan did not reach. -/
theorem past_last {m : OrderedMap κ ν} {after : κ} {limit : Nat} {last : κ × ν}
    (h : (m.scan after limit).getLast? = some last) :
    m.past last.1 = (m.past after).drop limit := by
  have hsplit := List.take_append_drop limit (m.past after)
  have hsort := m.past_sorted after
  rw [← hsplit, List.pairwise_append] at hsort
  have hlast : last ∈ m.scan after limit := List.mem_of_getLast? h
  have hafter : after < last.1 := by
    have hmem : last ∈ m.past after := List.mem_of_mem_take hlast
    exact (mem_past.mp hmem).1
  -- Nothing of the scan lies past its own last key.
  have hscan : ∀ e ∈ m.scan after limit, ¬ last.1 < e.1 := by
    intro e he hlt
    rcases List.getLast?_eq_some_iff.mp h with ⟨front, hfront⟩
    have hs : (m.scan after limit).Pairwise fun a b => a.1 < b.1 := hsort.1
    rw [hfront, List.pairwise_append] at hs
    rw [hfront, List.mem_append, List.mem_singleton] at he
    rcases he with he | rfl
    · exact lt_asymm hlt (hs.2.2 e he last (List.mem_singleton.mpr rfl))
    · exact lt_irrefl _ hlt
  have hpast : m.past last.1 = (m.past after).filter fun e => last.1 < e.1 := by
    rw [past, past, List.filter_filter]
    refine List.filter_congr fun e _ => ?_
    by_cases hlt : last.1 < e.1
    · simp [hlt, hafter.trans hlt]
    · simp [hlt]
  rw [hpast, ← hsplit, List.filter_append, List.filter_eq_nil_iff.mpr, List.nil_append,
    List.filter_eq_self.mpr]
  · rw [hsplit]
  · intro e he
    simpa using hsort.2.2 last hlast e he
  · intro e he
    simpa using hscan e he

/-- A loop of scans with fuel for every entry reads the whole rest of the map. -/
theorem visit_eq_past {m : OrderedMap κ ν} {limit : Nat} (hlimit : 0 < limit) {fuel : Nat}
    {after : κ} (hfuel : (m.past after).length ≤ fuel) : m.visit limit fuel after = m.past after := by
  induction fuel generalizing after with
  | zero =>
      rw [List.length_eq_zero_iff.mp (Nat.le_zero.mp hfuel)]
      rfl
  | succ fuel ih =>
      rw [visit]
      cases hl : (m.scan after limit).getLast? with
      | none =>
          have hnil : m.scan after limit = [] := List.getLast?_eq_none_iff.mp hl
          rcases List.take_eq_nil_iff.mp hnil with h | h
          · omega
          · exact h.symm
      | some last =>
          have hrest := past_last hl
          have hne : m.past after ≠ [] := by
            intro h
            simp [scan, h] at hl
          have hpos := List.length_pos_iff.mpr hne
          have hlen : (m.past last.1).length ≤ fuel := by
            rw [hrest, List.length_drop]
            omega
          simp only
          rw [ih hlen, hrest]
          exact List.take_append_drop limit _

theorem past_length_le (m : OrderedMap κ ν) (after : κ) : (m.past after).length ≤ m.len :=
  List.length_filter_le _ _

/-! ## Counting -/

theorem count_set_new {m : OrderedMap κ ν} {k : κ} (h : m.get k = none) (v : ν) (p : ν → Bool) :
    (m.set k v).count p = m.count p + (p v).toNat := by
  have hk : ∀ e ∈ m.entries, e.1 ≠ k := fun e he hek => by
    have hsome : m.get k = some e.2 := get_eq_some.mpr (hek ▸ he)
    rw [h] at hsome
    cases hsome
  have key : ∀ es : List (κ × ν), (∀ e ∈ es, e.1 ≠ k) →
      (insertEntry k v es).countP (fun e => p e.2) = es.countP (fun e => p e.2) + (p v).toNat := by
    intro es hes
    induction es with
    | nil => cases hp : p v <;> simp [insertEntry, hp]
    | cons a es ih =>
        have hne : k ≠ a.1 := (hes a List.mem_cons_self).symm
        have ih' := ih fun e he => hes e (List.mem_cons_of_mem _ he)
        simp only [insertEntry]
        split_ifs with hlt
        · cases hp : p v <;> simp [List.countP_cons, hp]
        · rw [List.countP_cons, List.countP_cons, ih']
          omega
  exact key m.entries hk

theorem countP_insertEntry_mem {k : κ} {o : ν} {es : List (κ × ν)}
    (hs : es.Pairwise fun a b => a.1 < b.1) (h : (k, o) ∈ es) (v : ν) (p : ν → Bool) :
    (insertEntry k v es).countP (fun e => p e.2) + (p o).toNat =
      es.countP (fun e => p e.2) + (p v).toNat := by
  induction es with
  | nil => cases h
  | cons a es ih =>
      rw [List.pairwise_cons] at hs
      simp only [insertEntry]
      rcases List.mem_cons.mp h with rfl | h
      · rw [if_neg (lt_irrefl _), if_pos rfl]
        cases hv : p v <;> cases ho : p o <;> simp [hv, ho]
      · have hlt : a.1 < k := hs.1 _ h
        rw [if_neg (not_lt.mpr hlt.le), if_neg hlt.ne']
        have := ih hs.2 h
        simp only [List.countP_cons]
        omega

theorem count_set_old {m : OrderedMap κ ν} {k : κ} {o : ν} (h : m.get k = some o) (v : ν)
    (p : ν → Bool) : (m.set k v).count p + (p o).toNat = m.count p + (p v).toNat :=
  countP_insertEntry_mem m.sorted (get_eq_some.mp h) v p

theorem count_set_same {m : OrderedMap κ ν} {k : κ} {o v : ν} {p : ν → Bool}
    (h : m.get k = some o) (hp : p v = p o) : (m.set k v).count p = m.count p := by
  have hcount := count_set_old h v p
  rw [hp] at hcount
  omega

theorem len_set_new {m : OrderedMap κ ν} {k : κ} (h : m.get k = none) (v : ν) :
    (m.set k v).len = m.len + 1 := by
  have hcount := count_set_new h v fun _ => true
  simpa [count, len] using hcount

theorem len_set_old {m : OrderedMap κ ν} {k : κ} {o : ν} (h : m.get k = some o) (v : ν) :
    (m.set k v).len = m.len := by
  have hcount := count_set_old h v fun _ => true
  simpa [count, len] using hcount

theorem len_delete_le (m : OrderedMap κ ν) (k : κ) : (m.delete k).len ≤ m.len :=
  List.length_filter_le _ _

/-- Where a stronger predicate counts as many entries, the two agree. -/
theorem imp_of_count_eq {m : OrderedMap κ ν} {p q : ν → Bool}
    (hqp : ∀ v, q v = true → p v = true) (hcount : m.count q = m.count p) {k : κ} {v : ν}
    (hget : m.get k = some v) (hp : p v = true) : q v = true := by
  have hmem := get_eq_some.mp hget
  by_contra hq
  have hlt : m.entries.countP (fun e => q e.2) < m.entries.countP (fun e => p e.2) := by
    clear hget hcount
    generalize m.entries = es at hmem
    induction es with
    | nil => cases hmem
    | cons a es ih =>
        have hmono : es.countP (fun e => q e.2) ≤ es.countP (fun e => p e.2) :=
          List.countP_mono_left fun e _ h => hqp e.2 h
        simp only [List.countP_cons]
        rcases List.mem_cons.mp hmem with rfl | hmem
        · rw [if_neg hq, if_pos hp]
          omega
        · have := ih hmem
          by_cases hqa : q a.2 = true
          · rw [if_pos hqa, if_pos (hqp _ hqa)]
            omega
          · rw [if_neg hqa]
            omega
  exact absurd hcount hlt.ne

theorem count_eq_zero {m : OrderedMap κ ν} {p : ν → Bool}
    (h : ∀ k v, m.get k = some v → p v = false) : m.count p = 0 :=
  List.countP_eq_zero.mpr fun e he hp => by
    rw [h e.1 e.2 (get_eq_some.mpr he)] at hp
    cases hp

/-- What a predicate counts depends only on the entries it holds of. -/
theorem count_congr {m m' : OrderedMap κ ν} {p : ν → Bool}
    (h : ∀ k v, p v = true → (m'.get k = some v ↔ m.get k = some v)) : m'.count p = m.count p := by
  have hirrefl : ∀ l : OrderedMap κ ν, (l.entries.filter fun e => p e.2).Nodup := by
    intro l
    have hsorted := l.sorted.filter fun e => p e.2
    exact hsorted.imp fun {a b} hlt heq => absurd (congrArg Prod.fst heq) hlt.ne
  have hperm : (m'.entries.filter fun e => p e.2).Perm (m.entries.filter fun e => p e.2) := by
    refine (List.perm_ext_iff_of_nodup (hirrefl m') (hirrefl m)).mpr fun e => ?_
    rw [List.mem_filter, List.mem_filter]
    constructor
    · intro he
      exact ⟨get_eq_some.mp ((h e.1 e.2 he.2).mp (get_eq_some.mpr he.1)), he.2⟩
    · intro he
      exact ⟨get_eq_some.mp ((h e.1 e.2 he.2).mpr (get_eq_some.mpr he.1)), he.2⟩
  rw [count, count, List.countP_eq_length_filter, List.countP_eq_length_filter, hperm.length_eq]

/-- Deleting an entry takes away what it counted. -/
theorem count_delete_mem {m : OrderedMap κ ν} {k : κ} {o : ν} (h : m.get k = some o)
    (p : ν → Bool) : (m.delete k).count p + (p o).toNat = m.count p := by
  rw [← count_set_new (get_delete_self m k) o p]
  refine count_congr fun k' v _ => ?_
  rw [get_set, get_delete]
  split_ifs with hk
  · rw [hk, h]
  · rfl

theorem count_pos {m : OrderedMap κ ν} {p : ν → Bool} :
    0 < m.count p ↔ ∃ k v, m.get k = some v ∧ p v = true := by
  unfold count
  rw [List.countP_pos_iff]
  constructor
  · rintro ⟨e, he, hp⟩
    exact ⟨e.1, e.2, get_eq_some.mpr he, hp⟩
  · rintro ⟨k, v, hget, hp⟩
    exact ⟨(k, v), get_eq_some.mp hget, hp⟩

/-! ## Deleting several keys -/

def deleteAll (m : OrderedMap κ ν) (ks : List κ) : OrderedMap κ ν := ks.foldl delete m

@[simp] theorem deleteAll_nil (m : OrderedMap κ ν) : m.deleteAll [] = m := rfl

@[simp] theorem deleteAll_cons (m : OrderedMap κ ν) (k : κ) (ks : List κ) :
    m.deleteAll (k :: ks) = (m.delete k).deleteAll ks := rfl

theorem get_deleteAll (m : OrderedMap κ ν) (ks : List κ) (k : κ) :
    (m.deleteAll ks).get k = if k ∈ ks then none else m.get k := by
  induction ks generalizing m with
  | nil => simp
  | cons a ks ih =>
      rw [deleteAll_cons, ih, get_delete]
      by_cases ha : k = a
      · simp [ha]
      · simp [ha]

/-! ## Entries in parts -/

theorem insertEntry_append_left {k : κ} {v : ν} {es es' : List (κ × ν)} (h : ∀ e ∈ es, e.1 < k) :
    insertEntry k v (es ++ es') = es ++ insertEntry k v es' := by
  induction es with
  | nil => rfl
  | cons e es ih =>
      have he := h e List.mem_cons_self
      rw [List.cons_append, insertEntry, if_neg (not_lt.mpr he.le), if_neg (ne_of_gt he),
        ih fun e he => h e (List.mem_cons_of_mem _ he), List.cons_append]

theorem insertEntry_append_right {k : κ} {v : ν} {es es' : List (κ × ν)} (h : ∀ e ∈ es', k < e.1) :
    insertEntry k v (es ++ es') = insertEntry k v es ++ es' := by
  induction es with
  | nil =>
      cases es' with
      | nil => rfl
      | cons e es' => exact if_pos (h e List.mem_cons_self)
  | cons e es ih =>
      rw [List.cons_append]
      simp only [insertEntry]
      split_ifs
      · rfl
      · rfl
      · rw [ih, List.cons_append]

theorem filter_ne_of_lt {k : κ} {es : List (κ × ν)} (h : ∀ e ∈ es, e.1 < k) :
    (es.filter fun e => e.1 ≠ k) = es :=
  List.filter_eq_self.mpr fun e he => by simpa using ne_of_lt (h e he)

theorem filter_ne_of_gt {k : κ} {es : List (κ × ν)} (h : ∀ e ∈ es, k < e.1) :
    (es.filter fun e => e.1 ≠ k) = es :=
  List.filter_eq_self.mpr fun e he => by simpa using ne_of_gt (h e he)

end OrderedMap
