import Mathlib

/-! # Sorted listings

Sorting by a Boolean `less` that a `rank` into a linear order describes. Keys
that a rank tells apart have exactly one strictly sorted listing, so whatever
two computations list the same keys in order list them equally; and a listing
splits at any bound into the keys up to the bound and the keys beyond it.
-/

namespace Listing

variable {κ : Type*}

/-- Sort a slice by `less`. On keys that `less` tells apart every sorting
algorithm gives this list. -/
def sortBy (less : κ → κ → Bool) (l : List κ) : List κ :=
  l.insertionSort fun a b => less b a = false

theorem sortBy_perm (less : κ → κ → Bool) (l : List κ) : (sortBy less l).Perm l :=
  List.perm_insertionSort _ l

@[simp] theorem mem_sortBy {less : κ → κ → Bool} {l : List κ} {a : κ} :
    a ∈ sortBy less l ↔ a ∈ l :=
  (sortBy_perm less l).mem_iff

@[simp] theorem length_sortBy {less : κ → κ → Bool} {l : List κ} :
    (sortBy less l).length = l.length :=
  (sortBy_perm less l).length_eq

/-- The same list in another order, each element replaced by a related one. -/
def Reordered (R : κ → κ → Prop) (l m : List κ) : Prop := ∃ k, List.Forall₂ R l k ∧ k.Perm m

theorem Reordered.symm {R : κ → κ → Prop} (hR : ∀ a b, R a b → R b a) {l m : List κ} (h : Reordered R l m) :
    Reordered R m l := by
  have hcomp : Relation.Comp (List.Forall₂ R) List.Perm l m := h
  rw [List.forall₂_comp_perm_eq_perm_comp_forall₂] at hcomp
  rcases hcomp with ⟨k, hperm, hrel⟩
  exact ⟨k, hrel.flip.imp fun a b hab => hR b a hab, hperm.symm⟩

/-- Related elements that have one image give images in another order. -/
theorem Reordered.map_perm {R : κ → κ → Prop} {β : Type*} {f : κ → β} (hf : ∀ a b, R a b → f a = f b)
    {l m : List κ} (h : Reordered R l m) : (l.map f).Perm (m.map f) := by
  rcases h with ⟨k, hrel, hperm⟩
  refine List.Perm.trans (List.Perm.of_eq ?_) (hperm.map f)
  clear hperm
  induction hrel with
  | nil => rfl
  | cons hab _ ih => rw [List.map_cons, List.map_cons, hf _ _ hab, ih]

theorem Reordered.exists_mem {R : κ → κ → Prop} {l m : List κ} (h : Reordered R l m) {a : κ} (ha : a ∈ l) :
    ∃ b ∈ m, R a b := by
  rcases h with ⟨k, hrel, hperm⟩
  rcases List.mem_iff_get.1 ha with ⟨i, rfl⟩
  have hi : i.1 < k.length := hrel.length_eq ▸ i.2
  exact ⟨k.get ⟨i.1, hi⟩, hperm.mem_iff.1 (List.get_mem _ _), hrel.get i.2 hi⟩

variable {ρ : Type*} [LinearOrder ρ] {rank : κ → ρ}

/-- Strictly sorted by rank. -/
def Sorted (rank : κ → ρ) (l : List κ) : Prop :=
  l.Pairwise fun a b => rank a < rank b

theorem Sorted.nodup {l : List κ} (h : Sorted rank l) : l.Nodup :=
  h.imp fun hlt he => absurd (he ▸ hlt) (lt_irrefl _)

/-- Two strictly sorted listings of the same keys are equal. -/
theorem Sorted.ext {l m : List κ} (hl : Sorted rank l) (hm : Sorted rank m)
    (hmem : ∀ a, a ∈ l ↔ a ∈ m) : l = m := by
  have hp : l.Perm m := (List.perm_ext_iff_of_nodup hl.nodup hm.nodup).2 hmem
  refine List.Perm.eq_of_pairwise ?_ hl hm hp
  intro a b _ _ hab hba
  exact absurd (hab.trans hba) (lt_irrefl _)

theorem Sorted.filter {l : List κ} (h : Sorted rank l) (p : κ → Bool) :
    Sorted rank (l.filter p) :=
  List.Pairwise.filter p h

theorem Sorted.take {l : List κ} (h : Sorted rank l) (n : Nat) : Sorted rank (l.take n) :=
  List.Pairwise.sublist (List.take_sublist n l) h

theorem Sorted.append {l m : List κ} (hl : Sorted rank l) (hm : Sorted rank m)
    (hlm : ∀ a ∈ l, ∀ b ∈ m, rank a < rank b) : Sorted rank (l ++ m) :=
  List.pairwise_append.2 ⟨hl, hm, hlm⟩

/-- Sorting lists in order of the rank. -/
theorem sortBy_pairwise {less : κ → κ → Bool} (hless : ∀ a b, less a b = true ↔ rank a < rank b) (l : List κ) :
    (sortBy less l).Pairwise fun a b => rank a ≤ rank b := by
  have hrel : ∀ a b, less b a = false ↔ rank a ≤ rank b := by
    intro a b
    rw [← not_lt, ← hless]
    simp
  have : Std.Total fun a b => less b a = false :=
    ⟨fun a b => by rw [hrel, hrel]; exact le_total _ _⟩
  have : IsTrans κ fun a b => less b a = false :=
    ⟨fun a b c => by rw [hrel, hrel, hrel]; exact le_trans⟩
  exact (List.pairwise_insertionSort (fun a b => less b a = false) l).imp fun {a b} => (hrel a b).1

/-- Sorting forgets the order of the list when the rank tells its elements apart. -/
theorem sortBy_eq_of_perm {less : κ → κ → Bool} (hless : ∀ a b, less a b = true ↔ rank a < rank b)
    {l m : List κ} (h : l.Perm m) (hrank : ∀ a ∈ l, ∀ b ∈ l, rank a = rank b → a = b) :
    sortBy less l = sortBy less m := by
  have hperm := ((sortBy_perm less l).trans h).trans (sortBy_perm less m).symm
  refine List.Perm.eq_of_pairwise ?_ (sortBy_pairwise hless l) (sortBy_pairwise hless m) hperm
  intro a b ha hb hab hba
  exact hrank a (mem_sortBy.1 ha) b (h.mem_iff.2 (mem_sortBy.1 hb)) (le_antisymm hab hba)

/-- Sorting lists in order; distinct keys of an injective rank, strictly. -/
theorem sorted_sortBy {less : κ → κ → Bool} (hless : ∀ a b, less a b = true ↔ rank a < rank b)
    (hrank : Function.Injective rank) {l : List κ} (hl : l.Nodup) : Sorted rank (sortBy less l) := by
  have hnodup : (sortBy less l).Nodup := (sortBy_perm less l).nodup_iff.2 hl
  refine List.Pairwise.imp₂ ?_ (sortBy_pairwise hless l) hnodup
  intro a b hab hne
  exact lt_of_le_of_ne hab fun he => hne (hrank he)

theorem Sorted.eq_of_rank {l : List κ} (h : Sorted rank l) {a b : κ} (ha : a ∈ l) (hb : b ∈ l)
    (hrank : rank a = rank b) : a = b := by
  rcases List.mem_iff_append.1 ha with ⟨before, after, rfl⟩
  rcases List.pairwise_append.1 h with ⟨_, hafter, hbefore⟩
  rcases List.mem_append.1 hb with hb | hb
  · exact absurd (hbefore b hb a List.mem_cons_self) (by simp [hrank])
  · rcases List.mem_cons.1 hb with rfl | hb
    · rfl
    · exact absurd ((List.pairwise_cons.1 hafter).1 b hb) (by simp [hrank])

/-- The part of a sorted list whose elements the rank tells apart. -/
theorem sorted_sortBy_filter {less : κ → κ → Bool} (hless : ∀ a b, less a b = true ↔ rank a < rank b)
    {l : List κ} {p : κ → Bool} (hrank : (l.filter p).Pairwise fun a b => rank a ≠ rank b) :
    Sorted rank ((sortBy less l).filter p) := by
  have hperm := (sortBy_perm less l).filter p
  have hapart := hperm.symm.pairwise hrank fun hne => hne.symm
  refine List.Pairwise.imp₂ ?_ ((sortBy_pairwise hless l).filter p) hapart
  intro a b hab hne
  exact lt_of_le_of_ne hab hne

/-- What lists the right keys in strict order is the sorted list. -/
theorem Sorted.eq_sortBy {less : κ → κ → Bool} (hless : ∀ a b, less a b = true ↔ rank a < rank b)
    (hrank : Function.Injective rank) {l m : List κ} (hl : l.Nodup) (hm : Sorted rank m)
    (hmem : ∀ a, a ∈ m ↔ a ∈ l) : m = sortBy less l :=
  hm.ext (sorted_sortBy hless hrank hl) fun a => by rw [hmem, mem_sortBy]

/-! ## Bounds -/

/-- A sorted listing is its part up to a bound followed by the part beyond it. -/
theorem Sorted.split {l : List κ} (h : Sorted rank l) (f : ρ) :
    l = l.filter (fun a => decide (rank a ≤ f)) ++ l.filter (fun a => decide (f < rank a)) := by
  refine h.ext ((h.filter _).append (h.filter _) ?_) ?_
  · intro a ha b hb
    simp only [List.mem_filter, decide_eq_true_eq] at ha hb
    exact lt_of_le_of_lt ha.2 hb.2
  · intro a
    simp only [List.mem_append, List.mem_filter, decide_eq_true_eq]
    rcases le_or_gt (rank a) f with hle | hgt
    · exact ⟨fun ha => Or.inl ⟨ha, hle⟩, fun h => h.elim And.left And.left⟩
    · exact ⟨fun ha => Or.inr ⟨ha, hgt⟩, fun h => h.elim And.left And.left⟩

/-- Listings that agree up to a bound agree on as many leading keys as either
has up to the bound. -/
theorem Sorted.take_eq_of_agree {l m : List κ} (hl : Sorted rank l) (hm : Sorted rank m) {f : ρ}
    (hmem : ∀ a, rank a ≤ f → (a ∈ l ↔ a ∈ m)) {d : Nat}
    (hd : d ≤ (m.filter fun a => decide (rank a ≤ f)).length) : l.take d = m.take d := by
  have hagree : l.filter (fun a => decide (rank a ≤ f)) = m.filter fun a => decide (rank a ≤ f) := by
    refine (hl.filter _).ext (hm.filter _) ?_
    intro a
    simp only [List.mem_filter, decide_eq_true_eq]
    exact ⟨fun ⟨ha, hr⟩ => ⟨(hmem a hr).1 ha, hr⟩, fun ⟨ha, hr⟩ => ⟨(hmem a hr).2 ha, hr⟩⟩
  rw [hl.split f, hm.split f, hagree, List.take_append_of_le_length hd,
    List.take_append_of_le_length hd]

/-- A prefix of a listing holds exactly the keys up to its last one. -/
theorem Sorted.mem_take_iff {l : List κ} (h : Sorted rank l) {n : Nat} {z : κ}
    (hz : (l.take n).getLast? = some z) (a : κ) :
    a ∈ l.take n ↔ a ∈ l ∧ rank a ≤ rank z := by
  have hsplit := List.take_append_drop n l
  have hpw : Sorted rank (l.take n ++ l.drop n) := by rw [hsplit]; exact h
  have hzm : z ∈ l.take n := List.mem_of_getLast? hz
  have hcross := (List.pairwise_append.1 hpw).2.2
  constructor
  · intro ha
    refine ⟨List.mem_of_mem_take ha, ?_⟩
    obtain ⟨ys, hys⟩ := List.getLast?_eq_some_iff.1 hz
    have ht : Sorted rank (ys ++ [z]) := by rw [← hys]; exact h.take n
    rw [hys] at ha
    rcases List.mem_append.1 ha with ha | ha
    · exact ((List.pairwise_append.1 ht).2.2 a ha z (by simp)).le
    · rw [List.mem_singleton.1 ha]
  · rintro ⟨ha, hr⟩
    rw [← hsplit] at ha
    rcases List.mem_append.1 ha with ha | ha
    · exact ha
    · exact absurd (lt_of_lt_of_le (hcross z hzm a ha) hr) (lt_irrefl _)

/-- When a list divides into kept and rest with every kept key before every
rejected one, sorting the kept keys gives the head of the sorted list. -/
theorem sortBy_take_of_split {less : κ → κ → Bool}
    (hless : ∀ a b, less a b = true ↔ rank a < rank b) (hrank : Function.Injective rank)
    {xs kept rest : List κ} (hxs : xs.Nodup) (hperm : (kept ++ rest).Perm xs)
    (hle : ∀ a ∈ kept, ∀ b ∈ rest, rank a ≤ rank b) :
    sortBy less kept = (sortBy less xs).take kept.length := by
  have hnd := hperm.nodup_iff.2 hxs
  obtain ⟨hk, hr, hdisj⟩ := List.nodup_append.1 hnd
  have hwhole : sortBy less kept ++ sortBy less rest = sortBy less xs := by
    refine Sorted.eq_sortBy hless hrank hxs ?_ ?_
    · refine (sorted_sortBy hless hrank hk).append (sorted_sortBy hless hrank hr) ?_
      intro a ha b hb
      rw [mem_sortBy] at ha hb
      exact lt_of_le_of_ne (hle a ha b hb) fun he => hdisj a ha b hb (hrank he)
    · intro a
      rw [← hperm.mem_iff]
      simp
  rw [← hwhole, List.take_append_of_le_length (by simp), List.take_of_length_le (by simp)]

/-! ## Neighbours -/

/-- No element stands between the two. -/
def Next (rank : κ → ρ) (l : List κ) (a b : κ) : Prop :=
  a ∈ l ∧ b ∈ l ∧ rank a < rank b ∧ ∀ c ∈ l, ¬ (rank a < rank c ∧ rank c < rank b)

theorem Sorted.next_unique {l : List κ} (h : Sorted rank l) {a b c : κ} (ha : Next rank l a c)
    (hb : Next rank l b c) : a = b := by
  refine h.eq_of_rank ha.1 hb.1 (le_antisymm (not_lt.1 ?_) (not_lt.1 ?_))
  · intro hlt
    exact hb.2.2.2 a ha.1 ⟨hlt, ha.2.2.1⟩
  · intro hlt
    exact ha.2.2.2 b hb.1 ⟨hlt, hb.2.2.1⟩

/-- In a sorted list, the element before is the one that stands before. -/
theorem Sorted.next_iff {l m : List κ} {b : κ} (h : Sorted rank (l ++ b :: m)) (a : κ) :
    Next rank (l ++ b :: m) a b ↔ l.getLast? = some a := by
  rcases List.pairwise_append.1 h with ⟨hl, hm, hlm⟩
  have hbefore : ∀ c ∈ l, rank c < rank b := fun c hc => hlm c hc b List.mem_cons_self
  have hlast : ∀ a, l.getLast? = some a → Next rank (l ++ b :: m) a b := by
    intro a ha
    have hmem := List.mem_of_getLast? ha
    refine ⟨List.mem_append_left _ hmem, by simp, hbefore a hmem, ?_⟩
    rintro c hc ⟨hac, hcb⟩
    rcases List.mem_append.1 hc with hc | hc
    · rcases List.getLast?_eq_some_iff.1 ha with ⟨l', rfl⟩
      rcases List.mem_append.1 hc with hc | hc
      · exact absurd (hac.trans ((List.pairwise_append.1 hl).2.2 c hc a (by simp))) (lt_irrefl _)
      · rw [List.mem_singleton.1 hc] at hac
        exact lt_irrefl _ hac
    · rcases List.mem_cons.1 hc with rfl | hc
      · exact lt_irrefl _ hcb
      · exact absurd (hcb.trans ((List.pairwise_cons.1 hm).1 c hc)) (lt_irrefl _)
  constructor
  · intro hnext
    rcases hgot : l.getLast? with _ | c
    · rw [List.getLast?_eq_none_iff.1 hgot] at hnext h
      rcases List.mem_cons.1 hnext.1 with rfl | ha
      · exact absurd hnext.2.2.1 (lt_irrefl _)
      · exact absurd (hnext.2.2.1.trans ((List.pairwise_cons.1 hm).1 a ha)) (lt_irrefl _)
    · rw [h.next_unique hnext (hlast c hgot)]
  · exact hlast a

end Listing
