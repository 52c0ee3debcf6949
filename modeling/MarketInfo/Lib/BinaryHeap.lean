import Mathlib

/-! # Binary heaps on an array, and bounded selection

The classic array heap: `up` and `down` sift one element, `push` appends and
sifts up, `fix` repairs one position after its element was replaced. The order
is given by a Boolean `less`; the theorems read it through a `rank` into a
linear order.

On top of it stands bounded selection: a heap of at most `limit` elements whose
root is the least, into which a stream is offered. After the stream the heap
holds the `limit` greatest elements seen, whatever the order of the stream.
-/

namespace BinaryHeap

variable {α : Type*}

section Operations

variable [Inhabited α]

/-- The element at a position of the heap's slice. -/
def elem (h : Array α) (i : Nat) : α := h[i]?.getD default

/-- The position of the parent; the root is its own parent. -/
def parent (j : Nat) : Nat := (j - 1) / 2

/-- Sift the element at `j` towards the root. -/
def up (less : α → α → Bool) : Nat → Array α → Nat → Array α
  | 0, h, _ => h
  | fuel + 1, h, j =>
      if parent j = j ∨ less (elem h j) (elem h (parent j)) = false then h
      else up less fuel (h.swapIfInBounds (parent j) j) (parent j)

/-- The child of `i` that `down` compares with: the smaller of the two. -/
def smallerChild (less : α → α → Bool) (h : Array α) (i : Nat) : Nat :=
  if 2 * i + 2 < h.size ∧ less (elem h (2 * i + 2)) (elem h (2 * i + 1)) = true then 2 * i + 2
  else 2 * i + 1

/-- Sift the element at `i` towards the leaves; also the position it ends at. -/
def down (less : α → α → Bool) : Nat → Array α → Nat → Array α × Nat
  | 0, h, i => (h, i)
  | fuel + 1, h, i =>
      if h.size ≤ 2 * i + 1 then (h, i)
      else if less (elem h (smallerChild less h i)) (elem h i) = false then (h, i)
      else down less fuel (h.swapIfInBounds i (smallerChild less h i)) (smallerChild less h i)

/-- Append an element and restore the order. -/
def push (less : α → α → Bool) (h : Array α) (x : α) : Array α :=
  up less h.size (h.push x) h.size

/-- Restore the order after the element at `i` was replaced. -/
def fix (less : α → α → Bool) (h : Array α) (i : Nat) : Array α :=
  let moved := down less h.size h i
  if i < moved.2 then moved.1 else up less h.size moved.1 i

/-- The heap without its root: the last element takes the place of the root. -/
def pop (less : α → α → Bool) (h : Array α) : Array α :=
  (down less h.size (h.swapIfInBounds 0 (h.size - 1)).pop 0).1

/-- Offer one element to a heap of at most `limit`: it is pushed while there is
room, and afterwards it replaces the root when it is above it. -/
def offer (less : α → α → Bool) (limit : Nat) (h : Array α) (x : α) : Array α :=
  if h.size < limit then push less h x
  else if less (elem h 0) x = true then fix less (h.setIfInBounds 0 x) 0
  else h

/-- The heap after a whole stream was offered. -/
def select (less : α → α → Bool) (limit : Nat) (xs : List α) : Array α :=
  xs.foldl (offer less limit) #[]

end Operations

/-! ## Permutation -/

theorem swapIfInBounds_perm {h : Array α} {i j : Nat} :
    (h.swapIfInBounds i j).toList.Perm h.toList := by
  by_cases hi : i < h.size
  · by_cases hj : j < h.size
    · simpa [Array.swapIfInBounds, hi, hj] using (Array.swap_perm hi hj).toList
    · simp [Array.swapIfInBounds, hj]
  · simp [Array.swapIfInBounds, hi]

theorem size_eq_of_perm {g h : Array α} (hp : g.toList.Perm h.toList) : g.size = h.size := by
  simpa using hp.length_eq

variable [Inhabited α]

theorem up_perm (less : α → α → Bool) (fuel : Nat) (h : Array α) (j : Nat) :
    (up less fuel h j).toList.Perm h.toList := by
  induction fuel generalizing h j with
  | zero => exact List.Perm.refl _
  | succ fuel ih =>
      unfold up
      split
      · exact List.Perm.refl _
      · exact (ih _ _).trans swapIfInBounds_perm

theorem down_perm (less : α → α → Bool) (fuel : Nat) (h : Array α) (i : Nat) :
    (down less fuel h i).1.toList.Perm h.toList := by
  induction fuel generalizing h i with
  | zero => exact List.Perm.refl _
  | succ fuel ih =>
      unfold down
      split
      · exact List.Perm.refl _
      · split
        · exact List.Perm.refl _
        · exact (ih _ _).trans swapIfInBounds_perm

theorem push_perm (less : α → α → Bool) (h : Array α) (x : α) :
    (push less h x).toList.Perm (x :: h.toList) := by
  refine (up_perm less _ _ _).trans ?_
  rw [Array.toList_push]
  exact List.perm_append_comm

theorem fix_perm (less : α → α → Bool) (h : Array α) (i : Nat) :
    (fix less h i).toList.Perm h.toList := by
  unfold fix
  simp only
  split
  · exact down_perm less _ _ _
  · exact (up_perm less _ _ _).trans (down_perm less _ _ _)

theorem pop_perm (less : α → α → Bool) {h : Array α} (hs : 0 < h.size) :
    h.toList.Perm (elem h 0 :: (pop less h).toList) := by
  have hlast : h.size - 1 < h.size := by omega
  have hswap : h.swapIfInBounds 0 (h.size - 1) = h.swap 0 (h.size - 1) := by
    simp [Array.swapIfInBounds, hs, hlast]
  have hroot : (h.swap 0 (h.size - 1)).toList =
      (h.swap 0 (h.size - 1)).pop.toList ++ [elem h 0] := by
    have hne : (h.swap 0 (h.size - 1)).toList ≠ [] := by
      simp only [ne_eq, Array.toList_eq_nil_iff, ← Array.size_eq_zero_iff, Array.size_swap]
      omega
    have hback : (h.swap 0 (h.size - 1)).toList.getLast hne = elem h 0 := by
      rw [List.getLast_eq_getElem]
      simp [elem, hs]
    rw [Array.toList_pop, ← hback]
    exact (List.dropLast_append_getLast hne).symm
  have hperm : h.toList.Perm (h.swap 0 (h.size - 1)).toList := (Array.swap_perm hs hlast).toList.symm
  refine hperm.trans ?_
  rw [hroot]
  refine List.perm_append_comm.trans ((List.perm_cons _).2 ?_)
  unfold pop
  rw [hswap]
  exact (down_perm less _ _ _).symm

/-! ## Order -/

variable {ρ : Type*} [LinearOrder ρ] (rank : α → ρ)

/-- No element is below its parent. -/
def Ordered (h : Array α) : Prop :=
  ∀ k, 0 < k → k < h.size → rank (elem h (parent k)) ≤ rank (elem h k)

/-- What `up` needs at `j`: every other pair is in order, and the children of
`j` are in order with its parent. -/
structure UpOrder (h : Array α) (j : Nat) : Prop where
  except : ∀ k, 0 < k → k < h.size → k ≠ j → rank (elem h (parent k)) ≤ rank (elem h k)
  grand : 0 < j → ∀ k, 0 < k → k < h.size → parent k = j →
    rank (elem h (parent j)) ≤ rank (elem h k)

/-- What `down` needs at `i`: every pair not headed by `i` is in order, and the
children of `i` are in order with its parent. -/
structure DownOrder (h : Array α) (i : Nat) : Prop where
  except : ∀ k, 0 < k → k < h.size → parent k ≠ i → rank (elem h (parent k)) ≤ rank (elem h k)
  grand : 0 < i → ∀ k, 0 < k → k < h.size → parent k = i →
    rank (elem h (parent i)) ≤ rank (elem h k)

/-- The heap `h` holds the greatest `limit` elements of the stream `xs`. -/
structure Holds (limit : Nat) (xs : List α) (h : Array α) : Prop where
  ordered : Ordered rank h
  size_eq : h.size = min limit xs.length
  split : ∃ rest, (h.toList ++ rest).Perm xs ∧
    ∀ a ∈ h.toList, ∀ b ∈ rest, rank b ≤ rank a

theorem elem_swap {h : Array α} {i j : Nat} (hi : i < h.size) (hj : j < h.size) (k : Nat) :
    elem (h.swapIfInBounds i j) k =
      if k = i then elem h j else if k = j then elem h i else elem h k := by
  have hs : h.swapIfInBounds i j = h.swap i j hi hj := by simp [Array.swapIfInBounds, hi, hj]
  unfold elem
  rw [hs, Array.getElem?_swap]
  grind

theorem parent_lt {j : Nat} (hj : 0 < j) : parent j < j := by
  unfold parent
  omega

variable {rank}

/-- A root below every element of the heap. -/
theorem root_le {h : Array α} (o : Ordered rank h) (k : Nat) (hk : k < h.size) :
    rank (elem h 0) ≤ rank (elem h k) := by
  induction k using Nat.strong_induction_on with
  | _ k ih =>
      rcases Nat.eq_zero_or_pos k with h0 | h0
      · rw [h0]
      · have hp := parent_lt h0
        exact (ih (parent k) hp (by omega)).trans (o k h0 hk)

theorem root_le_mem {h : Array α} (o : Ordered rank h) {a : α} (ha : a ∈ h.toList) :
    rank (elem h 0) ≤ rank a := by
  obtain ⟨k, hk, rfl⟩ := List.getElem_of_mem ha
  rw [Array.length_toList] at hk
  have := root_le o k hk
  unfold elem at this
  rw [Array.getElem?_eq_getElem hk] at this
  simpa [elem] using this

theorem elem_zero_mem {h : Array α} (hs : 0 < h.size) : elem h 0 ∈ h.toList := by
  unfold elem
  rw [Array.getElem?_eq_getElem hs]
  simp

theorem set_root_toList {h : Array α} (hs : 0 < h.size) (x : α) :
    ∃ tail, h.toList = elem h 0 :: tail ∧ (h.setIfInBounds 0 x).toList = x :: tail := by
  rcases h with ⟨l⟩
  cases l with
  | nil => simp at hs
  | cons a tail => exact ⟨tail, by simp [elem], by simp⟩

theorem set_root_downOrder {h : Array α} (o : Ordered rank h) (x : α) :
    DownOrder rank (h.setIfInBounds 0 x) 0 := by
  have helem : ∀ k, k ≠ 0 → elem (h.setIfInBounds 0 x) k = elem h k := by
    intro k hk
    unfold elem
    rw [Array.getElem?_setIfInBounds_ne (by omega)]
  refine ⟨?_, fun h0 => absurd h0 (lt_irrefl 0)⟩
  intro k hk hks hpk
  rw [Array.size_setIfInBounds] at hks
  rw [helem _ hpk, helem _ (by omega)]
  exact o k hk hks

variable {less : α → α → Bool} (hless : ∀ a b, less a b = true ↔ rank a < rank b)

include hless

omit [Inhabited α] in
theorem le_of_not_less {a b : α} (h : less a b = false) : rank b ≤ rank a := by
  rw [← not_lt, ← hless]
  simp [h]

theorem up_ordered (fuel : Nat) (h : Array α) (j : Nat) (hj : j < h.size) (hfuel : j ≤ fuel)
    (o : UpOrder rank h j) : Ordered rank (up less fuel h j) := by
  induction fuel generalizing h j with
  | zero =>
      intro k hk hks
      exact o.except k hk hks (by omega)
  | succ fuel ih =>
      unfold up
      split
      · rename_i hstop
        intro k hk hks
        by_cases hkj : k = j
        · subst hkj
          rcases hstop with hp | hl
          · exact absurd hp (parent_lt hk).ne
          · exact le_of_not_less hless hl
        · exact o.except k hk hks hkj
      · rename_i hgo
        push Not at hgo
        obtain ⟨hpj, hl⟩ := hgo
        have hj0 : 0 < j := by
          rcases Nat.eq_zero_or_pos j with h0 | h0
          · subst h0; exact absurd rfl hpj
          · exact h0
        have hlt : rank (elem h j) < rank (elem h (parent j)) := (hless _ _).1 (by simpa using hl)
        have hpl := parent_lt hj0
        have hi : parent j < h.size := by omega
        refine ih _ _ (by simpa using hi) (by omega) ⟨?_, ?_⟩
        · intro k hk hks hkp
          rw [Array.size_swapIfInBounds] at hks
          rw [elem_swap hi hj, elem_swap hi hj]
          have hpk := parent_lt hk
          have he := o.except k hk hks
          have hg := o.grand hj0 k hk hks
          have hm := o.except (parent j)
          by_cases hkj : k = j
          · subst hkj
            simp only [if_true, hkp, if_false]
            exact hlt.le
          · rw [if_neg hkp, if_neg hkj]
            by_cases h1 : parent k = parent j
            · rw [if_pos h1]
              have := he hkj
              rw [h1] at this
              exact hlt.le.trans this
            · rw [if_neg h1]
              by_cases h2 : parent k = j
              · rw [if_pos h2]
                exact hg h2
              · rw [if_neg h2]
                exact he hkj
        · intro hp0 k hk hks hpk
          rw [Array.size_swapIfInBounds] at hks
          rw [elem_swap hi hj, elem_swap hi hj]
          have hpp := parent_lt hp0
          have hki := parent_lt hk
          have hm := o.except (parent j) hp0 hi (by omega)
          rw [if_neg (by omega), if_neg (by omega), if_neg (by omega)]
          by_cases hkj : k = j
          · rw [if_pos hkj]
            exact hm
          · rw [if_neg hkj]
            have := o.except k hk hks hkj
            rw [hpk] at this
            exact hm.trans this

theorem smallerChild_le {h : Array α} {i k : Nat} (hk : 0 < k) (hks : k < h.size)
    (hp : parent k = i) : rank (elem h (smallerChild less h i)) ≤ rank (elem h k) := by
  have hcase : k = 2 * i + 1 ∨ k = 2 * i + 2 := by
    unfold parent at hp
    omega
  unfold smallerChild
  split
  · rename_i hc
    have := ((hless _ _).1 hc.2).le
    rcases hcase with rfl | rfl
    · exact this
    · exact le_refl _
  · rename_i hc
    rcases hcase with rfl | rfl
    · exact le_refl _
    · refine le_of_not_less hless ?_
      by_contra hne
      exact hc ⟨hks, by simpa using hne⟩

omit hless in
theorem smallerChild_spec (less : α → α → Bool) {h : Array α} {i : Nat}
    (hs : 2 * i + 1 < h.size) :
    parent (smallerChild less h i) = i ∧ i < smallerChild less h i ∧
      smallerChild less h i < h.size := by
  unfold smallerChild parent
  split <;> omega

theorem down_ordered (fuel : Nat) (h : Array α) (i : Nat) (hfuel : h.size ≤ i + fuel)
    (o : DownOrder rank h i) : Ordered rank (down less fuel h i).1 := by
  induction fuel generalizing h i with
  | zero =>
      intro k hk hks
      have := parent_lt hk
      exact o.except k hk hks (by simp only [down] at hks; omega)
  | succ fuel ih =>
      unfold down
      split
      · rename_i hleaf
        intro k hk hks
        refine o.except k hk hks ?_
        unfold parent
        simp only at hks
        omega
      · rename_i hin
        push Not at hin
        obtain ⟨hcp, hci, hcs⟩ := smallerChild_spec less hin
        have hmin := fun k hk hks hp => smallerChild_le (h := h) (i := i) (k := k) hless hk hks hp
        generalize smallerChild less h i = c at hcp hci hcs hmin ⊢
        split
        · rename_i hstop
          intro k hk hks
          by_cases hpk : parent k = i
          · rw [hpk]
            exact (le_of_not_less hless hstop).trans (hmin k hk hks hpk)
          · exact o.except k hk hks hpk
        · rename_i hgo
          have hlt : rank (elem h c) < rank (elem h i) := (hless _ _).1 (by simpa using hgo)
          have hi : i < h.size := by omega
          refine ih _ _ (by rw [Array.size_swapIfInBounds]; omega) ⟨?_, ?_⟩
          · intro k hk hks hpk
            rw [Array.size_swapIfInBounds] at hks
            rw [elem_swap hi hcs, elem_swap hi hcs, if_neg hpk]
            have hkp := parent_lt hk
            by_cases hki : k = i
            · subst hki
              rw [if_neg (by omega), if_pos rfl]
              exact o.grand hk c (by omega) hcs hcp
            · rw [if_neg hki]
              by_cases hkc : k = c
              · subst hkc
                rw [if_pos hcp, if_pos rfl]
                exact hlt.le
              · rw [if_neg hkc]
                by_cases hpi : parent k = i
                · rw [if_pos hpi]
                  exact hmin k hk hks hpi
                · rw [if_neg hpi]
                  exact o.except k hk hks hpi
          · intro hc0 k hk hks hpk
            rw [Array.size_swapIfInBounds] at hks
            have hkp := parent_lt hk
            rw [elem_swap hi hcs, elem_swap hi hcs, hcp, if_pos rfl, if_neg (by omega),
              if_neg (by omega)]
            have := o.except k hk hks (by omega)
            rw [hpk] at this
            exact this

theorem push_ordered {h : Array α} (o : Ordered rank h) (x : α) :
    Ordered rank (push less h x) := by
  have helem : ∀ k, k < h.size → elem (h.push x) k = elem h k := by
    intro k hk
    unfold elem
    rw [Array.getElem?_push_lt hk, Array.getElem?_eq_getElem hk]
  refine up_ordered hless _ _ _ (by simp) le_rfl ⟨?_, ?_⟩
  · intro k hk hks hkn
    rw [Array.size_push] at hks
    have := parent_lt hk
    rw [helem _ (by omega), helem _ (by omega)]
    exact o k hk (by omega)
  · intro _ k hk hks hpk
    rw [Array.size_push] at hks
    have := parent_lt hk
    omega

/-- Repairing the root after its element was replaced. -/
theorem fix_zero_ordered {h : Array α} (o : DownOrder rank h 0) : Ordered rank (fix less h 0) := by
  have hd := down_ordered hless h.size h 0 (by omega) o
  unfold fix
  simp only
  split
  · exact hd
  · cases hn : h.size with
    | zero => simpa [hn, up] using hd
    | succ n =>
        have hroot : parent 0 = 0 := rfl
        rw [hn] at hd
        unfold up
        simpa [hroot] using hd

/-! ## Bounded selection -/

theorem offer_holds {limit : Nat} (hlimit : 0 < limit) {xs : List α} {h : Array α}
    (H : Holds rank limit xs h) (x : α) :
    Holds rank limit (xs ++ [x]) (offer less limit h x) := by
  obtain ⟨ho, hsize, rest, hperm, hle⟩ := H
  unfold offer
  split
  · -- room left: nothing was rejected so far
    rename_i hroom
    have hlen : xs.length = h.size := by omega
    have hrest : rest = [] := by
      have := hperm.length_eq
      simp only [List.length_append, Array.length_toList] at this
      exact List.length_eq_zero_iff.1 (by omega)
    subst hrest
    have hp := push_perm less h x
    refine ⟨push_ordered hless ho x, ?_, [], ?_, by simp⟩
    · have := hp.length_eq
      simp only [Array.length_toList, List.length_cons] at this
      simp only [List.length_append, List.length_cons, List.length_nil]
      omega
    · rw [List.append_nil] at hperm ⊢
      exact (hp.trans (hperm.cons x)).trans (List.perm_append_singleton x xs).symm
  · rename_i hfull
    have hs : 0 < h.size := by omega
    have hmin : min limit xs.length = min limit (xs ++ [x]).length := by
      simp only [List.length_append, List.length_cons, List.length_nil]
      omega
    split
    · -- the root leaves for `x`
      rename_i hl
      have hlt := (hless _ _).1 hl
      obtain ⟨tail, htail, hset⟩ := set_root_toList hs x
      have hp := fix_perm less (h.setIfInBounds 0 x) 0
      rw [hset] at hp
      refine ⟨fix_zero_ordered hless (set_root_downOrder ho x), ?_, elem h 0 :: rest, ?_, ?_⟩
      · rw [size_eq_of_perm (fix_perm less _ 0), Array.size_setIfInBounds, hsize, hmin]
      · rw [htail] at hperm
        calc (fix less (h.setIfInBounds 0 x) 0).toList ++ elem h 0 :: rest
            |>.Perm ((x :: tail) ++ elem h 0 :: rest) := hp.append_right _
          _ |>.Perm (x :: (elem h 0 :: tail ++ rest)) := by
              simp [List.perm_middle]
          _ |>.Perm (x :: xs) := hperm.cons x
          _ |>.Perm (xs ++ [x]) := (List.perm_append_singleton x xs).symm
      · intro a ha b hb
        have hroot := elem_zero_mem hs
        have ha' := (hp.mem_iff).1 ha
        rcases List.mem_cons.1 ha' with rfl | ha'
        · rcases List.mem_cons.1 hb with rfl | hb
          · exact hlt.le
          · exact (hle _ hroot _ hb).trans hlt.le
        · have ham : a ∈ h.toList := by rw [htail]; exact List.mem_cons_of_mem _ ha'
          rcases List.mem_cons.1 hb with rfl | hb
          · exact root_le_mem ho ham
          · exact hle _ ham _ hb
    · -- `x` is rejected
      rename_i hl
      have hxr : rank x ≤ rank (elem h 0) := le_of_not_less hless (by simpa using hl)
      refine ⟨ho, by rw [hsize, hmin], x :: rest, ?_, ?_⟩
      · exact (List.perm_middle.trans (hperm.cons x)).trans (List.perm_append_singleton x xs).symm
      · intro a ha b hb
        rcases List.mem_cons.1 hb with rfl | hb
        · exact hxr.trans (root_le_mem ho ha)
        · exact hle _ ha _ hb

/-- After any stream the heap holds its greatest elements. -/
theorem select_holds {limit : Nat} (hlimit : 0 < limit) (xs : List α) :
    Holds rank limit xs (select less limit xs) := by
  induction xs using List.reverseRecOn with
  | nil => exact ⟨fun k _ hk => by simp [select] at hk, by simp [select], [], by simp [select], by simp⟩
  | append_singleton xs x ih =>
      have : select less limit (xs ++ [x]) = offer less limit (select less limit xs) x := by
        simp [select]
      rw [this]
      exact offer_holds hless hlimit ih x

end BinaryHeap
