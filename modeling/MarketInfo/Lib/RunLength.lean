import Mathlib

/-! # Runs of equal values

The positions at which a list takes a new value, and the list rebuilt from these
positions and the values there: each value is written from its position up to the
next one.
-/

namespace RunLength

variable {α β : Type*}

section Starts

variable [DecidableEq α]

/-- The positions whose value is not that of the position before. -/
def starts (xs : List α) : List Nat :=
  (List.range xs.length).filter fun i => decide (i = 0 ∨ xs[i]? ≠ xs[i - 1]?)

theorem mem_starts {xs : List α} {i : Nat} :
    i ∈ starts xs ↔ i < xs.length ∧ (i = 0 ∨ xs[i]? ≠ xs[i - 1]?) := by
  simp [starts]

theorem sorted_starts (xs : List α) : (starts xs).Pairwise (· < ·) :=
  List.Pairwise.filter _ List.pairwise_lt_range

/-- A list with an element starts at position zero. -/
theorem exists_starts {xs : List α} (h : 0 < xs.length) : ∃ rest, starts xs = 0 :: rest := by
  have hzero : 0 ∈ starts xs := mem_starts.mpr ⟨h, .inl rfl⟩
  have hsorted := sorted_starts xs
  cases hs : starts xs with
  | nil =>
      rw [hs] at hzero
      cases hzero
  | cons i rest =>
      rw [hs] at hzero hsorted
      rcases List.mem_cons.mp hzero with rfl | hrest
      · exact ⟨rest, rfl⟩
      · have := (List.pairwise_cons.mp hsorted).1 0 hrest
        omega

end Starts

/-- `count` writes of `x`, the first at position `k`. -/
def fill (x : β) : Nat → Nat → List β → List β
  | 0, _, out => out
  | count + 1, k, out => fill x count (k + 1) (out.set k x)

@[simp] theorem length_fill (x : β) (count k : Nat) (out : List β) :
    (fill x count k out).length = out.length := by
  induction count generalizing k out with
  | zero => rfl
  | succ count ih => rw [fill, ih, List.length_set]

theorem getElem?_fill (x : β) {count k i : Nat} {out : List β} (hi : i < out.length) :
    (fill x count k out)[i]? = if k ≤ i ∧ i < k + count then some x else out[i]? := by
  induction count generalizing k out with
  | zero =>
      rw [if_neg (by omega)]
      rfl
  | succ count ih =>
      rw [fill, ih (by rwa [List.length_set])]
      by_cases hk : k = i
      · subst hk
        rw [if_neg (by omega), if_pos (by omega), List.getElem?_set_self hi]
      · rw [List.getElem?_set_ne hk]
        by_cases hin : k + 1 ≤ i ∧ i < k + 1 + count
        · rw [if_pos hin, if_pos (by omega)]
        · rw [if_neg hin, if_neg (by omega)]

/-- Each value is written from its position up to the next one, the last up to `n`. -/
def rebuild (f : Nat → β) (n : Nat) : List Nat → List β → List β
  | [], out => out
  | i :: rest, out => rebuild f n rest (fill (f i) (rest.headD n - i) i out)

/-- Within a run all values are that of its first position. -/
theorem eq_on_run {f : Nat → β} {n i : Nat} {rest : List Nat} (hsorted : (i :: rest).Pairwise (· < ·))
    (hrun : ∀ k, i < k → k < n → k ∉ rest → f k = f (k - 1)) (m : Nat) (hm : i + m < n)
    (hhead : i + m < rest.headD n) : f (i + m) = f i := by
  induction m with
  | zero => rfl
  | succ m ih =>
      have hnot : i + (m + 1) ∉ rest := by
        intro hmem
        cases rest with
        | nil => cases hmem
        | cons j rest =>
            have hj := (List.pairwise_cons.mp (List.pairwise_cons.mp hsorted).2).1
            rw [List.headD_cons] at hhead
            rcases List.mem_cons.mp hmem with h | h
            · omega
            · have := hj _ h
              omega
      rw [hrun (i + (m + 1)) (by omega) hm hnot]
      exact ih (by omega) (by omega)

/-- The first run is written, and nothing before it. -/
theorem getElem?_fill_run {f : Nat → β} {n i k : Nat} {rest : List Nat} {out : List β}
    (hlength : out.length = n) (hsorted : (i :: rest).Pairwise (· < ·))
    (hrun : ∀ k, i < k → k < n → k ∉ rest → f k = f (k - 1)) (hk : k < n) (hhead : k < rest.headD n) :
    (fill (f i) (rest.headD n - i) i out)[k]? = if i ≤ k then some (f k) else out[k]? := by
  rw [getElem?_fill _ (by omega)]
  by_cases hik : i ≤ k
  · have hsame := eq_on_run hsorted hrun (k - i) (by omega) (by omega)
    rw [show i + (k - i) = k by omega] at hsame
    rw [if_pos (by omega), if_pos hik, hsame]
  · rw [if_neg (by omega), if_neg hik]

/-- From the first position on the list is rebuilt, and before it nothing is written. -/
theorem getElem?_rebuild {f : Nat → β} {n i : Nat} {rest : List Nat} {out : List β}
    (hlength : out.length = n) (hsorted : (i :: rest).Pairwise (· < ·)) (hbound : ∀ j ∈ i :: rest, j < n)
    (hrun : ∀ k, i < k → k < n → k ∉ rest → f k = f (k - 1)) {k : Nat} (hk : k < n) :
    (rebuild f n (i :: rest) out)[k]? = if i ≤ k then some (f k) else out[k]? := by
  induction rest generalizing i out with
  | nil => exact getElem?_fill_run hlength hsorted hrun hk hk
  | cons j rest ih =>
      rcases List.pairwise_cons.mp hsorted with ⟨hfirst, hrest⟩
      have hij := hfirst j (List.mem_cons_self ..)
      have hrun' : ∀ l, j < l → l < n → l ∉ rest → f l = f (l - 1) := by
        intro l hl hln hnot
        refine hrun l (by omega) hln fun hmem => ?_
        rcases List.mem_cons.mp hmem with rfl | h
        · exact lt_irrefl _ hl
        · exact hnot h
      rw [rebuild, ih (by rw [length_fill, hlength]) hrest
        (fun l hl => hbound l (List.mem_cons_of_mem _ hl)) hrun']
      by_cases hjk : j ≤ k
      · rw [if_pos hjk, if_pos (by omega)]
      · rw [if_neg hjk]
        exact getElem?_fill_run hlength hsorted hrun hk (by rw [List.headD_cons]; omega)

@[simp] theorem length_rebuild (f : Nat → β) (n : Nat) (is : List Nat) (out : List β) :
    (rebuild f n is out).length = out.length := by
  induction is generalizing out with
  | nil => rfl
  | cons i rest ih => rw [rebuild, ih, length_fill]

/-- Any image of the values of a list is rebuilt from the images at its starts. -/
theorem rebuild_starts [DecidableEq α] (g : Option α → β) (xs : List α) {out : List β}
    (hout : out.length = xs.length) :
    rebuild (fun i => g xs[i]?) xs.length (starts xs) out = xs.map fun x => g (some x) := by
  refine List.ext_getElem? fun k => ?_
  by_cases hk : k < xs.length
  · rcases exists_starts (Nat.zero_lt_of_lt hk) with ⟨rest, hrest⟩
    have hsorted := sorted_starts xs
    have hmem := fun i => @mem_starts _ _ xs i
    rw [hrest] at hsorted hmem ⊢
    rw [getElem?_rebuild hout hsorted (fun j hj => ((hmem j).mp hj).1) ?_ hk, if_pos (Nat.zero_le k),
      List.getElem?_map, List.getElem?_eq_getElem hk, Option.map_some]
    intro l hl hln hnot
    have hsame : xs[l]? = xs[l - 1]? := by
      by_contra hne
      rcases List.mem_cons.mp ((hmem l).mpr ⟨hln, .inr hne⟩) with rfl | h
      · exact lt_irrefl _ hl
      · exact hnot h
    rw [hsame]
  · rw [List.getElem?_eq_none (by rw [length_rebuild, hout]; omega),
      List.getElem?_eq_none (by rw [List.length_map]; omega)]

end RunLength
