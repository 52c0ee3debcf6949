import Mathlib.Data.List.Basic

/-! # Binary search

The index at which a predicate that stays true once it is true becomes true. On a
list split into a part where the predicate fails and a part where it holds, that
is the length of the first part.
-/

namespace MarketInfo

variable {α : Type*}

/-- The search between `i` and `j`, which halves their distance at each turn. -/
def searchBetween (f : Nat → Bool) : Nat → Nat → Nat → Nat
  | 0, i, _ => i
  | fuel + 1, i, j =>
      if i < j then
        if f ((i + j) / 2) then searchBetween f fuel i ((i + j) / 2)
        else searchBetween f fuel ((i + j) / 2 + 1) j
      else i

def search (xs : List α) (p : α → Bool) : Nat :=
  searchBetween (fun i => xs[i]?.any p) xs.length 0 xs.length

theorem searchBetween_eq {f : Nat → Bool} {k n : Nat} (hlow : ∀ m < k, f m = false)
    (hhigh : ∀ m, k ≤ m → m < n → f m = true) {fuel i j : Nat} (hi : i ≤ k) (hj : k ≤ j)
    (hn : j ≤ n) (hfuel : j - i ≤ fuel) : searchBetween f fuel i j = k := by
  induction fuel generalizing i j with
  | zero =>
      unfold searchBetween
      omega
  | succ fuel ih =>
      unfold searchBetween
      split_ifs with hlt hmid
      · -- the predicate holds in the middle, so the index is not after it
        have hk : k ≤ (i + j) / 2 := by
          by_contra hgt
          rw [hlow _ (by omega)] at hmid
          cases hmid
        exact ih hi hk (by omega) (by omega)
      · have hk : (i + j) / 2 + 1 ≤ k := by
          by_contra hgt
          exact hmid (hhigh _ (by omega) (by omega))
        exact ih hk hj hn (by omega)
      · omega

theorem search_append {pre post : List α} {p : α → Bool} (hpre : ∀ x ∈ pre, p x = false)
    (hpost : ∀ x ∈ post, p x = true) : search (pre ++ post) p = pre.length := by
  refine searchBetween_eq (n := (pre ++ post).length) ?_ ?_ (Nat.zero_le _) ?_ (Nat.le_refl _)
    (Nat.le_refl _)
  · intro m hm
    rw [List.getElem?_append_left hm, List.getElem?_eq_getElem hm]
    exact hpre _ (List.getElem_mem hm)
  · intro m hm hlt
    rw [List.length_append] at hlt
    have hlt' : m - pre.length < post.length := by omega
    rw [List.getElem?_append_right hm, List.getElem?_eq_getElem hlt']
    exact hpost _ (List.getElem_mem hlt')
  · rw [List.length_append]
    omega

/-- Where the predicate stays true it splits the list. -/
theorem exists_split {xs : List α} {p : α → Bool}
    (hmono : xs.Pairwise fun a b => p a = true → p b = true) :
    ∃ pre post, xs = pre ++ post ∧ (∀ x ∈ pre, p x = false) ∧ ∀ x ∈ post, p x = true := by
  induction xs with
  | nil => exact ⟨[], [], rfl, by simp, by simp⟩
  | cons x xs ih =>
      rcases List.pairwise_cons.mp hmono with ⟨hx, hxs⟩
      cases hpx : p x with
      | true =>
          refine ⟨[], x :: xs, rfl, by simp, fun y hy => ?_⟩
          rcases List.mem_cons.mp hy with rfl | hy
          · exact hpx
          · exact hx y hy hpx
      | false =>
          rcases ih hxs with ⟨pre, post, heq, hpre, hpost⟩
          refine ⟨x :: pre, post, by rw [heq, List.cons_append], fun y hy => ?_, hpost⟩
          rcases List.mem_cons.mp hy with rfl | hy
          · exact hpx
          · exact hpre y hy

end MarketInfo
