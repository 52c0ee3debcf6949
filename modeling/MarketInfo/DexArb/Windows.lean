import MarketInfo.DexArb.Visit
import MarketInfo.Lib.Runs
import MarketInfo.Reserve.Binding

/-! # The windows of a route

For each route the windows are maximal runs of positive blocks. The pass knows of a route the block
it has seen last and which window that block is in.
-/

namespace MarketInfo.DexArb

open Listing (Sorted Next)
open Reserve (Hash)

/-! ## Blocks in order -/

/-- Where a block stands. -/
def Block.place (b : Block) : ℕ ×ₗ Json.Text := toLex (b.number.toNat, Hash.string b.manifest)

theorem blockLess_iff (a b : Block) : blockLess a b = true ↔ a.place < b.place := by
  refine Reserve.pairLess_iff (fun b : Block => b.number.toNat) (fun b => Hash.string b.manifest)
    (fun a b => ?_) a b
  unfold blockLess
  by_cases heq : a.number = b.number
  · simp [heq]
  · simp [heq, UInt64.toNat_inj, UInt64.lt_iff_toNat_lt]

theorem place_inj {a b : Block} (h : a.place = b.place) : a.number = b.number ∧ a.manifest = b.manifest := by
  have hpair := Prod.mk.inj (toLex_inj.1 h)
  exact ⟨UInt64.toNat_inj.1 hpair.1, Reserve.string_injective hpair.2⟩

theorem number_le_of_place_lt {a b : Block} (h : a.place < b.place) : a.number.toNat ≤ b.number.toNat := by
  rcases Prod.Lex.toLex_lt_toLex.1 h with hlt | ⟨heq, _⟩
  · exact hlt.le
  · exact heq.le

/-- A block of the next height and the same manifest, whose parent is the other. -/
def Follows (a b : Block) : Prop :=
  a.number.toNat + 1 = b.number.toNat ∧ a.hash = b.parent ∧ a.manifest = b.manifest

instance (a b : Block) : Decidable (Follows a b) := inferInstanceAs (Decidable (_ ∧ _ ∧ _))

variable (env : Inputs) (total : List Block) (r : String)

/-- A block follows the one that stands before it. -/
def Directly (a b : Block) : Prop := Next Block.place total a b ∧ Follows a b

/-- A link of a window. -/
def Joined (a b : Block) : Prop :=
  Directly total a b ∧ fullAt env r a = true ∧ positiveAt env r a = true ∧ fullAt env r b = true ∧
    positiveAt env r b = true

/-- A fully quoted block that directly follows a fully quoted one without a positive quote. -/
def Confirmed (b : Block) : Prop :=
  fullAt env r b = true ∧ ∃ a, Directly total a b ∧ fullAt env r a = true ∧ nonpositiveAt env r a = true

/-- The windows of a route. -/
def windowsOf (windows : List Window) : List Window := windows.filter fun w => w.route = r

variable {env total r}

/-- The state of a route tells of the block before. -/
theorem continues_iff {p b : Block} {window : Nat} (h : p.place < b.place) :
    (stateAfter env r p window).continues b = true ↔ Follows p b := by
  have hle := number_le_of_place_lt h
  have hnumber : p.number + 1 = b.number ↔ p.number.toNat + 1 = b.number.toNat := by
    rw [← UInt64.toNat_inj, UInt64.toNat_add]
    have := p.number.toNat_lt
    have := b.number.toNat_lt
    simp only [UInt64.toNat_one]
    omega
  simp [RouteState.continues, stateAfter, Follows, hnumber, and_assoc]

/-! ## Windows -/

@[simp] theorem extend_route (w : Window) (b : Block) (best : Candidate) (alternatives : List Candidate) :
    (w.extend b best alternatives).route = w.route := by
  unfold Window.extend
  simp only
  split <;> rfl

@[simp] theorem extend_manifest (w : Window) (b : Block) (best : Candidate) (alternatives : List Candidate) :
    (w.extend b best alternatives).manifest = w.manifest := by
  unfold Window.extend
  simp only
  split <;> rfl

@[simp] theorem extend_startBlock (w : Window) (b : Block) (best : Candidate) (alternatives : List Candidate) :
    (w.extend b best alternatives).startBlock = w.startBlock := by
  unfold Window.extend
  simp only
  split <;> rfl

@[simp] theorem extend_endBlock (w : Window) (b : Block) (best : Candidate) (alternatives : List Candidate) :
    (w.extend b best alternatives).endBlock = b.number := by
  unfold Window.extend
  simp only
  split <;> rfl

@[simp] theorem extend_confirmedNew (w : Window) (b : Block) (best : Candidate) (alternatives : List Candidate) :
    (w.extend b best alternatives).confirmedNew = w.confirmedNew := by
  unfold Window.extend
  simp only
  split <;> rfl

/-- The window of the index is the last one of the route. -/
def Points (r : String) (windows : List Window) (i : Nat) : Prop :=
  (∃ w, windows[i]? = some w ∧ w.route = r) ∧ ∀ j w, i < j → windows[j]? = some w → w.route ≠ r

theorem windowsOf_append (windows : List Window) (w : Window) :
    windowsOf r (windows ++ [w]) = if w.route = r then windowsOf r windows ++ [w] else windowsOf r windows := by
  unfold windowsOf
  rw [List.filter_append]
  split
  · rename_i h
    simp [h]
  · rename_i h
    simp [h]

theorem points_append (windows : List Window) {w : Window} (h : w.route = r) :
    Points r (windows ++ [w]) windows.length := by
  constructor
  · exact ⟨w, by simp, h⟩
  · intro j v hlt hv
    rw [List.getElem?_eq_none (by simpa using hlt)] at hv
    cases hv

theorem Points.append {windows : List Window} {i : Nat} (hpoints : Points r windows i) {w : Window}
    (h : w.route ≠ r) : Points r (windows ++ [w]) i := by
  rcases hpoints with ⟨⟨v, hv, hroute⟩, hlast⟩
  have hi := (List.getElem?_eq_some_iff.1 hv).1
  constructor
  · exact ⟨v, by rw [List.getElem?_append_left hi, hv], hroute⟩
  · intro j u hlt hu
    rw [List.getElem?_append] at hu
    split at hu
    · exact hlast j u hlt hu
    · rw [← List.mem_singleton.1 (List.mem_of_getElem? hu)] at h
      exact h

variable {f : Window → Window} (hf : ∀ w, (f w).route = w.route)
include hf

theorem Points.modify {windows : List Window} {i : Nat} (hpoints : Points r windows i) (j : Nat) :
    Points r (windows.modify j f) i := by
  have hroute : ∀ (k : Nat) (w : Window), (windows.modify j f)[k]? = some w →
      ∃ v : Window, windows[k]? = some v ∧ w.route = v.route := by
    intro k w hw
    rw [List.getElem?_modify] at hw
    rcases Option.map_eq_some_iff.1 hw with ⟨v, hv, rfl⟩
    refine ⟨v, hv, ?_⟩
    split
    · exact hf v
    · rfl
  rcases hpoints with ⟨⟨w, hw, hr⟩, hlast⟩
  constructor
  · rw [List.getElem?_modify, hw]
    refine ⟨_, rfl, ?_⟩
    dsimp only
    split
    · rw [hf, hr]
    · exact hr
  · intro k v hlt hv
    rcases hroute k v hv with ⟨u, hu, heq⟩
    rw [heq]
    exact hlast k u hlt hu

/-- A window of another route. -/
theorem windowsOf_modify_other {windows : List Window} {i : Nat}
    (h : ∀ w, windows[i]? = some w → w.route ≠ r) : windowsOf r (windows.modify i f) = windowsOf r windows := by
  unfold windowsOf
  induction windows generalizing i with
  | nil => simp
  | cons v windows ih =>
      cases i with
      | zero =>
          have hv : v.route ≠ r := h v rfl
          simp [hf, hv]
      | succ i =>
          have hrest := ih (i := i) fun w hw => h w (by simpa using hw)
          simp only [List.modify_succ_cons, List.filter_cons, hrest]

/-- The last window of the route. -/
theorem Points.windowsOf_modify {windows : List Window} {i : Nat} (hpoints : Points r windows i) :
    ∃ l w, windowsOf r windows = l ++ [w] ∧ windowsOf r (windows.modify i f) = l ++ [f w] := by
  unfold windowsOf
  induction windows generalizing i with
  | nil =>
      rcases hpoints.1 with ⟨w, hw, _⟩
      simp at hw
  | cons v windows ih =>
      rcases hpoints with ⟨⟨w, hw, hr⟩, hlast⟩
      cases i with
      | zero =>
          rw [List.getElem?_cons_zero] at hw
          cases hw
          have hrest : windows.filter (fun w => w.route = r) = [] := by
            rw [List.filter_eq_nil_iff]
            intro u hu
            rcases List.mem_iff_getElem?.1 hu with ⟨j, hj⟩
            simpa using hlast (j + 1) u (Nat.succ_pos j) (by simpa using hj)
          exact ⟨[], v, by simp [hr, hrest], by simp [hf, hr, hrest]⟩
      | succ i =>
          have hpoints : Points r windows i := by
            refine ⟨⟨w, by simpa using hw, hr⟩, fun j u hlt hu => ?_⟩
            exact hlast (j + 1) u (Nat.succ_lt_succ hlt) (by simpa using hu)
          rcases ih hpoints with ⟨l, u, hl, hmodify⟩
          by_cases hv : v.route = r
          · exact ⟨v :: l, u, by simp [hv, hl], by simp [hv, hmodify]⟩
          · exact ⟨l, u, by simp [hv, hl], by simp [hv, hmodify]⟩

end MarketInfo.DexArb
