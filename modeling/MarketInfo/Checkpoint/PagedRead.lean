import MarketInfo.Checkpoint.PagedLookup

/-! # Reading a paged map

`Get` and `Scan` agree with the map, and leave it as it was.
-/

namespace MarketInfo.Checkpoint

variable {T : Type} {env : Paging T} {m : PagedMap T} {content : Nat → List (Item T)} {σ : OrderedMap String T}

/-- The map is as it was, and so is every object of the store. -/
structure Untouched (env : Paging T) (m m' : PagedMap T) (content : Nat → List (Item T)) (σ : OrderedMap String T) :
    Prop where
  holds : Holds env m' content σ
  index : SameIndex m.root m'.root
  files : m.files.Grows m'.files

theorem Holds.untouched (h : Holds env m content σ) : Untouched env m m content σ :=
  ⟨h, .refl _, .refl _⟩

theorem Untouched.trans {m' m'' : PagedMap T} (h : Untouched env m m' content σ)
    (h' : Untouched env m' m'' content σ) : Untouched env m m'' content σ :=
  ⟨h'.holds, h.index.trans h'.index, h.files.trans h'.files⟩

theorem Holds.of_backed {m' : PagedMap T} (h : Holds env m content σ) (hbacked : Backed env m' content)
    (hsame : SameIndex m.root m'.root) : Holds env m' content σ := by
  refine ⟨h.indexed.sameIndex hsame, hbacked, ?_⟩
  intro d' hd'
  obtain ⟨d, hd, hbare⟩ := hsame.exists_mem hd'
  rw [bare_id hbare]
  exact h.full d hd

theorem Holds.load (hf : env.Faithful) (h : Holds env m content σ) {i : Nat} {d : PageDescriptor}
    (hd : m.root.pages[i]? = some d) (hclash : (m.load env i).1.files.clash = false) :
    Untouched env m (m.load env i).1 content σ ∧
      ∀ p, (m.load env i).2 = .ok p → (m.load env i).1.cache.lookup d.id = some p ∧ p.value = ⟨1, content d.id⟩ := by
  have hmem := List.mem_of_getElem? hd
  have hload := load_spec hf h.backed h.indexed.ids hd (h.indexed.ids_le d hmem).2 hclash
  exact ⟨⟨h.of_backed hload.backed hload.index, hload.index, hload.files⟩, hload.page⟩

theorem Holds.located (h : Holds env m content σ) (hpages : m.root.pages ≠ []) (key : String) :
    ∃ d pre post, Located m.root content key (m.index key) d pre post :=
  h.indexed.located (fun d hd => (h.full d hd).1) hpages key

/-- Past the ends of the page there is no item. -/
theorem Located.eq_none {key : String} {i : Nat} {d : PageDescriptor} {pre post : List PageDescriptor}
    (hlocated : Located m.root content key i d pre post) (h : Holds env m content σ)
    (hout : key < d.first ∨ d.last < key) : σ.get key = none := by
  have hordered := h.indexed.ordered hlocated.mem
  have hdescribed := h.indexed.described d hlocated.mem
  rw [Option.eq_none_iff_forall_ne_some]
  intro value hget
  rw [OrderedMap.get_eq_some, hlocated.mem_entries h.indexed] at hget
  rcases hout with hlt | hlt
  · exact absurd hlt (not_lt.2 (hdescribed.first hordered _ hget))
  · exact absurd hlt (not_lt.2 ((hdescribed.last hordered (h.full d hlocated.mem).1).2 _ hget))

theorem Holds.eq_empty (h : Holds env m content σ) (hpages : m.root.pages = []) : σ.entries = [] := by
  rw [← h.indexed.entries, hpages]
  rfl

theorem Located.find {key : String} {i : Nat} {d : PageDescriptor} {pre post : List PageDescriptor}
    (hlocated : Located m.root content key i d pre post) (h : Indexed env m.root content σ) :
    ((content d.id)[search (content d.id) fun e => key ≤ e.1]?).bind
      (fun e => if e.1 = key then some e.2 else none) = σ.get key := by
  refine Option.ext fun value => ?_
  rw [findItem_eq (h.ordered hlocated.mem), OrderedMap.get_eq_some, hlocated.mem_entries h]

/-- `Get` returns what the map has. -/
theorem get_spec (hf : env.Faithful) (h : Holds env m content σ) (key : String)
    (hclash : (m.get env key).1.files.clash = false) :
    Untouched env m (m.get env key).1 content σ ∧ ∀ found, (m.get env key).2 = .ok found → found = σ.get key := by
  unfold PagedMap.get at hclash ⊢
  by_cases hpages : m.root.pages = []
  · rw [hpages, List.getElem?_nil]
    refine ⟨h.untouched, ?_⟩
    intro found hfound
    cases hfound
    rw [OrderedMap.get, h.eq_empty hpages]
    rfl
  · obtain ⟨d, pre, post, hlocated⟩ := h.located hpages key
    rw [hlocated.getElem?] at hclash ⊢
    dsimp only at hclash ⊢
    by_cases hout : key < d.first ∨ d.last < key
    · rw [if_pos hout]
      refine ⟨h.untouched, ?_⟩
      intro found hfound
      cases hfound
      rw [hlocated.eq_none h hout]
    · rw [if_neg hout] at hclash ⊢
      have hload := h.load hf hlocated.getElem?
      revert hload hclash
      rcases m.load env (m.index key) with ⟨m', err | p⟩
      · exact fun hclash hload => ⟨(hload hclash).1, nofun⟩
      · intro hclash hload
        obtain ⟨huntouched, hpage⟩ := hload hclash
        refine ⟨huntouched, ?_⟩
        intro found hfound
        cases hfound
        rw [(hpage p rfl).2]
        exact hlocated.find h.indexed

/-! ## Scans -/

/-- The items that a scan is after. -/
def Sought (env : Paging T) (after : String) (eligibleOnly : Bool) (e : Item T) : Bool :=
  decide (after < e.1) && (!eligibleOnly || env.eligible e.2)

/-- A page that is passed over has none of them. -/
theorem filter_skipped (h : Holds env m content σ) {d : PageDescriptor} (hd : d ∈ m.root.pages) {after : String}
    {eligibleOnly : Bool} (hskip : d.last ≤ after ∨ eligibleOnly = true ∧ d.eligible = 0) :
    (content d.id).filter (Sought env after eligibleOnly) = [] := by
  have hdescribed := h.indexed.described d hd
  rw [List.filter_eq_nil_iff]
  intro e he hsought
  unfold Sought at hsought
  simp only [Bool.and_eq_true, decide_eq_true_eq, Bool.or_eq_true, Bool.not_eq_true'] at hsought
  rcases hskip with hlast | ⟨honly, hnone⟩
  · have hle := (hdescribed.last (h.indexed.ordered hd) (h.full d hd).1).2 e he
    exact absurd hsought.1 (not_lt.2 (hle.trans hlast))
  · have hcount : eligibleOf env (content d.id) = 0 := by
      rw [← hnone, ← hdescribed.summary]
      rfl
    have hnot := List.countP_eq_zero.1 hcount e he
    rcases hsought.2 with hall | heligible
    · rw [honly] at hall
      cases hall
    · exact hnot heligible

theorem SameIndex.flatMap_drop {root root' : PageRoot} (h : SameIndex root root') (content : Nat → List (Item T))
    (i : Nat) : ((root'.pages.drop i).flatMap fun d => content d.id) =
      (root.pages.drop i).flatMap fun d => content d.id := by
  rw [List.flatMap_def, List.flatMap_def, List.map_drop, List.map_drop,
    h.map_eq (fun d => content d.id) fun _ => rfl]

theorem scanPages_grows (after : String) (limit : Nat) (eligibleOnly : Bool) (places : List Nat)
    (found : List (Item T)) (m : PagedMap T) :
    m.files.Grows (PagedMap.scanPages env after limit eligibleOnly places found m).1.files := by
  induction places generalizing found m with
  | nil => exact .refl _
  | cons i rest ih =>
      unfold PagedMap.scanPages
      split
      · exact .refl _
      · split
        · exact ih found m
        · have hload := load_grows env m i
          rcases hresult : m.load env i with ⟨m', err | p⟩ <;> rw [hresult] at hload
          · exact hload
          · dsimp only at hload ⊢
            split
            · exact hload
            · exact hload.trans (ih _ m')

theorem scanPages_spec (hf : env.Faithful) (after : String) (limit : Nat) (eligibleOnly : Bool) {i n : Nat}
    {found : List (Item T)} (h : Holds env m content σ) (hn : i + n = m.root.pages.length)
    (hclash : (PagedMap.scanPages env after limit eligibleOnly (List.range' i n) found m).1.files.clash = false) :
    Untouched env m (PagedMap.scanPages env after limit eligibleOnly (List.range' i n) found m).1 content σ ∧
      ∀ items, (PagedMap.scanPages env after limit eligibleOnly (List.range' i n) found m).2 = .ok items →
        found.length < limit →
        items = (found ++ ((m.root.pages.drop i).flatMap fun d => content d.id).filter
          (Sought env after eligibleOnly)).take limit := by
  induction n generalizing i found m with
  | zero =>
      refine ⟨h.untouched, ?_⟩
      intro items hitems hshort
      cases hitems
      rw [List.drop_eq_nil_of_le (by omega), List.flatMap_nil, List.filter_nil, List.append_nil,
        List.take_of_length_le hshort.le]
  | succ n ih =>
      rw [List.range'_succ] at hclash ⊢
      unfold PagedMap.scanPages at hclash ⊢
      have hlt : i < m.root.pages.length := by omega
      have hd : m.root.pages[i]? = some m.root.pages[i] := List.getElem?_eq_getElem hlt
      have hmem := List.mem_of_getElem? hd
      rw [hd] at hclash
      rw [hd, List.drop_eq_getElem_cons hlt]
      generalize m.root.pages[i] = d at hd hmem hclash
      dsimp only at hclash ⊢
      rw [List.flatMap_cons, List.filter_append]
      by_cases hskip : d.last ≤ after ∨ eligibleOnly = true ∧ d.eligible = 0
      · rw [if_pos hskip] at hclash
        rw [if_pos hskip, filter_skipped h hmem hskip, List.nil_append]
        exact ih h (by omega) hclash
      · rw [if_neg hskip] at hclash ⊢
        have hload := h.load hf hd
        revert hload hclash
        rcases m.load env i with ⟨m', err | p⟩
        · exact fun hclash hload => ⟨(hload hclash).1, nofun⟩
        · intro hclash hload
          dsimp only at hload hclash ⊢
          have hloaded : m'.files.clash = false := by
            split at hclash
            · exact hclash
            · exact (scanPages_grows _ _ _ _ _ _).clash hclash
          obtain ⟨huntouched, hpage⟩ := hload hloaded
          rw [(hpage p rfl).2] at hclash
          rw [(hpage p rfl).2, ← List.append_assoc]
          have hsought : (fun e : Item T => decide (after < e.1) && (!eligibleOnly || env.eligible e.2)) =
            Sought env after eligibleOnly := rfl
          rw [hsought] at hclash ⊢
          by_cases hfull : limit ≤ (found ++ (content d.id).filter (Sought env after eligibleOnly)).length
          · rw [if_pos hfull]
            refine ⟨huntouched, ?_⟩
            intro items hitems _
            cases hitems
            rw [List.take_append_of_le_length hfull]
          · rw [if_neg hfull] at hclash ⊢
            have hlength : m'.root.pages.length = m.root.pages.length := by
              rw [← List.length_map (f := PageDescriptor.bare), huntouched.index.pages, List.length_map]
            have hrest := @ih m' (i + 1) (found ++ (content d.id).filter (Sought env after eligibleOnly))
              huntouched.holds (by omega) hclash
            refine ⟨huntouched.trans hrest.1, ?_⟩
            intro items hitems _
            rw [hrest.2 items hitems (not_le.1 hfull), huntouched.index.flatMap_drop]

/-- `Scan` returns the first items past the key. -/
theorem scan_spec (hf : env.Faithful) (h : Holds env m content σ) (after : String) (limit : Int)
    (eligibleOnly : Bool) (hclash : (m.scan env after limit eligibleOnly).1.files.clash = false) :
    Untouched env m (m.scan env after limit eligibleOnly).1 content σ ∧
      ∀ items, (m.scan env after limit eligibleOnly).2 = .ok items →
        items = (σ.entries.filter (Sought env after eligibleOnly)).take limit.toNat := by
  unfold PagedMap.scan at hclash ⊢
  by_cases hlimit : limit < 1 ∨ (pageItems : Int) < limit
  · rw [if_pos hlimit]
    exact ⟨h.untouched, nofun⟩
  · rw [if_neg hlimit, List.range_eq_range'] at hclash ⊢
    have hpages := scanPages_spec hf after limit.toNat eligibleOnly h (Nat.zero_add _) hclash
    refine ⟨hpages.1, ?_⟩
    intro items hitems
    rw [hpages.2 items hitems (by simp only [List.length_nil]; omega), List.nil_append, List.drop_zero,
      h.indexed.entries]

end MarketInfo.Checkpoint
