import MarketInfo.Checkpoint.PagedInvariant

/-! # Finding a key

The pages are in the order of their keys. The page that the search finds has the key, or no page
has it.
-/

namespace MarketInfo.Checkpoint

variable {T : Type} {env : Paging T} {key : String} {value : T} {items : List (Item T)}

/-! ## Places in a list -/

theorem insertIdx_at {α : Type*} (pre post : List α) (a : α) :
    (pre ++ post).insertIdx pre.length a = pre ++ a :: post := by
  induction pre with
  | nil => rfl
  | cons b pre ih => rw [List.cons_append, List.length_cons, List.insertIdx_succ_cons, ih, List.cons_append]

theorem modify_at {α : Type*} (pre post : List α) (a : α) (f : α → α) :
    (pre ++ a :: post).modify pre.length f = pre ++ f a :: post := by
  induction pre with
  | nil => rfl
  | cons b pre ih => rw [List.cons_append, List.length_cons, List.modify_succ_cons, ih, List.cons_append]

theorem getElem?_at {α : Type*} {pre post : List α} {i : Nat} (hi : i = pre.length) :
    (pre ++ post)[i]? = post.head? := by
  rw [hi, List.getElem?_append_right (Nat.le_refl _), Nat.sub_self, List.head?_eq_getElem?]

/-! ## In a page -/

/-- The keys increase. -/
def Ordered (items : List (Item T)) : Prop := items.Pairwise fun a b => a.1 < b.1

/-- Where the search puts the key. -/
theorem search_items (h : Ordered items) (key : String) :
    ∃ pre post, items = pre ++ post ∧ (search items fun e => key ≤ e.1) = pre.length ∧
      (∀ e ∈ pre, e.1 < key) ∧ ∀ e ∈ post, key ≤ e.1 := by
  obtain ⟨pre, post, rfl, hpre, hpost⟩ := exists_split (p := fun e : Item T => decide (key ≤ e.1))
    (h.imp fun hab hle => by simpa using le_trans (by simpa using hle) hab.le)
  refine ⟨pre, post, rfl, search_append hpre hpost, ?_, ?_⟩
  · intro e he
    simpa using hpre e he
  · intro e he
    simpa using hpost e he

/-- The item of the key, if it is there, is the one at the place. -/
theorem search_cases (h : Ordered items) (key : String) :
    ∃ pre post, items = pre ++ post ∧ (search items fun e => key ≤ e.1) = pre.length ∧
      (∀ e ∈ pre, e.1 < key) ∧ ((∀ e ∈ post, key < e.1) ∨
        ∃ value rest, post = (key, value) :: rest ∧ ∀ e ∈ rest, key < e.1) := by
  obtain ⟨pre, post, rfl, hsearch, hpre, hpost⟩ := search_items h key
  refine ⟨pre, post, rfl, hsearch, hpre, ?_⟩
  cases post with
  | nil => exact .inl (by simp)
  | cons e rest =>
      have hrest := (List.pairwise_cons.1 (List.pairwise_append.1 h).2.1).1
      rcases lt_or_eq_of_le (hpost e List.mem_cons_self) with hlt | heq
      · refine .inl ?_
        intro e' he'
        rcases List.mem_cons.1 he' with rfl | he'
        · exact hlt
        · exact hlt.trans (hrest e' he')
      · refine .inr ⟨e.2, rest, ?_, ?_⟩
        · rw [heq]
        · rw [heq]
          exact hrest

theorem setItem_eq (h : Ordered items) (key : String) (value : T) :
    PagedMap.setItem items key value = OrderedMap.insertEntry key value items := by
  obtain ⟨pre, post, rfl, hsearch, hpre, hpost⟩ := search_cases h key
  unfold PagedMap.setItem
  simp only
  rw [OrderedMap.insertEntry_append_left hpre, hsearch, getElem?_at rfl]
  rcases hpost with hpost | ⟨old, rest, rfl, hrest⟩
  · have hnew : (post.head?.any fun e => decide (e.1 = key)) = false := by
      cases post with
      | nil => rfl
      | cons e rest => simpa using ne_of_gt (hpost e List.mem_cons_self)
    rw [hnew, if_neg (by simp), insertIdx_at]
    congr 1
    cases post with
    | nil => rfl
    | cons e rest => exact (if_pos (hpost e List.mem_cons_self)).symm
  · rw [if_pos (by simp), List.set_append_right _ _ (Nat.le_refl _), Nat.sub_self]
    congr 1
    simp [OrderedMap.insertEntry]

theorem hasItem_eq (h : Ordered items) (key : String) :
    PagedMap.hasItem items key = true ↔ ∃ value, (key, value) ∈ items := by
  obtain ⟨pre, post, rfl, hsearch, hpre, hpost⟩ := search_cases h key
  unfold PagedMap.hasItem
  rw [getElem?_at hsearch]
  rcases hpost with hpost | ⟨old, rest, rfl, hrest⟩
  · refine iff_of_false ?_ ?_
    · cases post with
      | nil => simp
      | cons e rest => simpa using ne_of_gt (hpost e List.mem_cons_self)
    · rintro ⟨value, hmem⟩
      rcases List.mem_append.1 hmem with hmem | hmem
      · exact absurd (hpre _ hmem) (lt_irrefl _)
      · exact absurd (hpost _ hmem) (lt_irrefl _)
  · refine iff_of_true (by simp) ⟨old, ?_⟩
    simp

theorem eraseItem_eq (h : Ordered items) (hhas : PagedMap.hasItem items key = true) :
    items.eraseIdx (search items fun e => key ≤ e.1) = items.filter fun e => e.1 ≠ key := by
  obtain ⟨pre, post, rfl, hsearch, hpre, hpost⟩ := search_cases h key
  unfold PagedMap.hasItem at hhas
  rw [getElem?_at hsearch] at hhas
  rw [hsearch, List.eraseIdx_append_of_length_le (Nat.le_refl _), Nat.sub_self, List.filter_append,
    OrderedMap.filter_ne_of_lt hpre]
  congr 1
  rcases hpost with hpost | ⟨old, rest, rfl, hrest⟩
  · cases post with
    | nil => simp at hhas
    | cons e rest =>
        have heq : e.1 = key := by simpa using hhas
        exact absurd heq (ne_of_gt (hpost e List.mem_cons_self))
  · rw [List.filter_cons_of_neg (by simp), OrderedMap.filter_ne_of_gt hrest]
    rfl

theorem findItem_eq (h : Ordered items) (key : String) (value : T) :
    ((items[search items fun e => key ≤ e.1]?).bind fun e => if e.1 = key then some e.2 else none) = some value ↔
      (key, value) ∈ items := by
  obtain ⟨pre, post, rfl, hsearch, hpre, hpost⟩ := search_cases h key
  rw [getElem?_at hsearch]
  have hskip : (key, value) ∉ pre := fun hmem => absurd (hpre _ hmem) (lt_irrefl _)
  rw [List.mem_append, or_iff_right hskip]
  rcases hpost with hpost | ⟨old, rest, rfl, hrest⟩
  · refine iff_of_false ?_ fun hmem => absurd (hpost _ hmem) (lt_irrefl _)
    cases post with
    | nil => simp
    | cons e rest => simp [ne_of_gt (hpost e List.mem_cons_self)]
  · have hlater : (key, value) ∉ rest := fun hmem => absurd (hrest _ hmem) (lt_irrefl _)
    simp [hlater, eq_comm]

/-! ## In the pages -/

variable {root root' : PageRoot} {content : Nat → List (Item T)} {σ : OrderedMap String T} {d : PageDescriptor}

theorem Indexed.ordered (h : Indexed env root content σ) (hd : d ∈ root.pages) : Ordered (content d.id) := by
  have hsorted := σ.sorted
  rw [← h.entries, List.pairwise_flatMap] at hsorted
  exact hsorted.1 d hd

/-- The last key of a page is the greatest one. -/
theorem Described.last (h : Described env d items) (hordered : Ordered items) (hne : items ≠ []) :
    (∃ e ∈ items, e.1 = d.last) ∧ ∀ e ∈ items, e.1 ≤ d.last := by
  rcases List.eq_nil_or_concat items with rfl | ⟨init, e, rfl⟩
  · exact absurd rfl hne
  · have hlast : d.last = e.1 := by
      rw [← h.summary]
      simp [PageDescriptor.summary]
    rw [hlast]
    refine ⟨⟨e, by simp, rfl⟩, ?_⟩
    intro e' he'
    rw [List.concat_eq_append] at he' hordered
    rcases List.mem_append.1 he' with he' | he'
    · exact le_of_lt ((List.pairwise_append.1 hordered).2.2 e' he' e (by simp))
    · rw [List.mem_singleton.1 he']

/-- The first key of a page is the least one. -/
theorem Described.first (h : Described env d items) (hordered : Ordered items) : ∀ e ∈ items, d.first ≤ e.1 := by
  cases items with
  | nil => nofun
  | cons e rest =>
      have hfirst : d.first = e.1 := by
        rw [← h.summary]
        rfl
      intro e' he'
      rw [hfirst]
      rcases List.mem_cons.1 he' with rfl | he'
      · exact le_refl _
      · exact le_of_lt ((List.pairwise_cons.1 hordered).1 e' he')

/-- The page at the index is the only one that may have the key. -/
structure Located (root : PageRoot) (content : Nat → List (Item T)) (key : String) (i : Nat) (d : PageDescriptor)
    (pre post : List PageDescriptor) : Prop where
  pages : root.pages = pre ++ d :: post
  index : i = pre.length
  before : ∀ e ∈ pre.flatMap fun d => content d.id, e.1 < key
  after : ∀ e ∈ post.flatMap fun d => content d.id, key < e.1

/-- Where the index points, the key belongs. -/
theorem Indexed.located {m : PagedMap T} (h : Indexed env m.root content σ)
    (hfull : ∀ d ∈ m.root.pages, content d.id ≠ []) (hpages : m.root.pages ≠ []) (key : String) :
    ∃ d pre post, Located m.root content key (m.index key) d pre post := by
  have hsorted := σ.sorted
  rw [← h.entries, List.pairwise_flatMap] at hsorted
  have hlast := fun d hd => (h.described d hd).last (h.ordered hd) (hfull d hd)
  have hmono : m.root.pages.Pairwise fun a b => decide (key ≤ a.last) = true → decide (key ≤ b.last) = true := by
    refine hsorted.2.imp_of_mem ?_
    intro a b ha hb hab hle
    obtain ⟨x, hx, hxlast⟩ := (hlast a ha).1
    obtain ⟨y, hy, hylast⟩ := (hlast b hb).1
    have hlt := hab x hx y hy
    rw [hxlast, hylast] at hlt
    simpa using le_trans (by simpa using hle) hlt.le
  obtain ⟨pre, post, hparts, hpre, hpost⟩ := exists_split hmono
  have hsearch : (search m.root.pages fun d => decide (key ≤ d.last)) = pre.length := by
    rw [hparts]
    exact search_append hpre hpost
  have hbefore : ∀ a ∈ pre, ∀ e ∈ content a.id, e.1 < key := by
    intro a ha e he
    have hmem : a ∈ m.root.pages := hparts ▸ List.mem_append_left _ ha
    exact lt_of_le_of_lt ((hlast a hmem).2 e he) (by simpa using hpre a ha)
  cases post with
  | nil =>
      -- every page ends before the key, which belongs to the last one
      rw [List.append_nil] at hparts
      rcases List.eq_nil_or_concat pre with rfl | ⟨init, d, rfl⟩
      · exact absurd hparts hpages
      · rw [List.concat_eq_append] at hparts hsearch hbefore
        have hindex : m.index key = init.length := by
          unfold PagedMap.index
          simp only [hsearch]
          rw [hparts, if_pos (by simp)]
          simp
        refine ⟨d, init, [], hparts, hindex, ?_, by simp⟩
        intro e he
        obtain ⟨a, ha, he⟩ := List.mem_flatMap.1 he
        exact hbefore a (List.mem_append_left _ ha) e he
  | cons d post =>
      have hindex : m.index key = pre.length := by
        unfold PagedMap.index
        simp only [hsearch]
        rw [hparts, if_neg (by simp)]
      have hmem : d ∈ m.root.pages := hparts ▸ List.mem_append_right _ List.mem_cons_self
      refine ⟨d, pre, post, hparts, hindex, ?_, ?_⟩
      · intro e he
        obtain ⟨a, ha, he⟩ := List.mem_flatMap.1 he
        exact hbefore a ha e he
      · intro e he
        obtain ⟨a, ha, he⟩ := List.mem_flatMap.1 he
        obtain ⟨x, hx, hxlast⟩ := (hlast d hmem).1
        have hpairs := hsorted.2
        rw [hparts] at hpairs
        have hlt := (List.pairwise_cons.1 (List.pairwise_append.1 hpairs).2.1).1 a ha x hx e he
        rw [hxlast] at hlt
        exact lt_of_le_of_lt (by simpa using hpost d List.mem_cons_self) hlt

theorem Located.getElem? {i : Nat} {pre post : List PageDescriptor} (h : Located root content key i d pre post) :
    root.pages[i]? = some d := by
  rw [h.pages, getElem?_at h.index]
  rfl

theorem Located.mem {i : Nat} {pre post : List PageDescriptor} (h : Located root content key i d pre post) :
    d ∈ root.pages := List.mem_of_getElem? h.getElem?

/-- The same place, when the pages are stored elsewhere. -/
theorem Located.sameIndex {i : Nat} {pre post : List PageDescriptor} (h : Located root content key i d pre post)
    (hsame : SameIndex root root') :
    ∃ d' pre' post', Located root' content key i d' pre' post' ∧ d'.bare = d.bare := by
  have hpages := hsame.pages
  rw [h.pages, List.map_append, List.map_cons] at hpages
  obtain ⟨pre', rest, heq, hpre, hrest⟩ := List.map_eq_append_iff.1 hpages
  obtain ⟨d', post', rfl, hd, hpost⟩ := List.map_eq_cons_iff.1 hrest
  have hcontent : ∀ l l' : List PageDescriptor, l'.map PageDescriptor.bare = l.map PageDescriptor.bare →
      (l'.flatMap fun d => content d.id) = l.flatMap fun d => content d.id := by
    intro l l' hl
    have hbare : ∀ l : List PageDescriptor,
        (l.flatMap fun d => content d.id) = (l.map PageDescriptor.bare).flatMap fun d => content d.id := by
      intro l
      rw [List.flatMap_map]
      rfl
    rw [hbare, hl, ← hbare]
  refine ⟨d', pre', post', ⟨heq, ?_, ?_, ?_⟩, hd⟩
  · rw [h.index, ← List.length_map (f := PageDescriptor.bare), ← hpre, List.length_map]
  · rw [hcontent pre pre' hpre]
    exact h.before
  · rw [hcontent post post' hpost]
    exact h.after

/-- The entry of the key is in the page. -/
theorem Located.mem_entries {i : Nat} {pre post : List PageDescriptor} (h : Located root content key i d pre post)
    (hindexed : Indexed env root content σ) : (key, value) ∈ σ.entries ↔ (key, value) ∈ content d.id := by
  rw [← hindexed.entries, h.pages, List.flatMap_append, List.flatMap_cons, List.mem_append, List.mem_append]
  constructor
  · rintro (hmem | hmem | hmem)
    · exact absurd (h.before _ hmem) (lt_irrefl _)
    · exact hmem
    · exact absurd (h.after _ hmem) (lt_irrefl _)
  · exact fun hmem => .inr (.inl hmem)

end MarketInfo.Checkpoint
