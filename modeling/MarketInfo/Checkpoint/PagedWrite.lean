import MarketInfo.Checkpoint.PagedRead

/-! # Writing a paged map

`Set` and `Delete` that return nil do to the map what they are asked; a `Delete` that fails leaves
it as it was.
-/

namespace MarketInfo.Checkpoint

variable {T : Type} {env : Paging T} {m : PagedMap T} {content : Nat → List (Item T)} {σ : OrderedMap String T}
  {root : PageRoot} {d : PageDescriptor} {pre post : List PageDescriptor} {items : List (Item T)} {i : Nat}
  {key : String} {value : T}

/-! ## One page changes -/

theorem flatMap_congr_ids {content content' : Nat → List (Item T)} {pages : List PageDescriptor}
    (h : ∀ a ∈ pages, content' a.id = content a.id) :
    (pages.flatMap fun d => content' d.id) = pages.flatMap fun d => content d.id := by
  rw [List.flatMap_def, List.flatMap_def, List.map_congr_left h]

theorem ids_ne (hids : ((pre ++ d :: post).map PageDescriptor.id).Nodup) {a : PageDescriptor}
    (ha : a ∈ pre ∨ a ∈ post) : a.id ≠ d.id := by
  rw [List.map_append, List.map_cons, List.nodup_middle, List.nodup_cons, ← List.map_append] at hids
  intro heq
  refine hids.1 ?_
  rw [← heq]
  exact List.mem_map_of_mem (List.mem_append.2 ha)

theorem described_summary (d : PageDescriptor) (hkeys : ∀ e ∈ items, e.1 ≠ "") :
    Described env (d.summary env items) items := ⟨rfl, hkeys⟩

/-- The page has other items now. -/
theorem Indexed.replace {σ' : OrderedMap String T} (h : Indexed env root content σ)
    (hpages : root.pages = pre ++ d :: post) (hkeys : ∀ e ∈ items, e.1 ≠ "")
    (hentries : σ'.entries = (pre.flatMap fun d => content d.id) ++ items ++ post.flatMap fun d => content d.id) :
    Indexed env { root with count := σ'.len, pages := pre ++ d.summary env items :: post }
      (Function.update content d.id items) σ' := by
  have hids := h.ids
  rw [hpages] at hids
  have hother : ∀ a, a ∈ pre ∨ a ∈ post → Function.update content d.id items a.id = content a.id :=
    fun a ha => Function.update_of_ne (ids_ne hids ha) _ _
  have hold : ∀ a, a ∈ pre ∨ a ∈ post → a ∈ root.pages := by
    intro a ha
    rw [hpages, List.mem_append, List.mem_cons]
    exact ha.imp_right .inr
  have hcases : ∀ a ∈ pre ++ d.summary env items :: post, a = d.summary env items ∨ a ∈ pre ∨ a ∈ post := by
    intro a ha
    rw [List.mem_append, List.mem_cons] at ha
    tauto
  refine ⟨?_, ?_, ?_, ?_, rfl, h.version⟩
  · intro a ha
    rcases hcases a ha with rfl | ha
    · change Described env _ (Function.update content d.id items d.id)
      rw [Function.update_self]
      exact described_summary d hkeys
    · rw [hother a ha]
      exact h.described a (hold a ha)
  · rw [hentries, List.flatMap_append, List.flatMap_cons, flatMap_congr_ids fun a ha => hother a (.inl ha),
      flatMap_congr_ids fun a ha => hother a (.inr ha), List.append_assoc]
    congr 2
    exact Function.update_self d.id items content
  · rw [List.map_append, List.map_cons] at hids ⊢
    exact hids
  · intro a ha
    rcases hcases a ha with rfl | ha
    · exact h.ids_le d (hpages ▸ List.mem_append_right _ List.mem_cons_self)
    · exact h.ids_le a (hold a ha)

/-- A page may be neither in the store nor dirty. -/
structure BackedExcept (env : Paging T) (m : PagedMap T) (content : Nat → List (Item T)) (id : Nat) : Prop where
  stored : ∀ d ∈ m.root.pages, d.id ≠ id → Stored env m.files d.object (content d.id) ∨
    ∃ p, m.cache.lookup d.id = some p ∧ p.dirty = true
  cached : ∀ id p, m.cache.lookup id = some p → p.value = ⟨1, content id⟩ ∧ id ≤ m.root.next

theorem Backed.except (h : Backed env m content) (id : Nat) : BackedExcept env m content id :=
  ⟨fun d hd _ => h.stored d hd, h.cached⟩

/-- A page that is updated is dirty. -/
theorem BackedExcept.update (h : BackedExcept env m content d.id) (hpages : m.root.pages = pre ++ d :: post)
    (hi : i = pre.length) (hle : d.id ≤ m.root.next) {p : ResidentPage T} (hvalue : p.value = ⟨1, items⟩) :
    Backed env (m.update env i d.id p) (Function.update content d.id items) := by
  unfold PagedMap.update
  refine ⟨?_, ?_⟩
  · intro a ha
    dsimp only at ha ⊢
    by_cases hid : a.id = d.id
    · rw [hid, AList.lookup_insert]
      exact .inr ⟨_, rfl, rfl⟩
    · rw [AList.lookup_insert_ne hid, Function.update_of_ne hid]
      rw [hpages, hi, modify_at, List.mem_append, List.mem_cons] at ha
      refine h.stored a ?_ hid
      rw [hpages, List.mem_append, List.mem_cons]
      rcases ha with ha | rfl | ha
      · exact .inl ha
      · exact absurd rfl hid
      · exact .inr (.inr ha)
  · intro id p' hp'
    dsimp only at hp' ⊢
    by_cases hid : id = d.id
    · rw [hid, AList.lookup_insert, Option.some.injEq] at hp'
      rw [← hp', hid, Function.update_self]
      exact ⟨hvalue, hle⟩
    · rw [AList.lookup_insert_ne hid] at hp'
      rw [Function.update_of_ne hid]
      exact h.cached id p' hp'

/-! ## Splitting a page -/

/-- Some of the items move to a page of their own. -/
theorem Indexed.split (h : Indexed env root content σ) (hpages : root.pages = pre ++ d :: post)
    {left right : List (Item T)} (hparts : left ++ right = content d.id) {content' : Nat → List (Item T)}
    (hcontent : content' = Function.update (Function.update content d.id left) (root.next + 1) right) :
    Indexed env { root with
        next := root.next + 1
        pages := pre ++ d.summary env left :: ({ id := root.next + 1 } : PageDescriptor).summary env right :: post }
      content' σ := by
  have hids := h.ids
  rw [hpages] at hids
  have hmem : d ∈ root.pages := hpages ▸ List.mem_append_right _ List.mem_cons_self
  have hold : ∀ a, a ∈ pre ∨ a ∈ post → a ∈ root.pages := by
    intro a ha
    rw [hpages, List.mem_append, List.mem_cons]
    exact ha.imp_right .inr
  have hfresh : ∀ a ∈ root.pages, a.id ≠ root.next + 1 := fun a ha => by
    have := (h.ids_le a ha).2
    omega
  have hother : ∀ a, a ∈ pre ∨ a ∈ post → content' a.id = content a.id := by
    intro a ha
    rw [hcontent, Function.update_of_ne (hfresh a (hold a ha)), Function.update_of_ne (ids_ne hids ha)]
  have hleft : content' d.id = left := by
    rw [hcontent, Function.update_of_ne (hfresh d hmem), Function.update_self]
  have hright : content' (root.next + 1) = right := by
    rw [hcontent, Function.update_self]
  have hkeys := (h.described d hmem).keys
  rw [← hparts] at hkeys
  refine ⟨?_, ?_, ?_, ?_, h.count, h.version⟩
  · intro a ha
    simp only [List.mem_append, List.mem_cons] at ha
    rcases ha with ha | rfl | rfl | ha
    · rw [hother a (.inl ha)]
      exact h.described a (hold a (.inl ha))
    · change Described env _ (content' d.id)
      rw [hleft]
      exact described_summary d fun e he => hkeys e (List.mem_append_left _ he)
    · change Described env _ (content' (root.next + 1))
      rw [hright]
      exact described_summary _ fun e he => hkeys e (List.mem_append_right _ he)
    · rw [hother a (.inr ha)]
      exact h.described a (hold a (.inr ha))
  · rw [← h.entries, hpages, List.flatMap_append, List.flatMap_cons, List.flatMap_cons, List.flatMap_append,
      List.flatMap_cons, flatMap_congr_ids fun a ha => hother a (.inl ha),
      flatMap_congr_ids fun a ha => hother a (.inr ha), ← hparts]
    change _ ++ (content' d.id ++ (content' (root.next + 1) ++ _)) = _
    rw [hleft, hright, List.append_assoc]
  · have hnew : root.next + 1 ∉ root.pages.map PageDescriptor.id := by
      intro hmem
      obtain ⟨a, ha, heq⟩ := List.mem_map.1 hmem
      exact hfresh a ha heq
    rw [hpages] at hnew
    rw [List.map_append, List.map_cons, List.map_cons, List.append_cons, List.nodup_middle, List.nodup_cons,
      List.append_assoc, List.singleton_append]
    rw [List.map_append, List.map_cons] at hids hnew
    exact ⟨hnew, hids⟩
  · intro a ha
    simp only [List.mem_append, List.mem_cons] at ha
    dsimp only
    rcases ha with ha | rfl | rfl | ha
    · have := h.ids_le a (hold a (.inl ha))
      omega
    · have hle := h.ids_le d hmem
      change 0 < d.id ∧ d.id ≤ root.next + 1
      omega
    · change 0 < root.next + 1 ∧ root.next + 1 ≤ root.next + 1
      omega
    · have := h.ids_le a (hold a (.inr ha))
      omega

/-- A page that is not resident and not in the store yet is written. -/
theorem BackedExcept.flush (hf : env.Faithful) {id : Nat} {p : ResidentPage T} (h : BackedExcept env m content id)
    (hids : (m.root.pages.map PageDescriptor.id).Nodup) (hvalue : p.value = ⟨1, content id⟩)
    (hdirty : p.dirty = true) (hok : (m.flush env id p).2 = .ok ())
    (hclash : (m.flush env id p).1.files.clash = false) :
    Backed env (m.flush env id p).1 content ∧ SameIndex m.root (m.flush env id p).1.root := by
  have hflush := flush_spec hf hids id p
  revert hflush hok hclash
  rcases m.flush env id p with ⟨m', result⟩
  intro hok hclash hflush
  refine ⟨⟨?_, ?_⟩, hflush.index⟩
  · intro a ha
    by_cases hid : a.id = id
    · rw [hid]
      exact .inl (hflush.written hok hdirty hclash _ hvalue a ha hid)
    · dsimp only
      rw [hflush.cache]
      exact (h.stored a (hflush.others a ha hid) hid).imp_left fun hs => hs.grows hflush.files
  · intro id' p' hp'
    dsimp only at hp' ⊢
    rw [hflush.cache] at hp'
    rw [hflush.index.next]
    exact h.cached id' p' hp'

/-- All pages but this one are of the right size. -/
def FullExcept (root : PageRoot) (content : Nat → List (Item T)) (id : Nat) : Prop :=
  ∀ d ∈ root.pages, d.id ≠ id → content d.id ≠ [] ∧ (content d.id).length ≤ pageItems

theorem update_pages (env : Paging T) (hpages : m.root.pages = pre ++ d :: post) (hi : i = pre.length) (id : Nat)
    (p : ResidentPage T) : (m.update env i id p).root.pages = pre ++ d.summary env p.value.items :: post := by
  unfold PagedMap.update
  dsimp only
  rw [hpages, hi, modify_at]

theorem insertIdx_after {α : Type*} (pre post : List α) (a b : α) :
    (pre ++ a :: post).insertIdx (pre.length + 1) b = pre ++ a :: b :: post := by
  have h := insertIdx_at (pre ++ [a]) post b
  rw [List.length_append, List.length_singleton, List.append_assoc, List.append_assoc] at h
  exact h

theorem split_spec (hf : env.Faithful) (hindexed : Indexed env m.root content σ) (hbacked : Backed env m content)
    (hpages : m.root.pages = pre ++ d :: post) (hi : i = pre.length) {p : ResidentPage T}
    (hvalue : p.value = ⟨1, content d.id⟩) (hlong : 1 < (content d.id).length)
    (hshort : (content d.id).length ≤ 2 * pageItems) (hfull : FullExcept m.root content d.id)
    (hok : (m.split env i d.id p).2.2 = .ok ()) (hclash : (m.split env i d.id p).1.files.clash = false) :
    ∃ content', Holds env (m.split env i d.id p).1 content' σ := by
  have hmem : d ∈ m.root.pages := hpages ▸ List.mem_append_right _ List.mem_cons_self
  have hitems : p.value.items = content d.id := by rw [hvalue]
  unfold PagedMap.split at hok hclash ⊢
  simp only [hitems] at hok hclash ⊢
  generalize hleft : (content d.id).take ((content d.id).length / 2) = left at hok hclash ⊢
  generalize hright : (content d.id).drop ((content d.id).length / 2) = right at hok hclash ⊢
  have hparts : left ++ right = content d.id := by rw [← hleft, ← hright, List.take_append_drop]
  have hhalves : left.length = (content d.id).length / 2 ∧
      right.length = (content d.id).length - (content d.id).length / 2 := by
    rw [← hleft, ← hright, List.length_take, List.length_drop]
    omega
  split at hok
  · cases hok
  · rename_i hmax
    rw [if_neg hmax] at hclash ⊢
    -- the left half stays with the page
    generalize hpage : ({ p with value := { p.value with items := left } } : ResidentPage T) = page at hok hclash ⊢
    have hpagevalue : page.value = ⟨1, left⟩ := by rw [← hpage, hvalue]
    have hupdated := (hbacked.except d.id).update hpages hi (hindexed.ids_le d hmem).2 hpagevalue
    have hpages₁ := update_pages env hpages hi d.id page
    rw [hpagevalue] at hpages₁
    dsimp only at hok hclash hpages₁ ⊢
    -- the right half gets the next id, which no page and no resident page has
    have hsplit := hindexed.split hpages hparts rfl
    generalize hcontent : Function.update (Function.update content d.id left) (m.root.next + 1) right = content'
      at hsplit
    generalize hm₂ : ({ m.update env i d.id page with
        clock := (m.update env i d.id page).clock + 1
        root := { (m.update env i d.id page).root with
          next := (m.update env i d.id page).root.next + 1
          pages := (m.update env i d.id page).root.pages.insertIdx (i + 1)
            (({ id := (m.update env i d.id page).root.next + 1 } : PageDescriptor).summary env right) } } :
        PagedMap T) = m₂ at hok hclash ⊢
    have hroot : m₂.root = { m.root with
        next := m.root.next + 1
        pages := pre ++ d.summary env left ::
          ({ id := m.root.next + 1 } : PageDescriptor).summary env right :: post } := by
      rw [← hm₂, hpages₁, hi, insertIdx_after]
      rfl
    -- the new page alone is not backed until the flush has stored it
    have hexcept : BackedExcept env m₂ content' (m.root.next + 1) := by
      refine ⟨?_, ?_⟩
      · intro a ha hid
        have hold : a ∈ (m.update env i d.id page).root.pages := by
          rw [hroot] at ha
          rw [hpages₁]
          simp only [List.mem_append, List.mem_cons] at ha ⊢
          rcases ha with ha | ha | rfl | ha
          · exact .inl ha
          · exact .inr (.inl ha)
          · exact absurd rfl hid
          · exact .inr (.inr ha)
        rw [← hcontent, Function.update_of_ne hid, ← hm₂]
        exact hupdated.stored a hold
      · intro id' p' hp'
        rw [← hm₂] at hp'
        obtain ⟨hcached, hle⟩ := hupdated.cached id' p' hp'
        have hle : id' ≤ m.root.next := hle
        rw [hroot, ← hcontent, Function.update_of_ne (by omega)]
        exact ⟨hcached, Nat.le_succ_of_le hle⟩
    have hindexed₂ : Indexed env m₂.root content' σ := hroot ▸ hsplit
    have hnew : content' (m.root.next + 1) = right := by rw [← hcontent, Function.update_self]
    have hflush := hexcept.flush hf hindexed₂.ids (by rw [hnew]; rfl) rfl hok hclash
    refine ⟨content', hindexed₂.sameIndex hflush.2, hflush.1, ?_⟩
    -- neither half is empty or too long
    intro a' ha'
    obtain ⟨a, ha, hbare⟩ := hflush.2.exists_mem ha'
    rw [bare_id hbare]
    have hids := hindexed.ids
    rw [hpages] at hids
    have hother : ∀ a, a ∈ pre ∨ a ∈ post → content' a.id ≠ [] ∧ (content' a.id).length ≤ pageItems := by
      intro a ha
      have hold : a ∈ m.root.pages := by
        rw [hpages, List.mem_append, List.mem_cons]
        exact ha.imp_right .inr
      have hle := (hindexed.ids_le a hold).2
      rw [← hcontent, Function.update_of_ne (by omega), Function.update_of_ne (ids_ne hids ha)]
      exact hfull a hold (ids_ne hids ha)
    rw [hroot] at ha
    simp only [List.mem_append, List.mem_cons] at ha
    rcases ha with ha | rfl | rfl | ha
    · exact hother a (.inl ha)
    · change content' d.id ≠ [] ∧ (content' d.id).length ≤ pageItems
      have hle := (hindexed.ids_le d hmem).2
      rw [← hcontent, Function.update_of_ne (by omega), Function.update_self]
      exact ⟨List.ne_nil_of_length_pos (by omega), by omega⟩
    · change content' (m.root.next + 1) ≠ [] ∧ (content' (m.root.next + 1)).length ≤ pageItems
      rw [hnew]
      exact ⟨List.ne_nil_of_length_pos (by omega), by omega⟩
    · exact hother a (.inr ha)

/-- The page may be split, and room is made. -/
theorem settle_spec (hf : env.Faithful) (hindexed : Indexed env m.root content σ) (hbacked : Backed env m content)
    (hpages : m.root.pages = pre ++ d :: post) (hi : i = pre.length) {p : ResidentPage T}
    (hvalue : p.value = ⟨1, content d.id⟩) (hne : content d.id ≠ [])
    (hshort : (content d.id).length ≤ 2 * pageItems) (hfull : FullExcept m.root content d.id)
    (hok : (m.settle env i d.id p).2 = .ok ()) (hclash : (m.settle env i d.id p).1.files.clash = false) :
    ∃ content', Holds env (m.settle env i d.id p).1 content' σ := by
  have hitems : p.value.items = content d.id := by rw [hvalue]
  have hroom : ∀ {m : PagedMap T} {content : Nat → List (Item T)}, Holds env m content σ →
      (m.makeRoom env 0 d.id).1.files.clash = false → Holds env (m.makeRoom env 0 d.id).1 content σ := by
    intro m content h hclash
    have hroom := makeRoom_spec hf 0 d.id h.backed h.indexed.ids hclash
    exact h.of_backed hroom.1 hroom.2.index
  unfold PagedMap.settle at hok hclash ⊢
  rw [hitems] at hok hclash ⊢
  by_cases hlarge : pageItems < (content d.id).length ∨ env.limit / 2 < p.bytes ∧ 1 < (content d.id).length
  · rw [if_pos hlarge] at hok hclash ⊢
    have hlong : 1 < (content d.id).length := by
      rcases hlarge with hlarge | hlarge
      · exact lt_trans (by decide) hlarge
      · exact hlarge.2
    have hsplit := split_spec hf hindexed hbacked hpages hi hvalue hlong hshort hfull
    revert hsplit hok hclash
    rcases m.split env i d.id p with ⟨m', p', err | ⟨⟨⟩⟩⟩
    · intro hok
      cases hok
    · intro hok hclash hsplit
      dsimp only at hok hclash hsplit ⊢
      split at hok
      · cases hok
      · rename_i hfits
        rw [if_neg hfits] at hclash ⊢
        obtain ⟨content', h⟩ := hsplit rfl ((makeRoom_grows _ 0 d.id m').clash hclash)
        exact ⟨content', hroom h hclash⟩
  · rw [if_neg hlarge] at hok hclash ⊢
    have h : Holds env m content σ := by
      refine ⟨hindexed, hbacked, ?_⟩
      intro a ha
      by_cases hid : a.id = d.id
      · rw [hid]
        exact ⟨hne, not_lt.1 fun hlt => hlarge (.inl hlt)⟩
      · exact hfull a ha hid
    dsimp only at hok hclash ⊢
    split at hok
    · cases hok
    · rename_i hfits
      rw [if_neg hfits] at hclash ⊢
      exact ⟨content, hroom h hclash⟩

/-! ## Set -/

theorem Located.entries (hlocated : Located root content key i d pre post) (h : Indexed env root content σ) :
    σ.entries = (pre.flatMap fun d => content d.id) ++ content d.id ++ post.flatMap fun d => content d.id := by
  rw [← h.entries, hlocated.pages, List.flatMap_append, List.flatMap_cons, List.append_assoc]

theorem Located.set_entries (hlocated : Located root content key i d pre post) (h : Indexed env root content σ)
    (value : T) : (σ.set key value).entries = (pre.flatMap fun d => content d.id) ++
      OrderedMap.insertEntry key value (content d.id) ++ post.flatMap fun d => content d.id := by
  change OrderedMap.insertEntry key value σ.entries = _
  rw [hlocated.entries h, List.append_assoc, OrderedMap.insertEntry_append_left hlocated.before,
    OrderedMap.insertEntry_append_right hlocated.after, List.append_assoc]

/-- The count goes up by one for a new key. -/
theorem Located.set_len (hlocated : Located root content key i d pre post) (h : Indexed env root content σ)
    (value : T) :
    (if PagedMap.hasItem (content d.id) key then root.count else root.count + 1) = (σ.set key value).len := by
  have hhas := hasItem_eq (h.ordered hlocated.mem) key
  simp only [← hlocated.mem_entries h, ← OrderedMap.get_eq_some] at hhas
  rw [h.count]
  split
  · rename_i hold
    obtain ⟨old, hget⟩ := hhas.1 hold
    rw [OrderedMap.len_set_old hget]
  · rename_i hnew
    rw [OrderedMap.len_set_new]
    rw [Option.eq_none_iff_forall_ne_some]
    exact fun old hget => hnew (hhas.2 ⟨old, hget⟩)

theorem length_insertEntry_le (items : List (Item T)) (key : String) (value : T) :
    (OrderedMap.insertEntry key value items).length ≤ items.length + 1 ∧
      OrderedMap.insertEntry key value items ≠ [] := by
  induction items with
  | nil => simp [OrderedMap.insertEntry]
  | cons e rest ih =>
      simp only [OrderedMap.insertEntry]
      split_ifs
      · simp
      · simp
      · simpa using ih.1

/-- The page of the key is there, with its items. -/
theorem setLoaded_spec (hf : env.Faithful) (hlocated : Located m.root content key i d pre post)
    (hindexed : Indexed env m.root content σ) (hbacked : BackedExcept env m content d.id)
    (hfull : FullExcept m.root content d.id) (hshort : (content d.id).length ≤ pageItems) (hkey : key ≠ "")
    {p : ResidentPage T} (hvalue : p.value = ⟨1, content d.id⟩) {m₁ : PagedMap T} {page : ResidentPage T}
    (hm₁ : m₁ = { m with root := { m.root with
      count := if PagedMap.hasItem p.value.items key then m.root.count else m.root.count + 1 } })
    (hpage : page = { p with value := { p.value with items := PagedMap.setItem p.value.items key value } })
    (hok : ((m₁.update env i d.id page).settle env i d.id (m₁.updated env page)).2 = .ok ())
    (hclash : ((m₁.update env i d.id page).settle env i d.id (m₁.updated env page)).1.files.clash = false) :
    ∃ content', Holds env ((m₁.update env i d.id page).settle env i d.id (m₁.updated env page)).1 content'
      (σ.set key value) := by
  have hordered := hindexed.ordered hlocated.mem
  have hitems : page.value = ⟨1, OrderedMap.insertEntry key value (content d.id)⟩ := by
    rw [hpage, hvalue, setItem_eq hordered]
  obtain ⟨hlength, hne⟩ := length_insertEntry_le (content d.id) key value
  have hkeys : ∀ e ∈ OrderedMap.insertEntry key value (content d.id), e.1 ≠ "" := by
    intro e he
    rcases OrderedMap.mem_of_mem_insertEntry he with rfl | he
    · exact hkey
    · exact (hindexed.described d hlocated.mem).keys e he
  have hreplaced := hindexed.replace hlocated.pages hkeys (hlocated.set_entries hindexed value)
  have hpages₁ : m₁.root.pages = pre ++ d :: post := by rw [hm₁]; exact hlocated.pages
  have hupdated := BackedExcept.update (m := m₁) (by rw [hm₁]; exact ⟨hbacked.stored, hbacked.cached⟩) hpages₁
    hlocated.index (by rw [hm₁]; exact (hindexed.ids_le d hlocated.mem).2) hitems
  have hpages₂ := update_pages env hpages₁ hlocated.index d.id page
  rw [hitems] at hpages₂
  have hroot : (m₁.update env i d.id page).root = { m.root with
      count := (σ.set key value).len
      pages := pre ++ d.summary env (OrderedMap.insertEntry key value (content d.id)) :: post } := by
    have hpages : (m₁.update env i d.id page).root = { m₁.root with
        pages := pre ++ d.summary env (OrderedMap.insertEntry key value (content d.id)) :: post } := by
      rw [← hpages₂]
      rfl
    rw [hpages, hm₁, hvalue, ← hlocated.set_len hindexed value]
  rw [← hroot] at hreplaced
  have hself : Function.update content d.id (OrderedMap.insertEntry key value (content d.id)) d.id =
      OrderedMap.insertEntry key value (content d.id) := Function.update_self _ _ _
  refine settle_spec (d := d.summary env (OrderedMap.insertEntry key value (content d.id))) hf hreplaced hupdated
    hpages₂ hlocated.index ?_ ?_ ?_ ?_ hok hclash
  · change page.value = ⟨1, Function.update content d.id _ d.id⟩
    rw [hself, hitems]
  · change Function.update content d.id _ d.id ≠ []
    rw [hself]
    exact hne
  · change (Function.update content d.id _ d.id).length ≤ _
    rw [hself]
    have : pageItems = 128 := rfl
    omega
  · intro a ha hid
    rw [hpages₂, List.mem_append, List.mem_cons] at ha
    have hid : a.id ≠ d.id := hid
    rw [Function.update_of_ne hid]
    refine hfull a ?_ hid
    rw [hlocated.pages, List.mem_append, List.mem_cons]
    rcases ha with ha | rfl | ha
    · exact .inl ha
    · exact absurd rfl hid
    · exact .inr (.inr ha)

theorem settle_grows (m : PagedMap T) (i id : Nat) (p : ResidentPage T) :
    m.files.Grows (m.settle env i id p).1.files := by
  have hsplit : m.files.Grows (m.split env i id p).1.files := by
    unfold PagedMap.split
    simp only
    split
    · exact .refl _
    · refine Files.Grows.trans ?_ (flush_grows _ _ _ _)
      exact .refl _
  unfold PagedMap.settle
  split
  · rename_i heq
    split at heq
    · rw [heq] at hsplit
      exact hsplit
    · cases heq
  · rename_i m' p' heq
    have hgrows : m.files.Grows m'.files := by
      split at heq
      · rw [heq] at hsplit
        exact hsplit
      · cases heq
        exact .refl _
    split
    · exact hgrows
    · exact hgrows.trans (makeRoom_grows _ 0 id m')

/-- The first page of an empty map. -/
theorem firstPage_spec (h : Holds env m content σ) (hpages : m.root.pages = []) (hnext : m.root.next + 1 < 2 ^ 64)
    (key : String) :
    Located m.firstPage.root (Function.update content (m.root.next + 1) []) key 0 { id := m.root.next + 1 } [] [] ∧
      Indexed env m.firstPage.root (Function.update content (m.root.next + 1) []) σ ∧
      BackedExcept env m.firstPage (Function.update content (m.root.next + 1) []) (m.root.next + 1) ∧
      m.firstPage.cache.lookup (m.root.next + 1) = some { value := ⟨1, []⟩ } := by
  have hid : (m.root.next + 1) % 2 ^ 64 = m.root.next + 1 := Nat.mod_eq_of_lt hnext
  have hentries := h.eq_empty hpages
  unfold PagedMap.firstPage
  simp only [hid]
  refine ⟨⟨rfl, rfl, by simp, by simp⟩, ⟨?_, ?_, ?_, ?_, h.indexed.count, h.indexed.version⟩, ⟨?_, ?_⟩, ?_⟩
  · intro d hd
    obtain rfl := List.mem_singleton.1 hd
    rw [Function.update_self]
    refine ⟨?_, nofun⟩
    unfold PageDescriptor.summary oldestOf
    cases env.oldest <;> rfl
  · simp [hentries]
  · exact List.nodup_singleton _
  · intro d hd
    obtain rfl := List.mem_singleton.1 hd
    exact ⟨Nat.succ_pos _, Nat.le_refl _⟩
  · intro d hd hne
    obtain rfl := List.mem_singleton.1 hd
    exact absurd rfl hne
  · intro id p hp
    dsimp only at hp ⊢
    by_cases hne : id = m.root.next + 1
    · rw [hne, AList.lookup_insert, Option.some.injEq] at hp
      rw [← hp, hne, Function.update_self]
      exact ⟨rfl, Nat.le_refl _⟩
    · rw [AList.lookup_insert_ne hne] at hp
      rw [Function.update_of_ne hne]
      have hcached := h.backed.cached id p hp
      exact ⟨hcached.1, Nat.le_succ_of_le hcached.2⟩
  · exact AList.lookup_insert _

theorem index_single {d : PageDescriptor} (hpages : m.root.pages = [d]) (key : String) :
    m.index key = 0 := by
  unfold PagedMap.index search
  rw [hpages]
  by_cases hle : key ≤ d.last
  · simp [searchBetween, hle]
  · simp [searchBetween, hle]

/-- `Set` that returns nil puts the value. -/
theorem set_spec (hf : env.Faithful) (h : Holds env m content σ) (hnext : m.root.next + 1 < 2 ^ 64)
    (hok : (m.set env key value).2 = .ok ()) (hclash : (m.set env key value).1.files.clash = false) :
    ∃ content', Holds env (m.set env key value).1 content' (σ.set key value) := by
  unfold PagedMap.set at hok hclash ⊢
  by_cases hkey : key = "" ∨ 1024 < key.utf8ByteSize
  · rw [if_pos hkey] at hok
    cases hok
  · rw [if_neg hkey] at hok hclash ⊢
    rw [not_or] at hkey
    by_cases hpages : m.root.pages = []
    · obtain ⟨hlocated, hindexed, hbacked, hlookup⟩ := firstPage_spec h hpages hnext key
      simp only [if_pos hpages] at hok hclash ⊢
      rw [index_single hlocated.pages] at hok hclash ⊢
      rw [hlocated.getElem?] at hok hclash ⊢
      -- the first page is resident already, nothing is read
      have hload : m.firstPage.load env 0 =
          ({ m.firstPage with
              clock := m.firstPage.clock + 1
              cache := m.firstPage.cache.insert (m.root.next + 1) ⟨⟨1, []⟩, false, m.firstPage.clock + 1, 0⟩ },
            .ok ⟨⟨1, []⟩, false, m.firstPage.clock + 1, 0⟩) := by
        unfold PagedMap.load
        rw [hlocated.getElem?]
        dsimp only
        rw [hlookup]
      rw [hload] at hok hclash ⊢
      dsimp only at hok hclash ⊢
      have hself : Function.update content (m.root.next + 1) [] (m.root.next + 1) = [] :=
        Function.update_self _ _ _
      have hsingle : m.firstPage.root.pages = [{ id := m.root.next + 1 }] := hlocated.pages
      have honly : ∀ a ∈ m.firstPage.root.pages, a.id = m.root.next + 1 := by
        intro a ha
        rw [hsingle] at ha
        rw [List.mem_singleton.1 ha]
      refine setLoaded_spec (m := { m.firstPage with
          clock := m.firstPage.clock + 1
          cache := m.firstPage.cache.insert (m.root.next + 1) ⟨⟨1, []⟩, false, m.firstPage.clock + 1, 0⟩ })
        (d := { id := m.root.next + 1 }) (p := ⟨⟨1, []⟩, false, m.firstPage.clock + 1, 0⟩) hf
        ⟨hlocated.pages, hlocated.index, hlocated.before, hlocated.after⟩ ⟨hindexed.described, hindexed.entries,
          hindexed.ids, hindexed.ids_le, hindexed.count, hindexed.version⟩ ⟨?_, ?_⟩ ?_ ?_ hkey.1 ?_ rfl rfl hok hclash
      · exact fun a ha hne => absurd (honly a ha) hne
      · intro id p hp
        dsimp only at hp ⊢
        by_cases hne : id = m.root.next + 1
        · rw [hne, AList.lookup_insert, Option.some.injEq] at hp
          rw [← hp, hne, hself]
          exact ⟨rfl, (hindexed.ids_le _ hlocated.mem).2⟩
        · rw [AList.lookup_insert_ne hne] at hp
          exact hbacked.cached id p hp
      · exact fun a ha hne => absurd (honly a ha) hne
      · rw [hself]
        exact Nat.zero_le _
      · rw [hself]
    · simp only [if_neg hpages] at hok hclash ⊢
      obtain ⟨d, pre, post, hlocated⟩ := h.located hpages key
      rw [hlocated.getElem?] at hok hclash ⊢
      dsimp only at hok hclash ⊢
      have hload := h.load hf hlocated.getElem?
      revert hload hok hclash
      rcases m.load env (m.index key) with ⟨m', err | p⟩
      · intro _ hok
        cases hok
      · intro hclash hok hload
        dsimp only at hload hok hclash ⊢
        -- what comes after the load only adds objects, so no bodies clashed in the load either
        have hloaded := (settle_grows _ _ _ _).clash hclash
        obtain ⟨huntouched, hpage⟩ := hload hloaded
        obtain ⟨d', pre', post', hlocated', hbare⟩ := hlocated.sameIndex huntouched.index
        rw [← bare_id hbare] at hok hclash hpage ⊢
        exact setLoaded_spec hf hlocated' huntouched.holds.indexed (huntouched.holds.backed.except d'.id)
          (fun a ha _ => huntouched.holds.full a ha) (huntouched.holds.full d' hlocated'.mem).2 hkey.1
          (hpage p rfl).2 rfl rfl hok hclash

/-! ## Delete -/

theorem delete_eq_self (h : σ.get key = none) : σ.delete key = σ := by
  have hentries : (σ.delete key).entries = σ.entries := by
    refine List.filter_eq_self.2 ?_
    intro e he
    have hne : e.1 ≠ key := by
      rintro rfl
      rw [OrderedMap.get_eq_some.2 he] at h
      cases h
    simpa using hne
  obtain ⟨entries, hsorted⟩ := σ
  simp only [OrderedMap.delete, OrderedMap.mk.injEq] at hentries ⊢
  exact hentries

theorem Located.delete_entries (hlocated : Located root content key i d pre post) (h : Indexed env root content σ) :
    (σ.delete key).entries = (pre.flatMap fun d => content d.id) ++
      ((content d.id).filter fun e => e.1 ≠ key) ++ post.flatMap fun d => content d.id := by
  change (σ.entries.filter fun e => e.1 ≠ key) = _
  rw [hlocated.entries h, List.filter_append, List.filter_append, OrderedMap.filter_ne_of_lt hlocated.before,
    OrderedMap.filter_ne_of_gt hlocated.after]

theorem length_eraseItem (hordered : Ordered items) (hhas : PagedMap.hasItem items key = true) :
    (items.filter fun e => e.1 ≠ key).length + 1 = items.length := by
  have hlt : (search items fun e => decide (key ≤ e.1)) < items.length := by
    unfold PagedMap.hasItem at hhas
    by_contra hge
    rw [List.getElem?_eq_none (not_lt.1 hge)] at hhas
    cases hhas
  rw [← eraseItem_eq hordered hhas, List.length_eraseIdx_of_lt hlt]
  omega

theorem Located.delete_len (hlocated : Located root content key i d pre post) (h : Indexed env root content σ)
    (hhas : PagedMap.hasItem (content d.id) key = true) : root.count - 1 = (σ.delete key).len := by
  have hlength := length_eraseItem (h.ordered hlocated.mem) hhas
  rw [h.count, OrderedMap.len, OrderedMap.len, hlocated.entries h, hlocated.delete_entries h]
  simp only [List.length_append]
  omega

/-- A page without items is removed. -/
theorem Indexed.remove {σ' : OrderedMap String T} (h : Indexed env root content σ)
    (hpages : root.pages = pre ++ d :: post)
    (hentries : σ'.entries = (pre.flatMap fun d => content d.id) ++ post.flatMap fun d => content d.id) :
    Indexed env { root with count := σ'.len, pages := pre ++ post } content σ' := by
  have hids := h.ids
  have hold : ∀ a ∈ pre ++ post, a ∈ root.pages := by
    intro a ha
    rw [hpages, List.mem_append, List.mem_cons]
    exact (List.mem_append.1 ha).imp_right .inr
  refine ⟨fun a ha => h.described a (hold a ha), ?_, ?_, fun a ha => h.ids_le a (hold a ha), rfl, h.version⟩
  · rw [hentries, List.flatMap_append]
  · rw [hpages, List.map_append, List.map_cons, List.nodup_middle, List.nodup_cons, ← List.map_append] at hids
    exact hids.2

/-- A page that is there is emptied, or has one item less. -/
theorem deleteLoaded_spec (h : Holds env m content σ) (hlocated : Located m.root content key i d pre post)
    {p : ResidentPage T} (hvalue : p.value = ⟨1, content d.id⟩)
    (hhas : PagedMap.hasItem (content d.id) key = true) {m₁ : PagedMap T} {items : List (Item T)}
    (hm₁ : m₁ = { m with root := { m.root with count := m.root.count - 1 } })
    (hitems : items = (content d.id).filter fun e => e.1 ≠ key) :
    ∃ content', Holds env (if items = [] then
      PagedMap.account { m₁ with
        root := { m₁.root with pages := m₁.root.pages.eraseIdx i }, cache := m₁.cache.erase d.id }
      else PagedMap.account (m₁.update env i d.id { p with value := { p.value with items := items } }))
      content' (σ.delete key) := by
  have hids := h.indexed.ids
  rw [hlocated.pages] at hids
  have hentries := hlocated.delete_entries h.indexed
  rw [← hitems] at hentries
  have hlen := hlocated.delete_len h.indexed hhas
  have hother : ∀ a ∈ pre ++ post, a ∈ m.root.pages ∧ a.id ≠ d.id := by
    intro a ha
    refine ⟨?_, ids_ne hids (List.mem_append.1 ha)⟩
    rw [hlocated.pages, List.mem_append, List.mem_cons]
    exact (List.mem_append.1 ha).imp_right .inr
  by_cases hempty : items = []
  · rw [if_pos hempty]
    rw [hempty, List.append_nil] at hentries
    -- the page was emptied, and goes with its resident copy
    have hremoved := h.indexed.remove hlocated.pages hentries
    have hpages : m₁.root.pages.eraseIdx i = pre ++ post := by
      rw [hm₁, hlocated.pages, hlocated.index, List.eraseIdx_append_of_length_le (Nat.le_refl _), Nat.sub_self]
      rfl
    have hroot : ({ m₁.root with pages := m₁.root.pages.eraseIdx i } : PageRoot) =
        { m.root with count := (σ.delete key).len, pages := pre ++ post } := by
      rw [hpages, hm₁, hlen]
    refine ⟨content, ?_, ?_, ?_⟩
    · change Indexed env { m₁.root with pages := m₁.root.pages.eraseIdx i } content _
      rw [hroot]
      exact hremoved
    · refine ⟨?_, ?_⟩
      · intro a ha
        change a ∈ m₁.root.pages.eraseIdx i at ha
        rw [hpages] at ha
        obtain ⟨hold, hne⟩ := hother a ha
        change _ ∨ ∃ p, (m₁.cache.erase d.id).lookup a.id = some p ∧ _
        rw [AList.lookup_erase_ne hne, hm₁]
        exact h.backed.stored a hold
      · intro id p' hp'
        change (m₁.cache.erase d.id).lookup id = some p' at hp'
        have hne : id ≠ d.id := by
          rintro rfl
          rw [AList.lookup_erase] at hp'
          cases hp'
        rw [AList.lookup_erase_ne hne, hm₁] at hp'
        subst hm₁
        exact h.backed.cached id p' hp'
    · intro a ha
      change a ∈ m₁.root.pages.eraseIdx i at ha
      rw [hpages] at ha
      exact h.full a (hother a ha).1
  · rw [if_neg hempty]
    have hkeys : ∀ e ∈ items, e.1 ≠ "" := by
      intro e he
      rw [hitems] at he
      exact (h.indexed.described d hlocated.mem).keys e (List.mem_filter.1 he).1
    -- the page keeps its id, and is dirty until it is written
    have hreplaced := h.indexed.replace hlocated.pages hkeys hentries
    have hpages₁ : m₁.root.pages = pre ++ d :: post := by rw [hm₁]; exact hlocated.pages
    generalize hpage : ({ p with value := { p.value with items := items } } : ResidentPage T) = page
    have hpagevalue : page.value = ⟨1, items⟩ := by rw [← hpage, hvalue]
    have hupdated := BackedExcept.update (m := m₁)
      (by rw [hm₁]; exact ⟨(h.backed.except d.id).stored, h.backed.cached⟩) hpages₁ hlocated.index
      (by rw [hm₁]; exact (h.indexed.ids_le d hlocated.mem).2) hpagevalue
    have hpages₂ := update_pages env hpages₁ hlocated.index d.id page
    rw [hpagevalue] at hpages₂
    have hroot : (m₁.update env i d.id page).root =
        { m.root with count := (σ.delete key).len, pages := pre ++ d.summary env items :: post } := by
      have hpages : (m₁.update env i d.id page).root =
          { m₁.root with pages := pre ++ d.summary env items :: post } := by
        rw [← hpages₂]
        rfl
      rw [hpages, hm₁, hlen]
    refine ⟨Function.update content d.id items, hroot ▸ hreplaced, hupdated.account, ?_⟩
    intro a ha
    change a ∈ (m₁.update env i d.id page).root.pages at ha
    rw [hpages₂, List.mem_append, List.mem_cons] at ha
    by_cases hid : a.id = d.id
    · rw [hid, Function.update_self]
      have hlength := length_eraseItem (h.indexed.ordered hlocated.mem) hhas
      rw [← hitems] at hlength
      have hle := (h.full d hlocated.mem).2
      exact ⟨hempty, by omega⟩
    · rw [Function.update_of_ne hid]
      refine h.full a (hother a ?_).1
      rcases ha with ha | rfl | ha
      · exact List.mem_append_left _ ha
      · exact absurd rfl hid
      · exact List.mem_append_right _ ha

/-- `Delete` that returns nil removes the key; one that fails leaves the map as it was. -/
theorem delete_spec (hf : env.Faithful) (h : Holds env m content σ) (key : String)
    (hclash : (m.delete env key).1.files.clash = false) :
    ((m.delete env key).2 = .ok () → ∃ content', Holds env (m.delete env key).1 content' (σ.delete key)) ∧
      ((m.delete env key).2 ≠ .ok () → Holds env (m.delete env key).1 content σ) := by
  have hkeep : σ.get key = none → ∀ {m : PagedMap T}, Holds env m content σ →
      ∃ content', Holds env m content' (σ.delete key) := by
    intro hnone m hholds
    rw [delete_eq_self hnone]
    exact ⟨content, hholds⟩
  unfold PagedMap.delete at hclash ⊢
  by_cases hpages : m.root.pages = []
  · simp only [hpages, List.getElem?_nil]
    refine ⟨fun _ => hkeep ?_ h, fun hfail => absurd rfl hfail⟩
    rw [OrderedMap.get, h.eq_empty hpages]
    rfl
  · obtain ⟨d, pre, post, hlocated⟩ := h.located hpages key
    simp only [hlocated.getElem?] at hclash ⊢
    by_cases hout : key < d.first ∨ d.last < key
    · rw [if_pos hout]
      exact ⟨fun _ => hkeep (hlocated.eq_none h hout) h, fun hfail => absurd rfl hfail⟩
    · rw [if_neg hout] at hclash ⊢
      have hload := h.load hf hlocated.getElem?
      revert hload hclash
      rcases m.load env (m.index key) with ⟨m', err | p⟩
      · intro hclash hload
        refine ⟨?_, fun _ => (hload hclash).1.holds⟩
        intro hok
        cases hok
      · intro hclash hload
        dsimp only at hload hclash ⊢
        have hloaded : m'.files.clash = false := by
          repeat' split at hclash
          all_goals exact hclash
        obtain ⟨huntouched, hpage⟩ := hload hloaded
        have hvalue := (hpage p rfl).2
        have hitems : p.value.items = content d.id := by rw [hvalue]
        have hordered := h.indexed.ordered hlocated.mem
        -- the page holds all there is at the key
        by_cases hhas : PagedMap.hasItem p.value.items key = false
        · rw [if_pos hhas]
          refine ⟨fun _ => hkeep ?_ huntouched.holds, fun hfail => absurd rfl hfail⟩
          rw [Option.eq_none_iff_forall_ne_some]
          intro value hget
          rw [OrderedMap.get_eq_some, hlocated.mem_entries h.indexed] at hget
          rw [hitems, (hasItem_eq hordered key).2 ⟨value, hget⟩] at hhas
          cases hhas
        · rw [if_neg hhas]
          rw [Bool.not_eq_false, hitems] at hhas
          obtain ⟨d', pre', post', hlocated', hbare⟩ := hlocated.sameIndex huntouched.index
          have hid := bare_id hbare
          rw [← hid] at hvalue hhas
          have hdeleted := deleteLoaded_spec huntouched.holds hlocated' hvalue hhas rfl rfl
          rw [hitems, eraseItem_eq hordered (hid ▸ hhas)]
          rw [hid] at hdeleted
          revert hdeleted
          split
          · exact fun hdeleted => ⟨fun _ => hdeleted, fun hfail => absurd rfl hfail⟩
          · exact fun hdeleted => ⟨fun _ => hdeleted, fun hfail => absurd rfl hfail⟩

end MarketInfo.Checkpoint
