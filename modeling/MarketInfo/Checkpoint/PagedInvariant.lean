import MarketInfo.Checkpoint.Paged
import MarketInfo.Lib.OrderedMap

/-! # What a paged map keeps

Each page has the items that its descriptor describes, in the cache or in the store. Reading,
writing and eviction move pages between the two and leave the items alone.
-/

namespace MarketInfo.Checkpoint

variable {T : Type} {env : Paging T}

/-! ## Objects -/

/-- What a map relies on: the codec gives back what it was given, and a digest has 64 digits. -/
structure Paging.Faithful (env : Paging T) : Prop where
  typed : ∀ page raw, env.marshal page = .ok raw → env.unmarshal raw = .ok page
  digits : ∀ raw, (env.hash raw).length = 64 ∧ (env.hash raw).toList.all isHexDigit = true

/-- The object is in the store. -/
structure Files.Has (env : Paging T) (files : Files) (ref : Reference) (body : List UInt8) : Prop where
  path : objectPath ref = .ok ()
  object : files.objects ref.hash = some body
  bytes : (body.length : Int) = ref.bytes
  hash : env.hash body = ref.hash

/-- Objects stay, and so does a clash. -/
structure Files.Grows (files files' : Files) : Prop where
  objects : ∀ hash body, files.objects hash = some body → files'.objects hash = some body
  clash : files'.clash = false → files.clash = false

theorem Files.Grows.refl (files : Files) : files.Grows files := ⟨fun _ _ h => h, id⟩

theorem Files.Grows.trans {files files' files'' : Files} (h : files.Grows files') (h' : files'.Grows files'') :
    files.Grows files'' :=
  ⟨fun hash body hbody => h'.objects hash body (h.objects hash body hbody), fun hno => h.clash (h'.clash hno)⟩

theorem Files.Has.grows {files files' : Files} {ref : Reference} {body : List UInt8}
    (h : files.Has env ref body) (hgrows : files.Grows files') : files'.Has env ref body :=
  ⟨h.path, hgrows.objects _ _ h.object, h.bytes, h.hash⟩

theorem readObject_same (env : Paging T) (files : Files) (ref : Reference) :
    (files.readObject env ref).1.objects = files.objects ∧ (files.readObject env ref).1.clash = files.clash := by
  unfold Files.readObject
  repeat' split
  all_goals exact ⟨rfl, rfl⟩

theorem readObject_grows (env : Paging T) (files : Files) (ref : Reference) :
    files.Grows (files.readObject env ref).1 := by
  obtain ⟨hobjects, hclash⟩ := readObject_same env files ref
  refine ⟨?_, ?_⟩
  · rw [hobjects]
    exact fun _ _ h => h
  · rw [hclash]
    exact id

theorem readObject_eq_ok {files : Files} {ref : Reference} {body : List UInt8}
    (h : (files.readObject env ref).2 = .ok body) : files.Has env ref body := by
  unfold Files.readObject at h
  split at h
  · cases h
  · rename_i hpath
    simp only at h
    split at h
    · cases h
    · cases h
    · rename_i hobject
      split at h
      · cases h
      · rename_i hmatch
        cases h
        rw [not_or, not_not, not_not] at hmatch
        exact ⟨hpath, hobject, hmatch.1, hmatch.2⟩

theorem putObject_grows (env : Paging T) (files : Files) (body : List UInt8) :
    files.Grows (files.putObject env body).1 := by
  unfold Files.putObject
  simp only
  split
  · exact ⟨fun _ _ h => h, id⟩
  · split
    · exact ⟨fun _ _ h => h, id⟩
    · split
      · rename_i old _
        have hgrows := readObject_grows env
          ⟨files.objects, files.accesses + 1, files.clash || decide (old ≠ body)⟩ ⟨env.hash body, body.length⟩
        exact ⟨hgrows.objects, fun hclash => (Bool.or_eq_false_iff.1 (hgrows.clash hclash)).1⟩
      · rename_i hnew
        refine ⟨?_, id⟩
        intro hash body' h
        dsimp only
        rw [Function.update_of_ne]
        · exact h
        · rintro rfl
          rw [hnew] at h
          cases h

theorem putObject_eq_ok (hf : env.Faithful) {files : Files} {body : List UInt8} {ref : Reference}
    (h : (files.putObject env body).2 = .ok ref) (hclash : (files.putObject env body).1.clash = false) :
    (files.putObject env body).1.Has env ref body := by
  unfold Files.putObject at h hclash ⊢
  simp only at h hclash ⊢
  split at h
  · cases h
  · rename_i hfault
    split at h
    · cases h
    · rename_i hsmall
      simp only [hfault, if_neg hsmall] at hclash ⊢
      split at h
      · -- an object of the digest is there, and it is this one
        rename_i old hobject
        simp only [hobject] at hclash ⊢
        have hsame := readObject_same env
          ⟨files.objects, files.accesses + 1, files.clash || decide (old ≠ body)⟩ ⟨env.hash body, body.length⟩
        rw [hsame.2, Bool.or_eq_false_iff] at hclash
        obtain rfl : old = body := by simpa using hclash.2
        cases hread : ((⟨files.objects, files.accesses + 1, files.clash || decide (old ≠ old)⟩ :
            Files).readObject env ⟨env.hash old, old.length⟩).2 with
        | error err =>
            rw [hread] at h
            cases h
        | ok read =>
            rw [hread] at h
            cases h
            have hhas := readObject_eq_ok hread
            refine ⟨hhas.path, ?_, rfl, rfl⟩
            rw [hsame.1]
            exact hobject
      · cases h
        refine ⟨?_, Function.update_self _ _ _, rfl, rfl⟩
        obtain ⟨hlength, hdigits⟩ := hf.digits body
        unfold objectPath
        rw [if_neg, if_pos hdigits]
        simp only [hlength, ne_eq, not_true_eq_false, false_or, not_or, not_lt]
        exact ⟨by omega, not_lt.1 hsmall⟩

/-! ## Pages -/

/-- The items are an object of the store. -/
def Stored (env : Paging T) (files : Files) (ref : Reference) (items : List (Item T)) : Prop :=
  ∃ raw, files.Has env ref raw ∧ env.unmarshal raw = .ok ⟨1, items⟩

theorem Stored.grows {files files' : Files} {ref : Reference} {items : List (Item T)}
    (h : Stored env files ref items) (hgrows : files.Grows files') : Stored env files' ref items := by
  obtain ⟨raw, hhas, hraw⟩ := h
  exact ⟨raw, hhas.grows hgrows, hraw⟩

/-- What the descriptor says is so. -/
structure Described (env : Paging T) (d : PageDescriptor) (items : List (Item T)) : Prop where
  summary : d.summary env items = d
  keys : ∀ e ∈ items, e.1 ≠ ""

/-- The pages of the root have these items, which are those of the map. -/
structure Indexed (env : Paging T) (root : PageRoot) (content : Nat → List (Item T)) (σ : OrderedMap String T) :
    Prop where
  described : ∀ d ∈ root.pages, Described env d (content d.id)
  entries : (root.pages.flatMap fun d => content d.id) = σ.entries
  ids : (root.pages.map PageDescriptor.id).Nodup
  ids_le : ∀ d ∈ root.pages, 0 < d.id ∧ d.id ≤ root.next
  count : root.count = σ.len
  version : root.version = 1

/-- What is resident has the items of its page; what is not in the store is resident and dirty. -/
structure Backed (env : Paging T) (m : PagedMap T) (content : Nat → List (Item T)) : Prop where
  stored : ∀ d ∈ m.root.pages, Stored env m.files d.object (content d.id) ∨
    ∃ p, m.cache.lookup d.id = some p ∧ p.dirty = true
  cached : ∀ id p, m.cache.lookup id = some p → p.value = ⟨1, content id⟩ ∧ id ≤ m.root.next

/-- The paged map holds the map. -/
structure Holds (env : Paging T) (m : PagedMap T) (content : Nat → List (Item T)) (σ : OrderedMap String T) :
    Prop where
  indexed : Indexed env m.root content σ
  backed : Backed env m content
  full : ∀ d ∈ m.root.pages, content d.id ≠ [] ∧ (content d.id).length ≤ pageItems

/-! ## The same pages, stored elsewhere -/

def PageDescriptor.bare (d : PageDescriptor) : PageDescriptor := { d with object := {} }

/-- Nothing but the objects of the pages differs. -/
structure SameIndex (root root' : PageRoot) : Prop where
  pages : root'.pages.map PageDescriptor.bare = root.pages.map PageDescriptor.bare
  next : root'.next = root.next
  count : root'.count = root.count
  version : root'.version = root.version

theorem SameIndex.refl (root : PageRoot) : SameIndex root root := ⟨rfl, rfl, rfl, rfl⟩

theorem SameIndex.trans {root root' root'' : PageRoot} (h : SameIndex root root') (h' : SameIndex root' root'') :
    SameIndex root root'' :=
  ⟨h'.pages.trans h.pages, h'.next.trans h.next, h'.count.trans h.count, h'.version.trans h.version⟩

theorem Described.of_bare {d d' : PageDescriptor} {items : List (Item T)} (h : Described env d items)
    (hbare : d'.bare = d.bare) : Described env d' items := by
  refine ⟨?_, h.keys⟩
  have hsummary := h.summary
  cases d
  cases d'
  simp only [PageDescriptor.bare, PageDescriptor.mk.injEq, PageDescriptor.summary] at hbare hsummary ⊢
  grind

/-- A function of the descriptors that does not look at their objects. -/
theorem SameIndex.map_eq {β : Type*} {root root' : PageRoot} (h : SameIndex root root') (f : PageDescriptor → β)
    (hf : ∀ d, f d.bare = f d) : root'.pages.map f = root.pages.map f := by
  have hmap : ∀ pages : List PageDescriptor, pages.map f = (pages.map PageDescriptor.bare).map f := by
    intro pages
    rw [List.map_map]
    exact List.map_congr_left fun d _ => (hf d).symm
  rw [hmap, hmap root.pages, h.pages]

theorem SameIndex.exists_mem {root root' : PageRoot} (h : SameIndex root root') {d' : PageDescriptor}
    (hd : d' ∈ root'.pages) : ∃ d ∈ root.pages, d'.bare = d.bare := by
  have hmem : d'.bare ∈ root'.pages.map PageDescriptor.bare := List.mem_map_of_mem hd
  rw [h.pages] at hmem
  obtain ⟨d, hmem, heq⟩ := List.mem_map.1 hmem
  exact ⟨d, hmem, heq.symm⟩

theorem bare_id {d d' : PageDescriptor} (h : d'.bare = d.bare) : d'.id = d.id :=
  (congrArg PageDescriptor.id h : d'.bare.id = d.bare.id)

theorem Indexed.sameIndex {root root' : PageRoot} {content : Nat → List (Item T)} {σ : OrderedMap String T}
    (h : Indexed env root content σ) (hsame : SameIndex root root') : Indexed env root' content σ where
  described := by
    intro d' hd'
    obtain ⟨d, hd, hbare⟩ := hsame.exists_mem hd'
    rw [bare_id hbare]
    exact (h.described d hd).of_bare hbare
  entries := by
    rw [← h.entries, List.flatMap_def, List.flatMap_def, hsame.map_eq (fun d => content d.id) fun _ => rfl]
  ids := by
    rw [hsame.map_eq PageDescriptor.id fun _ => rfl]
    exact h.ids
  ids_le := by
    intro d' hd'
    obtain ⟨d, hd, hbare⟩ := hsame.exists_mem hd'
    rw [bare_id hbare, hsame.next]
    exact h.ids_le d hd
  count := hsame.count.trans h.count
  version := hsame.version.trans h.version

/-! ## Writing a page -/

variable {m : PagedMap T} {content : Nat → List (Item T)} {id : Nat} {p : ResidentPage T}

theorem setObject_spec {ref : Reference} {pages pages' : List PageDescriptor}
    (hids : (pages.map PageDescriptor.id).Nodup) (h : PagedMap.setObject id ref pages = some pages') :
    pages'.map PageDescriptor.bare = pages.map PageDescriptor.bare ∧
      (∀ d ∈ pages', d.id ≠ id → d ∈ pages) ∧ ∀ d ∈ pages', d.id = id → d.object = ref := by
  induction pages generalizing pages' with
  | nil => cases h
  | cons d rest ih =>
      rw [List.map_cons, List.nodup_cons] at hids
      unfold PagedMap.setObject at h
      split at h
      · rename_i hid
        cases h
        refine ⟨rfl, ?_, ?_⟩
        · intro e he hne
          rcases List.mem_cons.1 he with rfl | he
          · exact absurd hid hne
          · exact List.mem_cons_of_mem _ he
        · intro e he heq
          rcases List.mem_cons.1 he with rfl | he
          · rfl
          · -- no other page has the id
            exact absurd (List.mem_map_of_mem he) (heq ▸ hid ▸ hids.1)
      · rename_i hid
        obtain ⟨rest', hrest, rfl⟩ := Option.map_eq_some_iff.1 h
        obtain ⟨hbare, hothers, hself⟩ := ih hids.2 hrest
        refine ⟨by rw [List.map_cons, List.map_cons, hbare], ?_, ?_⟩
        · intro e he hne
          rcases List.mem_cons.1 he with rfl | he
          · exact List.mem_cons_self
          · exact List.mem_cons_of_mem _ (hothers e he hne)
        · intro e he heq
          rcases List.mem_cons.1 he with rfl | he
          · exact absurd heq hid
          · exact hself e he heq

/-- What `flush` may change, and what it achieves. -/
structure Flushed (env : Paging T) (m : PagedMap T) (id : Nat) (p : ResidentPage T) (result : Except Failure Unit)
    (m' : PagedMap T) : Prop where
  index : SameIndex m.root m'.root
  cache : m'.cache = m.cache
  files : m.files.Grows m'.files
  others : ∀ d ∈ m'.root.pages, d.id ≠ id → d ∈ m.root.pages
  failed : result ≠ .ok () → m'.root = m.root
  clean : p.dirty = false → m' = m
  written : result = .ok () → p.dirty = true → m'.files.clash = false → ∀ items, p.value = ⟨1, items⟩ →
    ∀ d ∈ m'.root.pages, d.id = id → Stored env m'.files d.object items

theorem flush_spec (hf : env.Faithful) (hids : (m.root.pages.map PageDescriptor.id).Nodup) (id : Nat)
    (p : ResidentPage T) : Flushed env m id p (m.flush env id p).2 (m.flush env id p).1 := by
  unfold PagedMap.flush
  split
  · rename_i hclean
    exact ⟨.refl _, rfl, .refl _, fun _ h _ => h, fun _ => rfl, fun _ => rfl,
      fun _ hdirty => absurd hdirty (by simp [hclean])⟩
  · rename_i hdirty
    split
    · exact ⟨.refl _, rfl, .refl _, fun _ h _ => h, fun _ => rfl, fun h => absurd h hdirty, nofun⟩
    · rename_i raw hraw
      have hgrows := putObject_grows env m.files raw
      have hhas := fun ref => @putObject_eq_ok T env hf m.files raw ref
      rcases hput : m.files.putObject env raw with ⟨files, err | ref⟩ <;> rw [hput] at hgrows hhas
      · exact ⟨.refl _, rfl, hgrows, fun _ h _ => h, fun _ => rfl, fun h => absurd h hdirty, nofun⟩
      · dsimp only
        cases hset : PagedMap.setObject id ref m.root.pages with
        | none => exact ⟨.refl _, rfl, hgrows, fun _ h _ => h, fun _ => rfl, fun h => absurd h hdirty, nofun⟩
        | some pages =>
            obtain ⟨hbare, hothers, hself⟩ := setObject_spec hids hset
            refine ⟨⟨hbare, rfl, rfl, rfl⟩, rfl, hgrows, hothers, fun h => absurd rfl h,
              fun h => absurd h hdirty, ?_⟩
            intro _ _ hclash items hvalue d hd hid
            rw [hself d hd hid]
            rw [hvalue] at hraw
            exact ⟨raw, hhas ref rfl hclash, hf.typed _ _ hraw⟩

/-- A page that is resident is written, or fails to be. -/
theorem Backed.flush (hf : env.Faithful) (h : Backed env m content)
    (hids : (m.root.pages.map PageDescriptor.id).Nodup) (hp : m.cache.lookup id = some p)
    (hclash : (m.flush env id p).1.files.clash = false) :
    Backed env (m.flush env id p).1 content ∧
      ((m.flush env id p).2 = .ok () → ∀ d ∈ (m.flush env id p).1.root.pages, d.id = id →
        Stored env (m.flush env id p).1.files d.object (content id)) := by
  have hflush := flush_spec hf hids id p
  revert hflush hclash
  rcases m.flush env id p with ⟨m', result⟩
  intro hclash hflush
  dsimp only at hflush hclash ⊢
  have hvalue := (h.cached id p hp).1
  refine ⟨⟨?_, ?_⟩, ?_⟩
  · intro d hd
    rw [hflush.cache]
    by_cases hold : d ∈ m.root.pages
    · exact (h.stored d hold).imp_left fun hs => hs.grows hflush.files
    · -- the descriptor is the one that was rewritten
      have hid : d.id = id := by
        by_contra hne
        exact hold (hflush.others d hd hne)
      by_cases hok : result = .ok ()
      · cases hdirty : p.dirty with
        | false => exact absurd (hflush.clean hdirty ▸ hd) hold
        | true =>
            rw [hid]
            exact .inl (hflush.written hok hdirty hclash _ hvalue d hd hid)
      · rw [hflush.failed hok] at hd
        exact absurd hd hold
  · intro id' p' hp'
    rw [hflush.cache] at hp'
    rw [hflush.index.next]
    exact h.cached id' p' hp'
  · intro hok d hd hid
    cases hdirty : p.dirty with
    | true => exact hflush.written hok hdirty hclash _ hvalue d hd hid
    | false =>
        obtain rfl := hflush.clean hdirty
        rcases h.stored d hd with hs | ⟨p', hp', hdirty'⟩
        · rw [hid] at hs
          exact hs
        · rw [hid, hp, Option.some.injEq] at hp'
          rw [hp', hdirty'] at hdirty
          cases hdirty

/-! ## Making room -/

/-- Pages were written and left the cache. -/
structure Shrunk (m m' : PagedMap T) : Prop where
  index : SameIndex m.root m'.root
  files : m.files.Grows m'.files
  cache : ∀ id p, m'.cache.lookup id = some p → m.cache.lookup id = some p

theorem shrunk_account (m : PagedMap T) : Shrunk m m.account := ⟨.refl _, .refl _, fun _ _ h => h⟩

theorem Shrunk.trans {m' m'' : PagedMap T} (h : Shrunk m m') (h' : Shrunk m' m'') : Shrunk m m'' :=
  ⟨h.index.trans h'.index, h.files.trans h'.files, fun id p hp => h.cache id p (h'.cache id p hp)⟩

theorem Flushed.shrunk {m' : PagedMap T} {result : Except Failure Unit} (h : Flushed env m id p result m') :
    Shrunk m m' := by
  refine ⟨h.index, h.files, ?_⟩
  rw [h.cache]
  exact fun _ _ hp => hp

theorem Backed.account (h : Backed env m content) : Backed env m.account content := ⟨h.stored, h.cached⟩

/-- A page that is in the store may leave the cache. -/
theorem Backed.erase (h : Backed env m content)
    (hstored : ∀ d ∈ m.root.pages, d.id = id → Stored env m.files d.object (content id)) :
    Backed env { m with cache := m.cache.erase id } content := by
  refine ⟨?_, ?_⟩
  · intro d hd
    by_cases hid : d.id = id
    · rw [hid]
      exact .inl (hstored d hd hid)
    · dsimp only
      rw [AList.lookup_erase_ne hid]
      exact h.stored d hd
  · intro id' p' hp'
    dsimp only at hp'
    by_cases hid : id' = id
    · rw [hid, AList.lookup_erase] at hp'
      cases hp'
    · rw [AList.lookup_erase_ne hid] at hp'
      exact h.cached id' p' hp'

theorem shrunk_erase (m : PagedMap T) (id : Nat) : Shrunk m { m with cache := m.cache.erase id } := by
  refine ⟨.refl _, .refl _, ?_⟩
  intro id' p' hp'
  dsimp only at hp'
  by_cases hid : id' = id
  · rw [hid, AList.lookup_erase] at hp'
    cases hp'
  · rw [AList.lookup_erase_ne hid] at hp'
    exact hp'

theorem SameIndex.nodup {root root' : PageRoot} (h : SameIndex root root')
    (hids : (root.pages.map PageDescriptor.id).Nodup) : (root'.pages.map PageDescriptor.id).Nodup := by
  rw [h.map_eq PageDescriptor.id fun _ => rfl]
  exact hids

theorem flush_grows (env : Paging T) (m : PagedMap T) (id : Nat) (p : ResidentPage T) :
    m.files.Grows (m.flush env id p).1.files := by
  unfold PagedMap.flush
  split
  · exact .refl _
  · split
    · exact .refl _
    · rename_i raw _
      have hgrows := putObject_grows env m.files raw
      rcases hput : m.files.putObject env raw with ⟨files, err | ref⟩ <;> rw [hput] at hgrows
      · exact hgrows
      · dsimp only
        split
        · exact hgrows
        · exact hgrows

theorem evict_grows (extra : Int) (victims : List (Nat × ResidentPage T)) (m : PagedMap T) :
    m.files.Grows (PagedMap.evict env extra victims m).1.files := by
  induction victims generalizing m with
  | nil => exact .refl _
  | cons e rest ih =>
      obtain ⟨id, p⟩ := e
      have hflush := flush_grows env m.account id p
      unfold PagedMap.evict
      split
      · exact .refl _
      · rcases hresult : m.account.flush env id p with ⟨m₁, err | ⟨⟨⟩⟩⟩ <;> rw [hresult] at hflush
        · exact hflush
        · exact hflush.trans (ih { m₁ with cache := m₁.cache.erase id })

theorem evict_spec (hf : env.Faithful) (extra : Int) (victims : List (Nat × ResidentPage T))
    (h : Backed env m content) (hids : (m.root.pages.map PageDescriptor.id).Nodup)
    (hvictims : ∀ e ∈ victims, m.cache.lookup e.1 = some e.2) (hnodup : (victims.map Prod.fst).Nodup)
    (hclash : (PagedMap.evict env extra victims m).1.files.clash = false) :
    Backed env (PagedMap.evict env extra victims m).1 content ∧ Shrunk m (PagedMap.evict env extra victims m).1 := by
  induction victims generalizing m with
  | nil => exact ⟨h.account, shrunk_account m⟩
  | cons e rest ih =>
      obtain ⟨id, p⟩ := e
      rw [List.map_cons, List.nodup_cons] at hnodup
      have hp : m.account.cache.lookup id = some p := hvictims _ List.mem_cons_self
      have hbacked := h.account.flush hf hids hp
      have hflush := flush_spec (m := m.account) hf hids id p
      unfold PagedMap.evict at hclash ⊢
      by_cases hroom : m.account.metrics.residentBytes + extra ≤ env.limit
      · rw [if_pos hroom]
        exact ⟨h.account, shrunk_account m⟩
      · rw [if_neg hroom] at hclash ⊢
        rcases hresult : m.account.flush env id p with ⟨m₁, err | ⟨⟨⟩⟩⟩ <;> rw [hresult] at hbacked hflush hclash
        · exact ⟨(hbacked hclash).1, (shrunk_account m).trans hflush.shrunk⟩
        · have hbacked := hbacked ((evict_grows extra rest { m₁ with cache := m₁.cache.erase id }).clash hclash)
          have hshrunk : Shrunk m { m₁ with cache := m₁.cache.erase id } :=
            ((shrunk_account m).trans hflush.shrunk).trans (shrunk_erase m₁ id)
          have hrest := ih (hbacked.1.erase (hbacked.2 rfl)) (hflush.index.nodup hids) ?_ hnodup.2 hclash
          · exact ⟨hrest.1, hshrunk.trans hrest.2⟩
          · intro e he
            have hne : e.1 ≠ id := by
              rintro rfl
              have hmem : e.1 ∈ rest.map Prod.fst := List.mem_map_of_mem he
              exact hnodup.1 hmem
            dsimp only
            rw [AList.lookup_erase_ne hne, hflush.cache]
            exact hvictims e (List.mem_cons_of_mem _ he)

theorem mem_residents {e : Nat × ResidentPage T} : e ∈ m.residents ↔ m.cache.lookup e.1 = some e.2 := by
  unfold PagedMap.residents
  rw [← Option.mem_def, AList.mem_lookup_iff, List.mem_map]
  constructor
  · rintro ⟨s, hs, rfl⟩
    exact hs
  · intro he
    exact ⟨⟨e.1, e.2⟩, he, rfl⟩

theorem nodup_residents (m : PagedMap T) : (m.residents.map Prod.fst).Nodup := by
  unfold PagedMap.residents
  rw [List.map_map]
  exact m.cache.nodupKeys

theorem makeRoom_grows (env : Paging T) (extra : Int) (pinned : Nat) (m : PagedMap T) :
    m.files.Grows (m.makeRoom env extra pinned).1.files := evict_grows extra _ m

theorem makeRoom_spec (hf : env.Faithful) (extra : Int) (pinned : Nat) (h : Backed env m content)
    (hids : (m.root.pages.map PageDescriptor.id).Nodup)
    (hclash : (m.makeRoom env extra pinned).1.files.clash = false) :
    Backed env (m.makeRoom env extra pinned).1 content ∧ Shrunk m (m.makeRoom env extra pinned).1 := by
  refine evict_spec hf extra _ h hids ?_ ?_ hclash
  · intro e he
    rw [Listing.mem_sortBy, List.mem_filter] at he
    exact mem_residents.1 he.1
  · rw [((Listing.sortBy_perm _ _).map Prod.fst).nodup_iff]
    exact ((List.filter_sublist).map Prod.fst).nodup (nodup_residents m)

/-! ## Loading a page -/

/-- A page that is resident is replaced by one of the same items. -/
theorem Backed.insert (h : Backed env m content) {p : ResidentPage T} (hvalue : p.value = ⟨1, content id⟩)
    (hle : id ≤ m.root.next)
    (hstored : ∀ d ∈ m.root.pages, d.id = id → p.dirty = true ∨ Stored env m.files d.object (content id)) :
    Backed env { m with cache := m.cache.insert id p } content := by
  refine ⟨?_, ?_⟩
  · intro d hd
    dsimp only
    by_cases hid : d.id = id
    · rw [hid, AList.lookup_insert]
      rcases hstored d hd hid with hdirty | hs
      · exact .inr ⟨p, rfl, hdirty⟩
      · exact .inl hs
    · rw [AList.lookup_insert_ne hid]
      exact h.stored d hd
  · intro id' p' hp'
    dsimp only at hp'
    by_cases hid : id' = id
    · rw [hid, AList.lookup_insert, Option.some.injEq] at hp'
      rw [← hp', hid]
      exact ⟨hvalue, hle⟩
    · rw [AList.lookup_insert_ne hid] at hp'
      exact h.cached id' p' hp'

theorem Backed.files (h : Backed env m content) {files : Files} (hgrows : m.files.Grows files) :
    Backed env { m with files := files } content :=
  ⟨fun d hd => (h.stored d hd).imp_left fun hs => hs.grows hgrows, h.cached⟩

/-- What `load` leaves behind. -/
structure Loaded (env : Paging T) (m m' : PagedMap T) (content : Nat → List (Item T)) (id : Nat)
    (result : Except Failure (ResidentPage T)) : Prop where
  backed : Backed env m' content
  index : SameIndex m.root m'.root
  files : m.files.Grows m'.files
  page : ∀ p, result = .ok p → m'.cache.lookup id = some p ∧ p.value = ⟨1, content id⟩

theorem load_grows (env : Paging T) (m : PagedMap T) (i : Nat) : m.files.Grows (m.load env i).1.files := by
  unfold PagedMap.load
  split
  · exact .refl _
  · rename_i d _
    dsimp only
    split
    · exact .refl _
    · have hread := readObject_grows env m.files d.object
      rcases hresult : m.files.readObject env d.object with ⟨files, err | raw⟩ <;> rw [hresult] at hread
      · exact hread
      · dsimp only at hread ⊢
        split
        · exact hread
        · rename_i value _
          split
          · exact hread
          · split
            · exact hread
            · have hroom := makeRoom_grows env (env.estimate (m.clock + 1) value) 0
                { m with clock := m.clock + 1, files := files }
              revert hroom
              rcases PagedMap.makeRoom env { m with clock := m.clock + 1, files := files }
                (env.estimate (m.clock + 1) value) 0 with ⟨m₁, err | ⟨⟨⟩⟩⟩
              · exact fun hroom => hread.trans hroom
              · exact fun hroom => hread.trans hroom

theorem load_spec (hf : env.Faithful) (h : Backed env m content)
    (hids : (m.root.pages.map PageDescriptor.id).Nodup) {i : Nat} {d : PageDescriptor}
    (hd : m.root.pages[i]? = some d) (hle : d.id ≤ m.root.next)
    (hclash : (m.load env i).1.files.clash = false) :
    Loaded env m (m.load env i).1 content d.id (m.load env i).2 := by
  have hmem : d ∈ m.root.pages := List.mem_of_getElem? hd
  unfold PagedMap.load at hclash ⊢
  rw [hd] at hclash ⊢
  dsimp only at hclash ⊢
  cases hlookup : m.cache.lookup d.id with
  | some p =>
      -- a resident page is only marked as used
      obtain ⟨hvalue, -⟩ := h.cached _ _ hlookup
      have hinsert := Backed.insert (m := { m with clock := m.clock + 1 }) ⟨h.stored, h.cached⟩
        (p := { p with used := m.clock + 1 }) hvalue hle ?_
      · refine ⟨hinsert, .refl _, .refl _, ?_⟩
        intro p' hp'
        cases hp'
        exact ⟨AList.lookup_insert _, hvalue⟩
      · intro d' hd' hid
        dsimp only
        rcases h.stored d' hd' with hs | ⟨p', hp', hdirty⟩
        · rw [hid] at hs
          exact .inr hs
        · rw [hid, hlookup, Option.some.injEq] at hp'
          rw [hp']
          exact .inl hdirty
  | none =>
      have hbody := fun body => @readObject_eq_ok T env m.files d.object body
      have hgrows := readObject_grows env m.files d.object
      rw [hlookup] at hclash
      dsimp only at hclash
      rcases hresult : m.files.readObject env d.object with ⟨files, err | raw⟩ <;> rw [hresult] at hgrows hbody hclash
      · exact ⟨⟨(h.files hgrows).stored, h.cached⟩, .refl _, hgrows, nofun⟩
      · have hkept : Backed env { m with clock := m.clock + 1, files := files } content :=
          ⟨(h.files hgrows).stored, h.cached⟩
        dsimp only at hclash ⊢
        cases hvalue : env.unmarshal raw with
        | error err => exact ⟨hkept, .refl _, hgrows, nofun⟩
        | ok value =>
            rw [hvalue] at hclash
            dsimp only at hclash ⊢
            cases hcheck : PagedMap.checkPage env d value with
            | error err => exact ⟨hkept, .refl _, hgrows, nofun⟩
            | ok _ =>
              rw [hcheck] at hclash
              dsimp only at hclash ⊢
              by_cases hlarge : env.limit < env.estimate (m.clock + 1) value
              · rw [if_pos hlarge]
                exact ⟨hkept, .refl _, hgrows, nofun⟩
              · rw [if_neg hlarge] at hclash ⊢
                obtain rfl : value = ⟨1, content d.id⟩ := by
                  -- it is not resident, so the object has its items
                  rcases h.stored d hmem with ⟨body, hhas, hitems⟩ | ⟨p, hp, -⟩
                  · have hsame := (hbody raw rfl).object
                    rw [hhas.object, Option.some.injEq] at hsame
                    rw [hsame, hvalue, Except.ok.injEq] at hitems
                    exact hitems
                  · rw [hlookup] at hp
                    cases hp
                -- room is made before the page is kept, so that it is not the one written out
                have hroom := makeRoom_spec hf (env.estimate (m.clock + 1) ⟨1, content d.id⟩) 0 hkept hids
                revert hroom hclash
                rcases PagedMap.makeRoom env { m with clock := m.clock + 1, files := files }
                  (env.estimate (m.clock + 1) ⟨1, content d.id⟩) 0 with ⟨m₁, err | ⟨⟨⟩⟩⟩
                · intro hclash hroom
                  obtain ⟨hbacked, hshrunk⟩ := hroom hclash
                  exact ⟨hbacked, hshrunk.index, hgrows.trans hshrunk.files, nofun⟩
                · intro hclash hroom
                  obtain ⟨hbacked, hshrunk⟩ := hroom hclash
                  dsimp only at hbacked hshrunk ⊢
                  have hinsert := @Backed.insert T env m₁ content d.id hbacked
                    ⟨⟨1, content d.id⟩, false, m.clock + 1,
                      env.estimate (m.clock + 1) ⟨1, content d.id⟩⟩ rfl ?_ ?_
                  · refine ⟨⟨hinsert.stored, hinsert.cached⟩, hshrunk.index, hgrows.trans hshrunk.files, ?_⟩
                    intro p' hp'
                    cases hp'
                    exact ⟨AList.lookup_insert _, rfl⟩
                  · rw [hshrunk.index.next]
                    exact hle
                  · intro d' hd' hid
                    rcases hbacked.stored d' hd' with hs | ⟨p', hp', -⟩
                    · rw [hid] at hs
                      exact .inr hs
                    · rw [hid] at hp'
                      have hold := hshrunk.cache _ _ hp'
                      rw [hlookup] at hold
                      cases hold

end MarketInfo.Checkpoint
