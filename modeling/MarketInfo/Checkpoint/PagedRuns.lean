import MarketInfo.Checkpoint.PagedWrite
import MarketInfo.Lib.Transition

/-! # A paged map refines a map

In every run each answer is that of the ordered map, however pages are split, evicted and read again.
What a snapshot returns opens again, with the same map.
-/

namespace MarketInfo.Checkpoint

open Transition (Run)

variable {T : Type} {env : Paging T} {m : PagedMap T} {content : Nat → List (Item T)} {σ : OrderedMap String T}

/-! ## Snapshots -/

/-- The root describes the map, and every page is in the store. -/
structure Recorded (env : Paging T) (files : Files) (root : PageRoot) (content : Nat → List (Item T))
    (σ : OrderedMap String T) : Prop where
  indexed : Indexed env root content σ
  stored : ∀ d ∈ root.pages, Stored env files d.object (content d.id)
  full : ∀ d ∈ root.pages, content d.id ≠ [] ∧ (content d.id).length ≤ pageItems

/-- A page that was written is clean. -/
theorem Backed.mark {id : Nat} {p : ResidentPage T} (h : Backed env m content) (hp : m.cache.lookup id = some p)
    (hstored : ∀ d ∈ m.root.pages, d.id = id → Stored env m.files d.object (content id)) :
    Backed env { m with cache := m.cache.insert id { p with dirty := false } } content := by
  obtain ⟨hvalue, hle⟩ := h.cached id p hp
  exact h.insert hvalue hle fun d hd hid => .inr (hid ▸ hstored d hd hid)

theorem flushAll_grows (pages : List (Nat × ResidentPage T)) (m : PagedMap T) :
    m.files.Grows (PagedMap.flushAll env pages m).1.files := by
  induction pages generalizing m with
  | nil => exact .refl _
  | cons e rest ih =>
      obtain ⟨id, p⟩ := e
      have hflush := flush_grows env m id p
      unfold PagedMap.flushAll
      rcases hresult : m.flush env id p with ⟨m₁, err | ⟨⟨⟩⟩⟩ <;> rw [hresult] at hflush
      · exact hflush
      · exact hflush.trans (ih { m₁ with cache := m₁.cache.insert id { p with dirty := false } })

theorem flushAll_spec (hf : env.Faithful) (pages : List (Nat × ResidentPage T)) (h : Backed env m content)
    (hids : (m.root.pages.map PageDescriptor.id).Nodup) (hpages : ∀ e ∈ pages, m.cache.lookup e.1 = some e.2)
    (hnodup : (pages.map Prod.fst).Nodup) (hclash : (PagedMap.flushAll env pages m).1.files.clash = false) :
    Backed env (PagedMap.flushAll env pages m).1 content ∧
      SameIndex m.root (PagedMap.flushAll env pages m).1.root ∧
      ((PagedMap.flushAll env pages m).2 = .ok () → ∀ id p,
        (PagedMap.flushAll env pages m).1.cache.lookup id = some p →
        p.dirty = false ∨ id ∉ pages.map Prod.fst ∧ m.cache.lookup id = some p) := by
  induction pages generalizing m with
  | nil => exact ⟨h, .refl _, fun _ id p hp => .inr ⟨List.not_mem_nil, hp⟩⟩
  | cons e rest ih =>
      obtain ⟨id, p⟩ := e
      rw [List.map_cons, List.nodup_cons] at hnodup
      have hp : m.cache.lookup id = some p := hpages _ List.mem_cons_self
      have hbacked := h.flush hf hids hp
      have hflush := flush_spec hf hids id p
      unfold PagedMap.flushAll at hclash ⊢
      rcases hresult : m.flush env id p with ⟨m₁, err | ⟨⟨⟩⟩⟩ <;> rw [hresult] at hbacked hflush hclash
      · exact ⟨(hbacked hclash).1, hflush.index, nofun⟩
      · have hbacked := hbacked ((flushAll_grows rest
          { m₁ with cache := m₁.cache.insert id { p with dirty := false } }).clash hclash)
        have hmark := hbacked.1.mark (by rw [hflush.cache]; exact hp) (hbacked.2 rfl)
        have hrest := ih hmark (hflush.index.nodup hids) ?_ hnodup.2 hclash
        · refine ⟨hrest.1, hflush.index.trans hrest.2.1, ?_⟩
          intro hok id' p' hp'
          rcases hrest.2.2 hok id' p' hp' with hclean | ⟨hnot, hold⟩
          · exact .inl hclean
          · dsimp only at hold
            by_cases hid : id' = id
            · rw [hid, AList.lookup_insert, Option.some.injEq] at hold
              rw [← hold]
              exact .inl rfl
            · rw [AList.lookup_insert_ne hid, hflush.cache] at hold
              refine .inr ⟨?_, hold⟩
              rw [List.map_cons, List.mem_cons, not_or]
              exact ⟨hid, hnot⟩
        · intro e he
          have hne : e.1 ≠ id := by
            rintro rfl
            have hmem : e.1 ∈ rest.map Prod.fst := List.mem_map_of_mem he
            exact hnodup.1 hmem
          dsimp only
          rw [AList.lookup_insert_ne hne, hflush.cache]
          exact hpages e (List.mem_cons_of_mem _ he)

/-- A snapshot leaves the map as it was; what it returns is recorded. -/
theorem snapshot_spec (hf : env.Faithful) (h : Holds env m content σ)
    (hclash : (m.snapshot env).1.files.clash = false) :
    Holds env (m.snapshot env).1 content σ ∧ ∀ root refs, (m.snapshot env).2 = .ok (root, refs) →
      Recorded env (m.snapshot env).1.files root content σ ∧ refs = root.pages.map PageDescriptor.object := by
  have hflush := flushAll_spec hf m.residents h.backed h.indexed.ids (fun e he => mem_residents.1 he)
    (nodup_residents m)
  unfold PagedMap.snapshot at hclash ⊢
  revert hflush hclash
  rcases PagedMap.flushAll env m.residents m with ⟨m', err | ⟨⟨⟩⟩⟩
  · intro hclash hflush
    obtain ⟨hbacked, hsame, -⟩ := hflush hclash
    exact ⟨h.of_backed hbacked hsame, nofun⟩
  · intro hclash hflush
    obtain ⟨hbacked, hsame, hclean⟩ := hflush hclash
    have hholds := h.of_backed hbacked hsame
    refine ⟨hholds, ?_⟩
    intro root refs hok
    cases hok
    refine ⟨⟨hholds.indexed, ?_, hholds.full⟩, rfl⟩
    intro d hd
    rcases hbacked.stored d hd with hs | ⟨p, hp, hdirty⟩
    · exact hs
    · -- what is resident was written
      exfalso
      rcases hclean rfl d.id p hp with hclean | ⟨hnot, hold⟩
      · rw [hclean] at hdirty
        cases hdirty
      · exact hnot (List.mem_map.2 ⟨(d.id, p), mem_residents.2 hold, rfl⟩)

/-! ## Opening a root -/

theorem checkPages_eq_ok {next : Nat} {ids : List Nat} {last : Option String} {pages : List PageDescriptor}
    (hvalid : ∀ d ∈ pages, 0 < d.id ∧ d.id ≤ next ∧ d.id ∉ ids ∧ 0 < d.count ∧ d.count ≤ pageItems ∧
      d.eligible ≤ d.count ∧ d.first ≠ "" ∧ d.first ≤ d.last ∧ objectPath d.object = .ok () ∧
      ∀ key ∈ last, key < d.first)
    (hids : (pages.map PageDescriptor.id).Nodup) (hsorted : pages.Pairwise fun a b => a.last < b.first) :
    checkPages next ids last pages = .ok () := by
  induction pages generalizing ids last with
  | nil => rfl
  | cons d rest ih =>
      obtain ⟨hpos, hle, hnew, hcount, hshort, heligible, hfirst, hrange, hpath, hlast⟩ :=
        hvalid d List.mem_cons_self
      rw [List.map_cons, List.nodup_cons] at hids
      rw [List.pairwise_cons] at hsorted
      unfold checkPages
      have hlast' : last.any (d.first ≤ ·) = false := by
        cases last with
        | none => rfl
        | some key => simpa using hlast key rfl
      rw [if_neg, hpath]
      · refine ih ?_ hids.2 hsorted.2
        intro a ha
        obtain ⟨hpos, hle, hnew, hcount, hshort, heligible, hfirst, hrange, hpath, -⟩ :=
          hvalid a (List.mem_cons_of_mem _ ha)
        refine ⟨hpos, hle, ?_, hcount, hshort, heligible, hfirst, hrange, hpath, ?_⟩
        · intro hmem
          rcases List.mem_cons.1 hmem with heq | hmem
          · exact hids.1 (heq ▸ List.mem_map_of_mem ha)
          · exact hnew hmem
        · intro key hkey
          cases hkey
          exact hsorted.1 a ha
      · rw [hlast']
        simp only [not_or, not_lt, Bool.false_eq_true, not_false_eq_true, and_true]
        exact ⟨by omega, hle, hnew, by omega, hshort, heligible, hfirst, hrange⟩

/-- The pages are apart. -/
theorem Indexed.apart {root : PageRoot} (h : Indexed env root content σ)
    (hfull : ∀ d ∈ root.pages, content d.id ≠ []) : root.pages.Pairwise fun a b => a.last < b.first := by
  have hsorted := σ.sorted
  rw [← h.entries, List.pairwise_flatMap] at hsorted
  refine hsorted.2.imp_of_mem ?_
  intro a b ha hb hab
  obtain ⟨x, hx, hlast⟩ := ((h.described a ha).last (h.ordered ha) (hfull a ha)).1
  obtain ⟨y, hy, hfirst⟩ : ∃ y ∈ content b.id, y.1 = b.first := by
    have hsummary := (h.described b hb).summary
    have hne := hfull b hb
    cases hcontent : content b.id with
    | nil => exact absurd hcontent hne
    | cons y rest =>
        rw [hcontent] at hsummary
        refine ⟨y, List.mem_cons_self, ?_⟩
        rw [← hsummary]
        rfl
  rw [← hlast, ← hfirst]
  exact hab x hx y hy

theorem Described.counts {d : PageDescriptor} {items : List (Item T)} (h : Described env d items) :
    d.count = items.length ∧ d.eligible = eligibleOf env items := by
  constructor
  · rw [← h.summary]
    rfl
  · rw [← h.summary]
    rfl

/-- What is recorded opens. -/
theorem open_spec {files : Files} {root : PageRoot} (h : Recorded env files root content σ)
    (hlimit : 256 * 2 ^ 10 ≤ env.limit) :
    openPagedMap env files root = .ok { files, root } ∧ Holds env { files, root } content σ := by
  refine ⟨?_, ⟨h.indexed, ⟨fun d hd => .inl (h.stored d hd), ?_⟩, h.full⟩⟩
  · have hversion := h.indexed.version
    have hcheck : checkPages root.next [] none root.pages = .ok () := by
      refine checkPages_eq_ok ?_ h.indexed.ids (h.indexed.apart fun d hd => (h.full d hd).1)
      intro d hd
      obtain ⟨hpos, hle⟩ := h.indexed.ids_le d hd
      have hdescribed := h.indexed.described d hd
      obtain ⟨hne, hshort⟩ := h.full d hd
      obtain ⟨hcount, heligible⟩ := hdescribed.counts
      obtain ⟨raw, hhas, -⟩ := h.stored d hd
      have hordered := h.indexed.ordered hd
      obtain ⟨⟨e, he, hlast⟩, -⟩ := hdescribed.last hordered hne
      have hfirst : d.first ≠ "" := by
        have hsummary := hdescribed.summary
        cases hcontent : content d.id with
        | nil => exact absurd hcontent hne
        | cons y rest =>
            rw [hcontent] at hsummary
            rw [← hsummary]
            exact hdescribed.keys y (hcontent ▸ List.mem_cons_self)
      refine ⟨hpos, hle, List.not_mem_nil, ?_, ?_, ?_, hfirst, ?_, hhas.path, nofun⟩
      · rw [hcount]
        exact List.length_pos_iff.2 hne
      · rw [hcount]
        exact hshort
      · rw [hcount, heligible]
        exact List.countP_le_length
      · rw [← hlast]
        exact hdescribed.first hordered e he
    have hsum : (root.pages.map PageDescriptor.count).sum = root.count := by
      rw [h.indexed.count, OrderedMap.len, ← h.indexed.entries, List.length_flatMap]
      congr 1
      exact List.map_congr_left fun d hd => (h.indexed.described d hd).counts.1
    unfold openPagedMap
    rw [if_neg (not_lt.2 hlimit)]
    simp [hversion, hcheck, hsum]
  · intro id p hp
    simp at hp

/-! ## Runs -/

inductive PagedMap.Call (T : Type)
  | set (key : String) (value : T)
  | delete (key : String)
  | get (key : String)
  | scan (after : String) (limit : Int) (eligibleOnly : Bool)
  | snapshot
  /-- Others use the store. -/
  | shared (files : Files)

inductive PagedMap.Answer (T : Type)
  | done
  | failed (err : Failure)
  | found (value : Option T)
  | items (items : List (Item T))
  | snapshot (root : PageRoot) (refs : List Reference)

/-- What is answered. -/
def answer {α : Type} (f : α → PagedMap.Answer T) : Except Failure α → PagedMap.Answer T
  | .ok a => f a
  | .error err => .failed err

open PagedMap (Call Answer)

/-- A call, with its answer. No `Set` fails, the ids of pages have not run out, and no two bodies that are put
have one digest. -/
inductive Call.Step (env : Paging T) : PagedMap T → Call T × Answer T → PagedMap T → Prop
  | set (m : PagedMap T) (key : String) (value : T) (hnext : m.root.next + 1 < 2 ^ 64)
      (hok : (m.set env key value).2 = .ok ()) (hclash : (m.set env key value).1.files.clash = false) :
      Call.Step env m (.set key value, .done) (m.set env key value).1
  | delete (m : PagedMap T) (key : String) (hclash : (m.delete env key).1.files.clash = false) :
      Call.Step env m (.delete key, answer (fun _ => .done) (m.delete env key).2) (m.delete env key).1
  | get (m : PagedMap T) (key : String) (hclash : (m.get env key).1.files.clash = false) :
      Call.Step env m (.get key, answer .found (m.get env key).2) (m.get env key).1
  | scan (m : PagedMap T) (after : String) (limit : Int) (eligibleOnly : Bool)
      (hclash : (m.scan env after limit eligibleOnly).1.files.clash = false) :
      Call.Step env m (.scan after limit eligibleOnly, answer .items (m.scan env after limit eligibleOnly).2)
        (m.scan env after limit eligibleOnly).1
  | snapshot (m : PagedMap T) (hclash : (m.snapshot env).1.files.clash = false) :
      Call.Step env m (.snapshot, answer (fun r => .snapshot r.1 r.2) (m.snapshot env).2) (m.snapshot env).1
  /-- Objects that a page refers to stay. -/
  | shared (m : PagedMap T) (files : Files)
      (hkept : ∀ d ∈ m.root.pages, ∀ body, m.files.objects d.object.hash = some body →
        files.objects d.object.hash = some body) : Call.Step env m (.shared files, .done) { m with files := files }

/-- What a map does at a call. -/
inductive Does (env : Paging T) : OrderedMap String T → Call T × Answer T → OrderedMap String T → Prop
  | set (σ : OrderedMap String T) (key : String) (value : T) : Does env σ (.set key value, .done) (σ.set key value)
  | delete (σ : OrderedMap String T) (key : String) : Does env σ (.delete key, .done) (σ.delete key)
  | notDeleted (σ : OrderedMap String T) (key : String) (err : Failure) : Does env σ (.delete key, .failed err) σ
  | get (σ : OrderedMap String T) (key : String) : Does env σ (.get key, .found (σ.get key)) σ
  | notRead (σ : OrderedMap String T) (key : String) (err : Failure) : Does env σ (.get key, .failed err) σ
  | scan (σ : OrderedMap String T) (after : String) (limit : Int) (eligibleOnly : Bool) :
      Does env σ (.scan after limit eligibleOnly,
        .items ((σ.entries.filter (Sought env after eligibleOnly)).take limit.toNat)) σ
  | notScanned (σ : OrderedMap String T) (after : String) (limit : Int) (eligibleOnly : Bool) (err : Failure) :
      Does env σ (.scan after limit eligibleOnly, .failed err) σ
  | snapshot (σ : OrderedMap String T) (answer : Answer T) : Does env σ (.snapshot, answer) σ
  | shared (σ : OrderedMap String T) (files : Files) : Does env σ (.shared files, .done) σ

theorem Backed.shared (h : Backed env m content) {files : Files}
    (hkept : ∀ d ∈ m.root.pages, ∀ body, m.files.objects d.object.hash = some body →
      files.objects d.object.hash = some body) : Backed env { m with files := files } content := by
  refine ⟨?_, h.cached⟩
  intro d hd
  refine (h.stored d hd).imp_left ?_
  intro ⟨raw, hhas, hraw⟩
  exact ⟨raw, ⟨hhas.path, hkept d hd raw hhas.object, hhas.bytes, hhas.hash⟩, hraw⟩

/-- Each step is one of the map's. -/
theorem Call.Step.does (hf : env.Faithful) {m' : PagedMap T} {label : Call T × Answer T}
    (hstep : Call.Step env m label m') (h : Holds env m content σ) :
    ∃ σ', Does env σ label σ' ∧ ∃ content', Holds env m' content' σ' := by
  cases hstep with
  | set key value hnext hok hclash => exact ⟨_, .set σ key value, set_spec hf h hnext hok hclash⟩
  | delete key hclash =>
      -- a delete that fails has changed nothing
      have hdelete := delete_spec hf h key hclash
      revert hdelete
      rcases m.delete env key with ⟨m', err | ⟨⟨⟩⟩⟩
      · exact fun hdelete => ⟨σ, .notDeleted σ key err, content, hdelete.2 nofun⟩
      · exact fun hdelete => ⟨_, .delete σ key, hdelete.1 rfl⟩
  | get key hclash =>
      have hget := get_spec hf h key hclash
      revert hget
      rcases m.get env key with ⟨m', err | found⟩
      · exact fun hget => ⟨σ, .notRead σ key err, content, hget.1.holds⟩
      · intro hget
        rw [hget.2 found rfl]
        exact ⟨σ, .get σ key, content, hget.1.holds⟩
  | scan after limit eligibleOnly hclash =>
      have hscan := scan_spec hf h after limit eligibleOnly hclash
      revert hscan
      rcases m.scan env after limit eligibleOnly with ⟨m', err | items⟩
      · exact fun hscan => ⟨σ, .notScanned σ after limit eligibleOnly err, content, hscan.1.holds⟩
      · intro hscan
        rw [hscan.2 items rfl]
        exact ⟨σ, .scan σ after limit eligibleOnly, content, hscan.1.holds⟩
  | snapshot hclash => exact ⟨σ, .snapshot σ _, content, (snapshot_spec hf h hclash).1⟩
  | shared files hkept => exact ⟨σ, .shared σ files, content, h.indexed, h.backed.shared hkept, h.full⟩

theorem run_does (hf : env.Faithful) {m' : PagedMap T} {labels : List (Call T × Answer T)}
    (hrun : Run (Call.Step env) m labels m') (h : Holds env m content σ) :
    ∃ σ', Run (Does env) σ labels σ' ∧ ∃ content', Holds env m' content' σ' := by
  induction hrun generalizing σ content with
  | nil m => exact ⟨σ, .nil σ, content, h⟩
  | cons hstep _ ih =>
      obtain ⟨σ₁, hdoes, content₁, h₁⟩ := hstep.does hf h
      obtain ⟨σ₂, hruns, h₂⟩ := ih h₁
      exact ⟨σ₂, .cons hdoes hruns, h₂⟩

/-- The entries of the map between the ends of a page are the items of the page. -/
theorem Holds.between (h : Holds env m content σ) {d : PageDescriptor} (hd : d ∈ m.root.pages) :
    (σ.entries.filter fun e => d.first ≤ e.1 ∧ e.1 ≤ d.last) = content d.id := by
  obtain ⟨pre, post, hpages⟩ := List.append_of_mem hd
  have hapart := h.indexed.apart fun d hd => (h.full d hd).1
  rw [hpages, List.pairwise_append, List.pairwise_cons] at hapart
  have hmem : ∀ a, a ∈ pre ∨ a ∈ post → a ∈ m.root.pages := by
    intro a ha
    rw [hpages, List.mem_append, List.mem_cons]
    exact ha.imp_right .inr
  have hends : ∀ a ∈ m.root.pages, ∀ e ∈ content a.id, a.first ≤ e.1 ∧ e.1 ≤ a.last := by
    intro a ha e he
    have hdescribed := h.indexed.described a ha
    exact ⟨hdescribed.first (h.indexed.ordered ha) e he,
      (hdescribed.last (h.indexed.ordered ha) (h.full a ha).1).2 e he⟩
  have hpre : ((pre.flatMap fun d => content d.id).filter
      fun e => decide (d.first ≤ e.1 ∧ e.1 ≤ d.last)) = [] := by
    rw [List.filter_eq_nil_iff]
    intro e he
    obtain ⟨a, ha, he⟩ := List.mem_flatMap.1 he
    have hlt := lt_of_le_of_lt (hends a (hmem a (.inl ha)) e he).2 (hapart.2.2 a ha d List.mem_cons_self)
    simpa using fun hle : d.first ≤ e.1 => absurd hle (not_le.2 hlt)
  have hpost : ((post.flatMap fun d => content d.id).filter
      fun e => decide (d.first ≤ e.1 ∧ e.1 ≤ d.last)) = [] := by
    rw [List.filter_eq_nil_iff]
    intro e he
    obtain ⟨a, ha, he⟩ := List.mem_flatMap.1 he
    have hlt := lt_of_lt_of_le (hapart.2.1.1 a ha) (hends a (hmem a (.inr ha)) e he).1
    rw [decide_eq_true_iff]
    exact fun hle => absurd hle.2 (not_le.2 hlt)
  have hself : ((content d.id).filter fun e => decide (d.first ≤ e.1 ∧ e.1 ≤ d.last)) = content d.id :=
    List.filter_eq_self.2 fun e he => decide_eq_true (hends d hd e he)
  rw [← h.indexed.entries, hpages, List.flatMap_append, List.flatMap_cons, List.filter_append, List.filter_append,
    hpre, hpost, hself, List.append_nil, List.nil_append]

theorem Holds.eligible (h : Holds env m content σ) : m.eligible = σ.count env.eligible := by
  rw [PagedMap.eligible, OrderedMap.count, ← h.indexed.entries, List.countP_flatMap]
  congr 1
  exact List.map_congr_left fun d hd => (h.indexed.described d hd).counts.2

/-! ## From an empty map -/

/-- The root of a map that was never written. -/
def emptyRoot : PageRoot := ⟨0, 0, 0, []⟩

theorem open_empty {files : Files} (h : openPagedMap env files emptyRoot = .ok m) :
    Holds env m (fun _ => []) OrderedMap.empty := by
  unfold openPagedMap emptyRoot at h
  split at h
  · cases h
  · cases h
    refine ⟨⟨nofun, rfl, .nil, nofun, rfl, rfl⟩, ⟨nofun, ?_⟩, nofun⟩
    intro id p hp
    simp at hp

/-- A page with one item. -/
def onePage : TypedPage Nat := ⟨1, [("a", 7)]⟩

def oneDigest : String := "6b86b273ff34fce19d6b804eff5a3f5747ada4eaa22f1d49c01e52ddb7875b4b"

/-- A codec of that page, and a store that works. -/
def oneCodec : Paging Nat where
  marshal page := if page = onePage then .ok [1] else .error .recovery
  unmarshal raw := if raw = [1] then .ok onePage else .error .recovery
  hash _ := oneDigest
  fault _ := none
  estimate _ page := page.items.length
  eligible n := decide (0 < n)
  oldest := none
  limit := 512 * 2 ^ 10

theorem oneCodec_faithful : oneCodec.Faithful := by
  constructor
  · intro page raw h
    unfold oneCodec at h ⊢
    dsimp only at h ⊢
    split at h
    · rename_i heq
      cases h
      rw [if_pos rfl, heq]
    · cases h
  · have hdigits : oneDigest.length = 64 ∧ oneDigest.toList.all isHexDigit = true := by decide
    exact fun _ => hdigits

def noFiles : Files := ⟨fun _ => none, 0, false⟩

/-- The map before anything is set. -/
def oneMap : PagedMap Nat := { files := noFiles, root := { emptyRoot with version := 1 } }

theorem oneMap_set :
    (oneMap.set oneCodec "a" 7).2 = .ok () ∧ (oneMap.set oneCodec "a" 7).1.files.clash = false := by
  decide +kernel

theorem Files.Has.read {files : Files} {ref : Reference} {body : List UInt8} (h : files.Has env ref body)
    (hfault : env.fault files.accesses = none) : (files.readObject env ref).2 = .ok body := by
  unfold Files.readObject
  simp only [h.path, hfault, h.object]
  rw [if_neg]
  rw [not_or, not_not, not_not]
  exact ⟨h.bytes, h.hash⟩

/-- A page of a map that was just opened is read, unless the store fails or the page is too large. -/
theorem load_opened {files : Files} {root : PageRoot} (h : Recorded env files root content σ)
    (hfault : env.fault files.accesses = none) (hsmall : ∀ n page, env.estimate n page ≤ env.limit) {i : Nat}
    {d : PageDescriptor} (hd : root.pages[i]? = some d) :
    ∃ p, (PagedMap.load env { files, root } i).2 = .ok p ∧ p.value = ⟨1, content d.id⟩ := by
  have hmem := List.mem_of_getElem? hd
  obtain ⟨raw, hhas, hraw⟩ := h.stored d hmem
  have hdescribed := h.indexed.described d hmem
  have hcheck : PagedMap.checkPage env d ⟨1, content d.id⟩ = .ok () := by
    unfold PagedMap.checkPage
    rw [if_neg]
    rw [not_or, not_or, not_or, not_or, not_not, not_not, not_not, not_not]
    refine ⟨rfl, hdescribed.counts.1.symm, ?_, (h.indexed.ordered hmem).isChain, hdescribed.summary⟩
    intro ⟨e, he, hempty⟩
    exact hdescribed.keys e he hempty
  have hread := hhas.read hfault
  unfold PagedMap.load
  simp only [hd, AList.lookup_empty]
  rcases hresult : files.readObject env d.object with ⟨files', err | body⟩ <;> rw [hresult] at hread
  · cases hread
  · cases hread
    simp only [hraw, hcheck]
    rw [if_neg (not_lt.2 (hsmall _ _))]
    have hroom : (PagedMap.makeRoom env { files := files', root := root, clock := 1 }
        (env.estimate 1 ⟨1, content d.id⟩) 0).2 = .ok () := by
      have hfits := hsmall 1 ⟨1, content d.id⟩
      unfold PagedMap.makeRoom PagedMap.residents
      simp [PagedMap.evict, PagedMap.account, Listing.sortBy, hfits]
    revert hroom
    rcases PagedMap.makeRoom env { files := files', root := root, clock := 1 }
        (env.estimate 1 ⟨1, content d.id⟩) 0 with ⟨m₁, err | ⟨⟨⟩⟩⟩
    · intro hroom
      cases hroom
    · exact fun _ => ⟨_, rfl, rfl⟩

/-- A value that is recorded is found. -/
theorem get_opened {files : Files} {root : PageRoot} (h : Recorded env files root content σ)
    (hholds : Holds env { files, root } content σ) (hfault : env.fault files.accesses = none)
    (hsmall : ∀ n page, env.estimate n page ≤ env.limit) (key : String) :
    (PagedMap.get env { files, root } key).2 = .ok (σ.get key) := by
  unfold PagedMap.get
  by_cases hpages : root.pages = []
  · rw [OrderedMap.get, hholds.eq_empty hpages]
    simp [hpages]
  · obtain ⟨d, pre, post, hlocated⟩ := hholds.located hpages key
    rw [hlocated.getElem?]
    dsimp only
    by_cases hout : key < d.first ∨ d.last < key
    · rw [if_pos hout, hlocated.eq_none hholds hout]
    · rw [if_neg hout]
      obtain ⟨p, hp, hvalue⟩ := load_opened h hfault hsmall hlocated.getElem?
      revert hp
      rcases PagedMap.load env { files, root } (PagedMap.index { files, root } key) with ⟨m₁, err | p'⟩
      · intro hp
        cases hp
      · intro hp
        cases hp
        dsimp only
        rw [hvalue, hlocated.find hholds.indexed]

/-- Another process, with another store and cache. -/
def Paging.elsewhere (env : Paging T) (fault : Nat → Option Failure) (estimate : Nat → TypedPage T → Int)
    (limit : Int) : Paging T := { env with fault, estimate, limit }

end MarketInfo.Checkpoint
