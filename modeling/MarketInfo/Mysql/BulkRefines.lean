import MarketInfo.Mysql.RowLaws

/-! # Bulk writes against single ones

Both write a list of rows as a table that is written once would take them: the rows
conflict iff two of them, or one and a stored one, have one key and other contents,
and the new ones are added in order.
-/

namespace MarketInfo.Mysql.Rows

open Codec WriteOnce

variable {b : Backend} {t : Table} {rows : Record → Prop}

/-- Rows that can be stored and that the digest tells apart, whatever is done with them. -/
structure Known (b : Backend) (t : Table) (rows : Record → Prop) : Prop where
  storable : ∀ r, rows r → Storable b t r
  tells : Tells b t rows
  identified : Identified b t rows

/-- A table of such rows that holds each key at most once. -/
structure Holds (b : Backend) (t : Table) (rows : Record → Prop) (db : List (Stored b)) : Prop where
  images : ∀ s ∈ db, ∃ r, rows r ∧ image b t r = s
  agree : Agree t.primary db
  nodup : db.Nodup

/-- What a statement answers: the table, or a conflict. -/
def outcome {α : Type} : Option α → Except Failure α
  | some a => .ok a
  | none => .error .conflict

theorem outcome_bind {α β : Type} (x : Option α) (f : α → Option β) :
    (outcome x >>= fun a => outcome (f a)) = outcome (x >>= f) := by
  cases x <;> rfl

theorem lift_bind_ok {α β : Type} {x : Except String α} {a : α} (h : x = .ok a)
    (f : α → Except Failure β) : (lift x >>= f) = f a := by
  rw [h]
  rfl

theorem Holds.putAll {db db' : List (Stored b)} (h : Holds b t rows db) {rs : List Record}
    (hrs : ∀ r ∈ rs, rows r) (hput : putAll t.primary db (rs.map (image b t)) = some db') :
    Holds b t rows db' := by
  obtain ⟨hagree, rfl⟩ := (putAll_eq_some_iff h.agree).mp hput
  refine ⟨fun s hs => ?_, hagree.mono fun a ha => mem_append_fresh.mp ha,
    nodup_append_fresh h.nodup _⟩
  rcases List.mem_append.mp (mem_append_fresh.mp hs) with hheld | hnew
  · exact h.images s hheld
  · obtain ⟨r, hr, rfl⟩ := List.mem_map.mp hnew
    exact ⟨r, hrs r hr, rfl⟩

/-- Stored rows are read as they were written. -/
theorem read_images (known : Known b t rows) {ss : List (Stored b)}
    (h : ∀ s ∈ ss, ∃ r, rows r ∧ image b t r = s) :
    ∃ rs os, (∀ r ∈ rs, rows r) ∧ rs.map (image b t) = ss ∧ ss.mapM (readRecord t) = .ok os ∧
      List.Forall₂ (Shows t) os rs := by
  induction ss with
  | nil => exact ⟨[], [], by simp, rfl, rfl, .nil⟩
  | cons s ss ih =>
      obtain ⟨r, hr, rfl⟩ := h s (by simp)
      obtain ⟨rs, os, hrs, rfl, hread, hshows⟩ := ih fun s hs => h s (by simp [hs])
      obtain ⟨o, ho, hshow⟩ := readRecord_eq (known.storable r hr)
      refine ⟨r :: rs, o :: os, ?_, rfl, ?_, .cons hshow hshows⟩
      · intro r' hr'
        rcases List.mem_cons.mp hr' with rfl | hr'
        · exact hr
        · exact hrs r' hr'
      · rw [List.mapM_cons, ho, hread]
        rfl

/-- Rows whose keys are new can be inserted together. -/
theorem insertRows_ok (known : Known b t rows) {db new : List (Stored b)} (h : Holds b t rows db)
    (hnew : ∀ s ∈ new, ∃ r, rows r ∧ image b t r = s) (hagree : Agree t.primary (db ++ new))
    (hnodup : new.Nodup) (hfresh : ∀ s ∈ new, s ∉ db) : insertRows t db new = .ok (db ++ new) := by
  have hclash : ∀ s ∈ new, ∀ s' ∈ db ++ new, t.Clash s s' → s = s' := by
    intro s hs s' hs' hclash
    refine hagree s (List.mem_append_right _ hs) s' hs' ?_
    rcases hclash with hkey | ⟨hsome, hidentity⟩
    · exact hkey
    · obtain ⟨r, hr, rfl⟩ := hnew s hs
      obtain ⟨r', hr', rfl⟩ : ∃ r', rows r' ∧ image b t r' = s' :=
        (List.mem_append.mp hs').elim (h.images s') (hnew s')
      exact known.identified r r' hr hr' hsome hidentity
  refine if_pos ⟨fun s hs s' hs' hc => ?_, ?_⟩
  · have hsame := hclash s hs s' (List.mem_append_left _ hs') hc
    exact hfresh s hs (hsame ▸ hs')
  · refine List.Pairwise.imp_of_mem ?_ hnodup
    intro s s' hs hs' hne hc
    exact hne (hclash s hs s' (List.mem_append_right _ hs') hc)

/-! ## One row at a time -/

theorem putImmutable_eq (known : Known b t rows) {db : List (Stored b)} (h : Holds b t rows db)
    {r : Record} (hr : rows r) :
    putImmutable b t db r = outcome (put t.primary db (image b t r)) := by
  have hstore := known.storable r hr
  obtain ⟨p, hp, hadmits⟩ := admits_iff known.tells hr hstore
  have hfilter : (db.filter fun s => [p].any fun p => decide (p.Admits s)) =
      db.filter fun s => decide (t.primary s = t.primary (image b t r)) := by
    refine List.filter_congr fun s hs => ?_
    obtain ⟨r', hr', rfl⟩ := h.images s hs
    rw [List.any_cons, List.any_nil, Bool.or_false, decide_eq_decide]
    exact hadmits p.occurrence (.inl rfl) r' hr' (known.storable r' hr')
  have hsub : ∀ s ∈ db.filter fun s => decide (t.primary s = t.primary (image b t r)),
      ∃ r, rows r ∧ image b t r = s := fun s hs => h.images s (List.mem_filter.mp hs).1
  obtain ⟨rs, os, hrs, himages, hread, hshows⟩ := read_images known hsub
  rw [putImmutable, lift_bind_ok (rowHash_of_shows hstore.shows), lift_bind_ok hp,
    lift_bind_ok (by rw [readRecords, hfilter]; exact hread)]
  rcases filter_key h.agree h.nodup (t.primary (image b t r)) with ⟨hnone, hkey⟩ | ⟨s, hs, hsk, hone⟩
  · -- no row of that key is stored
    rw [hnone] at himages
    obtain rfl : rs = [] := List.map_eq_nil_iff.mp himages
    cases hshows
    have hfresh : image b t r ∉ db := fun hmem => hkey (List.mem_map.mpr ⟨_, hmem, rfl⟩)
    have hput : put t.primary db (image b t r) = some (db ++ [image b t r]) := by
      rw [put, if_neg hfresh, if_neg hkey]
    have hagree := ((put_eq_some_iff h.agree).mp hput).1
    rw [hput]
    simp only [lift_bind_ok (storedRow_eq hstore)]
    refine insertRows_ok known h ?_ hagree (List.nodup_singleton _) ?_
    · exact fun s hs => ⟨r, hr, (List.mem_singleton.mp hs).symm⟩
    · exact fun s hs => List.mem_singleton.mp hs ▸ hfresh
  · rw [hone] at himages
    obtain ⟨r', rfl, rfl⟩ := List.map_eq_singleton_iff.mp himages
    cases hshows with
    | cons hshow hrest =>
        cases hrest
        have hr' := hrs r' (by simp)
        simp only [lift_bind_ok (rowHash_of_shows hshow)]
        have hhash := rowHash_eq_iff known.tells hr' hr (known.storable r' hr') hstore
        by_cases hsame : image b t r' = image b t r
        · have hmem : image b t r ∈ db := hsame ▸ hs
          rw [if_neg (fun hne => hne (hhash.mpr hsame)), put, if_pos hmem]
          rfl
        · have hnot : image b t r ∉ db := fun hmem => hsame (h.agree _ hs _ hmem hsk)
          have hkey : t.primary (image b t r) ∈ db.map t.primary := List.mem_map.mpr ⟨_, hs, hsk⟩
          rw [if_pos (fun heq => hsame (hhash.mp heq)), put, if_neg hnot, if_pos hkey]
          rfl

/-- Rows that are put one after another. -/
theorem foldlM_putImmutable (known : Known b t rows) {rs : List Record} (hrs : ∀ r ∈ rs, rows r) :
    ∀ {db : List (Stored b)}, Holds b t rows db →
      rs.foldlM (putImmutable b t) db = outcome (putAll t.primary db (rs.map (image b t))) := by
  induction rs with
  | nil => exact fun _ => rfl
  | cons r rs ih =>
      intro db h
      have hr := hrs r (by simp)
      have hput : putAll t.primary db ((r :: rs).map (image b t)) =
          (put t.primary db (image b t r)) >>= fun next => putAll t.primary next (rs.map (image b t)) := by
        rw [List.map_cons, putAll, List.foldlM_cons]
        rfl
      rw [List.foldlM_cons, putImmutable_eq known h hr, hput]
      cases hnext : put t.primary db (image b t r) with
      | none => rfl
      | some next =>
          have hone : putAll t.primary db ([r].map (image b t)) = some next := by
            rw [List.map_singleton, putAll, List.foldlM_cons, hnext]
            rfl
          have hnextHolds := h.putAll (by simpa using hr) hone
          exact ih (fun r hr => hrs r (by simp [hr])) hnextHolds

/-! ## A cut -/

/-- What a cut keeps of a row. -/
def entry (b : Backend) (t : Table) (r : Record) : Entry :=
  ⟨b.sha256 (keyText t r), b.sha256 (rowText t r), r⟩

/-- The row of a key among the distinct rows of a cut. -/
theorem find_entry (known : Known b t rows) {us : List Record} (hus : ∀ u ∈ us, rows u) {r : Record}
    (hr : rows r) :
    (us.map (entry b t)).find? (fun e => e.key == b.sha256 (keyText t r)) = none ∧
        t.primary (image b t r) ∉ (us.map (image b t)).map t.primary ∨
      ∃ u ∈ us, t.primary (image b t u) = t.primary (image b t r) ∧
        (us.map (entry b t)).find? (fun e => e.key == b.sha256 (keyText t r)) = some (entry b t u) := by
  have hkey : ∀ u ∈ us, (entry b t u).key = b.sha256 (keyText t r) ↔
      t.primary (image b t u) = t.primary (image b t r) := by
    intro u hu
    have hstore := known.storable u (hus u hu)
    rw [primary_eq_iff known.tells (hus u hu) hr hstore (known.storable r hr)]
    exact keyHash_eq_iff known.tells (hus u hu) hr hstore (known.storable r hr)
  cases hfind : (us.map (entry b t)).find? (fun e => e.key == b.sha256 (keyText t r)) with
  | none =>
      refine .inl ⟨rfl, fun hmem => ?_⟩
      obtain ⟨s, hs, hsk⟩ := List.mem_map.mp hmem
      obtain ⟨u, hu, rfl⟩ := List.mem_map.mp hs
      have hnot := List.find?_eq_none.mp hfind _ (List.mem_map.mpr ⟨u, hu, rfl⟩)
      exact hnot (beq_iff_eq.mpr ((hkey u hu).mpr hsk))
  | some e =>
      obtain ⟨u, hu, rfl⟩ := List.mem_map.mp (List.mem_of_find?_eq_some hfind)
      have hfound : ((entry b t u).key == b.sha256 (keyText t r)) = true := by
        have h := List.find?_some hfind
        exact h
      exact .inr ⟨u, hu, (hkey u hu).mp (beq_iff_eq.mp hfound), rfl⟩

/-- A row packs to no more than a packet. -/
def Packs (t : Table) (lim : Limits) (r : Record) : Prop :=
  ∃ raw, PackMigrationRow t r = .ok raw ∧ raw.length ≤ lim.packet

/-- The distinct rows of a cut are those that an empty table would take. -/
theorem prepare_from (known : Known b t rows) (lim : Limits) {rs : List Record} (hrs : ∀ r ∈ rs, rows r)
    (hpacks : ∀ r ∈ rs, Packs t lim r) :
    ∀ (us : List Record) (n : Nat), (∀ u ∈ us, rows u) → Agree t.primary (us.map (image b t)) →
      match putAll t.primary (us.map (image b t)) (rs.map (image b t)) with
      | none => rs.foldlM (prepareRow b t) ⟨us.map (entry b t), n⟩ = .error .conflict
      | some held => ∃ (vs : List Record) (m : Nat), rs.foldlM (prepareRow b t) ⟨us.map (entry b t), n⟩ =
          .ok ⟨vs.map (entry b t), m⟩ ∧ vs.map (image b t) = held ∧ (∀ v ∈ vs, rows v) ∧
            m ≤ n + rs.length * lim.packet := by
  induction rs with
  | nil =>
      intro us n hus _
      exact ⟨us, n, rfl, rfl, hus, by simp⟩
  | cons r rs ih =>
      intro us n hus hagree
      have hr := hrs r (by simp)
      have hshows := (known.storable r hr).shows
      have hrest := ih (fun r hr => hrs r (by simp [hr])) (fun r hr => hpacks r (by simp [hr]))
      have hput : putAll t.primary (us.map (image b t)) ((r :: rs).map (image b t)) =
          put t.primary (us.map (image b t)) (image b t r) >>=
            fun next => putAll t.primary next (rs.map (image b t)) := by
        rw [List.map_cons, putAll, List.foldlM_cons]
        rfl
      have hstep : prepareRow b t ⟨us.map (entry b t), n⟩ r =
          ((us.map (entry b t)).find? fun e => e.key == b.sha256 (keyText t r)).elim
            (lift (PackMigrationRow t r) >>= fun raw =>
              .ok ⟨us.map (entry b t) ++ [entry b t r], n + raw.length⟩)
            fun old => if old.hash ≠ b.sha256 (rowText t r) then .error .conflict
              else .ok ⟨us.map (entry b t), n⟩ := by
        rw [prepareRow, lift_bind_ok (keyHash_of_shows hshows), lift_bind_ok (rowHash_of_shows hshows)]
        cases (us.map (entry b t)).find? fun e => e.key == b.sha256 (keyText t r) with
        | none => rfl
        | some old => rfl
      rw [hput, List.foldlM_cons, hstep]
      rcases find_entry known hus hr with ⟨hfind, hkey⟩ | ⟨u, hu, huk, hfind⟩
      · obtain ⟨raw, hraw, hlen⟩ := hpacks r (by simp)
        have hfresh : image b t r ∉ us.map (image b t) := fun hmem =>
          hkey (List.mem_map.mpr ⟨_, hmem, rfl⟩)
        have hnext : put t.primary (us.map (image b t)) (image b t r) =
            some ((us ++ [r]).map (image b t)) := by
          rw [put, if_neg hfresh, if_neg hkey, List.map_append, List.map_singleton]
        have hnextAgree : Agree t.primary ((us ++ [r]).map (image b t)) := by
          have h := ((put_eq_some_iff hagree).mp hnext).1
          rwa [List.map_append, List.map_singleton]
        have hnextRows : ∀ u ∈ us ++ [r], rows u := by
          intro u hu
          rcases List.mem_append.mp hu with hu | hu
          · exact hus u hu
          · exact List.mem_singleton.mp hu ▸ hr
        have hafter := hrest (us ++ [r]) (n + raw.length) hnextRows hnextAgree
        rw [hfind, hnext]
        simp only [Option.elim_none, lift_bind_ok hraw, Option.bind_eq_bind, Option.bind_some]
        simp only [List.map_append, List.map_singleton] at hafter ⊢
        revert hafter
        cases putAll t.primary (us.map (image b t) ++ [image b t r]) (rs.map (image b t)) with
        | none => exact id
        | some held =>
            rintro ⟨vs, m, hrun, hvs, hrows, hm⟩
            refine ⟨vs, m, hrun, hvs, hrows, ?_⟩
            rw [List.length_cons, Nat.succ_mul]
            omega
      · rw [hfind]
        have hhash := rowHash_eq_iff known.tells (hus u hu) hr (known.storable u (hus u hu))
          (known.storable r hr)
        by_cases hsame : image b t u = image b t r
        · have hmem : image b t r ∈ us.map (image b t) := hsame ▸ List.mem_map.mpr ⟨u, hu, rfl⟩
          have hnext : put t.primary (us.map (image b t)) (image b t r) = some (us.map (image b t)) := by
            rw [put, if_pos hmem]
          have hafter := hrest us n hus hagree
          rw [hnext]
          simp only [Option.elim_some, entry, hhash.mpr hsame, ne_eq, not_true_eq_false, if_false, Option.bind_eq_bind,
            Option.bind_some]
          revert hafter
          cases putAll t.primary (us.map (image b t)) (rs.map (image b t)) with
          | none => exact id
          | some held =>
              rintro ⟨vs, m, hrun, hvs, hrows, hm⟩
              refine ⟨vs, m, hrun, hvs, hrows, ?_⟩
              rw [List.length_cons, Nat.succ_mul]
              omega
        · have hnot : image b t r ∉ us.map (image b t) := fun hmem =>
            hsame (hagree _ (List.mem_map.mpr ⟨u, hu, rfl⟩) _ hmem huk)
          have hkey : t.primary (image b t r) ∈ (us.map (image b t)).map t.primary :=
            List.mem_map.mpr ⟨_, List.mem_map.mpr ⟨u, hu, rfl⟩, huk⟩
          have hnone : put t.primary (us.map (image b t)) (image b t r) = none := by
            rw [put, if_neg hnot, if_pos hkey]
          have hdiff : (entry b t u).hash ≠ b.sha256 (rowText t r) := fun heq => hsame (hhash.mp heq)
          rw [hnone]
          simp only [Option.elim_some, hdiff, ne_eq, not_false_eq_true, if_true]
          rfl

/-- The comparison goes through iff each stored row is one of the cut's. -/
theorem compareStored_eq (known : Known b t rows) {us : List Record} (hus : ∀ u ∈ us, rows u)
    (hagree : Agree t.primary (us.map (image b t))) :
    ∀ {os rs : List Record} (seen : List Digest), List.Forall₂ (Shows t) os rs → (∀ r ∈ rs, rows r) →
      (seen ++ rs.map fun r => b.sha256 (keyText t r)).Nodup →
        compareStored b t (us.map (entry b t)) seen os =
          if ∀ r ∈ rs, image b t r ∈ us.map (image b t) then
            .ok (seen ++ rs.map fun r => b.sha256 (keyText t r)) else .error .conflict := by
  intro os rs seen hshows hrs hnodup
  induction hshows generalizing seen with
  | nil => simp [compareStored]
  | @cons o r os rs hshow _ ih =>
      have hr := hrs r (by simp)
      have hfresh : b.sha256 (keyText t r) ∉ seen := by
        intro hmem
        exact (List.nodup_append.mp hnodup).2.2 _ hmem _ (by simp) rfl
      rw [compareStored, lift_bind_ok (keyHash_of_shows hshow)]
      rcases find_entry known hus hr with ⟨hfind, hkey⟩ | ⟨u, hu, huk, hfind⟩
      · simp only [hfind]
        refine (if_neg fun hall => hkey ?_).symm
        exact List.mem_map.mpr ⟨_, hall r (by simp), rfl⟩
      · simp only [hfind, if_neg hfresh, lift_bind_ok (rowHash_of_shows hshow)]
        have hhash := rowHash_eq_iff known.tells hr (hus u hu) (known.storable r hr)
          (known.storable u (hus u hu))
        have hmem : image b t r ∈ us.map (image b t) ↔ image b t r = image b t u := by
          constructor
          · exact fun h => hagree _ h _ (List.mem_map.mpr ⟨u, hu, rfl⟩) huk.symm
          · exact fun h => h ▸ List.mem_map.mpr ⟨u, hu, rfl⟩
        by_cases hsame : image b t r = image b t u
        · have hnext := ih (seen ++ [b.sha256 (keyText t r)]) (fun r hr => hrs r (by simp [hr]))
            (by simpa using hnodup)
          simp only [entry, hhash.mpr hsame, ne_eq, not_true_eq_false, if_false]
          rw [hnext]
          simp only [List.forall_mem_cons, hmem.mpr hsame, true_and, List.append_assoc,
            List.singleton_append, List.map_cons]
        · have hdiff : b.sha256 (rowText t r) ≠ (entry b t u).hash := fun heq => hsame (hhash.mp heq)
          rw [if_pos hdiff, if_neg]
          exact fun hall => hsame (hmem.mp (hall r (by simp)))

/-- A cut that is compared with what is stored writes what its rows would, put one after another. -/
theorem writeCut_eq (known : Known b t rows) {db : List (Stored b)} (h : Holds b t rows db)
    {us : List Record} (hus : ∀ u ∈ us, rows u) (hagree : Agree t.primary (us.map (image b t)))
    (hnodup : (us.map (image b t)).Nodup) (n : Nat) :
    writeCut b t true false ⟨us.map (entry b t), n⟩ db =
      outcome (if ∀ s ∈ db, ∀ u ∈ us.map (image b t), t.primary s = t.primary u → s = u then
        some (db ++ (us.map (image b t)).filter fun u => decide (u ∉ db)) else none) := by
  -- the statement asks for the rows with a key of the cut
  obtain ⟨ps, hps, hadmits⟩ : ∃ ps, (us.map (entry b t)).mapM (fun e => bulkPredicate b t e.row) = .ok ps ∧
      ∀ s ∈ db, (ps.any fun p => decide (p.Admits s)) =
        decide (t.primary s ∈ (us.map (image b t)).map t.primary) := by
    clear hagree hnodup
    induction us with
    | nil => exact ⟨[], rfl, fun s _ => by simp⟩
    | cons u us ih =>
        obtain ⟨ps, hps, hany⟩ := ih fun u hu => hus u (by simp [hu])
        have hu := hus u (by simp)
        obtain ⟨p, hp, hadmits⟩ := admits_iff known.tells hu (known.storable u hu)
        let q : Predicate b := if t.multiplicity then { p with occurrence := none } else p
        have hq : bulkPredicate b t u = .ok q := by
          rw [bulkPredicate, hp]
          rfl
        refine ⟨q :: ps, ?_, fun s hs => ?_⟩
        · rw [List.map_cons, List.mapM_cons, hps]
          simp only [entry, hq]
          rfl
        · obtain ⟨r, hr, rfl⟩ := h.images s hs
          have hadmit : q.Admits (image b t r) ↔ t.primary (image b t r) = t.primary (image b t u) := by
            simp only [q]
            split
            · exact hadmits none (.inr rfl) r hr (known.storable r hr)
            · exact hadmits p.occurrence (.inl rfl) r hr (known.storable r hr)
          rw [List.any_cons, hany _ hs, Bool.eq_iff_iff]
          simp only [Bool.or_eq_true, decide_eq_true_eq, hadmit, List.map_cons, List.mem_cons]
  have hfilter : (db.filter fun s => ps.any fun p => decide (p.Admits s)) =
      db.filter fun s => decide (t.primary s ∈ (us.map (image b t)).map t.primary) :=
    List.filter_congr hadmits
  have hsub : ∀ s ∈ db.filter fun s => decide (t.primary s ∈ (us.map (image b t)).map t.primary),
      ∃ r, rows r ∧ image b t r = s := fun s hs => h.images s (List.mem_filter.mp hs).1
  obtain ⟨rs, os, hrs, himages, hread, hshows⟩ := read_images known hsub
  have hrsdb : ∀ r ∈ rs, image b t r ∈ db := by
    intro r hr
    have hmem : image b t r ∈ rs.map (image b t) := List.mem_map.mpr ⟨r, hr, rfl⟩
    rw [himages] at hmem
    exact (List.mem_filter.mp hmem).1
  have hdigests : (rs.map fun r => b.sha256 (keyText t r)).Nodup := by
    have hrsnodup : (rs.map (image b t)).Nodup := himages ▸ h.nodup.filter _
    refine List.Nodup.map_on ?_ (List.Nodup.of_map _ hrsnodup)
    intro r hr r' hr' heq
    have hstore := known.storable r (hrs r hr)
    have hstore' := known.storable r' (hrs r' hr')
    have hkey := (keyHash_eq_iff known.tells (hrs r hr) (hrs r' hr') hstore hstore').mp heq
    have hprimary := (primary_eq_iff known.tells (hrs r hr) (hrs r' hr') hstore hstore').mpr hkey
    exact List.inj_on_of_nodup_map hrsnodup hr hr' (h.agree _ (hrsdb r hr) _ (hrsdb r' hr') hprimary)
  have hcompare := compareStored_eq known hus hagree [] hshows hrs (by simpa using hdigests)
  have hcross : (∀ r ∈ rs, image b t r ∈ us.map (image b t)) ↔
      ∀ s ∈ db, ∀ u ∈ us.map (image b t), t.primary s = t.primary u → s = u := by
    constructor
    · intro hall s hs u hu hsu
      have hmem : s ∈ rs.map (image b t) := by
        rw [himages]
        exact List.mem_filter.mpr ⟨hs, decide_eq_true (List.mem_map.mpr ⟨u, hu, hsu.symm⟩)⟩
      obtain ⟨r, hr, rfl⟩ := List.mem_map.mp hmem
      exact hagree _ (hall r hr) u hu hsu
    · intro hall r hr
      have hmem : image b t r ∈ rs.map (image b t) := List.mem_map.mpr ⟨r, hr, rfl⟩
      rw [himages] at hmem
      obtain ⟨hs, hkey⟩ := List.mem_filter.mp hmem
      obtain ⟨u, hu, hsu⟩ := List.mem_map.mp (of_decide_eq_true hkey)
      exact hall _ hs u hu hsu.symm ▸ hu
  rw [writeCut, lift_bind_ok hps]
  simp only [Bool.not_false, Bool.and_true, if_true]
  rw [lift_bind_ok (by rw [readRecords, hfilter]; exact hread), hcompare]
  by_cases hall : ∀ r ∈ rs, image b t r ∈ us.map (image b t)
  · rw [if_pos hall, if_pos (hcross.mp hall)]
    -- the keys that were seen are those of the rows that are stored
    have hseen : ∀ u ∈ us, b.sha256 (keyText t u) ∈ (rs.map fun r => b.sha256 (keyText t r)) ↔
        image b t u ∈ db := by
      intro u hu
      have hstore := known.storable u (hus u hu)
      constructor
      · intro hmem
        obtain ⟨r, hr, heq⟩ := List.mem_map.mp hmem
        have hstore' := known.storable r (hrs r hr)
        have hkey := (keyHash_eq_iff known.tells (hrs r hr) (hus u hu) hstore' hstore).mp heq
        have hprimary := (primary_eq_iff known.tells (hrs r hr) (hus u hu) hstore' hstore).mpr hkey
        exact hagree _ (hall r hr) _ (List.mem_map.mpr ⟨u, hu, rfl⟩) hprimary ▸ hrsdb r hr
      · intro hmem
        have hfound : image b t u ∈ rs.map (image b t) := by
          rw [himages]
          exact List.mem_filter.mpr ⟨hmem, decide_eq_true
            (List.mem_map.mpr ⟨_, List.mem_map.mpr ⟨u, hu, rfl⟩, rfl⟩)⟩
        obtain ⟨r, hr, heq⟩ := List.mem_map.mp hfound
        have hstore' := known.storable r (hrs r hr)
        refine List.mem_map.mpr ⟨r, hr, ?_⟩
        exact (keyHash_eq_iff known.tells (hrs r hr) (hus u hu) hstore' hstore).mpr
          ((primary_eq_iff known.tells (hrs r hr) (hus u hu) hstore' hstore).mp (by rw [heq]))
    have hnew : ((us.map (entry b t)).filter fun e =>
        decide (e.key ∉ [] ++ rs.map fun r => b.sha256 (keyText t r))).mapM (boundRow b t) =
        .ok ((us.map (image b t)).filter fun u => decide (u ∉ db)) := by
      have hsplit : ((us.map (entry b t)).filter fun e =>
          decide (e.key ∉ [] ++ rs.map fun r => b.sha256 (keyText t r))) =
          (us.filter fun u => decide (image b t u ∉ db)).map (entry b t) := by
        rw [List.filter_map]
        congr 1
        refine List.filter_congr fun u hu => ?_
        simp only [Function.comp_apply, entry, List.nil_append]
        exact decide_eq_decide.mpr (not_congr (hseen u hu))
      have hmap : ((us.map (image b t)).filter fun u => decide (u ∉ db)) =
          (us.filter fun u => decide (image b t u ∉ db)).map (image b t) := by
        rw [List.filter_map]
        rfl
      rw [hsplit, hmap, List.mapM_map]
      refine mapM_eq_ok fun u hu => ?_
      exact boundRow_eq (known.storable u (hus u (List.mem_filter.mp hu).1)) _
    simp only [outcome]
    show (lift _ >>= _) = _
    rw [lift_bind_ok hnew]
    split
    · rename_i hnone
      rw [hnone, List.append_nil]
      rfl
    · have hinsert : insertRows t db ((us.map (image b t)).filter fun u => decide (u ∉ db)) =
          .ok (db ++ (us.map (image b t)).filter fun u => decide (u ∉ db)) := by
        refine insertRows_ok known h ?_ ?_ (hnodup.filter _) ?_
        · intro s hs
          obtain ⟨u, hu, rfl⟩ := List.mem_map.mp (List.mem_filter.mp hs).1
          exact ⟨u, hus u hu, rfl⟩
        · intro a ha a' ha' haa'
          rcases List.mem_append.mp ha with hheld | hnew <;>
            rcases List.mem_append.mp ha' with hheld' | hnew'
          · exact h.agree a hheld a' hheld' haa'
          · exact hcross.mp hall a hheld a' (List.mem_filter.mp hnew').1 haa'
          · exact (hcross.mp hall a' hheld' a (List.mem_filter.mp hnew).1 haa'.symm).symm
          · exact hagree a (List.mem_filter.mp hnew).1 a' (List.mem_filter.mp hnew').1 haa'
        · intro s hs
          exact of_decide_eq_true (List.mem_filter.mp hs).2
      rw [hinsert]
  · rw [if_neg hall, if_neg fun hc => hall (hcross.mpr hc)]
    rfl

/-! ## All the cuts -/

/-- What is done with one cut, whose distinct rows are known. -/
def writeBatch (b : Backend) (lim : Limits) (t : Table) (marked : Bool) (cut : List Record)
    (batch : Batch) (db : List (Stored b)) : Except Failure (List (Stored b)) :=
  if lim.packet < batch.bytes then
    if cut.length = 1 then .error .packet
    else writeImmutableRows b lim t marked true (cut.take (cut.length / 2)) db >>= fun half =>
      writeImmutableRows b lim t marked true (cut.drop (cut.length / 2)) half
  else writeCut b t true (insertNewMinuteFacts marked t) batch db

theorem writeImmutableRows_of_ne (lim : Limits) (marked : Bool) {rs : List Record} (hrs : rs ≠ [])
    (db : List (Stored b)) :
    writeImmutableRows b lim t marked true rs db =
      prepare b t (rs.take (lim.size t)) >>= fun batch =>
        writeBatch b lim t marked (rs.take (lim.size t)) batch db >>= fun next =>
          writeImmutableRows b lim t marked true (rs.drop (lim.size t)) next := by
  rw [writeImmutableRows, dif_neg hrs]
  cases hprepare : prepare b t (rs.take (lim.size t)) with
  | error e => simp only [hprepare]; rfl
  | ok batch =>
      simp only [hprepare, writeBatch, bind, Except.bind, Bool.true_and]
      split
      · split
        · rfl
        · cases writeImmutableRows b lim t marked true
            ((rs.take (lim.size t)).take ((rs.take (lim.size t)).length / 2)) db <;> rfl
      · rfl

/-- However the limits cut the rows, they are written as if one after another. -/
theorem writeImmutableRows_putAll (known : Known b t rows) (lim : Limits) {marked : Bool}
    (hmarked : insertNewMinuteFacts marked t = false) {rs : List Record} {db : List (Stored b)}
    (hrs : ∀ r ∈ rs, rows r) (hpacks : ∀ r ∈ rs, Packs t lim r) (h : Holds b t rows db) :
    writeImmutableRows b lim t marked true rs db =
      outcome (putAll t.primary db (rs.map (image b t))) := by
  induction hn : rs.length using Nat.strong_induction_on generalizing rs db with
  | _ n ih =>
    subst hn
    by_cases hempty : rs = []
    · rw [writeImmutableRows, dif_pos hempty, hempty]
      rfl
    rw [writeImmutableRows_of_ne lim marked hempty]
    have hpos : 0 < rs.length := List.length_pos_iff.mpr hempty
    have hsize := lim.size_pos t
    -- the rows of the first cut, and the others
    let cut := rs.take (lim.size t)
    have hcut : cut.length = min (lim.size t) rs.length := List.length_take
    have hcutrs : ∀ r ∈ cut, r ∈ rs := fun r hr => List.mem_of_mem_take hr
    have hsplit : putAll t.primary db (rs.map (image b t)) =
        putAll t.primary db (cut.map (image b t)) >>= fun next =>
          putAll t.primary next ((rs.drop (lim.size t)).map (image b t)) := by
      rw [← putAll_append, ← List.map_append, List.take_append_drop]
    have hagree : Agree t.primary (([] : List Record).map (image b t)) := fun a ha => by cases ha
    have hprepare := prepare_from known lim (fun r hr => hrs r (hcutrs r hr))
      (fun r hr => hpacks r (hcutrs r hr)) [] 0 (by simp) hagree
    rw [hsplit]
    cases hdistinct : putAll t.primary [] (cut.map (image b t)) with
    | none =>
        rw [List.map_nil, hdistinct] at hprepare
        have hfail : prepare b t cut = .error .conflict := hprepare
        rw [putAll_eq_none_of_cut h.agree hdistinct]
        simp only [cut] at hfail
        rw [hfail]
        rfl
    | some held =>
        rw [List.map_nil, hdistinct] at hprepare
        obtain ⟨us, m, hrun, rfl, hus, hm⟩ := hprepare
        have hok : prepare b t (rs.take (lim.size t)) = .ok ⟨us.map (entry b t), m⟩ := hrun
        have hnone : Holds b t rows [] := ⟨by simp, hagree, List.nodup_nil⟩
        have hheld := hnone.putAll (fun r hr => hrs r (hcutrs r hr)) hdistinct
        -- what the cut writes, in one go or in halves
        have hnext : writeBatch b lim t marked cut ⟨us.map (entry b t), m⟩ db =
            outcome (putAll t.primary db (cut.map (image b t))) := by
          unfold writeBatch
          split
          · rename_i hlarge
            have hmany : cut.length ≠ 1 := by
              intro hone
              have hbytes : lim.packet < m := hlarge
              rw [hone] at hm
              omega
            rw [if_neg hmany]
            have hhalves : putAll t.primary db (cut.map (image b t)) =
                putAll t.primary db ((cut.take (cut.length / 2)).map (image b t)) >>= fun next =>
                  putAll t.primary next ((cut.drop (cut.length / 2)).map (image b t)) := by
              rw [← putAll_append, ← List.map_append, List.take_append_drop]
            have hleft : ∀ r ∈ cut.take (cut.length / 2), r ∈ rs := fun r hr =>
              hcutrs r (List.mem_of_mem_take hr)
            have hright : ∀ r ∈ cut.drop (cut.length / 2), r ∈ rs := fun r hr =>
              hcutrs r (List.mem_of_mem_drop hr)
            rw [hhalves, ih _ (by rw [List.length_take]; omega) (fun r hr => hrs r (hleft r hr))
              (fun r hr => hpacks r (hleft r hr)) h rfl]
            cases hhalf : putAll t.primary db ((cut.take (cut.length / 2)).map (image b t)) with
            | none => rfl
            | some half =>
                have hhalfHolds := h.putAll (fun r hr => hrs r (hleft r hr)) hhalf
                exact ih _ (by rw [List.length_drop]; omega) (fun r hr => hrs r (hright r hr))
                  (fun r hr => hpacks r (hright r hr)) hhalfHolds rfl
          · rw [hmarked, writeCut_eq known h hus hheld.agree hheld.nodup,
              putAll_eq_of_cut h.agree hdistinct]
        rw [hok]
        show (writeBatch b lim t marked cut _ db >>= _) = _
        rw [hnext]
        cases hput : putAll t.primary db (cut.map (image b t)) with
        | none => rfl
        | some next =>
            have hnextHolds := h.putAll (fun r hr => hrs r (hcutrs r hr)) hput
            exact ih _ (by rw [List.length_drop]; omega)
              (fun r hr => hrs r (List.mem_of_mem_drop hr))
              (fun r hr => hpacks r (List.mem_of_mem_drop hr)) hnextHolds rfl

/-- Two answers that differ in the order of the rows at most. -/
def SameResult : Except Failure (List (Stored b)) → Except Failure (List (Stored b)) → Prop
  | .ok db, .ok db' => db.Perm db'
  | .error e, .error e' => e = e'
  | _, _ => False

/-- A server for text columns. The digest is no more than a length. -/
def texts : Backend where
  sha256 a := Vector.replicate 32 (UInt8.ofNat a.length)
  Cell := List UInt8
  sqlValue type v := (fun e => e.drop 21) <$> Encode type v
  fromSQL _ x := .ok (.string x)
  sqlValue_congr := by
    intro type v w e hv hw
    rw [hv, hw]

def textColumn (name : String) : Column := ⟨name, .string, Vector.replicate 16 0⟩

def notes : Table where
  name := "notes"
  key := ["id"]
  hashedKey := false
  multiplicity := false
  columns := [textColumn "id", textColumn "body"]
  nodup := by decide
  few := by decide

def note (id body : List UInt8) : Record := fun name =>
  if name = "id" then some (.string id) else if name = "body" then some (.string body) else none

theorem writeText_string {a : List UInt8} {s : Wire.Sink} (h : s.out.length + 4 + a.length ≤ maxBytes) :
    writeText .string a s = .ok ((s.write (Wire.bigEndian 4 a.length)).write a) := by
  have hlength : ¬ maxBytes < a.length := by omega
  have hbytes : ¬ maxBytes < (s.write (Wire.bigEndian 4 a.length)).out.length + a.length := by
    simp [Wire.Sink.write]
    omega
  simp only [writeText, Check.failIf, if_neg hlength, if_neg hbytes, bind, Except.bind, pure, Except.pure]

theorem encode_text {a : List UInt8} (h : a.length + 21 ≤ maxBytes) (name : String) :
    Encode (textColumn name).type (.string a) =
      .ok (1 :: List.replicate 16 0 ++ Wire.bigEndian 4 a.length ++ a) := by
  have htag : (Vector.replicate 16 (0 : UInt8)).toList = List.replicate 16 0 := rfl
  refine encode_eq_ok.mpr ⟨⟨1 :: List.replicate 16 0 ++ Wire.bigEndian 4 a.length ++ a, maxElements⟩,
    ?_, ?_, rfl⟩
  · simp only [textColumn, htag, writeValue, Value.indirect, Value.text?]
    rw [if_neg (by simp [maxBytes]), writeText_string (by simp; omega)]
    rfl
  · simp
    omega

variable {id body : List UInt8}

theorem written_note (hid : id.length + 21 ≤ maxBytes) (hbody : body.length + 21 ≤ maxBytes) :
    written (note id body) (textColumn "id") =
        1 :: List.replicate 16 0 ++ Wire.bigEndian 4 id.length ++ id ∧
      written (note id body) (textColumn "body") =
        1 :: List.replicate 16 0 ++ Wire.bigEndian 4 body.length ++ body := by
  constructor
  · have hvalue : (note id body (textColumn "id").name).getD .null = .string id := rfl
    rw [written, hvalue, encode_text hid]
    rfl
  · have hvalue : (note id body (textColumn "body").name).getD .null = .string body := rfl
    rw [written, hvalue, encode_text hbody]
    rfl

theorem storable_note (hid : id.length + 21 ≤ maxBytes) (hbody : body.length + 21 ≤ maxBytes) :
    Storable texts notes (note id body) := by
  have hcolumn : ∀ (name : String) (a : List UInt8), a.length + 21 ≤ maxBytes →
      ∃ e x w, Encode (textColumn name).type (.string a) = .ok e ∧
        texts.sqlValue (textColumn name).type (.string a) = .ok x ∧
        texts.fromSQL (textColumn name).type x = .ok w ∧ Encode (textColumn name).type w = .ok e := by
    intro name a ha
    have he := encode_text ha name
    refine ⟨_, a, .string a, he, ?_, rfl, he⟩
    have hlead : (1 :: List.replicate 16 0 ++ Wire.bigEndian 4 a.length).length = 21 := by simp
    show (fun e => e.drop 21) <$> Encode _ _ = _
    rw [he]
    exact congrArg Except.ok (List.drop_left' hlead)
  intro c hc
  rcases List.mem_cons.mp hc with rfl | hc
  · obtain ⟨e, x, w, h⟩ := hcolumn "id" id hid
    exact ⟨.string id, e, x, w, rfl, h⟩
  · obtain rfl := List.mem_singleton.mp hc
    obtain ⟨e, x, w, h⟩ := hcolumn "body" body hbody
    exact ⟨.string body, e, x, w, rfl, h⟩

theorem pack_note (hid : id.length + 21 ≤ maxBytes) (hbody : body.length + 21 ≤ maxBytes)
    (hall : id.length + body.length + 50 ≤ 32 * 2 ^ 20) :
    ∃ raw, PackMigrationRow notes (note id body) = .ok raw ∧
      raw.length = id.length + body.length + 50 := by
  obtain ⟨e, he, hlength⟩ : ∃ e, Encode (textColumn "id").type (.string id) = .ok e ∧
      e.length = id.length + 21 := ⟨_, encode_text hid "id", by simp; omega⟩
  obtain ⟨e', he', hlength'⟩ : ∃ e, Encode (textColumn "body").type (.string body) = .ok e ∧
      e.length = body.length + 21 := ⟨_, encode_text hbody "body", by simp; omega⟩
  have hvalue : note id body (textColumn "id").name = some (.string id) := rfl
  have hvalue' : note id body (textColumn "body").name = some (.string body) := rfl
  refine ⟨Wire.bigEndian 4 e.length ++ e ++ (Wire.bigEndian 4 e'.length ++ e'), ?_, by simp; omega⟩
  simp only [PackMigrationRow, notes, packColumns, hvalue, hvalue', he, he', Check.wrap,
    Check.failIf, bind, Except.bind]
  rw [if_neg (by simp; omega)]
  simp only
  rw [if_neg (by simp; omega)]
  rfl

theorem tells_note (hid : id.length + 21 ≤ maxBytes) (hbody : body.length + 21 ≤ maxBytes)
    (hmod : (body.length + 25) % 256 ≠ 0) : Tells texts notes fun r => r = note id body := by
  obtain ⟨hwrittenid, hwrittenbody⟩ := written_note hid hbody
  have hkey : (keyText notes (note id body)).length = id.length + 25 := by
    have hcolumns : notes.keyColumns = [textColumn "id"] := rfl
    rw [keyText, hcolumns, List.map_singleton, hwrittenid]
    simp [framed]
    omega
  have hrow : (rowText notes (note id body)).length = id.length + body.length + 50 := by
    have hcolumns : notes.columns = [textColumn "id", textColumn "body"] := rfl
    rw [rowText, hcolumns, List.map_cons, List.map_singleton, hwrittenid, hwrittenbody]
    simp [framed]
    omega
  -- the two texts differ in length, also as a byte
  have hdiff : texts.sha256 (keyText notes (note id body)) ≠ texts.sha256 (rowText notes (note id body)) := by
    intro heq
    have hhead := congrArg (fun v : Digest => v[0]) heq
    simp only [texts, Vector.getElem_replicate, hkey, hrow] at hhead
    have hnat := congrArg UInt8.toNat hhead
    simp only [UInt8.toNat_ofNat'] at hnat
    omega
  rintro x ⟨r, rfl, rfl | rfl⟩ y ⟨r, rfl, rfl | rfl⟩ heq
  · rfl
  · exact absurd heq hdiff
  · exact absurd heq.symm hdiff
  · rfl

theorem known_note (hid : id.length + 21 ≤ maxBytes) (hbody : body.length + 21 ≤ maxBytes)
    (hmod : (body.length + 25) % 256 ≠ 0) : Known texts notes fun r => r = note id body where
  storable := by
    rintro r rfl
    exact storable_note hid hbody
  tells := tells_note hid hbody hmod
  identified := by
    rintro r r' rfl rfl - -
    rfl

/-- A row of more than a packet is written by itself, not in bulk. -/
theorem large_note (hid : id.length + 21 ≤ maxBytes) (hbody : body.length + 21 ≤ maxBytes)
    (hmod : (body.length + 25) % 256 ≠ 0) (hall : id.length + body.length + 50 ≤ 32 * 2 ^ 20)
    (hlarge : limits.packet < id.length + body.length + 50) :
    (∃ db, putImmutable texts notes [] (note id body) = .ok db) ∧
      writeImmutableRows texts limits notes false true [note id body] [] = .error .packet := by
  have known := known_note hid hbody hmod
  have hnone : Holds texts notes (fun r => r = note id body) [] :=
    ⟨by simp, by simp [Agree], List.nodup_nil⟩
  constructor
  · refine ⟨[image texts notes (note id body)], ?_⟩
    rw [putImmutable_eq known hnone rfl]
    rfl
  · obtain ⟨raw, hraw, hlength⟩ := pack_note hid hbody hall
    have hshows := (storable_note hid hbody).shows
    have hcut : [note id body].take (limits.size notes) = [note id body] :=
      List.take_of_length_le (limits.size_pos notes)
    have hprepare : prepare texts notes [note id body] =
        .ok ⟨[entry texts notes (note id body)], raw.length⟩ := by
      rw [prepare, List.foldlM_cons, prepareRow, lift_bind_ok (keyHash_of_shows hshows),
        lift_bind_ok (rowHash_of_shows hshows), List.find?_nil]
      simp only [lift_bind_ok hraw]
      rw [Nat.zero_add]
      rfl
    rw [writeImmutableRows_of_ne limits false (List.cons_ne_nil _ _), hcut, hprepare]
    show (writeBatch texts limits notes false [note id body] _ [] >>= _) = _
    rw [writeBatch, if_pos (by rw [hlength]; exact hlarge), if_pos List.length_singleton]
    rfl

end MarketInfo.Mysql.Rows
