import MarketInfo.Codec.Laws
import MarketInfo.Lib.WriteOnce
import MarketInfo.Mysql.Bulk

/-! # What is known of a row

A row that can be stored is known by what the codec writes of its columns: its
digests, the row that the server holds, what is read back and which conditions it
satisfies follow from these bytes.
-/

namespace MarketInfo.Mysql.Rows

open Codec Wire

variable {b : Backend} {t : Table}

/-- A row that can be stored: every column has a value, which the codec writes and which comes back
from the server as it was sent. -/
def Storable (b : Backend) (t : Table) (r : Record) : Prop :=
  ∀ c ∈ t.columns, ∃ v e x w, r c.name = some v ∧ Encode c.type v = .ok e ∧
    b.sqlValue c.type v = .ok x ∧ b.fromSQL c.type x = .ok w ∧ Encode c.type w = .ok e

/-- What the codec writes of one column. -/
def written (r : Record) (c : Column) : List UInt8 :=
  (Encode c.type ((r c.name).getD .null)).toOption.getD []

def bound (b : Backend) (r : Record) (c : Column) : Option b.Cell :=
  (b.sqlValue c.type ((r c.name).getD .null)).toOption

def keyText (t : Table) (r : Record) : List UInt8 := framed (t.keyColumns.map (written r))

def rowText (t : Table) (r : Record) : List UInt8 := framed (t.columns.map (written r))

/-- The row that the server holds of a record. -/
def image (b : Backend) (t : Table) (r : Record) : Stored b where
  cells := t.columns.filterMap fun c => (bound b r c).map (c.name, ·)
  keyHash := if t.hashedKey then some (b.sha256 (keyText t r)) else none
  occurrence := if t.multiplicity then some 0 else none
  identity := if t.name = "instrument" then
    some (b.sha256 (framed ((t.columns.filter fun c => c.name != "instrument_id").map (written r))))
    else none

/-- The digest tells the texts of some rows apart. -/
def Tells (b : Backend) (t : Table) (rows : Record → Prop) : Prop :=
  Set.InjOn b.sha256 {a | ∃ r, rows r ∧ (a = keyText t r ∨ a = rowText t r)}

/-- No two of some rows of different keys have one identity. -/
def Identified (b : Backend) (t : Table) (rows : Record → Prop) : Prop :=
  ∀ r r', rows r → rows r' → (image b t r).identity ≠ none →
    (image b t r).identity = (image b t r').identity → t.primary (image b t r) = t.primary (image b t r')

/-- A record that is read as another one was written. -/
def Shows (t : Table) (o r : Record) : Prop :=
  ∀ c ∈ t.columns, ∃ v, o c.name = some v ∧ Encode c.type v = .ok (written r c)

/-! ## Columns -/

theorem mapM_eq_ok {α β ε : Type} {f : α → Except ε β} {g : α → β} {xs : List α}
    (h : ∀ a ∈ xs, f a = .ok (g a)) : xs.mapM f = .ok (xs.map g) := by
  induction xs with
  | nil => rfl
  | cons a xs ih =>
      rw [List.mapM_cons, h a (by simp), ih fun a' ha' => h a' (by simp [ha'])]
      rfl

theorem mapM_eq_ok_filterMap {α β ε : Type} {f : α → Except ε β} {g : α → Option β} {xs : List α}
    (h : ∀ a ∈ xs, ∃ y, f a = .ok y ∧ g a = some y) : xs.mapM f = .ok (xs.filterMap g) := by
  induction xs with
  | nil => rfl
  | cons a xs ih =>
      obtain ⟨y, hf, hg⟩ := h a (by simp)
      rw [List.mapM_cons, hf, ih fun a' ha' => h a' (by simp [ha']), List.filterMap_cons_some hg]
      rfl

theorem Table.mem_of_keyColumns {c : Column} (h : c ∈ t.keyColumns) : c ∈ t.columns := by
  obtain ⟨name, -, hfind⟩ := List.mem_filterMap.mp h
  exact List.mem_of_find?_eq_some hfind

theorem mem_of_predicateColumns {c : Column} (h : c ∈ t.predicateColumns) : c ∈ t.keyColumns :=
  (List.mem_filter.mp h).1

/-- A list of named columns gives back each by its name. -/
theorem find_column {α : Type} {g : Column → Option α} {columns : List Column}
    (hnodup : (columns.map Column.name).Nodup) {c : Column} (hc : c ∈ columns)
    (hsome : ∀ c ∈ columns, (g c).isSome) :
    (((columns.filterMap fun c => (g c).map (c.name, ·)).find? fun p => p.1 == c.name).map Prod.snd) =
      g c := by
  induction columns with
  | nil => cases hc
  | cons c' columns ih =>
      rw [List.map_cons, List.nodup_cons] at hnodup
      obtain ⟨x, hx⟩ := Option.isSome_iff_exists.mp (hsome c' (by simp))
      rw [List.filterMap_cons_some (b := (c'.name, x)) (by rw [hx]; rfl)]
      rcases List.mem_cons.mp hc with rfl | hrest
      · rw [List.find?_cons_of_pos (by simp), hx]
        rfl
      · have hne : c'.name ≠ c.name := fun heq =>
          hnodup.1 (heq ▸ List.mem_map.mpr ⟨c, hrest, rfl⟩)
        rw [List.find?_cons_of_neg (by simpa using hne)]
        exact ih hnodup.2 hrest fun c hc => hsome c (by simp [hc])

section

variable {r r' o : Record}

theorem Storable.encode (h : Storable b t r) {c : Column} (hc : c ∈ t.columns) :
    ∃ v, r c.name = some v ∧ Encode c.type v = .ok (written r c) := by
  obtain ⟨v, e, x, w, hv, he, -⟩ := h c hc
  refine ⟨v, hv, ?_⟩
  rw [written, hv, Option.getD_some, he]
  rfl

theorem Storable.shows (h : Storable b t r) : Shows t r r := fun _ hc => h.encode hc

theorem Storable.bound (h : Storable b t r) {c : Column} (hc : c ∈ t.columns) :
    ∃ v x, r c.name = some v ∧ b.sqlValue c.type v = .ok x ∧ bound b r c = some x := by
  obtain ⟨v, e, x, w, hv, he, hx, -⟩ := h c hc
  refine ⟨v, x, hv, hx, ?_⟩
  rw [Rows.bound, hv, Option.getD_some, hx]
  rfl

theorem Storable.cell (h : Storable b t r) {c : Column} (hc : c ∈ t.columns) :
    (image b t r).cell c.name = Rows.bound b r c := by
  refine find_column t.nodup hc fun c' hc' => ?_
  obtain ⟨v, x, -, -, hbound⟩ := h.bound hc'
  rw [hbound]
  rfl

/-- Two rows have a column alike iff the server gets the same for it. -/
theorem bound_eq_iff (h : Storable b t r) (h' : Storable b t r') {c : Column} (hc : c ∈ t.columns) :
    bound b r c = bound b r' c ↔ written r c = written r' c := by
  obtain ⟨v, e, x, w, hv, he, hx, hw, hback⟩ := h c hc
  obtain ⟨v', e', x', w', hv', he', hx', hw', hback'⟩ := h' c hc
  have hbound : bound b r c = some x := by
    rw [bound, hv, Option.getD_some, hx]
    rfl
  have hbound' : bound b r' c = some x' := by
    rw [bound, hv', Option.getD_some, hx']
    rfl
  have hwritten : written r c = e := by
    rw [written, hv, Option.getD_some, he]
    rfl
  have hwritten' : written r' c = e' := by
    rw [written, hv', Option.getD_some, he']
    rfl
  rw [hbound, hbound', hwritten, hwritten', Option.some_inj]
  constructor
  · rintro rfl
    -- the server gives back one value for both
    obtain rfl : w = w' := Except.ok.inj (hw.symm.trans hw')
    exact Except.ok.inj (hback.symm.trans hback')
  · rintro rfl
    have hsame := b.sqlValue_congr c.type v v' e he he'
    rw [hx, hx'] at hsame
    exact Except.ok.inj hsame

/-! ## Digests -/

theorem length_written_lt (h : Storable b t r) {c : Column} (hc : c ∈ t.columns) :
    (written r c).length < 256 ^ 4 := by
  obtain ⟨v, -, he⟩ := h.encode hc
  obtain ⟨s, -, hlimit, hdata⟩ := encode_eq_ok.mp he
  rw [← hdata]
  have hmax : maxBytes < 256 ^ 4 := by norm_num [maxBytes]
  omega

/-- The framing tells the columns apart. -/
theorem framed_inj (h : Storable b t r) (h' : Storable b t r') {columns : List Column}
    (hsub : ∀ c ∈ columns, c ∈ t.columns)
    (heq : framed (columns.map (written r)) = framed (columns.map (written r'))) :
    ∀ c ∈ columns, written r c = written r' c := by
  induction columns with
  | nil => simp
  | cons c columns ih =>
      have hc := hsub c (by simp)
      simp only [framed, List.map_cons, List.flatMap_cons, List.append_assoc] at heq
      obtain ⟨hlength, hrest⟩ := List.append_inj heq (by simp)
      have hlen : (written r c).length = (written r' c).length := by
        have hback := congrArg ofBigEndian hlength
        rwa [ofBigEndian_bigEndian_of_lt (length_written_lt h hc),
          ofBigEndian_bigEndian_of_lt (length_written_lt h' hc)] at hback
      obtain ⟨hfirst, htail⟩ := List.append_inj hrest hlen
      intro c' hc'
      rcases List.mem_cons.mp hc' with rfl | hc'
      · exact hfirst
      · exact ih (fun c hc => hsub c (by simp [hc])) htail c' hc'

theorem encodeColumns_of_shows (h : Shows t o r) {columns : List Column}
    (hsub : ∀ c ∈ columns, c ∈ t.columns) :
    encodeColumns columns o = .ok (columns.map (written r)) := by
  refine mapM_eq_ok fun c hc => ?_
  obtain ⟨v, hv, he⟩ := h c (hsub c hc)
  rw [hv, Option.getD_some, he]

theorem keyHash_of_shows (h : Shows t o r) : keyHash b t o = .ok (b.sha256 (keyText t r)) := by
  rw [keyHash, encodeColumns_of_shows h fun c hc => Table.mem_of_keyColumns hc]
  rfl

theorem rowHash_of_shows (h : Shows t o r) : rowHash b t o = .ok (b.sha256 (rowText t r)) := by
  have hcolumns : t.columns.mapM (columnBytes o) = .ok (t.columns.map (written r)) := by
    refine mapM_eq_ok fun c hc => ?_
    obtain ⟨v, hv, he⟩ := h c hc
    rw [columnBytes, hv]
    simp only [he]
    rfl
  rw [rowHash, hcolumns]
  rfl

/-- The rows agree on the key. -/
def SameKey (t : Table) (r r' : Record) : Prop := ∀ c ∈ t.keyColumns, written r c = written r' c

variable {rows : Record → Prop}

theorem keyHash_eq_iff (htells : Tells b t rows) (hr : rows r) (hr' : rows r') (h : Storable b t r)
    (h' : Storable b t r') :
    b.sha256 (keyText t r) = b.sha256 (keyText t r') ↔ SameKey t r r' := by
  constructor
  · intro heq
    have htext := htells ⟨r, hr, .inl rfl⟩ ⟨r', hr', .inl rfl⟩ heq
    exact framed_inj h h' (fun c hc => Table.mem_of_keyColumns hc) htext
  · intro hsame
    rw [keyText, keyText, List.map_congr_left hsame]

theorem rowHash_eq_iff (htells : Tells b t rows) (hr : rows r) (hr' : rows r') (h : Storable b t r)
    (h' : Storable b t r') :
    b.sha256 (rowText t r) = b.sha256 (rowText t r') ↔ image b t r = image b t r' := by
  have himage : image b t r = image b t r' ↔ ∀ c ∈ t.columns, written r c = written r' c := by
    constructor
    · intro heq c hc
      have hcell := congrArg (fun s => s.cell c.name) heq
      simp only [h.cell hc, h'.cell hc] at hcell
      exact (bound_eq_iff h h' hc).mp hcell
    · intro hsame
      have hcells : (t.columns.filterMap fun c => (bound b r c).map (c.name, ·)) =
          t.columns.filterMap fun c => (bound b r' c).map (c.name, ·) :=
        List.filterMap_congr fun c hc => by rw [(bound_eq_iff h h' hc).mpr (hsame c hc)]
      have hkey : keyText t r = keyText t r' := by
        rw [keyText, keyText, List.map_congr_left fun c hc => hsame c (Table.mem_of_keyColumns hc)]
      have hidentity : ((t.columns.filter fun c => c.name != "instrument_id").map (written r)) =
          (t.columns.filter fun c => c.name != "instrument_id").map (written r') :=
        List.map_congr_left fun c hc => hsame c (List.mem_filter.mp hc).1
      rw [image, image, hcells, hkey, hidentity]
  rw [himage]
  constructor
  · intro heq
    have htext := htells ⟨r, hr, .inr rfl⟩ ⟨r', hr', .inr rfl⟩ heq
    exact framed_inj h h' (fun c hc => hc) htext
  · intro hsame
    rw [rowText, rowText, List.map_congr_left hsame]

/-! ## The stored row -/

theorem primary_eq_iff (htells : Tells b t rows) (hr : rows r) (hr' : rows r') (h : Storable b t r)
    (h' : Storable b t r') :
    t.primary (image b t r) = t.primary (image b t r') ↔ SameKey t r r' := by
  cases hhashed : t.hashedKey
  · simp only [Table.primary, image, hhashed, Prod.mk.injEq, true_and, Bool.false_eq_true, if_false]
    rw [List.map_inj_left]
    refine forall₂_congr fun c hc => ?_
    have hcell := Table.mem_of_keyColumns hc
    have hleft := h.cell hcell
    have hright := h'.cell hcell
    simp only [image, hhashed, Bool.false_eq_true, if_false] at hleft hright
    rw [hleft, hright, bound_eq_iff h h' hcell]
  · simp only [Table.primary, image, hhashed, Prod.mk.injEq, if_true, Option.some_inj, and_true]
    exact keyHash_eq_iff htells hr hr' h h'

theorem storedRow_eq (h : Storable b t r) : storedRow b t r = .ok (image b t r) := by
  have hcells : t.columns.mapM (insertColumn b r) =
      .ok (t.columns.filterMap fun c => (bound b r c).map (c.name, ·)) := by
    refine mapM_eq_ok_filterMap fun c hc => ?_
    obtain ⟨v, x, hv, hx, hbound⟩ := h.bound hc
    refine ⟨(c.name, x), ?_, by rw [hbound]; rfl⟩
    rw [insertColumn, hv]
    simp only [hx]
    rfl
  have hidentity : instrumentIdentityHash b t r =
      .ok (b.sha256 (framed ((t.columns.filter fun c => c.name != "instrument_id").map (written r)))) := by
    rw [instrumentIdentityHash, encodeColumns_of_shows h.shows fun c hc => (List.mem_filter.mp hc).1]
    rfl
  rw [storedRow, hcells, keyHash_of_shows h.shows, hidentity, image]
  cases t.hashedKey <;> by_cases hname : t.name = "instrument" <;> simp only [hname] <;> rfl

/-- A bulk statement binds what the single one does. -/
theorem boundRow_eq (h : Storable b t r) (hash : Digest) :
    boundRow b t ⟨b.sha256 (keyText t r), hash, r⟩ = .ok (image b t r) := by
  have hcells : (t.columns.mapM fun c => (c.name, ·) <$> b.sqlValue c.type ((r c.name).getD .null)) =
      .ok (t.columns.filterMap fun c => (bound b r c).map (c.name, ·)) := by
    refine mapM_eq_ok_filterMap fun c hc => ?_
    obtain ⟨v, x, hv, hx, hbound⟩ := h.bound hc
    refine ⟨(c.name, x), ?_, by rw [hbound]; rfl⟩
    rw [hv, Option.getD_some, hx]
    rfl
  have hidentity : instrumentIdentityHash b t r =
      .ok (b.sha256 (framed ((t.columns.filter fun c => c.name != "instrument_id").map (written r)))) := by
    rw [instrumentIdentityHash, encodeColumns_of_shows h.shows fun c hc => (List.mem_filter.mp hc).1]
    rfl
  rw [boundRow, hcells, hidentity, image]
  cases t.hashedKey <;> by_cases hname : t.name = "instrument" <;> simp only [hname] <;> rfl

theorem readRecord_eq (h : Storable b t r) :
    ∃ o, readRecord t (image b t r) = .ok o ∧ Shows t o r := by
  -- what comes back of each column
  let back := fun c : Column => (bound b r c).bind fun x => (b.fromSQL c.type x).toOption
  have hback : ∀ c ∈ t.columns, ∃ x w, bound b r c = some x ∧ b.fromSQL c.type x = .ok w ∧
      back c = some w ∧ Encode c.type w = .ok (written r c) := by
    intro c hc
    obtain ⟨v, e, x, w, hv, he, hx, hw, hwe⟩ := h c hc
    have hbound : bound b r c = some x := by
      rw [bound, hv, Option.getD_some, hx]
      rfl
    have hwritten : written r c = e := by
      rw [written, hv, Option.getD_some, he]
      rfl
    refine ⟨x, w, hbound, hw, ?_, hwritten ▸ hwe⟩
    simp only [back, hbound, Option.bind_some, hw]
    rfl
  have hvalues : t.columns.mapM (readColumn (image b t r)) =
      .ok (t.columns.filterMap fun c => (back c).map (c.name, ·)) := by
    refine mapM_eq_ok_filterMap fun c hc => ?_
    obtain ⟨x, w, hbound, hw, hsome, -⟩ := hback c hc
    refine ⟨(c.name, w), ?_, by rw [hsome]; rfl⟩
    rw [readColumn, h.cell hc, hbound]
    simp only [hw]
    rfl
  refine ⟨_, by rw [readRecord, hvalues]; rfl, fun c hc => ?_⟩
  obtain ⟨x, w, -, -, hsome, hwe⟩ := hback c hc
  refine ⟨w, ?_, hwe⟩
  rw [find_column t.nodup hc fun c' hc' => ?_]
  · exact hsome
  · obtain ⟨x', w', -, -, hsome', -⟩ := hback c' hc'
    rw [hsome']
    rfl

/-! ## Conditions -/

/-- The condition of a row, in the form of either statement, is satisfied by the rows of its key. -/
theorem admits_iff (htells : Tells b t rows) (hr : rows r) (h : Storable b t r) :
    ∃ p, rowPredicate b t r = .ok p ∧
      ∀ occurrence, (occurrence = p.occurrence ∨ occurrence = none) →
        ∀ r', rows r' → Storable b t r' →
          (Predicate.Admits ⟨p.keyHash, occurrence, p.cells⟩ (image b t r') ↔
            t.primary (image b t r') = t.primary (image b t r)) := by
  have hcells : (t.predicateColumns.mapM fun c => (c.name, ·) <$> b.sqlValue c.type ((r c.name).getD .null)) =
      .ok (t.predicateColumns.filterMap fun c => (bound b r c).map (c.name, ·)) := by
    refine mapM_eq_ok_filterMap fun c hc => ?_
    obtain ⟨v, x, hv, hx, hbound⟩ := h.bound (Table.mem_of_keyColumns (mem_of_predicateColumns hc))
    refine ⟨(c.name, x), ?_, by rw [hbound]; rfl⟩
    rw [hv, Option.getD_some, hx]
    rfl
  refine ⟨⟨if t.hashedKey then some (b.sha256 (keyText t r)) else none,
    if t.hashedKey && t.multiplicity then some 0 else none,
    t.predicateColumns.filterMap fun c => (bound b r c).map (c.name, ·)⟩, ?_, ?_⟩
  · rw [rowPredicate, hcells, keyHash_of_shows h.shows]
    cases t.hashedKey <;> rfl
  · intro occurrence hocc r' hr' h'
    rw [primary_eq_iff htells hr' hr h' h]
    have hmem : ∀ p : String × b.Cell,
        p ∈ (t.predicateColumns.filterMap fun c => (bound b r c).map (c.name, ·)) ↔
          ∃ c ∈ t.predicateColumns, bound b r c = some p.2 ∧ c.name = p.1 := by
      intro p
      simp only [List.mem_filterMap, Option.map_eq_some_iff]
      constructor
      · rintro ⟨c, hc, x, hx, rfl⟩
        exact ⟨c, hc, hx, rfl⟩
      · rintro ⟨c, hc, hx, hname⟩
        exact ⟨c, hc, p.2, hx, by rw [hname]⟩
    constructor
    · rintro ⟨hhash, -, hall⟩
      cases hhashed : t.hashedKey
      · intro c hc
        have hcolumn := Table.mem_of_keyColumns hc
        obtain ⟨v, x, -, -, hbound⟩ := h.bound hcolumn
        have hpredicate : c ∈ t.predicateColumns := List.mem_filter.mpr ⟨hc, by simp [hhashed]⟩
        have hcell := hall (c.name, x) ((hmem _).mpr ⟨c, hpredicate, hbound, rfl⟩)
        rw [h'.cell hcolumn, ← hbound] at hcell
        exact (bound_eq_iff h' h hcolumn).mp hcell
      · simp only [hhashed, if_true, image] at hhash
        exact (keyHash_eq_iff htells hr' hr h' h).mp (Option.some_inj.mp (hhash _ rfl))
    · intro hsame
      refine ⟨fun hash hhash => ?_, fun n hn => ?_, fun p hp => ?_⟩
      · cases hhashed : t.hashedKey
        · simp [hhashed] at hhash
        · simp only [hhashed, if_true, Option.some_inj, image] at hhash ⊢
          rw [← hhash]
          exact (keyHash_eq_iff htells hr' hr h' h).mpr hsame
      · rcases hocc with hocc | hocc
        · simp only [hocc] at hn
          split at hn
          · rename_i hboth
            simp only [Bool.and_eq_true] at hboth
            simpa [image, hboth.2] using hn
          · cases hn
        · rw [hocc] at hn
          cases hn
      · obtain ⟨c, hc, hbound, hname⟩ := (hmem p).mp hp
        have hkey := mem_of_predicateColumns hc
        have hcolumn := Table.mem_of_keyColumns hkey
        rw [← hname, h'.cell hcolumn, ← hbound]
        exact (bound_eq_iff h' h hcolumn).mpr (hsame c hkey)

end

end MarketInfo.Mysql.Rows
