import MarketInfo.Mysql.CompactColumns

/-! # Compact columns round trip

What is expanded from the compact columns of an accepted row is the row: the
positions at which a column changes say where each of its values goes, whatever the
pattern of repeats. Expanding refuses every other list of positions, and no index it
uses leaves its slice.
-/

namespace MarketInfo.Mysql.Compact

open RunLength

/-! ## Sequences of checks -/

theorem mapM_eq_ok_iff {ε α β : Type} {f : α → Except ε β} {xs : List α} {ys : List β} :
    xs.mapM f = .ok ys ↔ List.Forall₂ (fun a b => f a = .ok b) xs ys := by
  induction xs generalizing ys with
  | nil =>
      rw [List.mapM_nil, List.forall₂_nil_left_iff]
      constructor
      · exact fun h => (Except.ok.inj h).symm
      · rintro rfl
        rfl
  | cons x xs ih =>
      rw [List.mapM_cons, Check.andThen_eq_ok, List.forall₂_cons_left_iff]
      constructor
      · rintro ⟨y, hy, hrest⟩
        rcases Check.andThen_eq_ok.mp hrest with ⟨zs, hzs, h⟩
        exact ⟨y, zs, hy, ih.mp hzs, (Except.ok.inj h).symm⟩
      · rintro ⟨y, zs, hy, hzs, rfl⟩
        exact ⟨y, hy, Check.andThen_eq_ok.mpr ⟨zs, ih.mpr hzs, rfl⟩⟩

/-- Checks that give a function of what they check. -/
theorem mapM_eq_ok_map {ε α β : Type} {f : α → Except ε β} {g : α → β} {xs : List α}
    (h : ∀ x ∈ xs, f x = .ok (g x)) : xs.mapM f = .ok (xs.map g) := by
  rw [mapM_eq_ok_iff, List.forall₂_map_right_iff]
  exact List.forall₂_same.mpr h

theorem map_eq_ok {ε α β : Type} {x : Except ε α} {g : α → β} {b : β} :
    x.map g = .ok b ↔ ∃ a, x = .ok a ∧ g a = b := by
  cases x with
  | error e => simp [Except.map]
  | ok a => simp [Except.map]

/-! ## Names -/

/-- The names of a table's fields are told apart from each other, from the names of
the compact columns and from the minute. -/
structure NamesApart (fields : List CompactField) : Prop where
  distinct : (fields.map CompactField.name).Nodup
  physical : ∀ f ∈ fields, ∀ g ∈ fields,
    g.name ≠ f.digestName ∧ g.name ≠ f.offsetsName ∧ g.name ≠ f.valuesName
  minute : ∀ f ∈ fields, f.name ≠ "minute_time"

instance (fields : List CompactField) : Decidable (NamesApart fields) :=
  decidable_of_iff ((fields.map CompactField.name).Nodup ∧
      (∀ f ∈ fields, ∀ g ∈ fields,
        g.name ≠ f.digestName ∧ g.name ≠ f.offsetsName ∧ g.name ≠ f.valuesName) ∧
      ∀ f ∈ fields, f.name ≠ "minute_time")
    ⟨fun h => ⟨h.1, h.2.1, h.2.2⟩, fun h => ⟨h.distinct, h.physical, h.minute⟩⟩

theorem namesApart (table : String) : NamesApart (optionCompactFields table) := by
  unfold optionCompactFields
  split
  · decide +kernel
  · split
    · decide +kernel
    · split
      · decide +kernel
      · split
        · decide +kernel
        · split
          · decide +kernel
          · decide +kernel

theorem compactFieldMap_eq {table : String} {f : CompactField} (hf : f ∈ optionCompactFields table) :
    compactFieldMap table f.name = some f := by
  have hdistinct := (namesApart table).distinct
  unfold compactFieldMap
  generalize optionCompactFields table = fields at hf hdistinct
  induction fields with
  | nil => cases hf
  | cons g rest ih =>
      rw [List.map_cons, List.nodup_cons] at hdistinct
      rcases List.mem_cons.mp hf with rfl | hrest
      · exact List.find?_cons_of_pos (by simp)
      · have hne : g.name ≠ f.name := fun h => hdistinct.1 (h ▸ List.mem_map_of_mem hrest)
        rw [List.find?_cons_of_neg (by simpa using hne)]
        exact ih hrest hdistinct.2

/-! ## Digests -/

theorem length_hexEncode (b : Bytes) : (hexEncode b).length = 2 * b.length := by
  induction b with
  | nil => rfl
  | cons x b ih =>
      have hcons : hexEncode (x :: b) = hexDigit (x / 16) :: hexDigit (x % 16) :: hexEncode b := rfl
      rw [hcons, List.length_cons, List.length_cons, List.length_cons, ih]
      omega

/-- A digest that is accepted is the hex text of its 32 bytes. -/
theorem compactBinaryDigest_eq_ok {s b : Bytes} (h : compactBinaryDigest s = .ok b) :
    b.length = 32 ∧ hexEncode b = s := by
  unfold compactBinaryDigest at h
  split at h
  · cases h
  · rename_i hlength
    split at h
    · cases h
    · split at h
      · rename_i b' hdecode hencode
        obtain rfl := Except.ok.inj h
        have hlen := length_hexEncode b'
        rw [hencode] at hlen
        exact ⟨by omega, hencode⟩
      · cases h

theorem expandDigest_of {s b : Bytes} (h : compactBinaryDigest s = .ok b) :
    expandDigest (.text b) = .ok (.text s) := by
  rcases compactBinaryDigest_eq_ok h with ⟨hlength, hencode⟩
  unfold expandDigest
  dsimp only
  rw [if_neg (by omega), hencode]

/-! ## The loop over the offsets -/

theorem writeSlots_eq {x : Cell} {count second : Nat} {out : List Cell}
    (h : second + count ≤ out.length) : writeSlots x count second out = .ok (fill x count second out) := by
  induction count generalizing second out with
  | zero => rfl
  | succ count ih =>
      rw [writeSlots, if_pos (by omega), ih (by rw [List.length_set]; omega)]
      rfl

/-- The offset of a position within the minute. -/
def offsetCell (k : Nat) : Cell := .uint8 (UInt8.ofNat k)

theorem toNat_offset {k : Nat} (hk : k < 60) : (UInt8.ofNat k).toNat = k :=
  UInt8.toNat_ofNat_of_lt' (hk.trans (by decide))

theorem not_late {k : Nat} (hk : k < 60) : ¬ 59 < UInt8.ofNat k := by
  have hlast : (59 : UInt8).toNat = 59 := rfl
  rw [UInt8.lt_iff_toNat_lt, toNat_offset hk, hlast]
  omega

theorem runStart_eq {i k : Nat} (hk : k < 60) (hfirst : i = 0 → k = 0) :
    runStart i (offsetCell k) = .ok k := by
  unfold offsetCell runStart
  dsimp only
  rw [if_neg, toNat_offset hk]
  rintro (h | ⟨hi, hne⟩)
  · exact not_late hk h
  · rw [hfirst hi] at hne
    exact hne rfl

theorem runEnd_eq {start : Nat} {rest : List Nat} (hrest : ∀ k ∈ rest, k < 60) (hlt : ∀ k ∈ rest, start < k) :
    runEnd start (rest.map offsetCell).head? = .ok (rest.headD 60) := by
  cases rest with
  | nil => rfl
  | cons k rest =>
      have hk := hrest k (List.mem_cons_self ..)
      have hs := hlt k (List.mem_cons_self ..)
      rw [List.map_cons, List.head?_cons, List.headD_cons]
      unfold offsetCell runEnd
      dsimp only
      rw [if_neg, toNat_offset hk]
      rintro (h | h)
      · rw [toNat_offset hk] at h
        omega
      · exact not_late hk h

/-- Offsets that fit are followed, and each run gets its value. -/
theorem expandRuns_eq {kind : Kind} {r : Record} {stored g : Nat → Cell} {pre ks : List Nat}
    {out : List Cell} (hlength : out.length = 60) (hsorted : ks.Pairwise (· < ·)) (hbound : ∀ k ∈ ks, k < 60)
    (hfirst : pre = [] → ∀ k ∈ ks.head?, k = 0)
    (hvalue : ∀ k ∈ ks, expandValue kind r (stored k) = .ok (g k)) :
    expandRuns kind r ((pre ++ ks).map stored) pre.length (ks.map offsetCell) out =
      .ok (rebuild g 60 ks out) := by
  induction ks generalizing pre out with
  | nil => rfl
  | cons k rest ih =>
      rcases List.pairwise_cons.mp hsorted with ⟨hlt, hrest⟩
      have hk := hbound k (List.mem_cons_self ..)
      have hbound' : ∀ j ∈ rest, j < 60 := fun j hj => hbound j (List.mem_cons_of_mem _ hj)
      have hstart : runStart pre.length (offsetCell k) = .ok k :=
        runStart_eq hk fun hzero => hfirst (List.length_eq_zero_iff.mp hzero) k rfl
      have hread : ((pre ++ k :: rest).map stored)[pre.length]? = some (stored k) := by
        rw [List.getElem?_map, List.getElem?_append_right (le_refl _), Nat.sub_self]
        rfl
      have hstop : k + (rest.headD 60 - k) ≤ out.length := by
        cases rest with
        | nil =>
            rw [List.headD_nil]
            omega
        | cons j rest =>
            have := hbound' j (List.mem_cons_self ..)
            have := hlt j (List.mem_cons_self ..)
            rw [List.headD_cons]
            omega
      have hnext := @ih (pre ++ [k]) (fill (g k) (rest.headD 60 - k) k out)
        (by rw [length_fill, hlength]) hrest hbound' (by simp)
        fun j hj => hvalue j (List.mem_cons_of_mem _ hj)
      rw [List.append_assoc, List.singleton_append, List.length_append, List.length_singleton] at hnext
      rw [List.map_cons, expandRuns, hstart]
      simp only [bind, Except.bind, runEnd_eq hbound' hlt, hread, Option.elim_some,
        hvalue k (List.mem_cons_self ..), writeSlots_eq hstop]
      exact hnext

/-- A column that was compacted is expanded to an image of its values. -/
theorem expandColumn_eq {f : CompactField} {r : Record} {xs : List Cell} {store : Cell → Cell}
    (back : Cell → Cell) (hlength : xs.length = 60)
    (hoffsets : r f.offsetsName = some (.list ((starts xs).map offsetCell)))
    (hvalues : r f.valuesName =
      some (.list ((starts xs).map fun i => store ((xs[i]?).getD .null))))
    (hback : ∀ k ∈ starts xs,
      expandValue f.kind r (store ((xs[k]?).getD .null)) = .ok (back ((xs[k]?).getD .null))) :
    expandColumn f r = .ok (xs.map back) := by
  rcases exists_starts (by omega : 0 < xs.length) with ⟨rest, hrest⟩
  have hbound : ∀ k ∈ starts xs, k < 60 := fun k hk => hlength ▸ (mem_starts.mp hk).1
  have hshort : (starts xs).length ≤ 60 := by
    unfold starts
    exact (List.length_filter_le _ _).trans (by rw [List.length_range, hlength])
  have hrun := @expandRuns_eq f.kind r (fun i => store ((xs[i]?).getD .null))
    (fun i => back ((xs[i]?).getD .null)) [] (starts xs) (List.replicate 60 .null) (List.length_replicate ..) (sorted_starts xs) hbound
    (fun _ k hk => by rw [hrest] at hk; exact (Option.some.inj hk).symm) hback
  have hblank : (List.replicate 60 Cell.null).length = xs.length := by rw [List.length_replicate, hlength]
  have hrebuild := rebuild_starts (fun x => back (x.getD .null)) xs hblank
  rw [hlength] at hrebuild
  unfold expandColumn
  rw [hoffsets, hvalues]
  dsimp only
  rw [if_neg]
  · rw [List.nil_append] at hrun
    exact hrun.trans (congrArg Except.ok hrebuild)
  · rw [List.length_map, List.length_map]
    rintro (h | h | h)
    · exact h rfl
    · rw [hrest] at h
      cases h
    · omega

/-! ## The kinds of columns -/

/-- The same instant, in UTC. -/
def GoTime.utc (t : GoTime) : GoTime := ⟨t.nanos, 0⟩

/-- What a column of a kind holds again after it was expanded: its values, and of a
time the instant. -/
def Value.restored (kind : Kind) : Value → Stored
  | .cell c => .cell c
  | .times ts =>
      .list (ts.map fun t => t.elim .null fun t => .time (if kind = .time then t.utc else t))
  | v => .list (v.slots.getD [])

def fits64 (n : Int) : Prop := -(2 ^ 63) ≤ n ∧ n < 2 ^ 63

/-- A time so near to the minute that both and their distance are numbers of
microseconds in 64 bits. -/
structure Around (minute t : GoTime) : Prop where
  base : fits64 (minute.nanos / 1000)
  time : fits64 (t.nanos / 1000)
  distance : fits64 (t.nanos / 1000 - minute.nanos / 1000)

theorem toInt_ofInt {n : Int} (h : fits64 n) : (Int64.ofInt n).toInt = n :=
  Int64.toInt_ofInt_of_le h.1 h.2

theorem toInt_sub {a b : Int64} (h : fits64 (a.toInt - b.toInt)) : (a - b).toInt = a.toInt - b.toInt := by
  unfold fits64 at h
  rw [Int64.toInt_sub]
  exact Int.bmod_eq_of_le (by omega) (by omega)

/-- The distance from the minute leads back to the time. -/
theorem expandTime {r : Record} {minute t : GoTime} (hminute : r "minute_time" = some (.cell (.time minute)))
    (haround : Around minute t) (hmicro : t.nanos % 1000 = 0) :
    expandValue .time r (.int64 (t.unixMicro - minute.unixMicro)) = .ok (.time t.utc) := by
  have hm : minute.unixMicro.toInt = minute.nanos / 1000 := toInt_ofInt haround.base
  have ht : t.unixMicro.toInt = t.nanos / 1000 := toInt_ofInt haround.time
  have hd : (t.unixMicro - minute.unixMicro).toInt = t.nanos / 1000 - minute.nanos / 1000 := by
    rw [toInt_sub (by rw [ht, hm]; exact haround.distance), ht, hm]
  have hsum : minute.unixMicro + (t.unixMicro - minute.unixMicro) = t.unixMicro := by
    rw [Int64.add_comm, Int64.sub_add_cancel]
  have hback : GoTime.ofMicro (minute.unixMicro + (t.unixMicro - minute.unixMicro)) = t.utc := by
    rw [hsum]
    unfold GoTime.ofMicro GoTime.utc
    rw [ht]
    congr 1
    omega
  have htime := haround.time
  have hdistance := haround.distance
  have hmax : Int64.maxValue.toInt = 2 ^ 63 - 1 := rfl
  have hmin : Int64.minValue.toInt = -(2 ^ 63) := rfl
  unfold fits64 at htime hdistance
  generalize t.unixMicro - minute.unixMicro = offset at hd hback ⊢
  -- neither end of the 64 bits is passed on the way back
  have hno : ¬ ((0 < offset ∧ Int64.maxValue - offset < minute.unixMicro) ∨
      (offset < 0 ∧ minute.unixMicro < Int64.minValue - offset)) := by
    rintro (⟨hpos, hlt⟩ | ⟨hneg, hlt⟩)
    · rw [Int64.lt_iff_toInt_lt, Int64.toInt_zero, hd] at hpos
      rw [Int64.lt_iff_toInt_lt, toInt_sub (by unfold fits64; omega), hd, hm] at hlt
      omega
    · rw [Int64.lt_iff_toInt_lt, Int64.toInt_zero, hd] at hneg
      rw [Int64.lt_iff_toInt_lt, toInt_sub (by unfold fits64; omega), hd, hm] at hlt
      omega
  unfold expandValue
  rw [if_neg (by nofun), hminute]
  dsimp only
  rw [if_neg hno, hback]

/-- Where a run of an accepted column starts stands one of its values. -/
theorem value_at_start {xs : List Cell} {k : Nat} (hk : k ∈ starts xs) : (xs[k]?).getD .null ∈ xs := by
  have hlt := (mem_starts.mp hk).1
  rw [List.getElem?_eq_getElem hlt, Option.getD_some]
  exact List.getElem_mem hlt

/-- What `compactTime` stores. -/
def storeTime (minute : GoTime) : Cell → Cell
  | .time t => .int64 (t.unixMicro - minute.unixMicro)
  | _ => .null

/-- What is expanded from it. -/
def backTime : Cell → Cell
  | .time t => .time t.utc
  | _ => .null

theorem compactTime_eq_ok {minute : GoTime} {c : Cell} {d : Option Int64} (h : compactTime minute c = .ok d) :
    d.elim .null .int64 = storeTime minute c ∧ ∀ t, c = .time t → t.nanos % 1000 = 0 := by
  cases c with
  | time t =>
      simp only [compactTime] at h
      split at h
      · cases h
      · rename_i hmicro
        rw [← Except.ok.inj h]
        refine ⟨rfl, fun t' ht' => ?_⟩
        rw [← Cell.time.inj ht']
        exact not_not.mp hmicro
  | _ =>
      simp only [compactTime, Except.ok.injEq] at h
      subst h
      exact ⟨rfl, fun t ht => by cases ht⟩

/-- What `compactNullableDigest` stores. -/
def storeDigest : Cell → Cell
  | .text s => (compactBinaryDigest s).toOption.elim .null .text
  | _ => .null

theorem compactNullableDigest_eq_ok {c : Cell} {d : Option Bytes} (h : compactNullableDigest c = .ok d) :
    d.elim .null .text = storeDigest c ∧
      ∀ s, c = .text s → ∃ b, compactBinaryDigest s = .ok b ∧ storeDigest c = .text b := by
  cases c with
  | text s =>
      rcases map_eq_ok.mp h with ⟨b, hb, rfl⟩
      have hstore : storeDigest (.text s) = .text b := by
        unfold storeDigest
        dsimp only
        rw [hb]
        rfl
      refine ⟨hstore.symm, fun s' hs' => ?_⟩
      rw [← Cell.text.inj hs']
      exact ⟨b, hb, hstore⟩
  | _ =>
      simp only [compactNullableDigest, Except.ok.injEq] at h
      subst h
      exact ⟨rfl, fun s hs => by cases hs⟩

/-- The values that were stored, from the checks of each. -/
theorem map_of_mapM {α : Type} {check : Cell → Except String α} (read : α → Cell)
    (store : Cell → Cell) {P : Cell → Prop} {cs : List Cell} {ds : List α} (h : cs.mapM check = .ok ds)
    (hone : ∀ c d, check c = .ok d → read d = store c ∧ P c) :
    ds.map read = cs.map store ∧ ∀ c ∈ cs, P c := by
  rw [mapM_eq_ok_iff] at h
  induction h with
  | nil => exact ⟨rfl, by simp⟩
  | cons hcd _ ih =>
      rcases hone _ _ hcd with ⟨hread, hP⟩
      exact ⟨by rw [List.map_cons, List.map_cons, hread, ih.1], List.forall_mem_cons.mpr ⟨hP, ih.2⟩⟩

/-- What `compactArray` writes of a column: the starts of its runs and the values there. -/
theorem compactArray_eq_ok {f : CompactField} {v : Value} {minute : GoTime} {out : List UInt8 × Physical}
    (h : compactArray f v minute = .ok out) (hkind : f.kind = .time ∨ f.kind = .rlehex ∨ f.kind = .rle) :
    ∃ xs store, v.slots = some xs ∧ xs.length = 60 ∧
      (Physical.offsets out.1).read = .list ((starts xs).map offsetCell) ∧
      out.2.read = .list ((starts xs).map fun i => store ((xs[i]?).getD .null)) ∧
      (f.kind = .time → (∃ ts, v = .times ts) ∧ store = storeTime minute ∧
        ∀ k ∈ starts xs, ∀ t, (xs[k]?).getD .null = .time t → t.nanos % 1000 = 0) ∧
      (f.kind = .rlehex → (∃ ss, v = .digests ss) ∧ store = storeDigest ∧
        ∀ k ∈ starts xs, ∀ s, (xs[k]?).getD .null = .text s →
          ∃ b, compactBinaryDigest s = .ok b ∧ storeDigest (.text s) = .text b) ∧
      (f.kind = .rle → store = id) := by
  have hoffsets : ∀ is : List Nat,
      (Physical.offsets (is.map UInt8.ofNat)).read = .list (is.map offsetCell) := by
    intro is
    show Stored.list ((is.map UInt8.ofNat).map Cell.uint8) = _
    rw [List.map_map]
    rfl
  unfold compactArray at h
  cases hslots : v.slots with
  | none =>
      rw [hslots] at h
      cases h
  | some xs =>
      rw [hslots] at h
      dsimp only at h
      split at h
      · cases h
      · rename_i hlength
        refine ⟨xs, ?_⟩
        rcases hkind with hkind | hkind | hkind
        · rw [hkind] at h
          cases v with
          | times ts =>
              rcases map_eq_ok.mp h with ⟨ds, hds, rfl⟩
              rcases map_of_mapM (fun d => d.elim .null .int64) (storeTime minute) hds
                fun c d hcd => compactTime_eq_ok hcd with ⟨hread, hmicro⟩
              refine ⟨storeTime minute, rfl, not_not.mp hlength, hoffsets _, ?_, fun _ => ⟨⟨ts, rfl⟩, rfl, ?_⟩,
                (fun hk => by rw [hkind] at hk; cases hk), fun hk => by rw [hkind] at hk; cases hk⟩
              · show Stored.list (ds.map fun d => d.elim .null .int64) = _
                rw [hread, List.map_map]
                rfl
              · exact fun k hk => hmicro _ (List.mem_map_of_mem hk)
          | _ => cases h
        · rw [hkind] at h
          cases v with
          | digests ss =>
              rcases map_eq_ok.mp h with ⟨bs, hbs, rfl⟩
              rcases map_of_mapM (fun b => b.elim .null .text) storeDigest hbs
                fun c d hcd => compactNullableDigest_eq_ok hcd with ⟨hread, hdigest⟩
              refine ⟨storeDigest, rfl, not_not.mp hlength, hoffsets _, ?_,
                (fun hk => by rw [hkind] at hk; cases hk), fun _ => ⟨⟨ss, rfl⟩, rfl, ?_⟩,
                fun hk => by rw [hkind] at hk; cases hk⟩
              · show Stored.list (bs.map fun b => b.elim .null .text) = _
                rw [hread, List.map_map]
                rfl
              · intro k hk s hs
                rcases hdigest _ (List.mem_map_of_mem hk) s hs with ⟨b, hb, hstore⟩
                rw [hs] at hstore
                exact ⟨b, hb, hstore⟩
          | _ => cases h
        · rw [hkind] at h
          refine ⟨id, rfl, not_not.mp hlength, ?_, ?_, (fun hk => by rw [hkind] at hk; cases hk),
            (fun hk => by rw [hkind] at hk; cases hk), fun _ => rfl⟩
          · rw [← Except.ok.inj h]
            exact hoffsets _
          · rw [← Except.ok.inj h]
            rfl

/-! ## One field -/

/-- What a record holds of the compact columns of a field. -/
def Holds (r : Record) (f : CompactField) (ps : List Physical) : Prop :=
  ∀ n p, (n, p) ∈ f.physicalNames.zip ps → r n = some p.read

theorem expandField_single {f : CompactField} {minute : GoTime} {v : Value} {ps : List Physical} {r : Record}
    (hsingle : f.single = true) (h : compactColumn f minute v = .ok ps) (hholds : Holds r f ps) :
    expandField f r = .ok (v.restored f.kind) := by
  have hkind : f.kind = .hex ∨ f.kind = .hexarray := by simpa [CompactField.single] using hsingle
  have hnames : f.physicalNames = [f.digestName] := by rw [CompactField.physicalNames, if_pos hsingle]
  unfold Holds at hholds
  rw [hnames] at hholds
  unfold compactColumn at h
  unfold expandField
  rcases hkind with hkind | hkind
  · rw [hkind] at h ⊢
    dsimp only at h ⊢
    split at h
    · rename_i s
      rcases map_eq_ok.mp h with ⟨b, hb, rfl⟩
      rw [hholds _ _ (List.mem_singleton.mpr rfl)]
      show (expandDigest (.text b)).map Stored.cell = _
      rw [expandDigest_of hb]
      rfl
    · cases h
  · rw [hkind] at h ⊢
    dsimp only at h ⊢
    split at h
    · rename_i ss
      rcases map_eq_ok.mp h with ⟨bs, hbs, rfl⟩
      rw [hholds _ _ (List.mem_singleton.mpr rfl)]
      have hback : (bs.map Cell.text).mapM expandDigest = .ok (ss.map Cell.text) := by
        rw [mapM_eq_ok_iff] at hbs ⊢
        rw [List.forall₂_map_left_iff, List.forall₂_map_right_iff]
        exact hbs.flip.imp fun b s hb => expandDigest_of hb
      show ((bs.map Cell.text).mapM expandDigest).map Stored.list = _
      rw [hback]
      rfl
    · cases h

/-- The expanded values of a column of sixty are those that were compacted. -/
theorem expandField_runs {f : CompactField} {minute : GoTime} {v : Value} {ps : List Physical} {r : Record}
    (hsingle : f.single = false) (h : compactColumn f minute v = .ok ps) (hholds : Holds r f ps)
    (hminute : f.kind = .time → r "minute_time" = some (.cell (.time minute)))
    (haround : f.kind = .time → ∀ ts, v = .times ts → ∀ t, some t ∈ ts → Around minute t) :
    expandField f r = .ok (v.restored f.kind) := by
  have hnames : f.physicalNames = [f.offsetsName, f.valuesName] := by
    rw [CompactField.physicalNames, if_neg (by simp [hsingle])]
  have hkind : f.kind = .time ∨ f.kind = .rlehex ∨ f.kind = .rle := by
    cases hk : f.kind <;> simp [CompactField.single, hk] at hsingle ⊢
  unfold Holds at hholds
  rw [hnames] at hholds
  have hcolumn : compactColumn f minute v =
      (compactArray f v minute).map fun out => [.offsets out.1, out.2] := by
    unfold compactColumn
    rcases hkind with hk | hk | hk <;> rw [hk]
  rw [hcolumn] at h
  rcases map_eq_ok.mp h with ⟨out, hout, rfl⟩
  rcases compactArray_eq_ok hout hkind with
    ⟨xs, store, hslots, hlength, hoffsets, hvalues, htime, hdigest, hplain⟩
  have ho : r f.offsetsName = some (.list ((starts xs).map offsetCell)) := by
    rw [hholds _ _ (List.mem_cons_self ..), hoffsets]
  have hv : r f.valuesName = some (.list ((starts xs).map fun i => store ((xs[i]?).getD .null))) := by
    rw [hholds _ _ (List.mem_cons_of_mem _ (List.mem_cons_self ..)), hvalues]
  have hfield : expandField f r = (expandColumn f r).map .list := by
    unfold expandField
    rcases hkind with hk | hk | hk <;> rw [hk]
  rw [hfield]
  rcases hkind with hk | hk | hk
  · rcases htime hk with ⟨⟨ts, rfl⟩, rfl, hmicro⟩
    obtain rfl : ts.map (fun t => t.elim .null Cell.time) = xs := Option.some.inj hslots
    rw [expandColumn_eq backTime hlength ho hv]
    · rw [hk]
      show Except.ok (Stored.list _) = .ok (.list _)
      rw [List.map_map]
      congr 2
      exact List.map_congr_left fun t _ => by cases t <;> rfl
    · intro k hstart
      have hmem := value_at_start hstart
      have hprecise := hmicro k hstart
      rw [hk]
      generalize ((ts.map fun t => t.elim Cell.null Cell.time)[k]?).getD .null = c at hmem hprecise ⊢
      rcases List.mem_map.mp hmem with ⟨_ | t, ht, rfl⟩
      · rfl
      · exact expandTime (hminute hk) (haround hk ts rfl t ht) (hprecise t rfl)
  · rcases hdigest hk with ⟨⟨ss, rfl⟩, rfl, hstored⟩
    obtain rfl : ss.map (fun s => s.elim .null Cell.text) = xs := Option.some.inj hslots
    rw [expandColumn_eq id hlength ho hv]
    · rw [hk, List.map_id]
      rfl
    · intro k hstart
      have hmem := value_at_start hstart
      have hbytes := hstored k hstart
      rw [hk]
      generalize ((ss.map fun s => s.elim Cell.null Cell.text)[k]?).getD .null = c at hmem hbytes ⊢
      rcases List.mem_map.mp hmem with ⟨_ | s, hs, rfl⟩
      · rfl
      · rcases hbytes s rfl with ⟨b, hb, hstore⟩
        rcases compactBinaryDigest_eq_ok hb with ⟨hwidth, hencode⟩
        show expandValue .rlehex r (storeDigest (.text s)) = .ok (.text s)
        rw [hstore]
        unfold expandValue
        rw [if_neg (by nofun)]
        dsimp only
        rw [if_neg (by omega), hencode]
  · -- the values of these columns are stored as they are
    obtain rfl := hplain hk
    rw [expandColumn_eq id hlength ho hv]
    · rw [hk, List.map_id]
      cases v with
      | cell c => cases hslots
      | times ts =>
          rw [← Option.some.inj hslots]
          rfl
      | _ =>
          rw [← Option.some.inj hslots]
          rfl
    · intro k hstart
      rw [hk]
      unfold expandValue
      split
      · rfl
      · rfl

/-! ## The record -/

/-- A field is expanded from its own columns and the minute. -/
theorem expandField_congr {f : CompactField} {r r' : Record} (hdigest : r f.digestName = r' f.digestName)
    (hoffsets : r f.offsetsName = r' f.offsetsName) (hvalues : r f.valuesName = r' f.valuesName)
    (hminute : r "minute_time" = r' "minute_time") : expandField f r = expandField f r' := by
  have hvalue : ∀ kind x, expandValue kind r x = expandValue kind r' x := by
    intro kind x
    unfold expandValue
    rw [hminute]
  have hruns : ∀ kind values i offsets out,
      expandRuns kind r values i offsets out = expandRuns kind r' values i offsets out := by
    intro kind values i offsets
    induction offsets generalizing i with
    | nil => exact fun out => rfl
    | cons o rest ih =>
        intro out
        simp only [expandRuns, hvalue, ih]
  unfold expandField expandColumn
  rw [hdigest, hoffsets, hvalues]
  simp only [hruns]

/-- The fields of a table are expanded one after another, each as if alone. -/
theorem expandFields_ok {fields : List CompactField} (hapart : NamesApart fields) {r : Record}
    {g : CompactField → Stored} (h : ∀ f ∈ fields, expandField f r = .ok (g f)) :
    ∃ r', expandFields fields r = .ok r' ∧ (∀ f ∈ fields, r' f.name = some (g f)) ∧
      ∀ n, n ∉ fields.map CompactField.name → r' n = r n := by
  induction fields generalizing r with
  | nil => exact ⟨r, rfl, by simp, fun _ _ => rfl⟩
  | cons f rest ih =>
      have hdistinct := hapart.distinct
      rw [List.map_cons, List.nodup_cons] at hdistinct
      have hrest : NamesApart rest := ⟨hdistinct.2,
        fun a ha b hb => hapart.physical a (List.mem_cons_of_mem _ ha) b (List.mem_cons_of_mem _ hb),
        fun a ha => hapart.minute a (List.mem_cons_of_mem _ ha)⟩
      have hset : ∀ n, n ≠ f.name → Function.update r f.name (some (g f)) n = r n := fun n hn =>
        Function.update_of_ne hn ..
      rcases ih hrest (r := Function.update r f.name (some (g f))) (fun a ha => by
        have hnames := hapart.physical a (List.mem_cons_of_mem _ ha) f (List.mem_cons_self ..)
        rw [← h a (List.mem_cons_of_mem _ ha)]
        exact expandField_congr (hset _ hnames.1.symm) (hset _ hnames.2.1.symm) (hset _ hnames.2.2.symm)
          (hset _ (hapart.minute f (List.mem_cons_self ..)).symm)) with ⟨r', hr', hfields, hother⟩
      refine ⟨r', ?_, ?_, ?_⟩
      · rw [expandFields, h f (List.mem_cons_self ..)]
        exact hr'
      · refine List.forall_mem_cons.mpr ⟨?_, hfields⟩
        rw [hother f.name hdistinct.1]
        exact Function.update_self ..
      · intro n hn
        rw [List.map_cons, List.mem_cons, not_or] at hn
        rw [hother n hn.2, hset n hn.1]

/-! ## What is refused -/

theorem andThen_eq_error {ε α β : Type} {x : Except ε α} {f : α → Except ε β} {e : ε} :
    (x >>= f) = .error e ↔ x = .error e ∨ ∃ a, x = .ok a ∧ f a = .error e := by
  rcases x with e' | a
  · simp [bind, Except.bind]
  · simp [bind, Except.bind]

theorem runStart_eq_ok {i start : Nat} {o : Cell} (h : runStart i o = .ok start) :
    ∃ n : UInt8, o = .uint8 n ∧ n.toNat = start ∧ n ≤ 59 ∧ (i = 0 → n = 0) := by
  unfold runStart at h
  split at h
  · rename_i n
    split at h
    · cases h
    · rename_i hok
      rw [not_or, UInt8.not_lt] at hok
      refine ⟨n, rfl, Except.ok.inj h, hok.1, fun hi => ?_⟩
      by_contra hne
      exact hok.2 ⟨hi, hne⟩
  · cases h

theorem runEnd_eq_ok {start stop : Nat} {next : Option Cell} (h : runEnd start next = .ok stop) :
    stop ≤ 60 ∧ ∀ n : UInt8, next = some (.uint8 n) → start < n.toNat := by
  unfold runEnd at h
  split at h
  · refine ⟨(Except.ok.inj h).symm.le, fun n hn => by cases hn⟩
  · rename_i n
    split at h
    · cases h
    · rename_i hok
      rw [not_or, not_le, UInt8.not_lt, UInt8.le_iff_toNat_le] at hok
      have hlast : (59 : UInt8).toNat = 59 := rfl
      have hstop := Except.ok.inj h
      refine ⟨by omega, fun m hm => ?_⟩
      rw [← Cell.uint8.inj (Option.some.inj hm)]
      exact hok.1
  · cases h

/-- Offsets that are followed start at zero, increase and stay in the minute. -/
theorem expandRuns_offsets {kind : Kind} {r : Record} {values : List Cell} {i : Nat} {offsets out out' :
    List Cell}
    (h : expandRuns kind r values i offsets out = .ok out') :
    ∃ ns : List UInt8, offsets = ns.map .uint8 ∧ ns.Pairwise (· < ·) ∧ (∀ n ∈ ns, n ≤ 59) ∧
      (i = 0 → ∀ n ∈ ns.head?, n = 0) := by
  induction offsets generalizing i out with
  | nil => exact ⟨[], rfl, List.Pairwise.nil, by simp, by simp⟩
  | cons o rest ih =>
      unfold expandRuns at h
      rcases Check.andThen_eq_ok.mp h with ⟨start, hstart, h⟩
      rcases Check.andThen_eq_ok.mp h with ⟨stop, hstop, h⟩
      rcases Check.andThen_eq_ok.mp h with ⟨stored, -, h⟩
      rcases Check.andThen_eq_ok.mp h with ⟨x, -, h⟩
      rcases Check.andThen_eq_ok.mp h with ⟨next, -, hloop⟩
      rcases runStart_eq_ok hstart with ⟨n, rfl, hn, hle, hzero⟩
      rcases ih hloop with ⟨ns, rfl, hsorted, hbound, -⟩
      have hnext := (runEnd_eq_ok hstop).2
      refine ⟨n :: ns, rfl, List.pairwise_cons.mpr ⟨?_, hsorted⟩, List.forall_mem_cons.mpr ⟨hle, hbound⟩, ?_⟩
      · -- the next offset is greater, and those after it greater still
        intro m hm
        cases ns with
        | nil => cases hm
        | cons k ns =>
            have hk : n < k := by
              rw [UInt8.lt_iff_toNat_lt, hn]
              exact hnext k rfl
            rcases List.mem_cons.mp hm with rfl | hm
            · exact hk
            · exact UInt8.lt_trans hk ((List.pairwise_cons.mp hsorted).1 m hm)
      · intro hi m hm
        rw [← Option.some.inj hm]
        exact hzero hi

theorem expandDigest_inside (c : Cell) : expandDigest c ≠ .error .outOfRange := by
  unfold expandDigest
  split
  · split <;> nofun
  · nofun

theorem expandValue_inside (kind : Kind) (r : Record) (x : Cell) :
    expandValue kind r x ≠ .error .outOfRange := by
  unfold expandValue
  split
  · nofun
  · split
    · split
      · dsimp only
        split
        · split <;> nofun
        · nofun
      · nofun
    · split
      · split <;> nofun
      · nofun
    · nofun

/-- No index of the loop leaves the values or the sixty slots. -/
theorem expandRuns_inside {kind : Kind} {r : Record} {values : List Cell} {i : Nat} {offsets out : List Cell}
    (hvalues : i + offsets.length ≤ values.length) (hout : out.length = 60) :
    expandRuns kind r values i offsets out ≠ .error .outOfRange := by
  induction offsets generalizing i out with
  | nil => nofun
  | cons o rest ih =>
      rw [List.length_cons] at hvalues
      intro h
      unfold expandRuns at h
      rcases andThen_eq_error.mp h with h | ⟨start, hstart, h⟩
      · unfold runStart at h
        split at h
        · split at h <;> cases h
        · cases h
      rcases andThen_eq_error.mp h with h | ⟨stop, hstop, h⟩
      · unfold runEnd at h
        split at h
        · cases h
        · split at h <;> cases h
        · cases h
      rcases andThen_eq_error.mp h with h | ⟨stored, -, h⟩
      · rw [List.getElem?_eq_getElem (by omega)] at h
        cases h
      rcases andThen_eq_error.mp h with h | ⟨x, -, h⟩
      · exact expandValue_inside kind r stored h
      rcases runStart_eq_ok hstart with ⟨n, -, hn, hle, -⟩
      have hlast : (59 : UInt8).toNat = 59 := rfl
      rw [UInt8.le_iff_toNat_le] at hle
      have hend := (runEnd_eq_ok hstop).1
      have hwrite : writeSlots x (stop - start) start out = .ok (fill x (stop - start) start out) :=
        writeSlots_eq (by omega)
      rcases andThen_eq_error.mp h with h | ⟨next, hnext, h⟩
      · rw [hwrite] at h
        cases h
      · rw [hwrite] at hnext
        refine ih (by omega) ?_ h
        rw [← Except.ok.inj hnext, length_fill, hout]

theorem map_ne_error {ε α β : Type} {x : Except ε α} {g : α → β} {e : ε} (h : x ≠ .error e) :
    x.map g ≠ .error e := by
  cases x with
  | error e' =>
      intro hmap
      exact h (congrArg _ (Except.error.inj hmap))
  | ok a => nofun

theorem mapM_ne_error {ε α β : Type} {f : α → Except ε β} {xs : List α} {e : ε}
    (h : ∀ x, f x ≠ .error e) : xs.mapM f ≠ .error e := by
  induction xs with
  | nil => nofun
  | cons x xs ih =>
      rw [List.mapM_cons]
      intro hcons
      rcases andThen_eq_error.mp hcons with hx | ⟨y, -, hrest⟩
      · exact h x hx
      · rcases andThen_eq_error.mp hrest with hxs | ⟨ys, -, hpure⟩
        · exact ih hxs
        · cases hpure

theorem expandColumn_inside (f : CompactField) (r : Record) : expandColumn f r ≠ .error .outOfRange := by
  unfold expandColumn
  split
  · split
    · split
      · nofun
      · rename_i hlengths
        rw [not_or, not_not] at hlengths
        exact expandRuns_inside (by omega) (List.length_replicate ..)
    · nofun
  · nofun
  · nofun

theorem expandField_inside (f : CompactField) (r : Record) : expandField f r ≠ .error .outOfRange := by
  unfold expandField
  split
  · split
    · exact map_ne_error (expandDigest_inside _)
    · nofun
    · nofun
  · split
    · exact map_ne_error (mapM_ne_error expandDigest_inside)
    · nofun
    · nofun
  · exact map_ne_error (expandColumn_inside f r)

theorem expandFields_inside (fields : List CompactField) (r : Record) :
    expandFields fields r ≠ .error .outOfRange := by
  induction fields generalizing r with
  | nil => nofun
  | cons f rest ih =>
      intro h
      rcases andThen_eq_error.mp h with h | ⟨v, -, h⟩
      · exact expandField_inside f r h
      · exact ih _ h

/-- A field that is expanded has offsets that fit. -/
theorem expandFields_offsets {fields : List CompactField} (hapart : NamesApart fields) {r r' : Record}
    (h : expandFields fields r = .ok r') {f : CompactField} (hf : f ∈ fields) (hsingle : f.single = false) :
    ∃ ns : List UInt8, r f.offsetsName = some (.list (ns.map .uint8)) ∧ ns.head? = some 0 ∧
      ns.Pairwise (· < ·) ∧ ∀ n ∈ ns, n ≤ 59 := by
  induction fields generalizing r with
  | nil => cases hf
  | cons g rest ih =>
      rcases Check.andThen_eq_ok.mp h with ⟨v, hv, hrest⟩
      have hapart' : NamesApart rest := ⟨(List.nodup_cons.mp hapart.distinct).2,
        fun a ha b hb => hapart.physical a (List.mem_cons_of_mem _ ha) b (List.mem_cons_of_mem _ hb),
        fun a ha => hapart.minute a (List.mem_cons_of_mem _ ha)⟩
      rcases List.mem_cons.mp hf with rfl | hmem
      · have hcolumn : ∃ out, expandColumn f r = .ok out := by
          unfold expandField at hv
          cases hk : f.kind with
          | hex => simp [CompactField.single, hk] at hsingle
          | hexarray => simp [CompactField.single, hk] at hsingle
          | _ =>
              rw [hk] at hv
              rcases map_eq_ok.mp hv with ⟨out, hout, -⟩
              exact ⟨out, hout⟩
        rcases hcolumn with ⟨out, hout⟩
        unfold expandColumn at hout
        split at hout
        · rename_i offsets hoffsets
          split at hout
          · split at hout
            · cases hout
            · rename_i hlengths
              rw [not_or, not_or] at hlengths
              rcases expandRuns_offsets hout with ⟨ns, rfl, hsorted, hbound, hfirst⟩
              refine ⟨ns, hoffsets, ?_, hsorted, hbound⟩
              cases ns with
              | nil => exact absurd rfl hlengths.2.1
              | cons n ns => rw [List.head?_cons, hfirst rfl n rfl]
          · cases hout
        · cases hout
        · cases hout
      · rcases ih hapart' hrest hmem with ⟨ns, hns, hfacts⟩
        refine ⟨ns, ?_, hfacts⟩
        have hne := (hapart.physical f hf g (List.mem_cons_self ..)).2.1
        rw [Function.update_of_ne hne.symm] at hns
        exact hns

/-! ## A row -/

theorem storedRecord_of_mem {names : List String} {row : List Physical} (hnames : names.Nodup) {n : String}
    {p : Physical} (h : (n, p) ∈ names.zip row) : storedRecord names row n = some p.read := by
  unfold storedRecord
  induction names generalizing row with
  | nil => cases h
  | cons m names ih =>
      cases row with
      | nil => cases h
      | cons q row =>
          rw [List.nodup_cons] at hnames
          rw [List.zip_cons_cons] at h ⊢
          rcases List.mem_cons.mp h with heq | hrest
          · rcases Prod.mk.inj heq with ⟨rfl, rfl⟩
            rw [List.find?_cons_of_pos (by simp)]
            rfl
          · have hne : m ≠ n := fun hm => hnames.1 (hm ▸ (List.of_mem_zip hrest).1)
            rw [List.find?_cons_of_neg (by simpa using hne)]
            exact ih hnames.2 hrest

/-- The columns of a statement one after another, each with its own values. -/
theorem exists_of_mem_columns {columns : List (String × Value)} {values : List (List Physical)}
    (names : String → List String) {check : String × Value → Except String (List Physical)}
    (h : List.Forall₂ (fun c vs => check c = .ok vs) columns values)
    (hlength : ∀ c vs, check c = .ok vs → (names c.1).length = vs.length) {c : String × Value}
    (hc : c ∈ columns) : ∃ vs, check c = .ok vs ∧
      ∀ x ∈ (names c.1).zip vs, x ∈ (columns.flatMap fun c => names c.1).zip values.flatten := by
  induction h with
  | nil => cases hc
  | cons hone _ ih =>
      rw [List.flatMap_cons, List.flatten_cons, List.zip_append (hlength _ _ hone)]
      rcases List.mem_cons.mp hc with rfl | hrest
      · exact ⟨_, hone, fun x hx => List.mem_append_left _ hx⟩
      · rcases ih hrest with ⟨vs, hvs, hmem⟩
        exact ⟨vs, hvs, fun x hx => List.mem_append_right _ (hmem x hx)⟩

theorem length_outputNames {table : String} {minute : GoTime} {c : String × Value} {vs : List Physical}
    (h : outputValues table minute c = .ok vs) : (outputNames table c.1).length = vs.length := by
  unfold outputValues at h
  unfold outputNames
  cases hmap : compactFieldMap table c.1 with
  | none =>
      rw [hmap] at h
      rw [← Except.ok.inj h]
      rfl
  | some f =>
      rw [hmap] at h
      change compactColumn f minute c.2 = .ok vs at h
      show f.physicalNames.length = vs.length
      unfold compactColumn at h
      unfold CompactField.physicalNames CompactField.single
      cases hk : f.kind with
      | hex =>
          rw [hk] at h
          dsimp only at h
          split at h
          · rcases map_eq_ok.mp h with ⟨b, -, rfl⟩
            rfl
          · cases h
      | hexarray =>
          rw [hk] at h
          dsimp only at h
          split at h
          · rcases map_eq_ok.mp h with ⟨b, -, rfl⟩
            rfl
          · cases h
      | _ =>
          rw [hk] at h
          rcases map_eq_ok.mp h with ⟨b, -, rfl⟩
          rfl

theorem compactFieldMap_ne {table name : String} (h : compactFieldMap table name = none) :
    name ∉ (optionCompactFields table).map CompactField.name := by
  unfold compactFieldMap at h
  rw [List.find?_eq_none] at h
  intro hmem
  rcases List.mem_map.mp hmem with ⟨f, hf, rfl⟩
  exact h f hf (by simp)

theorem compactFieldMap_minute (table : String) : compactFieldMap table "minute_time" = none := by
  unfold compactFieldMap
  rw [List.find?_eq_none]
  intro f hf
  simpa using (namesApart table).minute f hf

/-- The minute of a row is the value of its column. -/
theorem rowMinute_eq_ok {cols : List String} {row : List Value} {minute : GoTime}
    (h : rowMinute cols row = .ok minute) (hcol : "minute_time" ∈ cols) (hlength : row.length = cols.length) :
    ("minute_time", .cell (.time minute)) ∈ cols.zip row := by
  unfold rowMinute at h
  split at h
  · rename_i n t hfind
    have hmem := List.mem_of_find?_eq_some hfind
    have hname := List.find?_some hfind
    simp only [decide_eq_true_eq] at hname
    rw [← hname, ← Except.ok.inj h]
    exact List.mem_reverse.mp hmem
  · cases h
  · rename_i hfind
    rw [List.find?_eq_none] at hfind
    have hunzip : (cols.zip row).map Prod.fst = cols := List.map_fst_zip (by omega)
    rw [← hunzip] at hcol
    rcases List.mem_map.mp hcol with ⟨c, hc, hname⟩
    exact absurd (by simpa using hname) (hfind c (List.mem_reverse.mpr hc))

/-- The times of a row stand around its minute. -/
def TimesAround (table : String) (cols : List String) (row : List Value) : Prop :=
  ∀ f ∈ optionCompactFields table, f.kind = .time → ∀ minute ts t,
    ("minute_time", .cell (.time minute)) ∈ cols.zip row → (f.name, .times ts) ∈ cols.zip row →
    some t ∈ ts → Around minute t

/-- The columns of a statement are those of the table: none twice, every compacted one
and, with one of times, the minute. -/
structure TableColumns (table : String) (cols : List String) : Prop where
  distinct : (cols.flatMap (outputNames table)).Nodup
  fields : ∀ f ∈ optionCompactFields table, f.name ∈ cols
  minute : ∀ f ∈ optionCompactFields table, f.kind = .time → "minute_time" ∈ cols

theorem compactRow_expands {table : String} {cols : List String} {row : List Value} {phys : List Physical}
    (hcols : TableColumns table cols) (h : compactRow table cols row = .ok phys)
    (haround : TimesAround table cols row) :
    ∃ r, expandAliases table (storedRecord (cols.flatMap (outputNames table)) phys) = .ok r ∧
      (∀ f ∈ optionCompactFields table, ∀ v, (f.name, v) ∈ cols.zip row →
        r f.name = some (v.restored f.kind)) ∧
      ∀ name v, compactFieldMap table name = none → (name, v) ∈ cols.zip row →
        r name = some (Physical.plain v).read := by
  unfold compactRow at h
  split at h
  · cases h
  rename_i hlength
  rw [not_not] at hlength
  rcases Check.andThen_eq_ok.mp h with ⟨minute, hminute, h⟩
  rcases Check.andThen_eq_ok.mp h with ⟨values, hvalues, hflat⟩
  obtain rfl := Except.ok.inj hflat
  rw [mapM_eq_ok_iff] at hvalues
  have hunzip : (cols.zip row).map Prod.fst = cols := List.map_fst_zip (by omega)
  have hnames : (cols.zip row).flatMap (fun c => outputNames table c.1) = cols.flatMap (outputNames table) := by
    conv_rhs => rw [← hunzip, List.flatMap_map]
  -- what the record holds of one column of the row
  have hcolumn : ∀ c ∈ cols.zip row, ∃ vs, outputValues table minute c = .ok vs ∧
      ∀ n p, (n, p) ∈ (outputNames table c.1).zip vs →
        storedRecord (cols.flatMap (outputNames table)) values.flatten n = some p.read := by
    intro c hc
    rcases exists_of_mem_columns (outputNames table) hvalues (fun c vs => length_outputNames) hc with
      ⟨vs, hvs, hmem⟩
    rw [hnames] at hmem
    exact ⟨vs, hvs, fun n p hnp => storedRecord_of_mem hcols.distinct (hmem (n, p) hnp)⟩
  have hplain : ∀ name v, compactFieldMap table name = none → (name, v) ∈ cols.zip row →
      storedRecord (cols.flatMap (outputNames table)) values.flatten name =
        some (Physical.plain v).read := by
    intro name v hmap hmem
    rcases hcolumn _ hmem with ⟨vs, hvs, hread⟩
    unfold outputValues at hvs
    dsimp only at hvs
    rw [hmap] at hvs
    refine hread name _ ?_
    unfold outputNames
    rw [hmap, ← Except.ok.inj hvs]
    exact List.mem_singleton.mpr rfl
  have hvalue : ∀ f ∈ optionCompactFields table, ∃ v, (f.name, v) ∈ cols.zip row := by
    intro f hf
    have hname := hcols.fields f hf
    rw [← hunzip] at hname
    rcases List.mem_map.mp hname with ⟨c, hc, hfst⟩
    exact ⟨c.2, hfst ▸ hc⟩
  have hexpand : ∀ f ∈ optionCompactFields table, ∀ v, (f.name, v) ∈ cols.zip row →
      expandField f (storedRecord (cols.flatMap (outputNames table)) values.flatten) =
        .ok (v.restored f.kind) := by
    intro f hf v hv
    have hmap := compactFieldMap_eq hf
    rcases hcolumn _ hv with ⟨vs, hvs, hread⟩
    unfold outputValues at hvs
    unfold outputNames at hread
    dsimp only at hvs hread
    rw [hmap] at hvs hread
    cases hsingle : f.single with
    | true => exact expandField_single hsingle hvs hread
    | false =>
        refine expandField_runs hsingle hvs hread (fun hk => ?_) fun hk ts hts t ht => ?_
        · have hcell := rowMinute_eq_ok hminute (hcols.minute f hf hk) hlength
          exact hplain _ _ (compactFieldMap_minute table) hcell
        · have hcell := rowMinute_eq_ok hminute (hcols.minute f hf hk) hlength
          exact haround f hf hk minute ts t hcell (hts ▸ hv) ht
  have hone : ∀ f ∈ optionCompactFields table, ∃ v, expandField f
      (storedRecord (cols.flatMap (outputNames table)) values.flatten) = .ok v := fun f hf => by
    rcases hvalue f hf with ⟨v, hv⟩
    exact ⟨_, hexpand f hf v hv⟩
  rcases expandFields_ok (namesApart table)
    (g := fun f => (expandField f
      (storedRecord (cols.flatMap (outputNames table)) values.flatten)).toOption.getD (.list []))
    (fun f hf => by rcases hone f hf with ⟨v, hv⟩; rw [hv]; rfl) with ⟨r, hr, hfields, hother⟩
  refine ⟨r, hr, fun f hf v hv => ?_, fun name v hmap hmem => ?_⟩
  · rw [hfields f hf, hexpand f hf v hv]
    rfl
  · rw [hother name (compactFieldMap_ne hmap)]
    exact hplain name v hmap hmem

/-- Every row of a statement that is accepted comes back from its compact columns; and
whatever record is expanded, offsets that do not fit are refused and no index leaves
its slice. -/
theorem compact_round_trip {table columns : String} {rows : List (List Value)} {names : List String}
    {output : List (List Physical)} (h : compactInsertValues table columns rows = .ok (names, output))
    (hcols : TableColumns table (columnNames columns))
    (haround : ∀ row ∈ rows, TimesAround table (columnNames columns) row) :
    (List.Forall₂ (fun row phys => ∃ r, expandAliases table (storedRecord names phys) = .ok r ∧
      (∀ f ∈ optionCompactFields table, ∀ v, (f.name, v) ∈ (columnNames columns).zip row →
        r f.name = some (v.restored f.kind)) ∧
      ∀ name v, compactFieldMap table name = none → (name, v) ∈ (columnNames columns).zip row →
        r name = some (Physical.plain v).read) rows output) ∧
    (∀ r r', expandAliases table r = .ok r' → ∀ f ∈ optionCompactFields table, f.single = false →
      ∃ ns : List UInt8, r f.offsetsName = some (.list (ns.map .uint8)) ∧ ns.head? = some 0 ∧
        ns.Pairwise (· < ·) ∧ ∀ n ∈ ns, n ≤ 59) ∧
    ∀ r, expandAliases table r ≠ .error .outOfRange := by
  refine ⟨?_, ?_, ?_⟩
  · rcases map_eq_ok.mp h with ⟨out, hout, heq⟩
    rcases Prod.mk.inj heq with ⟨rfl, rfl⟩
    rw [mapM_eq_ok_iff] at hout
    clear h heq
    induction hout with
    | nil => exact List.Forall₂.nil
    | cons hrow _ ih =>
        refine List.Forall₂.cons ?_ (ih fun row hr => haround row (List.mem_cons_of_mem _ hr))
        exact compactRow_expands hcols hrow (haround _ (List.mem_cons_self ..))
  · exact fun r r' hr f hf hsingle => expandFields_offsets (namesApart table) hr hf hsingle
  · exact fun r => expandFields_inside _ r

/-! ## A row of the evidence of a minute -/

def evidenceTable : String := "options_catalog_quality_evidence_minute"

def evidenceColumns : String :=
  "minute_time, batch_id,row_hash,state_ids,rule_observation_ids,platform_ids,maintenance_ids," ++
    "lock_ids,state_kinds,lifecycle_epochs,lifecycle_confirmed"

/-- A minute whose lifecycle was confirmed from its second half on. -/
def evidenceRow : List Value :=
  [.cell (.time ⟨1_700_000_040_000_000_000, 0⟩), .cell (.text (List.replicate 64 97)),
    .cell (.text (List.replicate 64 48)), .slice (List.replicate 60 .null),
    .slice (List.replicate 60 .null), .slice (List.replicate 60 .null), .slice (List.replicate 60 .null),
    .slice (List.replicate 60 .null), .slice (List.replicate 30 (.uint8 1) ++ List.replicate 30 (.uint8 2)),
    .slice (List.replicate 60 (.uuid [7])),
    .times (List.replicate 30 none ++ List.replicate 30 (some ⟨1_700_000_070_000_000_000, 3⟩))]

def evidenceOutput : List Physical :=
  [.plain (.cell (.time ⟨1_700_000_040_000_000_000, 0⟩)), .text (List.replicate 32 170),
    .text (List.replicate 32 0), .offsets [0], .cells [.null], .offsets [0], .cells [.null],
    .offsets [0], .cells [.null], .offsets [0], .cells [.null], .offsets [0], .cells [.null],
    .offsets [0, 30], .cells [.uint8 1, .uint8 2], .offsets [0], .cells [.uuid [7]],
    .offsets [0, 30], .diffs [none, some 30000000]]

theorem evidence_columns : columnNames evidenceColumns =
    ["minute_time", "batch_id", "row_hash", "state_ids", "rule_observation_ids", "platform_ids",
      "maintenance_ids", "lock_ids", "state_kinds", "lifecycle_epochs", "lifecycle_confirmed"] := by
  decide +kernel

theorem timesAround_evidence : TimesAround evidenceTable (columnNames evidenceColumns) evidenceRow := by
  intro f hf hk minute ts t hminute hts ht
  rw [evidence_columns] at hminute hts
  obtain rfl : minute = ⟨1_700_000_040_000_000_000, 0⟩ := by simpa [evidenceRow] using hminute
  have hts' : ts = List.replicate 30 none ++ List.replicate 30 (some ⟨1_700_000_070_000_000_000, 3⟩) := by
    simp [evidenceRow] at hts
    exact hts.2
  have ht' : t = ⟨1_700_000_070_000_000_000, 3⟩ := by
    rw [hts'] at ht
    simpa using ht
  rw [ht']
  constructor
  · unfold fits64
    norm_num
  · unfold fits64
    norm_num
  · unfold fits64
    norm_num

theorem compact_round_trip_evidence :
    (List.Forall₂ (fun row phys => ∃ r,
      expandAliases evidenceTable
        (storedRecord ((columnNames evidenceColumns).flatMap (outputNames evidenceTable)) phys) = .ok r ∧
      (∀ f ∈ optionCompactFields evidenceTable, ∀ v,
        (f.name, v) ∈ (columnNames evidenceColumns).zip row → r f.name = some (v.restored f.kind)) ∧
      ∀ name v, compactFieldMap evidenceTable name = none →
        (name, v) ∈ (columnNames evidenceColumns).zip row → r name = some (Physical.plain v).read)
      [evidenceRow] [evidenceOutput]) ∧
    (∀ r r', expandAliases evidenceTable r = .ok r' → ∀ f ∈ optionCompactFields evidenceTable,
      f.single = false →
      ∃ ns : List UInt8, r f.offsetsName = some (.list (ns.map .uint8)) ∧ ns.head? = some 0 ∧
        ns.Pairwise (· < ·) ∧ ∀ n ∈ ns, n ≤ 59) ∧
    ∀ r, expandAliases evidenceTable r ≠ .error .outOfRange := by
  have hrow : compactRow evidenceTable (columnNames evidenceColumns) evidenceRow = .ok evidenceOutput := by
    rw [evidence_columns]
    decide +kernel
  have hcols : TableColumns evidenceTable (columnNames evidenceColumns) := by
    rw [evidence_columns]
    exact ⟨by decide +kernel, by decide +kernel, by decide +kernel⟩
  refine compact_round_trip ?_ hcols ?_
  · simp only [compactInsertValues, List.mapM_cons, List.mapM_nil, hrow]
    rfl
  · intro row hrow
    rw [List.mem_singleton.mp hrow]
    exact timesAround_evidence

end MarketInfo.Mysql.Compact
