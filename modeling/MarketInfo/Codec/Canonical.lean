import MarketInfo.Codec.RoundTrip

/-! # Canonical bytes

Walking the bytes of a column without making values of them shows the two kinds
of bytes that `Decode` accepts and `Encode` does not give back: a null inside two
`Nullable`s, and a timestamp that only the local clock shows in range.
-/

namespace MarketInfo.Codec

open Wire (bigEndian ofBigEndian signedBytes ofSignedBytes signedBytes_ofSignedBytes
  ofSignedBytes_bounds Reading Sink Accepts Writes)

/-! ## Walking the bytes -/

/-- What a walk over the bytes of a column meets. -/
structure Marks where
  times : List Time := []
  /-- The mark of a present value, followed by the mark of a null. -/
  doubled : Bool := false

def Marks.append (m m' : Marks) : Marks := ⟨m.times ++ m'.times, m.doubled || m'.doubled⟩

def Ty.isNullable : Ty → Bool
  | .nullable _ => true
  | _ => false

/-- The instant of a timestamp on the wire. -/
def Scale.instant (scale : Scale) (a : List UInt8) : Time := ⟨ofSignedBytes a * scale.unit, 0⟩

/-- A walk over the elements of an array. -/
def surveyAll (survey : List UInt8 → Marks × List UInt8) : Nat → List UInt8 → Marks × List UInt8
  | 0, bytes => ({}, bytes)
  | n + 1, bytes =>
      let first := survey bytes
      let rest := surveyAll survey n first.2
      (first.1.append rest.1, rest.2)

mutual

/-- The marks of the first value in the bytes, and the bytes after it. -/
def survey : Ty → List UInt8 → Marks × List UInt8
  | .nullable child, bytes =>
      if bytes.head? = some 0 then ({}, bytes.drop 1)
      else
        let inner := survey child (bytes.drop 1)
        let doubled := child.isNullable && (bytes.drop 1).head? = some 0
        ({ inner.1 with doubled := inner.1.doubled || doubled }, inner.2)
  | .lowCardinality child, bytes => survey child bytes
  | .array child, bytes => surveyAll (survey child) (ofBigEndian (bytes.take 4)) (bytes.drop 4)
  | .tuple fields, bytes => surveyFields fields bytes
  | .dateTime scale, bytes => ({ times := [scale.instant (bytes.take 8)] }, bytes.drop 8)
  | .string, bytes => ({}, bytes.drop (4 + ofBigEndian (bytes.take 4)))
  | t, bytes => ({}, bytes.drop (minimumSize t))

def surveyFields : Fields → List UInt8 → Marks × List UInt8
  | .nil, bytes => ({}, bytes)
  | .cons _ child rest, bytes =>
      let first := survey child bytes
      let others := surveyFields rest first.2
      (first.1.append others.1, others.2)

end

/-! ## What was read can be written again -/

/-- A body that was read as a value: its walk, and what the value is written as. -/
structure Reread (zone : Zone) (t : Ty) (body : List UInt8) (spent : Nat) (v : Value) : Prop where
  plain : v.indirect = v
  shows : zone.Shows (timestamps t v)
  null_spent : v = .null → spent = 0
  marked : t.isNullable = true → body ≠ []
  walk : ∃ doubled, (∀ rest, survey t (body ++ rest) = (⟨timestamps t v, doubled⟩, rest)) ∧
    (doubled = false → (v = .null ↔ t.isNullable = true ∧ body.head? = some 0)) ∧
    (InRange (timestamps t v) → ∃ body', Writes maxBytes (writeValue t v) body' spent ∧
      body'.length ≤ body.length ∧ (body' = body ↔ doubled = false))

variable {zone : Zone}

theorem writes_scalar {t : Ty} {v : Value} {body : List UInt8} (hnull : v ≠ .null)
    (hplain : v.indirect = v)
    (hwrite : ∀ s, writeValue t v s =
      if maxBytes < s.out.length then .error "value exceeds byte limit"
      else match v.indirect with
        | .null => .error ("NULL for " ++ t.name)
        | v => s.write <$> scalarBytes t v)
    (hbody : scalarBytes t v = .ok body) : Writes maxBytes (writeValue t v) body 0 := by
  intro s hfits _
  rw [hwrite, if_neg (by omega), hplain]
  split
  · exact absurd rfl hnull
  · rw [hbody]
    rfl

/-- A scalar without a timestamp is written as it was read. -/
theorem reread_scalar {t : Ty} {v : Value} {body : List UInt8} (hnull : v ≠ .null)
    (hplain : v.indirect = v)
    (hwrite : ∀ s, writeValue t v s =
      if maxBytes < s.out.length then .error "value exceeds byte limit"
      else match v.indirect with
        | .null => .error ("NULL for " ++ t.name)
        | v => s.write <$> scalarBytes t v)
    (hsurvey : ∀ bytes, survey t bytes = ({}, bytes.drop (minimumSize t)))
    (htimes : timestamps t v = []) (hlength : body.length = minimumSize t)
    (hnullable : t.isNullable = false) (hbody : scalarBytes t v = .ok body) :
    Reread zone t body 0 v := by
  refine ⟨hplain, ?_, fun _ => rfl, fun hmark => absurd hmark (by simp [hnullable]), false, ?_, ?_, ?_⟩
  · rw [htimes]
    exact fun t ht => absurd ht List.not_mem_nil
  · intro rest
    rw [hsurvey, htimes, ← hlength, List.drop_left]
  · intro _
    rw [hnullable]
    simp [hnull]
  · intro _
    exact ⟨body, writes_scalar hnull hplain hwrite hbody, le_refl _, by simp⟩

/-- What a scalar column reads is written with the same bytes. -/
def Rewritten (t : Ty) (body : List UInt8) (spent : Nat) (v : Value) : Prop :=
  body.length = minimumSize t ∧ spent = 0 ∧ v ≠ .null ∧ v.indirect = v ∧
    scalarBytes t v = .ok body

theorem rewritten_bool : Accepts (readScalar zone .bool) (Rewritten .bool) := by
  intro c v c' h
  obtain ⟨n, c₁, hn, h⟩ := Reading.bind_ok.mp h
  rw [Reading.bind_ok] at h
  obtain ⟨u, c₂, hle, h⟩ := h
  obtain ⟨hle, rfl⟩ := Wire.failIf_ok.mp hle
  obtain ⟨rfl, rfl⟩ := Reading.pure_ok.mp h
  obtain ⟨body, spent, hrest, hbudget, rfl, rfl, -⟩ := Wire.accepts_readNat 1 _ _ _ hn
  refine ⟨_, 0, hrest, hbudget, Wire.length_bigEndian 1 n, rfl, nofun, rfl, ?_⟩
  have hbit : n = 0 ∨ n = 1 := by omega
  rcases hbit with rfl | rfl
  · rfl
  · rfl

theorem rewritten_uint (width : Width) :
    Accepts (readScalar zone (.uint width)) (Rewritten (.uint width)) := by
  refine ((Wire.accepts_readNat width.size).map width.value).mono ?_
  rintro body spent v ⟨n, rfl, rfl, rfl, hlt⟩
  refine ⟨Wire.length_bigEndian _ _, rfl, ?_, ?_, ?_⟩
  · cases width <;> nofun
  · cases width <;> rfl
  · have hvalue : (width.value n).unsigned?.map UInt64.toNat = some n := by
      cases width with
      | one =>
          simp only [Width.size] at hlt
          simp [Width.value, Value.unsigned?]
          omega
      | two =>
          simp only [Width.size] at hlt
          simp [Width.value, Value.unsigned?]
          omega
      | four =>
          simp only [Width.size] at hlt
          simp [Width.value, Value.unsigned?]
          omega
      | eight =>
          simp only [Width.size] at hlt
          simp [Width.value, Value.unsigned?]
          omega
    obtain ⟨k, hk, hkn⟩ := Option.map_eq_some_iff.1 hvalue
    simp only [scalarBytes, hk, hkn]
    rw [if_neg]
    rintro ⟨-, hover⟩
    rw [pow_mul] at hover
    norm_num at hover
    omega

theorem rewritten_int32 : Accepts (readScalar zone .int32) (Rewritten .int32) := by
  refine ((Wire.accepts_take 4).map fun a => Value.int32 (Int32.ofInt (ofSignedBytes a))).mono ?_
  rintro body spent v ⟨a, rfl, rfl, rfl, hlength⟩
  refine ⟨hlength, rfl, nofun, rfl, ?_⟩
  have hbytes := signedBytes_ofSignedBytes body
  obtain ⟨hlo, hhi⟩ := ofSignedBytes_bounds body
  rw [hlength] at hbytes hlo hhi
  have hvalue : (Int32.ofInt (ofSignedBytes body)).toInt64.toInt = ofSignedBytes body := by
    rw [Int32.toInt_toInt64, Int32.toInt_ofInt_of_le (by omega) (by omega)]
  simp only [scalarBytes, Value.signed?, hvalue]
  rw [if_neg (by omega), hbytes]

theorem rewritten_int64 : Accepts (readScalar zone .int64) (Rewritten .int64) := by
  refine ((Wire.accepts_take 8).map fun a => Value.int64 (Int64.ofInt (ofSignedBytes a))).mono ?_
  rintro body spent v ⟨a, rfl, rfl, rfl, hlength⟩
  refine ⟨hlength, rfl, nofun, rfl, ?_⟩
  have hbytes := signedBytes_ofSignedBytes body
  obtain ⟨hlo, hhi⟩ := ofSignedBytes_bounds body
  rw [hlength] at hbytes hlo hhi
  simp only [scalarBytes, Value.signed?]
  rw [Int64.toInt_ofInt_of_le (by omega) (by omega), hbytes]

theorem bigInt_bytes {n : Nat} (h : n < 256 ^ 32) :
    scalarBytes .uint256 (.bigInt n) = .ok (bigEndian 32 n) := by
  have hsize : Nat.size n ≤ 256 := by
    rw [Nat.size_le]
    have hpow : (256 : Nat) ^ 32 = 2 ^ 256 := by norm_num
    rw [← hpow]
    exact h
  simp only [scalarBytes, Int.natAbs_natCast, Int.toNat_natCast]
  rw [if_neg (by omega)]

theorem rewritten_uint256 : Accepts (readScalar zone .uint256) (Rewritten .uint256) := by
  refine ((Wire.accepts_readNat 32).map fun n : Nat => Value.bigInt n).mono ?_
  intro body spent v hread
  obtain ⟨n, hv, hbody, hspent, hlt⟩ := hread
  rw [hv, hbody, hspent]
  refine ⟨Wire.length_bigEndian _ _, rfl, ?_, rfl, bigInt_bytes hlt⟩
  intro hnull
  cases hnull

theorem rewritten_decimal : Accepts (readScalar zone .decimal) (Rewritten .decimal) := by
  intro c v c' h
  obtain ⟨a, c₁, ha, h⟩ := Reading.bind_ok.mp h
  obtain ⟨body, spent, hrest, hbudget, rfl, rfl, hlength⟩ := Wire.accepts_take 16 _ _ _ ha
  rcases hd : decimalCoefficient ⟨ofSignedBytes body, -18⟩ with e | n
  · simp only [hd] at h
    exact absurd h (by simp)
  · simp only [hd] at h
    obtain ⟨rfl, rfl⟩ := Reading.pure_ok.mp h
    obtain ⟨hn, -⟩ := decimalCoefficient_eq_ok hd
    refine ⟨body, 0, hrest, hbudget, hlength, rfl, nofun, rfl, ?_⟩
    have hscaled : n = ofSignedBytes body := by
      rw [hn]
      simp [Decimal.scaled]
    have hbytes := signedBytes_ofSignedBytes body
    rw [hlength] at hbytes
    simp only [scalarBytes, hd, hscaled]
    rw [Check.andThen_eq_ok]
    exact ⟨_, rfl, by rw [hbytes]; rfl⟩

theorem rewritten_uuid : Accepts (readScalar zone .uuid) (Rewritten .uuid) := by
  intro c v c' h
  obtain ⟨a, c₁, ha, h⟩ := Reading.bind_ok.mp h
  obtain ⟨body, spent, hrest, hbudget, rfl, rfl, hlength⟩ := Wire.accepts_take 16 _ _ _ ha
  rw [dif_pos hlength] at h
  obtain ⟨rfl, rfl⟩ := Reading.pure_ok.mp h
  exact ⟨body, 0, hrest, hbudget, hlength, rfl, nofun, rfl, rfl⟩

theorem EnumTable.code?_of_name? {e : EnumTable} {name : List UInt8} {code : Int8}
    (h : e.name? code = some name) : e.code? name = some code := by
  unfold EnumTable.name? at h
  unfold EnumTable.code?
  rw [Option.map_eq_some_iff] at h
  obtain ⟨entry, hfind, rfl⟩ := h
  have hmem := List.mem_of_find?_eq_some hfind
  have hcode : entry.2 = code := by simpa using List.find?_some hfind
  rw [Option.map_eq_some_iff]
  rcases hname : e.entries.find? fun p => p.1 = entry.1 with _ | found
  · have hnone := List.find?_eq_none.1 hname entry hmem
    simp at hnone
  · refine ⟨found, hname, ?_⟩
    have hfound : found.1 = entry.1 := by simpa using List.find?_some hname
    rw [List.inj_on_of_nodup_map e.names_nodup (List.mem_of_find?_eq_some hname) hmem hfound, hcode]

theorem rewritten_enum8 (enums : EnumTable) :
    Accepts (readScalar zone (.enum8 enums)) (Rewritten (.enum8 enums)) := by
  intro c v c' h
  obtain ⟨a, c₁, ha, h⟩ := Reading.bind_ok.mp h
  obtain ⟨body, spent, hrest, hbudget, rfl, rfl, hlength⟩ := Wire.accepts_take 1 _ _ _ ha
  rcases hname : enums.name? (Int8.ofInt (ofSignedBytes body)) with _ | name
  · simp only [hname] at h
    exact absurd h (by simp)
  · simp only [hname] at h
    obtain ⟨rfl, rfl⟩ := Reading.pure_ok.mp h
    refine ⟨body, 0, hrest, hbudget, hlength, rfl, nofun, rfl, ?_⟩
    have hbytes := signedBytes_ofSignedBytes body
    obtain ⟨hlo, hhi⟩ := ofSignedBytes_bounds body
    rw [hlength] at hbytes hlo hhi
    simp only [scalarBytes, EnumTable.code?_of_name? hname]
    rw [Int8.toInt_ofInt_of_le (by omega) (by omega), hbytes]

theorem reread_of_rewritten {t : Ty}
    (hwrite : ∀ v s, writeValue t v s =
      if maxBytes < s.out.length then .error "value exceeds byte limit"
      else match v.indirect with
        | .null => .error ("NULL for " ++ t.name)
        | v => s.write <$> scalarBytes t v)
    (hread : readValue zone t = readScalar zone t)
    (hsurvey : ∀ bytes, survey t bytes = ({}, bytes.drop (minimumSize t)))
    (htimes : ∀ v, timestamps t v = []) (hnullable : t.isNullable = false)
    (h : Accepts (readScalar zone t) (Rewritten t)) :
    Accepts (readValue zone t) (Reread zone t) := by
  rw [hread]
  refine h.mono ?_
  rintro body spent v ⟨hlength, rfl, hnull, hplain, hbody⟩
  exact reread_scalar hnull hplain (hwrite v) hsurvey (htimes v) hlength hnullable hbody

/-- A timestamp in range is in whole units of its column and fits it. -/
theorem dateTime_bytes {scale : Scale} {a : List UInt8} (hlength : a.length = 8)
    (hrange : (scale.instant a).YearInRange) :
    scalarBytes (.dateTime scale) (.time (scale.instant a)) = .ok a := by
  have hbytes := signedBytes_ofSignedBytes a
  obtain ⟨hlo, hhi⟩ := ofSignedBytes_bounds a
  rw [hlength] at hbytes hlo hhi
  have hunit : scale.unit ∣ Time.second ∧ 0 < scale.unit := by
    cases scale <;> decide
  have hzero : ¬ (scale.instant a).IsZero := by
    intro hzero
    have hunix := hrange.1
    unfold Time.unix at hunix
    rw [hzero] at hunix
    revert hunix
    change ¬ (0 ≤ Time.zero.unixNano / Time.second + 0)
    decide
  have hnano : (scale.instant a).nanosecond % scale.unit = 0 := by
    unfold Time.nanosecond Scale.instant
    rw [Int.emod_emod_of_dvd _ hunit.1, Int.mul_emod_left]
  have hstamp : (scale.stamp (scale.instant a)).toInt = ofSignedBytes a := by
    unfold Scale.stamp Scale.instant
    rw [Int.mul_ediv_cancel _ hunit.2.ne', Int64.toInt_ofInt_of_le (by omega) (by omega)]
  simp only [scalarBytes, Check.andThen_eq_ok, Check.failIf_eq_ok, not_not]
  refine ⟨(), hzero, (), hnano, (), hrange, ?_⟩
  rw [hstamp, hbytes]
  rfl

theorem reread_dateTime (scale : Scale) :
    Accepts (readValue zone (.dateTime scale)) (Reread zone (.dateTime scale)) := by
  intro c v c' h
  obtain ⟨a, c₁, ha, h⟩ := Reading.bind_ok.mp h
  rw [Reading.bind_ok] at h
  obtain ⟨u, c₂, hcheck, h⟩ := h
  obtain ⟨hshows, rfl⟩ := Wire.failIf_ok.mp hcheck
  obtain ⟨rfl, rfl⟩ := Reading.pure_ok.mp h
  obtain ⟨body, spent, hrest, hbudget, rfl, rfl, hlength⟩ := Wire.accepts_take 8 _ _ _ ha
  rw [not_not] at hshows
  refine ⟨body, 0, hrest, hbudget, rfl, ?_, fun _ => rfl, nofun, false, ?_, ?_, ?_⟩
  · intro t ht
    rw [List.mem_singleton.1 ht]
    exact hshows
  · intro rest
    show ((⟨[scale.instant ((body ++ rest).take 8)], false⟩ : Marks), (body ++ rest).drop 8) = _
    rw [← hlength, List.take_left, List.drop_left]
    rfl
  · intro _
    constructor
    · intro hnull
      cases hnull
    · rintro ⟨hnullable, -⟩
      cases hnullable
  · intro hrange
    have hbody := dateTime_bytes hlength (hrange _ (List.mem_singleton.2 rfl))
    exact ⟨body, writes_scalar nofun rfl (fun _ => rfl) hbody, le_refl _, by simp⟩

theorem reread_string : Accepts (readValue zone .string) (Reread zone .string) := by
  intro c v c' h
  obtain ⟨n, c₁, hn, h⟩ := Reading.bind_ok.mp h
  rw [Reading.bind_ok] at h
  obtain ⟨u, c₂, hlimit, h⟩ := h
  obtain ⟨hlimit, rfl⟩ := Wire.failIf_ok.mp hlimit
  obtain ⟨body₁, spent₁, hrest₁, hbudget₁, rfl, rfl, hlt⟩ := Wire.accepts_readNat 4 _ _ _ hn
  obtain ⟨body, spent, hrest, hbudget, a, rfl, rfl, rfl, hlength⟩ :=
    (Wire.accepts_take n).map Value.string _ _ _ h
  refine ⟨bigEndian 4 n ++ body, 0, ?_, hbudget₁.trans hbudget, rfl, ?_, fun _ => rfl, nofun, false, ?_, ?_, ?_⟩
  · rw [hrest₁, hrest, List.append_assoc]
  · exact fun t ht => absurd ht List.not_mem_nil
  · intro rest
    have hfour : (bigEndian 4 n).length = 4 := Wire.length_bigEndian 4 n
    show (({} : Marks), (bigEndian 4 n ++ body ++ rest).drop
      (4 + ofBigEndian ((bigEndian 4 n ++ body ++ rest).take 4))) = _
    rw [List.append_assoc, List.take_left' hfour, Wire.ofBigEndian_bigEndian_of_lt hlt,
      ← List.drop_drop, List.drop_left' hfour, List.drop_left' hlength]
    rfl
  · intro _
    constructor
    · intro hnull
      cases hnull
    · rintro ⟨hnullable, -⟩
      cases hnullable
  · intro _
    refine ⟨bigEndian 4 n ++ body, ?_, le_refl _, by simp⟩
    intro s hfits _
    rw [List.length_append, Wire.length_bigEndian] at hfits
    unfold writeValue
    rw [if_neg (by omega)]
    simp only [Value.indirect, Value.text?, writeText, Check.andThen_eq_ok, Check.failIf_eq_ok]
    refine ⟨(), by omega, s.write (bigEndian 4 body.length), rfl, (), ?_, ?_⟩
    · show ¬ maxBytes < (s.out ++ bigEndian 4 body.length).length + body.length
      rw [List.length_append, Wire.length_bigEndian]
      omega
    · rw [hlength]
      show Except.ok (⟨(s.out ++ bigEndian 4 n) ++ body, s.budget⟩ : Sink) = _
      rw [List.append_assoc]
      rfl

/-- Low cardinality adds nothing to the bytes of a string. -/
theorem reread_lowCardinality :
    Accepts (readValue zone (.lowCardinality .string)) (Reread zone (.lowCardinality .string)) := by
  refine Accepts.mono reread_string ?_
  rintro body spent v ⟨hplain, hshows, hspent, -, doubled, hwalk, hmark, hwrite⟩
  refine ⟨hplain, ?_, hspent, nofun, doubled, hwalk, hmark, ?_⟩
  · exact fun t ht => absurd ht List.not_mem_nil
  · intro _
    obtain ⟨body', hwrites, hshort, hsame⟩ := hwrite inRange_nil
    refine ⟨body', ?_, hshort, hsame⟩
    intro s hfits hbudget
    have hstring := hwrites s hfits hbudget
    have hwrapped : writeValue (.lowCardinality .string) v s =
        if maxBytes < s.out.length then .error "value exceeds byte limit"
        else match v.indirect with
          | .null => .error "NULL for LowCardinality"
          | v => writeValue .string v s := rfl
    rw [hwrapped, if_neg (by omega), hplain]
    split
    · unfold writeValue at hstring
      rw [if_neg (by omega)] at hstring
      cases hstring
    · exact hstring

theorem reread_fixedString (size : Nat) :
    Accepts (readValue zone (.fixedString size)) (Reread zone (.fixedString size)) := by
  refine ((Wire.accepts_take size).map Value.string).mono ?_
  rintro body spent v ⟨a, rfl, rfl, rfl, hlength⟩
  refine ⟨rfl, ?_, fun _ => rfl, nofun, false, ?_, ?_, ?_⟩
  · exact fun t ht => absurd ht List.not_mem_nil
  · intro rest
    show (({} : Marks), (body ++ rest).drop size) = _
    rw [List.drop_left' hlength]
    rfl
  · intro _
    constructor
    · intro hnull
      cases hnull
    · rintro ⟨hnullable, -⟩
      cases hnullable
  · intro _
    refine ⟨body, ?_, le_refl _, by simp⟩
    intro s hfits _
    unfold writeValue
    rw [if_neg (by omega)]
    simp only [Value.indirect, Value.text?, writeText, Check.andThen_eq_ok, Check.failIf_eq_ok, not_not]
    exact ⟨(), hlength, s, rfl, (), by omega, rfl⟩

/-- Two bodies no longer than two others make up the same bytes only as the same bodies. -/
theorem append_eq_iff {a a' b b' : List UInt8} (ha : a'.length ≤ a.length) (hb : b'.length ≤ b.length) :
    a' ++ b' = a ++ b ↔ a' = a ∧ b' = b := by
  constructor
  · intro h
    have hlength := congrArg List.length h
    rw [List.length_append, List.length_append] at hlength
    exact List.append_inj h (by omega)
  · rintro ⟨rfl, rfl⟩
    rfl

theorem InRange.of_append {times times' : List Time} (h : InRange (times ++ times')) :
    InRange times ∧ InRange times' :=
  ⟨fun t ht => h t (List.mem_append_left _ ht), fun t ht => h t (List.mem_append_right _ ht)⟩

/-- The elements of an array, from the bodies they were read from. -/
theorem reread_all {child : Ty} {body : List UInt8} {spent : Nat} {vs : List Value}
    (h : Wire.All (Reread zone child) body spent vs) :
    zone.Shows (vs.flatMap (timestamps child)) ∧
      ∃ doubled, (∀ rest, surveyAll (survey child) vs.length (body ++ rest) =
          (⟨vs.flatMap (timestamps child), doubled⟩, rest)) ∧
        (InRange (vs.flatMap (timestamps child)) → ∃ body',
          (∀ i, Writes maxBytes (writeAll (writeValue child) i vs) body' spent) ∧
            body'.length ≤ body.length ∧ (body' = body ↔ doubled = false)) := by
  induction h with
  | nil =>
      refine ⟨fun t ht => absurd ht List.not_mem_nil, false, fun rest => rfl, fun _ => ⟨[], ?_, le_refl _, by simp⟩⟩
      intro i s _ _
      show Except.ok s = _
      rw [List.append_nil]
      rfl
  | @cons body bodies spent spents v vs hv _ ih =>
      obtain ⟨hshows, doubleds, hwalks, hwrites⟩ := ih
      obtain ⟨doubled, hwalk, -, hwrite⟩ := hv.walk
      refine ⟨?_, doubled || doubleds, ?_, ?_⟩
      · rw [List.flatMap_cons]
        intro t ht
        rcases List.mem_append.1 ht with ht | ht
        · exact hv.shows t ht
        · exact hshows t ht
      · intro rest
        rw [List.length_cons, surveyAll, List.append_assoc, hwalk]
        dsimp only
        rw [hwalks]
        rfl
      · intro hrange
        rw [List.flatMap_cons] at hrange
        obtain ⟨body', hfirst, hshort, hsame⟩ := hwrite hrange.of_append.1
        obtain ⟨bodies', hrest, hshorts, hsames⟩ := hwrites hrange.of_append.2
        refine ⟨body' ++ bodies', ?_, ?_, ?_⟩
        · intro i s hfits hbudget
          rw [List.length_append] at hfits
          unfold writeAll
          rw [hfirst s (by omega) (by omega)]
          have hnext := hrest (i + 1) ⟨s.out ++ body', s.budget - spent⟩ (by
            rw [List.length_append]
            omega) (by
            show spents ≤ s.budget - spent
            omega)
          rw [List.append_assoc, Nat.sub_sub] at hnext
          exact hnext
        · rw [List.length_append, List.length_append]
          omega
        · rw [append_eq_iff hshort hshorts, hsame, hsames, Bool.or_eq_false_iff]

theorem reread_array {child : Ty} (h : Accepts (readValue zone child) (Reread zone child)) :
    Accepts (readValue zone (.array child)) (Reread zone (.array child)) := by
  refine ((Wire.accepts_count (minimumSize child)).bind
    fun n => (h.many n).map Value.list).mono ?_
  rintro body spent v ⟨n, -, bodies, -, spents, rfl, rfl, ⟨rfl, rfl, hlt⟩, vs, rfl, rfl, hall⟩
  obtain ⟨hshows, doubled, hwalk, hwrite⟩ := reread_all hall
  have hfour : (bigEndian 4 vs.length).length = 4 := Wire.length_bigEndian 4 _
  refine ⟨rfl, hshows, nofun, nofun, doubled, ?_, ?_, ?_⟩
  · intro rest
    show surveyAll (survey child)
      (ofBigEndian ((bigEndian 4 vs.length ++ bodies ++ rest).take 4))
      ((bigEndian 4 vs.length ++ bodies ++ rest).drop 4) = _
    rw [List.append_assoc, List.take_left' hfour, List.drop_left' hfour,
      Wire.ofBigEndian_bigEndian_of_lt hlt]
    exact hwalk rest
  · intro _
    constructor
    · intro hnull
      cases hnull
    · rintro ⟨hnullable, -⟩
      cases hnullable
  · intro hrange
    obtain ⟨body', hwrites, hshort, hsame⟩ := hwrite hrange
    refine ⟨bigEndian 4 vs.length ++ body', ?_, ?_, ?_⟩
    · intro s hfits hbudget
      rw [List.length_append, Wire.length_bigEndian] at hfits
      unfold writeValue
      rw [if_neg (by omega)]
      simp only [Value.indirect, Value.elems?]
      rw [if_neg (by omega)]
      rw [hwrites 0 _ (by
        rw [List.length_append, Wire.length_bigEndian]
        omega) (by
        show spents ≤ s.budget - vs.length
        omega)]
      rw [List.append_assoc, Nat.sub_sub]
    · rw [List.length_append, List.length_append]
      omega
    · rw [List.append_cancel_left_eq, hsame]

mutual

theorem timestamps_null : ∀ t : Ty, timestamps t .null = []
  | .nullable _ => rfl
  | .lowCardinality child => timestamps_null child
  | .array _ => rfl
  | .tuple fields => timestampsFields_null fields
  | .dateTime _ => rfl
  | .uint _ => rfl
  | .int32 => rfl
  | .int64 => rfl
  | .uint256 => rfl
  | .uuid => rfl
  | .bool => rfl
  | .string => rfl
  | .fixedString _ => rfl
  | .decimal => rfl
  | .enum8 _ => rfl

theorem timestampsFields_null : ∀ fields : Fields, timestampsFields fields .null = []
  | .nil => rfl
  | .cons name child rest => by
      show timestamps child .null ++ timestampsFields rest .null = []
      rw [timestamps_null child, timestampsFields_null rest]
      rfl

end

theorem reread_nullable {child : Ty} (h : Accepts (readValue zone child) (Reread zone child)) :
    Accepts (readValue zone (.nullable child)) (Reread zone (.nullable child)) := by
  intro c v c' hread
  rw [readValue] at hread
  obtain ⟨n, c₁, hn, hread⟩ := Reading.bind_ok.mp hread
  obtain ⟨mark, spent₁, hrest₁, hbudget₁, rfl, rfl, hlt⟩ := Wire.accepts_readNat 1 _ _ _ hn
  split at hread
  · -- the mark of a null
    rename_i hzero
    subst hzero
    obtain ⟨rfl, rfl⟩ := Reading.pure_ok.mp hread
    refine ⟨[0], 0, hrest₁, hbudget₁, rfl, ?_, fun _ => rfl, fun _ => List.cons_ne_nil _ _, false,
      fun rest => rfl, ?_, ?_⟩
    · exact fun t ht => absurd ht List.not_mem_nil
    · exact fun _ => ⟨fun _ => ⟨rfl, rfl⟩, fun _ => rfl⟩
    · intro _
      refine ⟨[0], ?_, le_refl _, by simp⟩
      intro s hfits _
      unfold writeValue
      rw [if_neg (by omega)]
      rfl
  · -- a present value
    rw [Reading.bind_ok] at hread
    obtain ⟨u, c₂, hcheck, hread⟩ := hread
    obtain ⟨hone, rfl⟩ := Wire.failIf_ok.mp hcheck
    rw [not_not] at hone
    subst hone
    obtain ⟨body, spent, hrest, hbudget, hv⟩ := h _ _ _ hread
    obtain ⟨doubled, hwalk, hmark, hwrite⟩ := hv.walk
    have hsurvey : ∀ rest, survey (.nullable child) (1 :: body ++ rest) =
        (⟨timestamps child v, doubled || (child.isNullable && body.head? = some 0)⟩, rest) := by
      intro rest
      have hhead : (child.isNullable && (body ++ rest).head? = some 0) =
          (child.isNullable && decide (body.head? = some 0)) := by
        rcases hnullable : child.isNullable with _ | _
        · rfl
        · rw [List.head?_append_of_ne_nil _ (hv.marked hnullable)]
      have hstep : survey (.nullable child) (1 :: (body ++ rest)) =
          ({ (survey child (body ++ rest)).1 with
            doubled := (survey child (body ++ rest)).1.doubled ||
              (child.isNullable && decide ((body ++ rest).head? = some 0)) },
            (survey child (body ++ rest)).2) := by
        conv_lhs => unfold survey
        rw [if_neg (by simp)]
        rfl
      rw [List.cons_append, hstep, hwalk, hhead]
    have hbody : c.rest = 1 :: body ++ c'.rest := by
      rw [hrest₁, hrest]
      rfl
    rcases Classical.em (v = .null) with hnull | hvalue
    · -- a null below is written as one null, a byte shorter at least
      subst hnull
      obtain rfl := hv.null_spent rfl
      have htwice : (doubled || (child.isNullable && body.head? = some 0)) = true := by
        rcases hd : doubled with _ | _
        · obtain ⟨hnullable, hhead⟩ := (hmark hd).1 rfl
          rw [hnullable, hhead]
          rfl
        · rfl
      rw [htwice] at hsurvey
      refine ⟨1 :: body, 0, hbody, hbudget₁.trans hbudget, rfl, ?_, fun _ => rfl,
        fun _ => List.cons_ne_nil _ _, true, ?_, nofun, ?_⟩
      · exact fun t ht => absurd ht List.not_mem_nil
      · rw [timestamps_null] at hsurvey ⊢
        exact hsurvey
      · intro _
        refine ⟨[0], ?_, Nat.le_add_left _ _, by simp⟩
        intro s hfits _
        unfold writeValue
        rw [if_neg (by omega)]
        rfl
    · have hplain : v.indirect ≠ .null := by
        rw [hv.plain]
        exact hvalue
      have htimes : timestamps (.nullable child) v = timestamps child v := by
        rw [timestamps_nullable hplain, hv.plain]
      refine ⟨1 :: body, spent, hbody, hbudget₁.trans hbudget, hv.plain, ?_, hv.null_spent,
        fun _ => List.cons_ne_nil _ _,
        doubled || (child.isNullable && decide (body.head? = some 0)), ?_, ?_, ?_⟩
      · rw [htimes]
        exact hv.shows
      · rw [htimes]
        exact hsurvey
      · intro _
        simp [hvalue]
      · rw [htimes]
        intro hrange
        obtain ⟨body', hwrites, hshort, hsame⟩ := hwrite hrange
        refine ⟨1 :: body', ?_, Nat.succ_le_succ hshort, ?_⟩
        · intro s hfits hspent
          rw [List.length_cons] at hfits
          have hnext := hwrites (s.write [1]) (by
            show (s.out ++ [1]).length + body'.length ≤ maxBytes
            rw [List.length_append, List.length_singleton]
            omega) hspent
          unfold writeValue
          rw [if_neg (by omega), hv.plain]
          split
          · exact absurd rfl hvalue
          · rw [hnext]
            show Except.ok (⟨(s.out ++ [1]) ++ body', s.budget - spent⟩ : Sink) = _
            rw [List.append_assoc]
            rfl
        · have hlone : (child.isNullable && decide (body.head? = some 0)) = true → doubled = true := by
            intro hlone
            rw [Bool.and_eq_true, decide_eq_true_eq] at hlone
            rcases hd : doubled with _ | _
            · exact absurd ((hmark hd).2 hlone) hvalue
            · rfl
          rw [List.cons_inj_right, hsame, Bool.or_eq_false_iff]
          constructor
          · intro hd
            refine ⟨hd, ?_⟩
            rw [← Bool.not_eq_true]
            intro htrue
            rw [hlone htrue] at hd
            cases hd
          · exact fun h => h.1

/-! ## Tuples -/

/-- The entries of a tuple, from the bodies they were read from: whatever value
has them as its members is written from the same walk. -/
def FieldsReread (zone : Zone) (fields : Fields) (body : List UInt8) (spent : Nat)
    (entries : List (List UInt8 × Value)) : Prop :=
  entries.map Prod.fst = fields.names ∧
    ∀ w : Value, (∀ e ∈ entries, w.member e.1 = .ok e.2) →
      zone.Shows (timestampsFields fields w) ∧
        ∃ doubled, (∀ rest, surveyFields fields (body ++ rest) =
            (⟨timestampsFields fields w, doubled⟩, rest)) ∧
          (InRange (timestampsFields fields w) → ∃ body',
            Writes maxBytes (writeFields fields w) body' spent ∧
              body'.length ≤ body.length ∧ (body' = body ↔ doubled = false))

theorem fieldsReread_nil : FieldsReread zone .nil [] 0 [] := by
  refine ⟨rfl, fun w _ => ⟨fun t ht => absurd ht List.not_mem_nil, false, fun rest => rfl, fun _ =>
    ⟨[], ?_, le_refl _, by simp⟩⟩⟩
  intro s _ _
  show Except.ok s = _
  rw [List.append_nil]
  rfl

theorem fieldsReread_cons {name : List UInt8} {child : Ty} {fields : Fields}
    {body bodies : List UInt8} {spent spents : Nat} {v : Value} {entries : List (List UInt8 × Value)}
    (hv : Reread zone child body spent v) (h : FieldsReread zone fields bodies spents entries) :
    FieldsReread zone (.cons name child fields) (body ++ bodies) (spent + spents)
      ((name, v) :: entries) := by
  obtain ⟨hnames, hfields⟩ := h
  refine ⟨by rw [List.map_cons, hnames]; rfl, ?_⟩
  intro w hw
  have hmember : w.member name = .ok v := hw (name, v) List.mem_cons_self
  obtain ⟨hshows, doubleds, hwalks, hwrites⟩ := hfields w fun e he => hw e (List.mem_cons_of_mem _ he)
  obtain ⟨doubled, hwalk, -, hwrite⟩ := hv.walk
  have htimes : timestampsFields (.cons name child fields) w =
      timestamps child v ++ timestampsFields fields w := by
    rw [timestampsFields, hmember]
    rfl
  rw [htimes]
  refine ⟨?_, doubled || doubleds, ?_, ?_⟩
  · intro t ht
    rcases List.mem_append.1 ht with ht | ht
    · exact hv.shows t ht
    · exact hshows t ht
  · intro rest
    rw [surveyFields, List.append_assoc, hwalk]
    dsimp only
    rw [hwalks]
    rfl
  · intro hrange
    obtain ⟨body', hfirst, hshort, hsame⟩ := hwrite hrange.of_append.1
    obtain ⟨bodies', hrest, hshorts, hsames⟩ := hwrites hrange.of_append.2
    refine ⟨body' ++ bodies', ?_, ?_, ?_⟩
    · have hboth := hfirst.bind hrest
      intro s hfits hspent
      have hdone := hboth s hfits hspent
      change writeValue child v s >>= writeFields fields w = _ at hdone
      unfold writeFields
      rw [hmember]
      rcases hs : writeValue child v s with e | s₁
      · rw [hs] at hdone
        cases hdone
      · show Check.wrap (nameText name) (writeValue child v s) >>= writeFields fields w = _
        rw [hs] at hdone ⊢
        exact hdone
    · rw [List.length_append, List.length_append]
      omega
    · rw [append_eq_iff hshort hshorts, hsame, hsames, Bool.or_eq_false_iff]

theorem Fields.WellFormed.nodup : ∀ {fields : Fields}, fields.WellFormed → fields.names.Nodup
  | .nil, _ => List.nodup_nil
  | .cons _ _ _, h => List.nodup_cons.2 ⟨h.1, h.2.2.nodup⟩

theorem member_dict {entries : List (List UInt8 × Value)} (hnodup : (entries.map Prod.fst).Nodup) :
    ∀ e ∈ entries, (Value.dict entries).member e.1 = .ok e.2 := by
  intro e he
  unfold Value.member
  rcases hfind : entries.find? fun p => p.1 = e.1 with _ | found
  · have hnone := List.find?_eq_none.1 hfind e he
    simp at hnone
  · have hname : found.1 = e.1 := by simpa using List.find?_some hfind
    have hsame := List.inj_on_of_nodup_map hnodup (List.mem_of_find?_eq_some hfind) he hname
    simp only [hfind, hsame]

theorem reread_tuple {fields : Fields} (hnodup : fields.names.Nodup)
    (h : Accepts (readFields zone fields) (FieldsReread zone fields)) :
    Accepts (readValue zone (.tuple fields)) (Reread zone (.tuple fields)) := by
  refine (h.map Value.dict).mono ?_
  rintro body spent v ⟨entries, rfl, hnames, hfields⟩
  obtain ⟨hshows, doubled, hwalk, hwrite⟩ := hfields (.dict entries) (member_dict (hnames ▸ hnodup))
  refine ⟨rfl, hshows, nofun, nofun, doubled, hwalk, ?_, ?_⟩
  · intro _
    constructor
    · intro hnull
      cases hnull
    · rintro ⟨hnullable, -⟩
      cases hnullable
  · intro hrange
    obtain ⟨body', hwrites, hshort, hsame⟩ := hwrite hrange
    refine ⟨body', ?_, hshort, hsame⟩
    intro s hfits hspent
    unfold writeValue
    rw [if_neg (by omega)]
    exact hwrites s hfits hspent

mutual

/-- What a column of a well-formed type reads, it writes again: the induction over types. -/
theorem readValue_accepts : ∀ t : Ty, t.WellFormed → Accepts (readValue zone t) (Reread zone t)
  | .nullable child, h => reread_nullable (readValue_accepts child (by
      simpa only [Ty.WellFormed] using h))
  | .lowCardinality child, h => by
      obtain rfl : child = .string := h
      exact reread_lowCardinality
  | .array child, h => reread_array (readValue_accepts child (by
      simpa only [Ty.WellFormed] using h))
  | .tuple fields, h => reread_tuple (Fields.WellFormed.nodup h) (readFields_accepts fields h)
  | .string, _ => reread_string
  | .fixedString size, _ => reread_fixedString size
  | .dateTime scale, _ => reread_dateTime scale
  | .uint width, _ => reread_of_rewritten (fun _ _ => rfl) rfl (fun _ => rfl) (fun _ => rfl) rfl
      (rewritten_uint width)
  | .int32, _ => reread_of_rewritten (fun _ _ => rfl) rfl (fun _ => rfl) (fun _ => rfl) rfl
      rewritten_int32
  | .int64, _ => reread_of_rewritten (fun _ _ => rfl) rfl (fun _ => rfl) (fun _ => rfl) rfl
      rewritten_int64
  | .uint256, _ => reread_of_rewritten (fun _ _ => rfl) rfl (fun _ => rfl) (fun _ => rfl) rfl
      rewritten_uint256
  | .uuid, _ => reread_of_rewritten (fun _ _ => rfl) rfl (fun _ => rfl) (fun _ => rfl) rfl
      rewritten_uuid
  | .bool, _ => reread_of_rewritten (fun _ _ => rfl) rfl (fun _ => rfl) (fun _ => rfl) rfl
      rewritten_bool
  | .decimal, _ => reread_of_rewritten (fun _ _ => rfl) rfl (fun _ => rfl) (fun _ => rfl) rfl
      rewritten_decimal
  | .enum8 enums, _ => reread_of_rewritten (fun _ _ => rfl) rfl (fun _ => rfl) (fun _ => rfl) rfl
      (rewritten_enum8 enums)

theorem readFields_accepts : ∀ fields : Fields, fields.WellFormed →
    Accepts (readFields zone fields) (FieldsReread zone fields)
  | .nil, _ => by
      refine (Wire.accepts_pure []).mono ?_
      rintro body spent entries ⟨rfl, rfl, rfl⟩
      exact fieldsReread_nil
  | .cons name child rest, h => by
      refine ((readValue_accepts child h.2.1).bind fun v =>
        (readFields_accepts rest h.2.2).bind fun entries =>
          Wire.accepts_pure ((name, v) :: entries)).mono ?_
      rintro body spent entries ⟨v, body₁, body₂, spent₁, spent₂, rfl, rfl, hv,
        others, body₃, body₄, spent₃, spent₄, rfl, rfl, hothers, rfl, rfl, rfl⟩
      rw [List.append_nil, Nat.add_zero]
      exact fieldsReread_cons hv hothers

end

end MarketInfo.Codec
