import MarketInfo.Codec.Value

/-! # Round trip of the value codec

What `Encode` accepts, `Decode` gives back in normal form, exactly when the local
clock of the process shows every timestamp of the value in the years 1970 to 9999.
-/

namespace MarketInfo.Codec

open Wire (bigEndian ofBigEndian signedBytes ofSignedBytes length_signedBytes
  ofSignedBytes_signedBytes Reading Sink Reads Emits)

/-! ## The normal form of a value -/

/-- The value a scalar column stands for. -/
def normalScalar : Ty → Value → Value
  | .uint width, v => width.value ((v.unsigned?.map UInt64.toNat).getD 0)
  | .int32, v => .int32 (Int32.ofInt ((v.signed?.map Int64.toInt).getD 0))
  | .int64, v => .int64 (v.signed?.getD 0)
  | .string, v => .string (v.text?.getD [])
  | .fixedString _, v => .string (v.text?.getD [])
  | .decimal, .decimal d => .decimal ⟨d.scaled, -18⟩
  | .dateTime _, .time t => .time t.utc
  | _, v => v

mutual

/-- The normal form of a value of the type: integers of the column's width,
decimals at its scale, times in UTC, tuples as maps of their fields. -/
def normalize : Ty → Value → Value
  | .nullable child, v =>
      match v.indirect with
      | .null => .null
      | v => normalize child v
  | .lowCardinality child, v => normalize child v.indirect
  | .array child, v => .list ((v.indirect.elems?.getD []).map (normalize child))
  | .tuple fields, v => .dict (normalizeFields fields v.indirect)
  | t, v => normalScalar t v.indirect

def normalizeFields : Fields → Value → List (List UInt8 × Value)
  | .nil, _ => []
  | .cons name child rest, v =>
      (name, normalize child ((v.member name).toOption.getD .null)) :: normalizeFields rest v

end

mutual

/-- The timestamps a column of the type takes from a value. -/
def timestamps : Ty → Value → List Time
  | .nullable child, v =>
      match v.indirect with
      | .null => []
      | v => timestamps child v
  | .lowCardinality child, v => timestamps child v.indirect
  | .array child, v => (v.indirect.elems?.getD []).flatMap (timestamps child)
  | .tuple fields, v => timestampsFields fields v.indirect
  | .dateTime _, v =>
      match v.indirect with
      | .time t => [t]
      | _ => []
  | _, _ => []

def timestampsFields : Fields → Value → List Time
  | .nil, _ => []
  | .cons name child rest, v =>
      timestamps child ((v.member name).toOption.getD .null) ++ timestampsFields rest v

end

/-- The local clock shows the years 1970 to 9999 at every one of the instants. -/
def Zone.Shows (zone : Zone) (times : List Time) : Prop :=
  ∀ t ∈ times, (zone.local t).YearInRange

/-! ## Scalars -/

theorem EnumTable.name?_of_code? {e : EnumTable} {name : List UInt8} {code : Int8}
    (h : e.code? name = some code) : e.name? code = some name := by
  unfold EnumTable.code? at h
  unfold EnumTable.name?
  rw [Option.map_eq_some_iff] at h
  obtain ⟨entry, hfind, rfl⟩ := h
  have hmem := List.mem_of_find?_eq_some hfind
  have hname : entry.1 = name := by simpa using List.find?_some hfind
  rw [Option.map_eq_some_iff]
  rcases hcode : e.entries.find? fun p => p.2 = entry.2 with _ | found
  · have hnone := List.find?_eq_none.1 hcode entry hmem
    simp at hnone
  · refine ⟨found, hcode, ?_⟩
    have hfound : found.2 = entry.2 := by simpa using List.find?_some hcode
    rw [List.inj_on_of_nodup_map e.codes_nodup (List.mem_of_find?_eq_some hcode) hmem hfound, hname]

theorem decimalCoefficient_eq_ok {d : Decimal} {n : Int} (h : decimalCoefficient d = .ok n) :
    n = d.scaled ∧ n.natAbs < 10 ^ 38 := by
  unfold decimalCoefficient at h
  split at h
  · rename_i hzero
    obtain rfl := Except.ok.inj h
    refine ⟨?_, by norm_num⟩
    unfold Decimal.scaled
    rw [hzero]
    split <;> simp
  · simp only [Check.andThen_eq_ok, Check.failIf_eq_ok] at h
    obtain ⟨-, -, -, -, -, hlt, h⟩ := h
    obtain rfl := Except.ok.inj h
    exact ⟨rfl, by omega⟩

/-- A coefficient that was written passes the check of the reader. -/
theorem decimalCoefficient_of_lt {n : Int} (h : n.natAbs < 10 ^ 38) :
    decimalCoefficient ⟨n, -18⟩ = .ok n := by
  have hscaled : Decimal.scaled ⟨n, -18⟩ = n := by simp [Decimal.scaled]
  have hequal : Decimal.ScaledEqual ⟨n, -18⟩ n := by simp [Decimal.ScaledEqual]
  have hsize : Nat.size n.natAbs ≤ 13600 := by
    rw [Nat.size_le]
    refine h.trans_le ?_
    calc (10 : Nat) ^ 38 ≤ 16 ^ 38 := Nat.pow_le_pow_left (by norm_num) 38
      _ = 2 ^ 152 := by norm_num
      _ ≤ 2 ^ 13600 := Nat.pow_le_pow_right (by norm_num) (by norm_num)
  unfold decimalCoefficient
  split
  · rename_i hzero
    rw [show n = 0 from hzero]
    rfl
  · simp only [Check.andThen_eq_ok, Check.failIf_eq_ok, hscaled]
    refine ⟨(), ?_, (), fun hne => hne hequal, (), by omega, rfl⟩
    omega

theorem scalar_size {t : Ty} {v : Value} {body : List UInt8} (h : scalarBytes t v = .ok body) :
    minimumSize t ≤ body.length := by
  unfold scalarBytes at h
  split at h
  · -- Bool
    split at h
    · obtain rfl := Except.ok.inj h
      simp [minimumSize]
    · cases h
  · -- UInt8 to UInt64
    split at h
    · cases h
    · split at h
      · cases h
      · obtain rfl := Except.ok.inj h
        simp [minimumSize]
  · -- Int32
    split at h
    · cases h
    · split at h
      · cases h
      · obtain rfl := Except.ok.inj h
        simp [minimumSize]
  · -- Int64
    split at h
    · cases h
    · obtain rfl := Except.ok.inj h
      simp [minimumSize]
  · -- UInt256
    split at h
    · split at h
      · cases h
      · obtain rfl := Except.ok.inj h
        simp [minimumSize]
    · cases h
  · -- Decimal
    split at h
    · rw [Check.andThen_eq_ok] at h
      obtain ⟨n, -, h⟩ := h
      obtain rfl := Except.ok.inj h
      simp [minimumSize]
    · cases h
  · -- UUID
    split at h
    · obtain rfl := Except.ok.inj h
      simp [minimumSize]
    · cases h
  · -- Enum8
    split at h
    · split at h
      · cases h
      · obtain rfl := Except.ok.inj h
        simp [minimumSize]
    · cases h
  · -- DateTime and DateTime64
    split at h
    · simp only [Check.andThen_eq_ok] at h
      obtain ⟨-, -, -, -, -, -, h⟩ := h
      obtain rfl := Except.ok.inj h
      simp [minimumSize]
    · cases h
  · cases h

/-- A written timestamp is in whole units, and the local clock that shows it in
range makes its count of units fit the column. -/
theorem stamp_unit {zone : Zone} {scale : Scale} {t : Time} (hunit : t.nanosecond % scale.unit = 0)
    (hshows : (zone.local t).YearInRange) :
    (scale.stamp t).toInt * scale.unit = t.unixNano := by
  have hoffset := zone.offset_le t.unix
  obtain ⟨hlo, hhi⟩ := hshows
  change 0 ≤ t.unix + zone.offset t.unix at hlo
  change t.unix + zone.offset t.unix < 253402300800 at hhi
  have hnano : t.unix * 1000000000 + t.nanosecond = t.unixNano := by
    unfold Time.unix Time.nanosecond Time.second
    omega
  have hrange : 0 ≤ t.nanosecond ∧ t.nanosecond < 1000000000 := by
    unfold Time.nanosecond Time.second
    omega
  unfold Scale.stamp
  cases scale with
  | second =>
      change t.nanosecond % 1000000000 = 0 at hunit
      change (Int64.ofInt (t.unixNano / 1000000000)).toInt * 1000000000 = _
      rw [Int64.toInt_ofInt_of_le (by omega) (by omega)]
      omega
  | milli =>
      change t.nanosecond % 1000000 = 0 at hunit
      change (Int64.ofInt (t.unixNano / 1000000)).toInt * 1000000 = _
      rw [Int64.toInt_ofInt_of_le (by omega) (by omega)]
      omega
  | micro =>
      change t.nanosecond % 1000 = 0 at hunit
      change (Int64.ofInt (t.unixNano / 1000)).toInt * 1000 = _
      rw [Int64.toInt_ofInt_of_le (by omega) (by omega)]
      omega

theorem decimal_fits {n : Int} (h : n.natAbs < 10 ^ 38) :
    -256 ^ 16 ≤ 2 * n ∧ 2 * n < 256 ^ 16 := by
  have hcoefficient : (10 : Nat) ^ 38 = 100000000000000000000000000000000000000 := by norm_num
  have hword : (256 : Int) ^ 16 = 340282366920938463463374607431768211456 := by norm_num
  rw [hcoefficient] at h
  rw [hword]
  omega

theorem reads_bool {zone : Zone} {v : Value} {body : List UInt8} (h : scalarBytes .bool v = .ok body) :
    Reads (readScalar zone .bool) body 0 v := by
  simp only [scalarBytes] at h
  split at h
  · rename_i b
    obtain rfl := Except.ok.inj h
    have hread : Reads (Wire.readNat 1) [if b then 1 else 0] 0 (if b then 1 else 0) := by
      have hword := Wire.reads_readNat (show (if b then 1 else 0) < 256 ^ 1 by split <;> norm_num)
      cases b with
      | false => exact hword
      | true => exact hword
    refine hread.followed (Reads.followed (Wire.reads_failIf ?_) ?_)
    · split <;> omega
    · cases b with
      | false => exact Wire.reads_pure _
      | true => exact Wire.reads_pure _
  · cases h

theorem reads_uint {zone : Zone} {width : Width} {v : Value} {body : List UInt8}
    (h : scalarBytes (.uint width) v = .ok body) :
    Reads (readScalar zone (.uint width)) body 0 (normalScalar (.uint width) v) := by
  simp only [scalarBytes] at h
  split at h
  · cases h
  · rename_i n hn
    split at h
    · cases h
    · rename_i hfits
      obtain rfl := Except.ok.inj h
      have hlt : n.toNat < 256 ^ width.size := by
        have hword := n.toNat_lt
        cases width with
        | one => simp [Width.size] at hfits ⊢; omega
        | two => simp [Width.size] at hfits ⊢; omega
        | four => simp [Width.size] at hfits ⊢; omega
        | eight => simpa [Width.size] using hword
      have hread := (Wire.reads_readNat hlt).map width.value
      simp only [normalScalar, hn, Option.map_some, Option.getD_some]
      exact hread

theorem reads_int32 {zone : Zone} {v : Value} {body : List UInt8}
    (h : scalarBytes .int32 v = .ok body) :
    Reads (readScalar zone .int32) body 0 (normalScalar .int32 v) := by
  simp only [scalarBytes] at h
  split at h
  · cases h
  · rename_i n hn
    split at h
    · cases h
    · obtain rfl := Except.ok.inj h
      have hread := Wire.reads_take (length_signedBytes 4 n.toInt)
      have hvalue := hread.map fun a => Value.int32 (Int32.ofInt (ofSignedBytes a))
      rw [ofSignedBytes_signedBytes (by omega) (by omega)] at hvalue
      simp only [normalScalar, hn, Option.map_some, Option.getD_some]
      exact hvalue

theorem reads_int64 {zone : Zone} {v : Value} {body : List UInt8}
    (h : scalarBytes .int64 v = .ok body) :
    Reads (readScalar zone .int64) body 0 (normalScalar .int64 v) := by
  simp only [scalarBytes] at h
  split at h
  · cases h
  · rename_i n hn
    obtain rfl := Except.ok.inj h
    have hlo := n.le_toInt
    have hhi := n.toInt_lt
    have hread := Wire.reads_take (length_signedBytes 8 n.toInt)
    have hvalue := hread.map fun a => Value.int64 (Int64.ofInt (ofSignedBytes a))
    rw [ofSignedBytes_signedBytes (by omega) (by omega), Int64.ofInt_toInt] at hvalue
    simp only [normalScalar, hn, Option.getD_some]
    exact hvalue

theorem reads_uint256 {zone : Zone} {v : Value} {body : List UInt8}
    (h : scalarBytes .uint256 v = .ok body) : Reads (readScalar zone .uint256) body 0 v := by
  simp only [scalarBytes] at h
  split at h
  · rename_i n
    split at h
    · cases h
    · rename_i hfits
      obtain rfl := Except.ok.inj h
      rw [not_or, not_lt, not_lt, Nat.size_le] at hfits
      have hlt : n.toNat < 256 ^ 32 := by
        have hnat : n.toNat = n.natAbs := by omega
        have hpow : (256 : Nat) ^ 32 = 2 ^ 256 := by norm_num
        rw [hnat, hpow]
        exact hfits.2
      have hvalue : Value.bigInt n = Value.bigInt (n.toNat : Int) := by
        rw [Int.toNat_of_nonneg hfits.1]
      have hread : Reads (Wire.readNat 32) (bigEndian 32 n.toNat) 0 n.toNat :=
        Wire.reads_readNat hlt
      rw [hvalue, readScalar]
      exact hread.map fun k : Nat => Value.bigInt k
  · cases h

theorem reads_decimal {zone : Zone} {v : Value} {body : List UInt8}
    (h : scalarBytes .decimal v = .ok body) :
    Reads (readScalar zone .decimal) body 0 (normalScalar .decimal v) := by
  simp only [scalarBytes] at h
  split at h
  · rename_i d
    rw [Check.andThen_eq_ok] at h
    obtain ⟨n, hn, h⟩ := h
    obtain rfl := Except.ok.inj h
    obtain ⟨rfl, hlt⟩ := decimalCoefficient_eq_ok hn
    obtain ⟨hlo, hhi⟩ := decimal_fits hlt
    refine Reads.followed (Wire.reads_take (length_signedBytes _ _)) ?_
    rw [ofSignedBytes_signedBytes hlo hhi]
    simp only [decimalCoefficient_of_lt hlt]
    exact Wire.reads_pure _
  · cases h

theorem reads_uuid {zone : Zone} {v : Value} {body : List UInt8}
    (h : scalarBytes .uuid v = .ok body) : Reads (readScalar zone .uuid) body 0 v := by
  simp only [scalarBytes] at h
  split at h
  · rename_i u
    obtain rfl := Except.ok.inj h
    refine Reads.followed (Wire.reads_take u.length_toList) ?_
    rw [dif_pos u.length_toList]
    exact Wire.reads_pure _
  · cases h

theorem reads_enum8 {zone : Zone} {enums : EnumTable} {v : Value} {body : List UInt8}
    (h : scalarBytes (.enum8 enums) v = .ok body) :
    Reads (readScalar zone (.enum8 enums)) body 0 v := by
  simp only [scalarBytes] at h
  split at h
  · split at h
    · cases h
    · rename_i s code hcode
      obtain rfl := Except.ok.inj h
      have hlo := code.le_toInt
      have hhi := code.toInt_lt
      refine Reads.followed (Wire.reads_take (length_signedBytes _ _)) ?_
      rw [ofSignedBytes_signedBytes (by omega) (by omega), Int8.ofInt_toInt]
      simp only [EnumTable.name?_of_code? hcode]
      exact Wire.reads_pure _
  · cases h

theorem reads_dateTime {zone : Zone} {scale : Scale} {v : Value} {body : List UInt8}
    (h : scalarBytes (.dateTime scale) v = .ok body)
    (hshows : zone.Shows (timestamps (.dateTime scale) v)) :
    Reads (readScalar zone (.dateTime scale)) body 0 (normalScalar (.dateTime scale) v) := by
  simp only [scalarBytes] at h
  split at h
  · rename_i t
    simp only [Check.andThen_eq_ok, Check.failIf_eq_ok, not_not] at h
    obtain ⟨-, -, -, hunit, -, -, h⟩ := h
    obtain rfl := Except.ok.inj h
    have ht : (zone.local t).YearInRange := hshows t (by simp [timestamps, Value.indirect])
    have hlo := (scale.stamp t).le_toInt
    have hhi := (scale.stamp t).toInt_lt
    refine Reads.followed (Wire.reads_take (length_signedBytes _ _)) ?_
    rw [ofSignedBytes_signedBytes (by omega) (by omega), stamp_unit hunit ht]
    -- the local clock reads the instant only
    refine Reads.followed (Wire.reads_failIf ?_) (Wire.reads_pure _)
    rw [not_not]
    exact ht
  · cases h

/-- A scalar that was written is read back in normal form. -/
theorem scalar_reads (zone : Zone) {t : Ty} {v : Value} {body : List UInt8}
    (h : scalarBytes t v = .ok body) (hshows : zone.Shows (timestamps t v)) :
    Reads (readScalar zone t) body 0 (normalScalar t v) := by
  cases t with
  | bool => exact reads_bool h
  | uint width => exact reads_uint h
  | int32 => exact reads_int32 h
  | int64 => exact reads_int64 h
  | uint256 => exact reads_uint256 h
  | decimal => exact reads_decimal h
  | uuid => exact reads_uuid h
  | enum8 enums => exact reads_enum8 h
  | dateTime scale => exact reads_dateTime h hshows
  | string => cases h
  | fixedString size => cases h
  | array child => cases h
  | nullable child => cases h
  | lowCardinality child => cases h
  | tuple fields => cases h

/-! ## Values of every type -/

@[simp] theorem Value.indirect_indirect (v : Value) : v.indirect.indirect = v.indirect := by
  induction v using Value.indirect.induct with
  | case1 v ih => simpa [Value.indirect] using ih
  | case2 v hv => simp [Value.indirect]

theorem normalize_nullable {child : Ty} {v : Value} (h : v.indirect ≠ .null) :
    normalize (.nullable child) v = normalize child v.indirect := by
  conv_lhs => unfold normalize
  split
  · exact absurd ‹_› h
  · rfl

theorem timestamps_nullable {child : Ty} {v : Value} (h : v.indirect ≠ .null) :
    timestamps (.nullable child) v = timestamps child v.indirect := by
  conv_lhs => unfold timestamps
  split
  · exact absurd ‹_› h
  · rfl

/-- Every timestamp is in the years 1970 to 9999 of its own location. -/
def InRange (times : List Time) : Prop := ∀ t ∈ times, t.YearInRange

/-- What a column of the type stores of a value: never less than the least size,
no timestamp out of range, and readable where the clock shows the timestamps. -/
def Stored (zone : Zone) (t : Ty) (v : Value) (body : List UInt8) (spent : Nat) : Prop :=
  minimumSize t ≤ body.length ∧ InRange (timestamps t v) ∧
    (spent < 256 ^ 4 → zone.Shows (timestamps t v) →
      Reads (readValue zone t) body spent (normalize t v))

variable {zone : Zone}

theorem inRange_nil : InRange [] := fun _ ht => absurd ht List.not_mem_nil

theorem InRange.append {times times' : List Time} (h : InRange times) (h' : InRange times') :
    InRange (times ++ times') := by
  intro t ht
  rcases List.mem_append.1 ht with ht | ht
  · exact h t ht
  · exact h' t ht

theorem scalar_inRange {t : Ty} {v : Value} {body : List UInt8} (h : scalarBytes t v = .ok body) :
    InRange (timestamps t v) := by
  cases t with
  | dateTime scale =>
      simp only [scalarBytes] at h
      split at h
      · rename_i t
        simp only [Check.andThen_eq_ok, Check.failIf_eq_ok, not_not] at h
        obtain ⟨-, -, -, -, -, hrange, -⟩ := h
        intro t' ht'
        simp only [timestamps, Value.indirect, List.mem_singleton] at ht'
        rw [ht']
        exact hrange
      · cases h
  | bool => exact inRange_nil
  | uint width => exact inRange_nil
  | int32 => exact inRange_nil
  | int64 => exact inRange_nil
  | uint256 => exact inRange_nil
  | decimal => exact inRange_nil
  | uuid => exact inRange_nil
  | enum8 enums => exact inRange_nil
  | string => exact inRange_nil
  | fixedString size => exact inRange_nil
  | array child => cases h
  | nullable child => cases h
  | lowCardinality child => cases h
  | tuple fields => cases h

theorem emits_scalar {t : Ty} {v : Value}
    (hwrite : ∀ s, writeValue t v s =
      if maxBytes < s.out.length then .error "value exceeds byte limit"
      else match v.indirect with
        | .null => .error ("NULL for " ++ t.name)
        | v => s.write <$> scalarBytes t v)
    (hread : readValue zone t = readScalar zone t)
    (hnormal : normalize t v = normalScalar t v.indirect)
    (htimes : timestamps t v = timestamps t v.indirect) :
    Emits (writeValue t v) (Stored zone t v) := by
  intro s s' h
  rw [hwrite] at h
  split at h
  · cases h
  · split at h
    · cases h
    · rename_i hvalue
      obtain ⟨body, hbody, rfl⟩ := map_eq_ok h
      refine ⟨body, 0, rfl, rfl, scalar_size hbody, htimes ▸ scalar_inRange hbody, fun _ hshows => ?_⟩
      rw [hread, hnormal]
      exact scalar_reads zone hbody (htimes ▸ hshows)

theorem emits_string {v : Value} : Emits (writeValue .string v) (Stored zone .string v) := by
  intro s s' h
  unfold writeValue at h
  split at h
  · cases h
  · split at h
    · cases h
    · split at h
      · cases h
      · rename_i a ha
        simp only [writeText, Check.andThen_eq_ok, Check.failIf_eq_ok] at h
        obtain ⟨-, hlimit, s₁, hs₁, -, -, h⟩ := h
        obtain rfl := Except.ok.inj hs₁
        obtain rfl := Except.ok.inj h
        have hlength : a.length < 256 ^ 4 := by
          unfold maxBytes at hlimit
          omega
        refine ⟨bigEndian 4 a.length ++ a, 0, ?_, rfl, ?_, inRange_nil, fun _ _ => ?_⟩
        · exact List.append_assoc _ _ _
        · rw [List.length_append, Wire.length_bigEndian]
          exact Nat.le_add_right _ _
        · have hnormal : normalize .string v = .string a := by
            simp only [normalize, normalScalar, ha, Option.getD_some]
          rw [hnormal]
          refine Reads.after (Wire.reads_readNat hlength) ?_
          exact Reads.guarded hlimit ((Wire.reads_take rfl).map Value.string)

theorem emits_fixedString {size : Nat} {v : Value} :
    Emits (writeValue (.fixedString size) v) (Stored zone (.fixedString size) v) := by
  intro s s' h
  unfold writeValue at h
  split at h
  · cases h
  · split at h
    · cases h
    · split at h
      · cases h
      · rename_i a ha
        simp only [writeText, Check.andThen_eq_ok, Check.failIf_eq_ok, not_not] at h
        obtain ⟨-, hlength, s₁, hs₁, -, -, h⟩ := h
        obtain rfl := Except.ok.inj hs₁
        obtain rfl := Except.ok.inj h
        refine ⟨a, 0, rfl, rfl, hlength.ge, inRange_nil, fun _ _ => ?_⟩
        have hnormal : normalize (.fixedString size) v = .string a := by
          simp only [normalize, normalScalar, ha, Option.getD_some]
        rw [hnormal]
        exact (Wire.reads_take hlength).map Value.string

theorem emits_all {child : Ty} {write : Value → Sink → Except String Sink}
    (hwrite : ∀ v, Emits (write v) (Stored zone child v)) (elems : List Value) :
    ∀ i, Emits (writeAll write i elems) fun body spent =>
      elems.length * minimumSize child ≤ body.length ∧
        InRange (elems.flatMap (timestamps child)) ∧
        (spent < 256 ^ 4 → zone.Shows (elems.flatMap (timestamps child)) →
          Wire.ReadsAll (readValue zone child) body spent (elems.map (normalize child))) := by
  induction elems with
  | nil =>
      intro i s s' h
      obtain rfl := Except.ok.inj h
      exact ⟨[], 0, (List.append_nil _).symm, rfl, by simp, inRange_nil, fun _ _ => .nil⟩
  | cons v elems ih =>
      intro i s s' h
      unfold writeAll at h
      rw [Check.andThen_eq_ok] at h
      obtain ⟨s₁, hfirst, hrest⟩ := h
      rw [Check.wrap_eq_ok] at hfirst
      obtain ⟨body, spent, hout, hbudget, hsize, hrange, hread⟩ := hwrite v s s₁ hfirst
      obtain ⟨bodies, spents, houts, hbudgets, hsizes, hranges, hreads⟩ := ih _ s₁ s' hrest
      refine ⟨body ++ bodies, spent + spents, ?_, by omega, ?_, hrange.append hranges,
        fun hspent hshows => ?_⟩
      · rw [houts, hout, List.append_assoc]
      · rw [List.length_cons, List.length_append, Nat.succ_mul]
        omega
      · rw [List.flatMap_cons] at hshows
        refine .cons (hread (by omega) fun t ht => ?_) (hreads (by omega) fun t ht => ?_)
        · exact hshows t (List.mem_append_left _ ht)
        · exact hshows t (List.mem_append_right _ ht)

mutual

/-- What a column writes, it reads back in normal form: the induction over types. -/
theorem writeValue_emits : ∀ (t : Ty) (v : Value), Emits (writeValue t v) (Stored zone t v)
  | .nullable child, v => by
      intro s s' h
      unfold writeValue at h
      split at h
      · cases h
      · split at h
        · rename_i hnull
          obtain rfl := Except.ok.inj h
          have htimes : timestamps (.nullable child) v = [] := by
            unfold timestamps
            rw [hnull]
          refine ⟨[0], 0, rfl, rfl, le_refl 1, htimes ▸ inRange_nil, fun _ _ => ?_⟩
          have hnormal : normalize (.nullable child) v = .null := by
            unfold normalize
            rw [hnull]
          rw [hnormal, readValue]
          exact (Wire.reads_readNat (show 0 < 256 ^ 1 by norm_num)).followed (Wire.reads_pure _)
        · rename_i hvalue
          obtain ⟨body, spent, hout, hbudget, -, hrange, hread⟩ := writeValue_emits child v.indirect _ _ h
          refine ⟨1 :: body, spent, ?_, hbudget, ?_, ?_, fun hspent hshows => ?_⟩
          · rw [hout]
            exact List.append_assoc _ _ _
          · exact Nat.le_add_left _ _
          · rw [timestamps_nullable hvalue]
            exact hrange
          · rw [timestamps_nullable hvalue] at hshows
            rw [normalize_nullable hvalue, readValue]
            refine Reads.after (Wire.reads_readNat (show 1 < 256 ^ 1 by norm_num)) ?_
            rw [if_neg one_ne_zero]
            exact Reads.guarded (fun hne => hne rfl) (hread hspent hshows)
  | .lowCardinality child, v => by
      intro s s' h
      unfold writeValue at h
      split at h
      · cases h
      · split at h
        · cases h
        · exact writeValue_emits child v.indirect _ _ h
  | .array child, v => by
      intro s s' h
      unfold writeValue at h
      split at h
      · cases h
      · split at h
        · cases h
        · split at h
          · cases h
          · rename_i elems helems
            split at h
            · cases h
            · rename_i hfits
              obtain ⟨body, spent, hout, hbudget, hsize, hrange, hread⟩ :=
                emits_all (writeValue_emits child) elems 0 _ _ h
              refine ⟨bigEndian 4 elems.length ++ body, elems.length + spent, ?_, ?_, ?_, ?_, ?_⟩
              · rw [hout]
                exact List.append_assoc _ _ _
              · change s.budget - elems.length = s'.budget + spent at hbudget
                omega
              · rw [List.length_append, Wire.length_bigEndian]
                exact Nat.le_add_right _ _
              · rw [timestamps, helems, Option.getD_some]
                exact hrange
              · intro hspent hshows
                rw [timestamps, helems, Option.getD_some] at hshows
                rw [normalize, helems, Option.getD_some, readValue]
                have hall := (hread (by omega) hshows).many.map Value.list
                rw [List.length_map] at hall
                exact Reads.count (by omega) hsize hall
  | .tuple fields, v => by
      intro s s' h
      unfold writeValue at h
      split at h
      · cases h
      · split at h
        · cases h
        · obtain ⟨body, spent, hout, hbudget, hsize, hrange, hread⟩ :=
            writeFields_emits fields v.indirect _ _ h
          refine ⟨body, spent, hout, hbudget, hsize, hrange, fun hspent hshows => ?_⟩
          exact (hread hspent hshows).map Value.dict
  | .string, _ => emits_string
  | .fixedString _, _ => emits_fixedString
  | .uint _, _ => emits_scalar (fun _ => rfl) rfl rfl rfl
  | .int32, _ => emits_scalar (fun _ => rfl) rfl rfl rfl
  | .int64, _ => emits_scalar (fun _ => rfl) rfl rfl rfl
  | .uint256, _ => emits_scalar (fun _ => rfl) rfl rfl rfl
  | .uuid, _ => emits_scalar (fun _ => rfl) rfl rfl rfl
  | .bool, _ => emits_scalar (fun _ => rfl) rfl rfl rfl
  | .decimal, _ => emits_scalar (fun _ => rfl) rfl rfl rfl
  | .dateTime _, v => emits_scalar (fun _ => rfl) rfl rfl (by
      unfold timestamps
      rw [Value.indirect_indirect])
  | .enum8 _, _ => emits_scalar (fun _ => rfl) rfl rfl rfl

theorem writeFields_emits : ∀ (fields : Fields) (v : Value),
    Emits (writeFields fields v) fun body spent =>
      minimumSizes fields ≤ body.length ∧ InRange (timestampsFields fields v) ∧
        (spent < 256 ^ 4 → zone.Shows (timestampsFields fields v) →
          Reads (readFields zone fields) body spent (normalizeFields fields v))
  | .nil, v => by
      intro s s' h
      obtain rfl := Except.ok.inj h
      exact ⟨[], 0, (List.append_nil _).symm, rfl, le_refl 0, inRange_nil,
        fun _ _ => Wire.reads_pure _⟩
  | .cons name child rest, v => by
      intro s s' h
      unfold writeFields at h
      simp only [Check.andThen_eq_ok, Check.wrap_eq_ok] at h
      obtain ⟨f, hf, s₁, hfirst, hrest⟩ := h
      obtain ⟨body, spent, hout, hbudget, hsize, hrange, hread⟩ := writeValue_emits child f _ _ hfirst
      obtain ⟨bodies, spents, houts, hbudgets, hsizes, hranges, hreads⟩ :=
        writeFields_emits rest v _ _ hrest
      refine ⟨body ++ bodies, spent + spents, ?_, by omega, ?_, ?_, fun hspent hshows => ?_⟩
      · rw [houts, hout, List.append_assoc]
      · rw [minimumSizes, List.length_append]
        omega
      · rw [timestampsFields, hf]
        exact hrange.append hranges
      · rw [timestampsFields, hf] at hshows
        rw [normalizeFields, hf, readFields]
        have hfirst := hread (by omega) fun t ht => hshows t (List.mem_append_left _ ht)
        have hothers := hreads (by omega) fun t ht => hshows t (List.mem_append_right _ ht)
        exact hfirst.bind (hothers.followed (Wire.reads_pure _))

end

end MarketInfo.Codec
