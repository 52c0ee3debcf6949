import MarketInfo.Codec.Canonical

/-! # The laws of the value codec

Both directions of the round trip, and exactly where each of them fails.
-/

namespace MarketInfo.Codec

open Wire (Reading Sink Reads Emits)

/-! ## Headers -/

/-- What `Decode` accepts: the header of the type, and a value that ends the input. -/
theorem decode_eq_ok {zone : Zone} {t : Ty × Vector UInt8 16} {data : List UInt8} {v : Value} :
    Decode zone t data = .ok v ↔
      ∃ body budget, data = 1 :: t.2.toList ++ body ∧ data.length ≤ maxBytes ∧
        readValue zone t.1 ⟨body, maxElements⟩ = .ok (v, ⟨[], budget⟩) := by
  have htag : (1 :: t.2.toList).length = 17 := by simp
  unfold Decode decodeWith
  simp only [Check.andThen_eq_ok, Check.failIf_eq_ok, not_or, not_lt, not_not]
  constructor
  · rintro ⟨-, ⟨-, hlimit, hheader⟩, ⟨v', c⟩, hread, -, hend, hv⟩
    obtain rfl := Except.ok.inj hv
    obtain ⟨rest, budget⟩ := c
    obtain rfl : rest = [] := List.eq_nil_of_length_eq_zero hend
    refine ⟨data.drop 17, budget, ?_, hlimit, hread⟩
    rw [← hheader, List.take_append_drop]
  · rintro ⟨body, budget, rfl, hlimit, hread⟩
    refine ⟨(), ⟨?_, hlimit, List.take_left' htag⟩, (v, ⟨[], budget⟩), ?_, (), rfl, rfl⟩
    · rw [List.length_append, htag]
      exact Nat.le_add_right _ _
    · rw [List.drop_left' htag]
      exact hread

/-- What `Encode` gives: the header of the type, and what the value is written as. -/
theorem encode_eq_ok {t : Ty × Vector UInt8 16} {v : Value} {data : List UInt8} :
    Encode t v = .ok data ↔
      ∃ s, writeValue t.1 v { out := 1 :: t.2.toList, budget := maxElements } = .ok s ∧
        s.out.length ≤ maxBytes ∧ s.out = data := by
  unfold Encode encodeWith
  simp only [Check.andThen_eq_ok, Check.failIf_eq_ok, not_lt]
  constructor
  · rintro ⟨s, hs, -, hlimit, hdata⟩
    exact ⟨s, hs, hlimit, Except.ok.inj hdata⟩
  · rintro ⟨s, hs, hlimit, rfl⟩
    exact ⟨s, hs, (), hlimit, rfl⟩

/-! ## Timestamps of a normal form -/

mutual

theorem timestamps_indirect : ∀ (t : Ty) (v : Value), timestamps t v.indirect = timestamps t v
  | .nullable child, v => by
      rcases Classical.em (v.indirect = .null) with hnull | hvalue
      · rw [hnull, timestamps_null, timestamps, hnull]
      · rw [timestamps_nullable hvalue, timestamps_nullable (by rwa [Value.indirect_indirect]),
          Value.indirect_indirect]
  | .lowCardinality child, v => by
      simp only [timestamps, Value.indirect_indirect]
  | .array child, v => by
      simp only [timestamps, Value.indirect_indirect]
  | .tuple fields, v => by
      simp only [timestamps, Value.indirect_indirect]
  | .dateTime _, v => by
      simp only [timestamps, Value.indirect_indirect]
  | .uint _, _ => rfl
  | .int32, _ => rfl
  | .int64, _ => rfl
  | .uint256, _ => rfl
  | .uuid, _ => rfl
  | .bool, _ => rfl
  | .string, _ => rfl
  | .fixedString _, _ => rfl
  | .decimal, _ => rfl
  | .enum8 _, _ => rfl

end

theorem names_normalizeFields (fields : Fields) (v : Value) :
    (normalizeFields fields v).map Prod.fst = fields.names := by
  cases fields with
  | nil => rfl
  | cons name child rest =>
      rw [normalizeFields, List.map_cons, names_normalizeFields rest v]
      rfl

mutual

/-- A normal form has the same timestamps, in UTC. -/
theorem timestamps_normalize : ∀ t : Ty, t.WellFormed → ∀ v : Value,
    timestamps t (normalize t v) = (timestamps t v).map Time.utc
  | .nullable child, h, v => by
      rcases Classical.em (v.indirect = .null) with hnull | hvalue
      · have hnormal : normalize (.nullable child) v = .null := by
          unfold normalize
          rw [hnull]
        have htimes : timestamps (.nullable child) v = [] := by
          unfold timestamps
          rw [hnull]
        rw [hnormal, htimes]
        rfl
      · have hchild := timestamps_normalize child (by simpa only [Ty.WellFormed] using h) v.indirect
        rw [normalize_nullable hvalue, timestamps_nullable hvalue, ← hchild]
        rcases Classical.em ((normalize child v.indirect).indirect = .null) with hnull | hvalue
        · rw [← timestamps_indirect child, hnull, timestamps_null, timestamps, hnull]
        · rw [timestamps_nullable hvalue, timestamps_indirect]
  | .lowCardinality child, h, v => by
      obtain rfl : child = .string := h
      rfl
  | .array child, h, v => by
      have hchild := timestamps_normalize child (by simpa only [Ty.WellFormed] using h)
      rw [normalize, timestamps, timestamps, Value.indirect, Value.elems?, Option.getD_some,
        List.flatMap_map, List.map_flatMap]
      · congr 1
        funext v
        exact hchild v
      · nofun
  | .tuple fields, h, v => by
      rw [normalize, timestamps, timestamps]
      refine timestampsFields_normalize fields h v.indirect _ (member_dict ?_)
      rw [names_normalizeFields]
      exact Fields.WellFormed.nodup h
  | .dateTime scale, _, v => by
      rcases Classical.em (∃ t, v.indirect = .time t) with ⟨t, ht⟩ | hother
      · simp [normalize, timestamps, normalScalar, ht, Value.indirect]
      · have htimes : timestamps (.dateTime scale) v = [] := by
          unfold timestamps
          split
          · exact absurd ⟨_, ‹_›⟩ hother
          · rfl
        have hnormal : normalize (.dateTime scale) v = v.indirect := by
          show normalScalar (.dateTime scale) v.indirect = v.indirect
          rcases hv : v.indirect with _ | _ | _ | _ | _ | _ | _ | _ | _ | _ | _ | _ | _ | _ | _ | _ |
            _ | _ | _ | _ | _ | t | _
          case time => exact absurd ⟨t, hv⟩ hother
          all_goals rfl
        rw [hnormal, timestamps_indirect, htimes]
        rfl
  | .uint _, _, _ => rfl
  | .int32, _, _ => rfl
  | .int64, _, _ => rfl
  | .uint256, _, _ => rfl
  | .uuid, _, _ => rfl
  | .bool, _, _ => rfl
  | .string, _, _ => rfl
  | .fixedString _, _, _ => rfl
  | .decimal, _, _ => rfl
  | .enum8 _, _, _ => rfl

theorem timestampsFields_normalize : ∀ fields : Fields, fields.WellFormed → ∀ v w : Value,
    (∀ e ∈ normalizeFields fields v, w.member e.1 = .ok e.2) →
      timestampsFields fields w = (timestampsFields fields v).map Time.utc
  | .nil, _, _, _, _ => rfl
  | .cons name child rest, h, v, w, hw => by
      have hmember := hw (name, _) List.mem_cons_self
      have hrest := timestampsFields_normalize rest h.2.2 v w fun e he =>
        hw e (List.mem_cons_of_mem _ he)
      rw [timestampsFields, timestampsFields, List.map_append, hrest, hmember]
      congr 1
      exact timestamps_normalize child h.2.1 _

end

/-! ## Decoding what was encoded -/

variable {sha256 : List Char → Vector UInt8 32} {text : List Char} {t : Ty × Vector UInt8 16}

theorem decode_of_encode {v : Value} {data : List UInt8} (hencode : Encode t v = .ok data)
    {zone : Zone} (hshows : zone.Shows (timestamps t.1 v)) :
    Decode zone t data = .ok (normalize t.1 v) := by
  obtain ⟨s, hwrite, hlimit, rfl⟩ := encode_eq_ok.1 hencode
  obtain ⟨body, spent, hout, hbudget, -, -, hread⟩ := @writeValue_emits zone t.1 v _ _ hwrite
  have hspent : spent ≤ maxElements := by
    change maxElements = s.budget + spent at hbudget
    omega
  refine decode_eq_ok.2 ⟨body, maxElements - spent, hout, hlimit, ?_⟩
  have hvalue := hread (by unfold maxElements at hspent; omega) hshows [] maxElements hspent
  rwa [List.append_nil] at hvalue

/-- What was encoded is decoded in normal form, exactly when the local clock shows
every one of its timestamps in the years 1970 to 9999. -/
theorem decode_encode_iff (hparse : Parse sha256 text = .ok t) {v : Value} {data : List UInt8}
    (hencode : Encode t v = .ok data) (zone : Zone) :
    Decode zone t data = .ok (normalize t.1 v) ↔
      ∀ τ ∈ timestamps t.1 v, (zone.local τ).YearInRange := by
  constructor
  · intro hdecode
    obtain ⟨body, budget, -, -, hread⟩ := decode_eq_ok.1 hdecode
    obtain ⟨_, _, -, -, hv⟩ := readValue_accepts t.1 (Parse_wellFormed hparse) _ _ _ hread
    intro τ hτ
    have hutc : τ.utc ∈ timestamps t.1 (normalize t.1 v) := by
      rw [timestamps_normalize t.1 (Parse_wellFormed hparse)]
      exact List.mem_map_of_mem hτ
    have hshows := hv.shows _ hutc
    unfold Zone.local at hshows
    rw [Time.utc_unix] at hshows
    exact hshows
  · exact decode_of_encode hencode

/-- One hour west of Greenwich. -/
def oneHourWest : Zone := ⟨fun _ => -3600, fun _ => by norm_num⟩

/-- A fingerprint for runs on fixed values, which no law looks into. -/
def noHash : List Char → Vector UInt8 32 := fun _ => Vector.replicate 32 0

/-- The first instant of 1970 is encoded and not decoded west of Greenwich. -/
theorem decode_encode_epoch_west :
    ∃ t data, Parse noHash "DateTime('UTC')".toList = .ok t ∧
      Encode t (.time ⟨0, 0⟩) = .ok data ∧
        Decode oneHourWest t data ≠ .ok (normalize t.1 (.time ⟨0, 0⟩)) := by
  refine ⟨(.dateTime .second, (noHash "DateTime('UTC')".toList).take 16),
    1 :: ((noHash "DateTime('UTC')".toList).take 16).toList ++ [0, 0, 0, 0, 0, 0, 0, 0], rfl, ?_, ?_⟩
  · refine encode_eq_ok.2 ⟨⟨_, maxElements⟩, ?_, ?_, rfl⟩
    · unfold writeValue
      rw [if_neg (by simp [maxBytes])]
      rfl
    · simp [maxBytes]
  · intro hdecode
    obtain ⟨body, budget, hdata, -, hread⟩ := decode_eq_ok.1 hdecode
    obtain rfl := List.append_cancel_left hdata
    cases hread

/-! A tuple with a time and a price that may be missing. -/

def tradeText : List Char := "Tuple(at DateTime64(3, 'UTC'), price Nullable(Decimal(38, 18)))".toList

def tradeTy : Ty :=
  .tuple (.cons (asciiBytes "at".toList) (.dateTime .milli)
    (.cons (asciiBytes "price".toList) (.nullable .decimal) .nil))

/-- A millisecond before noon of the first day, at a price of a half. -/
def trade : Value :=
  .dict [(asciiBytes "price".toList, .ref (.decimal ⟨5, -1⟩)),
    (asciiBytes "at".toList, .time ⟨43199999000000, 7200⟩)]

def tradeBytes : List UInt8 :=
  [0, 0, 0, 0, 2, 0x93, 0x2d, 0xff, 1, 0, 0, 0, 0, 0, 0, 0, 0, 0x06, 0xf0, 0x5b, 0x59, 0xd3, 0xb2, 0, 0]

theorem tradeText_parse (sha256 : List Char → Vector UInt8 32) :
    Parse sha256 tradeText = .ok (tradeTy, (sha256 tradeText).take 16) := rfl

def tradeColumn : Ty × Vector UInt8 16 := (tradeTy, (noHash tradeText).take 16)

def tradeData : List UInt8 := 1 :: tradeColumn.2.toList ++ tradeBytes

theorem trade_encode : Encode tradeColumn trade = .ok tradeData := by rfl

theorem trade_shows : oneHourWest.Shows (timestamps tradeTy trade) := by
  intro τ hτ
  obtain rfl : τ = ⟨43199999000000, 7200⟩ := List.mem_singleton.1 hτ
  decide

theorem decode_encode_trade :
    Decode oneHourWest tradeColumn tradeData = .ok (normalize tradeTy trade) :=
  (decode_encode_iff (tradeText_parse noHash) trade_encode oneHourWest).2 trade_shows

/-! ## Encoding what was decoded -/

/-- No null inside two `Nullable`s, and every timestamp in range in UTC. -/
def CanonicalBytes (t : Ty) (data : List UInt8) : Prop :=
  (survey t (data.drop 17)).1.doubled = false ∧ InRange (survey t (data.drop 17)).1.times

/-- What is decoded is encoded with the same bytes, exactly when these are
canonical; and canonical bytes identify the value they are decoded to. -/
theorem encode_decode_iff (hparse : Parse sha256 text = .ok t) {zone : Zone} {data : List UInt8}
    {v : Value} (hdecode : Decode zone t data = .ok v) :
    (Encode t v = .ok data ↔ CanonicalBytes t.1 data) ∧
      ∀ data', Decode zone t data' = .ok v → CanonicalBytes t.1 data → CanonicalBytes t.1 data' →
        data' = data := by
  have hiff : ∀ data, Decode zone t data = .ok v → (Encode t v = .ok data ↔ CanonicalBytes t.1 data) := by
    intro data hdecode
    obtain ⟨body, budget, rfl, hlimit, hread⟩ := decode_eq_ok.1 hdecode
    obtain ⟨body₁, spent, hrest, hbudget, hv⟩ :=
      readValue_accepts t.1 (Parse_wellFormed hparse) _ _ _ hread
    obtain rfl : body = body₁ := by simpa using hrest
    change maxElements = budget + spent at hbudget
    obtain ⟨doubled, hwalk, -, hwrite⟩ := hv.walk
    have hsurvey : survey t.1 ((1 :: t.2.toList ++ body).drop 17) = (⟨timestamps t.1 v, doubled⟩, []) := by
      have hbody := hwalk []
      rw [List.append_nil] at hbody
      rw [List.drop_left' (by simp), hbody]
    unfold CanonicalBytes
    rw [hsurvey]
    constructor
    · intro hencode
      obtain ⟨s, hs, -, hout⟩ := encode_eq_ok.1 hencode
      obtain ⟨-, -, -, -, -, hrange, -⟩ := @writeValue_emits zone t.1 v _ _ hs
      obtain ⟨body', hwrites, hshort, hsame⟩ := hwrite hrange
      refine ⟨hsame.1 ?_, hrange⟩
      have hwritten := hwrites { out := 1 :: t.2.toList, budget := maxElements } (by
        rw [List.length_append] at hlimit
        show (1 :: t.2.toList).length + body'.length ≤ maxBytes
        omega) (by
        show spent ≤ maxElements
        omega)
      rw [hs] at hwritten
      rw [Except.ok.inj hwritten] at hout
      exact List.append_cancel_left hout
    · rintro ⟨hdoubled, hrange⟩
      obtain ⟨body', hwrites, -, hsame⟩ := hwrite hrange
      obtain rfl := hsame.2 hdoubled
      have hwritten := hwrites { out := 1 :: t.2.toList, budget := maxElements } (by
        rwa [List.length_append] at hlimit) (by
        show spent ≤ maxElements
        omega)
      exact encode_eq_ok.2 ⟨_, hwritten, hlimit, rfl⟩
  refine ⟨hiff data hdecode, ?_⟩
  intro data' hdecode' hcanonical hcanonical'
  have hencode := (hiff data hdecode).2 hcanonical
  rw [(hiff data' hdecode').2 hcanonical'] at hencode
  exact Except.ok.inj hencode

/-- A null inside a present value is decoded as a null and encoded as one. -/
theorem encode_decode_doubled_null :
    ∃ t data, Parse noHash "Nullable(Nullable(UInt8))".toList = .ok t ∧
      Decode oneHourWest t data = .ok .null ∧ Encode t .null ≠ .ok data := by
  refine ⟨(.nullable (.nullable (.uint .one)), (noHash "Nullable(Nullable(UInt8))".toList).take 16),
    1 :: ((noHash "Nullable(Nullable(UInt8))".toList).take 16).toList ++ [1, 0], rfl, ?_, ?_⟩
  · refine decode_eq_ok.2 ⟨[1, 0], maxElements, rfl, ?_, rfl⟩
    simp [maxBytes]
  · intro hencode
    obtain ⟨s, hs, -, hdata⟩ := encode_eq_ok.1 hencode
    unfold writeValue at hs
    rw [if_neg (by simp [maxBytes])] at hs
    rw [← Except.ok.inj hs] at hdata
    have hbody := List.append_cancel_left hdata
    cases hbody

theorem encode_decode_trade :
    (Encode tradeColumn (normalize tradeTy trade) = .ok tradeData ↔ CanonicalBytes tradeTy tradeData) ∧
      ∀ data', Decode oneHourWest tradeColumn data' = .ok (normalize tradeTy trade) →
        CanonicalBytes tradeTy tradeData → CanonicalBytes tradeTy data' → data' = tradeData :=
  encode_decode_iff (tradeText_parse noHash) (decode_of_encode trade_encode trade_shows)

end MarketInfo.Codec
