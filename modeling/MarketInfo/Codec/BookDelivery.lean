import MarketInfo.Codec.BookLaws

/-! # Book deliveries

Version 1 of a delivery is the books frame, version 2 puts the first knowledge of
the minute in front of it. A delta on its own has a type of its own.
-/

namespace MarketInfo.Codec

open Wire (bigEndian signedBytes ofSignedBytes ofBigEndian Sink)

/-! ## Types -/

def deltaText : List Char :=
  ("Tuple(minute_id UInt64, second_offset UInt8, bid_prices Array(Int64), bid_qtys Array(UInt64), " ++
   "ask_prices Array(Int64), ask_qtys Array(UInt64))").toList

def deltaTy : Ty :=
  .tuple (.cons (column "minute_id") (.uint .eight) (.cons (column "second_offset") (.uint .one) sideFields))

def bookDeliveryText : List Char := "Tuple(known_from_ms Int64, books String)".toList

def bookDeliveryTy : Ty :=
  .tuple (.cons (column "known_from_ms") .int64 (.cons (column "books") .string .nil))

/-- `deltaType`. -/
def deltaType (sha256 : List Char → Vector UInt8 32) : Ty × Vector UInt8 16 :=
  (deltaTy, (sha256 deltaText).take 16)

/-- `bookDeliveryType`. -/
def bookDeliveryType (sha256 : List Char → Vector UInt8 32) : Ty × Vector UInt8 16 :=
  (bookDeliveryTy, (sha256 bookDeliveryText).take 16)

variable (sha256 : List Char → Vector UInt8 32)

/-! ## Deltas -/

/-- The value of a delta on its own. -/
def deltaValue (d : BookDelta) : Value :=
  .dict [(column "minute_id", .uint64 d.minuteID), (column "second_offset", .uint8 d.secondOffset),
    (column "bid_prices", int64s d.bidChangePrice), (column "bid_qtys", uint64s d.bidChangeQty),
    (column "ask_prices", int64s d.askChangePrice), (column "ask_qtys", uint64s d.askChangeQty)]

/-- `EncodeDelta`. -/
def EncodeDelta (d : BookDelta) : Except String (List UInt8) := do
  Check.failIf (d.secondOffset = 0 ∨ 59 < d.secondOffset ∨
    d.bidChangePrice.length ≠ d.bidChangeQty.length ∨ d.askChangePrice.length ≠ d.askChangeQty.length)
    "invalid delta"
  Encode (deltaType sha256) (deltaValue d)

/-- `v.(uint64)`. -/
def asUint64 : Value → Except String UInt64
  | .uint64 n => .ok n
  | _ => .error "interface conversion"

/-- `v.(uint8)`. -/
def asUint8 : Value → Except String UInt8
  | .uint8 n => .ok n
  | _ => .error "interface conversion"

/-- `v.(int64)`. -/
def asInt64 : Value → Except String Int64
  | .int64 n => .ok n
  | _ => .error "interface conversion"

/-- `Assign` to every element of a slice. -/
def assignAll {α : Type} (assign : Value → Except String α) : List Value → Except String (List α)
  | [] => .ok []
  | v :: rest => do
      let a ← assign v
      let as ← assignAll assign rest
      return a :: as

/-- `Assign` to a slice. -/
def assignSlice {α : Type} (assign : Value → Except String α) : Value → Except String (List α)
  | .list elems => assignAll assign elems
  | _ => .error "interface conversion"

/-- The fields of a decoded delta. -/
def assignDelta (v : Value) : Except String BookDelta := do
  let minuteID ← v.member (column "minute_id") >>= asUint64
  let secondOffset ← v.member (column "second_offset") >>= asUint8
  let bidChangePrice ← v.member (column "bid_prices") >>= assignSlice asInt64
  let bidChangeQty ← v.member (column "bid_qtys") >>= assignSlice asUint64
  let askChangePrice ← v.member (column "ask_prices") >>= assignSlice asInt64
  let askChangeQty ← v.member (column "ask_qtys") >>= assignSlice asUint64
  return { minuteID, secondOffset, bidChangePrice, bidChangeQty, askChangePrice, askChangeQty }

/-- `DecodeDelta`. -/
def DecodeDelta (zone : Zone) (raw : List UInt8) : Except String BookDelta := do
  let v ← Decode zone (deltaType sha256) raw
  let d ← assignDelta v
  let _ ← EncodeDelta sha256 d
  return d

/-! ## Deliveries -/

/-- `model.CeilMilliseconds`. -/
def ceilMilliseconds (t : Time) : Int := (t.unixNano + Time.millisecond - 1).tdiv Time.millisecond

/-- First knowledge before the end of the minute, or from the future. -/
@[reducible] def InvalidKnowledge (now minute : Time) (known : Int64) : Prop :=
  known.toInt < (minute.add Time.minute).unixMilli ∨ ceilMilliseconds now < known.toInt

/-- `EncodeBookDelivery`. -/
def EncodeBookDelivery (now : Time) (c : CompletedMinute) (version : UInt16) :
    Except String (List UInt8) := do
  let raw ← EncodeBooks sha256 c
  if version = 1 then do
    Check.failIf (c.knownFromMS ≠ 0) "v1 cannot carry first knowledge"
    return raw
  else if version = 2 then do
    Check.failIf (InvalidKnowledge now c.minuteTime c.knownFromMS) "invalid minute first knowledge"
    Encode (bookDeliveryType sha256)
      (.dict [(column "known_from_ms", .int64 c.knownFromMS), (column "books", .string raw)])
  else .error "unsupported book delivery codec"

/-- `bookDeliveryFrame`. -/
def bookDeliveryFrame (now minute : Time) (payload : List UInt8) (version : UInt16) :
    Except String (Int64 × List UInt8) :=
  if version = 1 then .ok (0, payload)
  else if version ≠ 2 then .error "unsupported book delivery codec"
  else do
    Check.failIf (payload.length < 29 ∨ maxBytes < payload.length ∨
      payload.take 17 ≠ 1 :: (bookDeliveryType sha256).2.toList) "invalid book delivery header"
    Check.failIf (ofBigEndian ((payload.drop 25).take 4) ≠ payload.length - 29)
      "book delivery frame length mismatch"
    let known := Int64.ofInt (ofSignedBytes ((payload.drop 17).take 8))
    Check.failIf (InvalidKnowledge now minute known) "invalid minute first knowledge"
    return (known, payload.drop 29)

/-- `DecodeBookDelivery`. -/
def DecodeBookDelivery (now minute : Time) (payload : List UInt8) (version : UInt16) :
    Except String CompletedMinute := do
  let (known, raw) ← bookDeliveryFrame sha256 now minute payload version
  let c ← DecodeBooks sha256 minute raw
  return { c with knownFromMS := known }

variable {sha256}

/-! ## The laws of a delta -/

theorem exact_deltaValue (d : BookDelta) :
    Exact (writeValue deltaTy (deltaValue d)) (bigEndian 8 d.minuteID.toNat ++ deltaBytes d)
      (deltaSpent d) := by
  have hid : (deltaValue d).member (column "minute_id") = .ok (.uint64 d.minuteID) := rfl
  have hsecond : (deltaValue d).member (column "second_offset") = .ok (.uint8 d.secondOffset) := rfl
  have hsides := @exact_sideFields (deltaValue d) _ _ _ _ rfl rfl rfl rfl
  have hfields := exact_cons hid (exact_uint64 _) (exact_cons hsecond (exact_uint8 _) hsides)
  simp only [Nat.zero_add] at hfields
  exact exact_tuple hfields

theorem length_deltaBytes (d : BookDelta) : (deltaBytes d).length = 17 + deltaSpent d * 8 := by
  simp only [deltaBytes, List.length_append, Wire.length_bigEndian, length_int64sBytes,
    length_uint64sBytes, deltaSpent]
  omega

/-- A delta that can stand on its own. -/
structure Separable (d : BookDelta) : Prop where
  pos : 0 < d.secondOffset.toNat
  le : d.secondOffset.toNat ≤ 59
  bids_length : d.bidChangePrice.length = d.bidChangeQty.length
  asks_length : d.askChangePrice.length = d.askChangeQty.length
  elements : deltaSpent d ≤ maxElements

theorem encodeDelta_eq_ok {d : BookDelta} {p : List UInt8} :
    EncodeDelta sha256 d = .ok p ↔ Separable d ∧
      p = 1 :: (deltaType sha256).2.toList ++ (bigEndian 8 d.minuteID.toNat ++ deltaBytes d) := by
  have hzero : d.secondOffset = 0 ↔ d.secondOffset.toNat = 0 := by
    rw [← UInt8.toNat_inj]
    rfl
  have hle : 59 < d.secondOffset ↔ 59 < d.secondOffset.toNat := UInt8.lt_iff_toNat_lt
  unfold EncodeDelta Encode
  rw [Check.seq_eq_ok, Check.failIf_eq_ok, show (deltaType sha256).1 = deltaTy from rfl,
    (exact_deltaValue d).encode, hzero, hle]
  simp only [not_or, not_lt, not_not, List.length_append, Wire.length_bigEndian, length_deltaBytes]
  constructor
  · rintro ⟨⟨hpos, hmax, hb, ha⟩, hspent, -, rfl⟩
    exact ⟨⟨Nat.pos_of_ne_zero hpos, hmax, hb, ha, hspent⟩, rfl⟩
  · rintro ⟨h, rfl⟩
    refine ⟨⟨h.pos.ne', h.le, h.bids_length, h.asks_length⟩, h.elements, ?_, rfl⟩
    have helements := h.elements
    unfold maxElements at helements
    unfold maxBytes
    omega

theorem assignAll_map {α : Type} {assign : Value → Except String α} {value : α → Value}
    (h : ∀ a, assign (value a) = .ok a) (as : List α) : assignAll assign (as.map value) = .ok as := by
  induction as with
  | nil => rfl
  | cons a as ih =>
      rw [List.map_cons, assignAll, h, ih]
      rfl

theorem normalize_int64s (xs : List Int64) : normalize (.array .int64) (int64s xs) = int64s xs := by
  unfold int64s
  simp [normalize, Value.indirect, Value.elems?, normalScalar, Value.signed?]

theorem normalize_uint64s (xs : List UInt64) :
    normalize (.array (.uint .eight)) (uint64s xs) = uint64s xs := by
  unfold uint64s
  simp [normalize, Value.indirect, Value.elems?, normalScalar, Value.unsigned?, Width.value]

theorem normalize_deltaValue (d : BookDelta) : normalize deltaTy (deltaValue d) = deltaValue d := by
  have hfields : normalize deltaTy (deltaValue d) =
      .dict [(column "minute_id", normalize (.uint .eight) (.uint64 d.minuteID)),
        (column "second_offset", normalize (.uint .one) (.uint8 d.secondOffset)),
        (column "bid_prices", normalize (.array .int64) (int64s d.bidChangePrice)),
        (column "bid_qtys", normalize (.array (.uint .eight)) (uint64s d.bidChangeQty)),
        (column "ask_prices", normalize (.array .int64) (int64s d.askChangePrice)),
        (column "ask_qtys", normalize (.array (.uint .eight)) (uint64s d.askChangeQty))] := rfl
  have hid : normalize (.uint .eight) (.uint64 d.minuteID) = .uint64 d.minuteID := by
    simp [normalize, Value.indirect, normalScalar, Value.unsigned?, Width.value]
  have hsecond : normalize (.uint .one) (.uint8 d.secondOffset) = .uint8 d.secondOffset := by
    simp [normalize, Value.indirect, normalScalar, Value.unsigned?, Width.value]
  rw [hfields, hid, hsecond, normalize_int64s, normalize_int64s, normalize_uint64s, normalize_uint64s]
  rfl

theorem assignDelta_deltaValue (d : BookDelta) : assignDelta (deltaValue d) = .ok d := by
  have hint64s : ∀ xs, assignSlice asInt64 (int64s xs) = .ok xs :=
    @assignAll_map Int64 asInt64 Value.int64 fun _ => rfl
  have huint64s : ∀ xs, assignSlice asUint64 (uint64s xs) = .ok xs :=
    @assignAll_map UInt64 asUint64 Value.uint64 fun _ => rfl
  have hbp : ((deltaValue d).member (column "bid_prices") >>= assignSlice asInt64) =
      .ok d.bidChangePrice := hint64s _
  have hbq : ((deltaValue d).member (column "bid_qtys") >>= assignSlice asUint64) =
      .ok d.bidChangeQty := huint64s _
  have hap : ((deltaValue d).member (column "ask_prices") >>= assignSlice asInt64) =
      .ok d.askChangePrice := hint64s _
  have haq : ((deltaValue d).member (column "ask_qtys") >>= assignSlice asUint64) =
      .ok d.askChangeQty := huint64s _
  have hid : ((deltaValue d).member (column "minute_id") >>= asUint64) = .ok d.minuteID := rfl
  have hsecond : ((deltaValue d).member (column "second_offset") >>= asUint8) = .ok d.secondOffset :=
    rfl
  unfold assignDelta
  rw [hid, hsecond, hbp, hbq, hap, haq]
  rfl

theorem timestamps_deltaValue (d : BookDelta) : timestamps deltaTy (deltaValue d) = [] := by
  have hints : ∀ (child : Ty) (elems : List Value), (∀ v, timestamps child v = []) →
      timestamps (.array child) (.list elems) = [] := by
    intro child elems h
    simp [timestamps, Value.indirect, Value.elems?, h]
  have hfields : timestamps deltaTy (deltaValue d) =
      timestamps (.array .int64) (int64s d.bidChangePrice) ++
        (timestamps (.array (.uint .eight)) (uint64s d.bidChangeQty) ++
          (timestamps (.array .int64) (int64s d.askChangePrice) ++
            (timestamps (.array (.uint .eight)) (uint64s d.askChangeQty) ++ []))) := rfl
  rw [hfields]
  unfold int64s uint64s
  rw [hints _ _ fun _ => rfl, hints _ _ fun _ => rfl, hints _ _ fun _ => rfl, hints _ _ fun _ => rfl]
  rfl

/-- A delta on its own is decoded as it was encoded. -/
theorem decodeDelta_of_encodeDelta {d : BookDelta} {p : List UInt8}
    (h : EncodeDelta sha256 d = .ok p) (zone : Zone) : DecodeDelta sha256 zone p = .ok d := by
  have hencode : Encode (deltaType sha256) (deltaValue d) = .ok p := (Check.seq_eq_ok.1 h).2
  have hdecode := @decode_of_encode (deltaType sha256) _ _ hencode zone (by
    rw [show (deltaType sha256).1 = deltaTy from rfl, timestamps_deltaValue]
    exact fun t ht => absurd ht List.not_mem_nil)
  unfold DecodeDelta
  rw [hdecode]
  show (assignDelta (normalize deltaTy (deltaValue d)) >>= _) = _
  rw [normalize_deltaValue, assignDelta_deltaValue]
  show (EncodeDelta sha256 d >>= _) = _
  rw [h]
  rfl

/-! ## The laws of a delivery -/

theorem exact_string (a : List UInt8) :
    Exact (writeValue .string (.string a)) (bigEndian 4 a.length ++ a) 0 := by
  constructor
  · intro s hfits _
    rw [List.length_append, Wire.length_bigEndian] at hfits
    unfold writeValue
    rw [if_neg (by omega)]
    show writeText .string a s = _
    unfold writeText
    simp only [Check.andThen_eq_ok, Check.failIf_eq_ok]
    refine ⟨(), by omega, _, rfl, (), ?_, ?_⟩
    · show ¬ maxBytes < (s.out ++ bigEndian 4 a.length).length + a.length
      rw [List.length_append, Wire.length_bigEndian]
      omega
    · show Except.ok (Sink.mk (s.out ++ bigEndian 4 a.length ++ a) s.budget) = _
      rw [List.append_assoc, Nat.sub_zero]
  · intro s s' hs
    unfold writeValue at hs
    split at hs
    · cases hs
    · simp only [Value.indirect, Value.text?, writeText, Check.andThen_eq_ok, Check.failIf_eq_ok] at hs
      obtain ⟨-, -, s₁, hs₁, -, -, hs⟩ := hs
      obtain rfl := Except.ok.inj hs₁
      obtain rfl := Except.ok.inj hs
      exact ⟨bigEndian 4 a.length ++ a, 0, List.append_assoc _ _ _, rfl, rfl, rfl⟩

/-- How a books frame is stored in a delivery of the version. -/
inductive Framed (sha256 : List Char → Vector UInt8 32) (now minute : Time) (known : Int64)
    (raw : List UInt8) : UInt16 → List UInt8 → Prop
  | plain : known = 0 → Framed sha256 now minute known raw 1 raw
  | knowing : ¬ InvalidKnowledge now minute known → 29 + raw.length ≤ maxBytes →
      Framed sha256 now minute known raw 2 (1 :: (bookDeliveryType sha256).2.toList ++
        (signedBytes 8 known.toInt ++ (bigEndian 4 raw.length ++ raw)))

theorem exact_bookDelivery (known : Int64) (raw : List UInt8) :
    Exact (writeValue bookDeliveryTy
        (.dict [(column "known_from_ms", .int64 known), (column "books", .string raw)]))
      (signedBytes 8 known.toInt ++ (bigEndian 4 raw.length ++ raw)) 0 := by
  have hknown : (Value.dict [(column "known_from_ms", .int64 known), (column "books", .string raw)]).member
      (column "known_from_ms") = .ok (.int64 known) := rfl
  have hbooks : (Value.dict [(column "known_from_ms", .int64 known), (column "books", .string raw)]).member
      (column "books") = .ok (.string raw) := rfl
  exact exact_tuple (exact_cons hknown (exact_int64 known) (exact_last hbooks (exact_string raw)))

theorem encodeBookDelivery_eq_ok {now : Time} {c : CompletedMinute} {version : UInt16} {p : List UInt8} :
    EncodeBookDelivery sha256 now c version = .ok p ↔
      ∃ raw, Payload sha256 c.minuteTime c.batches raw ∧
        Framed sha256 now c.minuteTime c.knownFromMS raw version p := by
  have hencode : ∀ raw, Encode (bookDeliveryType sha256) (.dict [(column "known_from_ms", .int64 c.knownFromMS),
      (column "books", .string raw)]) = .ok p ↔ 29 + raw.length ≤ maxBytes ∧
        p = 1 :: (bookDeliveryType sha256).2.toList ++
          (signedBytes 8 c.knownFromMS.toInt ++ (bigEndian 4 raw.length ++ raw)) := by
    intro raw
    unfold Encode
    rw [show (bookDeliveryType sha256).1 = bookDeliveryTy from rfl, (exact_bookDelivery _ raw).encode]
    simp only [List.length_append, Wire.length_signedBytes, Wire.length_bigEndian, Nat.zero_le, true_and]
    rw [show 17 + (8 + (4 + raw.length)) = 29 + raw.length by omega]
  unfold EncodeBookDelivery
  rw [Check.andThen_eq_ok]
  simp only [encodeBooks_eq_ok]
  constructor
  · rintro ⟨raw, hpayload, h⟩
    refine ⟨raw, hpayload, ?_⟩
    split at h
    · rename_i hversion
      obtain ⟨hknown, h⟩ := Check.seq_eq_ok.1 h
      rw [Check.failIf_eq_ok, not_not] at hknown
      obtain rfl := Except.ok.inj h
      exact hversion ▸ .plain hknown
    · split at h
      · rename_i hversion
        obtain ⟨hknown, h⟩ := Check.seq_eq_ok.1 h
        rw [Check.failIf_eq_ok] at hknown
        obtain ⟨hsize, rfl⟩ := (hencode raw).1 h
        exact hversion ▸ .knowing hknown hsize
      · cases h
  · rintro ⟨raw, hpayload, h⟩
    refine ⟨raw, hpayload, ?_⟩
    cases h with
    | plain hknown =>
        rw [if_pos rfl, Check.seq_eq_ok, Check.failIf_eq_ok, not_not]
        exact ⟨hknown, rfl⟩
    | knowing hknown hsize =>
        rw [if_neg (by decide), if_pos rfl, Check.seq_eq_ok, Check.failIf_eq_ok]
        exact ⟨hknown, (hencode raw).2 ⟨hsize, rfl⟩⟩

theorem bookDeliveryFrame_eq_ok {now minute : Time} {p raw : List UInt8} {version : UInt16}
    {known : Int64} :
    bookDeliveryFrame sha256 now minute p version = .ok (known, raw) ↔
      Framed sha256 now minute known raw version p := by
  have htag : (1 :: (bookDeliveryType sha256).2.toList).length = 17 := by simp
  unfold bookDeliveryFrame
  constructor
  · intro h
    split at h
    · rename_i hversion
      obtain ⟨rfl, rfl⟩ := Prod.mk.inj (Except.ok.inj h)
      exact hversion ▸ .plain rfl
    · split at h
      · cases h
      · rename_i hversion
        rw [not_not] at hversion
        simp only [Check.seq_eq_ok, Check.failIf_eq_ok, not_or, not_lt, not_not] at h
        obtain ⟨⟨hshort, hlimit, htake⟩, hlength, hknown, h⟩ := h
        obtain ⟨rfl, rfl⟩ := Prod.mk.inj (Except.ok.inj h)
        -- the frame falls into its header, the knowledge, the length and the books
        obtain ⟨word, hword⟩ : ∃ word, word = (p.drop 17).take 8 := ⟨_, rfl⟩
        obtain ⟨count, hcount⟩ : ∃ count, count = (p.drop 25).take 4 := ⟨_, rfl⟩
        have hwordlen : word.length = 8 := by
          rw [hword, List.length_take, List.length_drop]
          omega
        have hcountlen : count.length = 4 := by
          rw [hcount, List.length_take, List.length_drop]
          omega
        have hp : p = 1 :: (bookDeliveryType sha256).2.toList ++ (word ++ (count ++ p.drop 29)) := by
          have h29 : count ++ p.drop 29 = p.drop 25 := by
            have hsplit := List.take_append_drop 4 (p.drop 25)
            rwa [List.drop_drop, ← hcount] at hsplit
          have h25 : word ++ p.drop 25 = p.drop 17 := by
            have hsplit := List.take_append_drop 8 (p.drop 17)
            rwa [List.drop_drop, ← hword] at hsplit
          rw [h29, h25, ← htake, List.take_append_drop]
        rw [← hword] at hknown ⊢
        rw [← hcount] at hlength
        have hlen29 : (p.drop 29).length = p.length - 29 := List.length_drop
        have hbounds := Wire.ofSignedBytes_bounds word
        have hwordbytes := Wire.signedBytes_ofSignedBytes word
        have hcountbytes := Wire.bigEndian_ofBigEndian_of_length hcountlen
        rw [hwordlen] at hbounds hwordbytes
        rw [hlength, ← hlen29] at hcountbytes
        have hint : (Int64.ofInt (ofSignedBytes word)).toInt = ofSignedBytes word :=
          Int64.toInt_ofInt_of_le (by omega) (by omega)
        have hvalid : ¬ InvalidKnowledge now minute (Int64.ofInt (ofSignedBytes word)) :=
          not_or.2 ⟨not_lt.2 hknown.1, not_lt.2 hknown.2⟩
        have hfits : 29 + (p.drop 29).length ≤ maxBytes := by
          rw [hlen29]
          omega
        have hframed := @Framed.knowing sha256 _ _ _ _ hvalid hfits
        rw [hint, hwordbytes, hcountbytes, ← hp] at hframed
        exact hversion ▸ hframed
  · intro h
    cases h with
    | plain hknown => rw [if_pos rfl, hknown]
    | knowing hknown hsize =>
        have hlo := known.le_toInt
        have hhi := known.toInt_lt
        have hcount : raw.length < 256 ^ 4 := by
          unfold maxBytes at hsize
          omega
        obtain ⟨p, hp⟩ : ∃ p, p = 1 :: (bookDeliveryType sha256).2.toList ++
            (signedBytes 8 known.toInt ++ (bigEndian 4 raw.length ++ raw)) := ⟨_, rfl⟩
        rw [← hp]
        have hlength : p.length = 29 + raw.length := by
          rw [hp, List.length_append, htag, List.length_append, List.length_append,
            Wire.length_signedBytes, Wire.length_bigEndian]
          omega
        have htake : p.take 17 = 1 :: (bookDeliveryType sha256).2.toList := by
          rw [hp, List.take_left' htag]
        have hdrop : p.drop 17 = signedBytes 8 known.toInt ++ (bigEndian 4 raw.length ++ raw) := by
          rw [hp, List.drop_left' htag]
        have hdrop25 : p.drop 25 = bigEndian 4 raw.length ++ raw := by
          rw [show 25 = 17 + 8 from rfl, ← List.drop_drop, hdrop,
            List.drop_left' (Wire.length_signedBytes _ _)]
        have hdrop29 : p.drop 29 = raw := by
          rw [show 29 = 25 + 4 from rfl, ← List.drop_drop, hdrop25,
            List.drop_left' (Wire.length_bigEndian _ _)]
        have hword : Int64.ofInt (ofSignedBytes ((p.drop 17).take 8)) = known := by
          rw [hdrop, List.take_left' (Wire.length_signedBytes _ _),
            Wire.ofSignedBytes_signedBytes (by omega) (by omega), Int64.ofInt_toInt]
        have hread : ofBigEndian ((p.drop 25).take 4) = raw.length := by
          rw [hdrop25, List.take_left' (Wire.length_bigEndian _ _),
            Wire.ofBigEndian_bigEndian_of_lt hcount]
        rw [if_neg (by decide), if_neg (by decide)]
        simp only [Check.seq_eq_ok, Check.failIf_eq_ok, not_or, not_lt, not_not]
        rw [hword, hread, hdrop29]
        obtain ⟨hearly, hlate⟩ := not_or.1 hknown
        exact ⟨⟨by omega, by omega, htake⟩, by omega, ⟨not_lt.1 hearly, not_lt.1 hlate⟩, rfl⟩

/-- The decoder of deliveries inverts their encoder, up to the locations of the minutes. -/
theorem decodeBookDelivery_eq_ok {now minute : Time} {p : List UInt8} {version : UInt16}
    {c : CompletedMinute} :
    DecodeBookDelivery sha256 now minute p version = .ok c ↔
      EncodeBookDelivery sha256 now c version = .ok p ∧ c.minuteTime = minute ∧
        ∀ b ∈ c.batches, b.minute.minuteTime.offset = 0 := by
  rw [encodeBookDelivery_eq_ok]
  unfold DecodeBookDelivery
  simp only [Check.andThen_eq_ok]
  constructor
  · rintro ⟨⟨known, raw⟩, hframe, c₀, hdecode, hc⟩
    obtain rfl := Except.ok.inj hc
    obtain ⟨hpayload, hutc, rfl, -⟩ := decodeBooks_eq_ok.1 hdecode
    exact ⟨⟨raw, hpayload, bookDeliveryFrame_eq_ok.1 hframe⟩, rfl, hutc⟩
  · rintro ⟨⟨raw, hpayload, hframed⟩, rfl, hutc⟩
    refine ⟨(c.knownFromMS, raw), bookDeliveryFrame_eq_ok.2 hframed, { c with knownFromMS := 0 }, ?_, rfl⟩
    exact decodeBooks_eq_ok.2 ⟨hpayload, hutc, rfl, rfl⟩

end MarketInfo.Codec
