import MarketInfo.Redis.BookSplit

/-! # Book deliveries survive Redis

A delivery that was split is loaded byte for byte, and under its header nothing
but itself is loaded, whatever the members hold.
-/

namespace MarketInfo

namespace Redis

open Codec (CompletedMinute EncodeBookDelivery DecodeBookDelivery EncodeDelta DecodeDelta Zone)

variable {h : Hashes}

/-! ## Field names -/

theorem decimalDigit_inj {m n : Nat} (hm : m < 10) (hn : n < 10)
    (heq : decimalDigit m = decimalDigit n) : m = n := by
  have hall : ∀ i j : Fin 10, decimalDigit i = decimalDigit j → i = j := by decide
  exact congrArg Fin.val (hall ⟨m, hm⟩ ⟨n, hn⟩ heq)

theorem secondField_inj {m n : Nat} (hm : m < 100) (hn : n < 100)
    (heq : secondField m = secondField n) : m = n := by
  have hchars := String.ofList_injective heq
  obtain ⟨hhigh, hlow, -⟩ : decimalDigit (m / 10) = decimalDigit (n / 10) ∧
      decimalDigit (m % 10) = decimalDigit (n % 10) ∧ True := by simpa using hchars
  have h10 := decimalDigit_inj (by omega) (by omega) hhigh
  have h1 := decimalDigit_inj (by omega) (by omega) hlow
  omega

theorem secondField_toList (n : Nat) :
    (secondField n).toList = ['d', ':', decimalDigit (n / 10), decimalDigit (n % 10)] :=
  String.toList_ofList

theorem secondField_ne_anchor (n : Nat) : secondField n ≠ "anchor" := by
  intro heq
  have hchars := congrArg String.toList heq
  rw [secondField_toList] at hchars
  simp at hchars

theorem secondField_ne_valid (n : Nat) : secondField n ≠ "valid" := by
  intro heq
  have hchars := congrArg String.toList heq
  rw [secondField_toList] at hchars
  simp at hchars

theorem hsetAll_cons (fields : String → Option Bytes) (arg : String × Bytes) (args : List (String × Bytes)) :
    hsetAll fields (arg :: args) = hsetAll (Function.update fields arg.1 (some arg.2)) args := rfl

/-- A field after `HSET` depends on what that field held before only. -/
theorem hsetAll_congr {fields fields' : String → Option Bytes} (args : List (String × Bytes))
    {name : String} (heq : fields name = fields' name) :
    hsetAll fields args name = hsetAll fields' args name := by
  by_cases hname : name ∈ args.map Prod.fst
  · exact hsetAll_of_mem hname
  · rw [hsetAll_of_notMem hname, hsetAll_of_notMem hname, heq]

/-! ## Deltas in fields -/

theorem encodeDeltas_cons {d : BookDelta} {ds : List BookDelta} {fields : List (String × Bytes)} :
    encodeDeltas h (d :: ds) = .ok fields ↔ ∃ raw rest, EncodeDelta h.tag d = .ok raw ∧
      encodeDeltas h ds = .ok rest ∧ fields = (secondField d.secondOffset.toNat, raw) :: rest := by
  rw [encodeDeltas]
  simp only [Check.andThen_eq_ok]
  constructor
  · rintro ⟨raw, hraw, rest, hrest, hfields⟩
    exact ⟨raw, rest, hraw, hrest, (Except.ok.inj hfields).symm⟩
  · rintro ⟨raw, rest, hraw, hrest, rfl⟩
    exact ⟨raw, hraw, rest, hrest, rfl⟩

theorem encodeDeltas_names {ds : List BookDelta} {fields : List (String × Bytes)}
    (hfields : encodeDeltas h ds = .ok fields) :
    fields.map Prod.fst = ds.map fun d => secondField d.secondOffset.toNat := by
  induction ds generalizing fields with
  | nil =>
      obtain rfl := Except.ok.inj hfields
      rfl
  | cons d ds ih =>
      obtain ⟨raw, rest, -, hrest, rfl⟩ := encodeDeltas_cons.1 hfields
      rw [List.map_cons, List.map_cons, ih hrest]

/-- No field has the name of a second that no delta has. -/
theorem secondField_notMem {ds : List BookDelta} {fields : List (String × Bytes)} {second : Nat}
    (hfields : encodeDeltas h ds = .ok fields) (hsecond : second < 100)
    (hds : ∀ d ∈ ds, d.secondOffset.toNat < 100 ∧ d.secondOffset.toNat ≠ second) :
    secondField second ∉ fields.map Prod.fst := by
  rw [encodeDeltas_names hfields]
  intro hmem
  obtain ⟨d, hd, heq⟩ := List.mem_map.1 hmem
  exact (hds d hd).2 (secondField_inj (hds d hd).1 hsecond heq)

theorem readSecond_none {zone : Zone} {stored : String → Option Bytes} {id : UInt64} {second : Nat}
    (hnone : stored (secondField second) = none) : readSecond h zone stored id second = .ok [] := by
  unfold readSecond
  rw [hnone]

theorem readSecond_some {zone : Zone} {stored : String → Option Bytes} {d : BookDelta} {raw : Bytes}
    (hraw : EncodeDelta h.tag d = .ok raw)
    (hsome : stored (secondField d.secondOffset.toNat) = some raw) :
    readSecond h zone stored d.minuteID d.secondOffset.toNat = .ok [d] := by
  unfold readSecond
  rw [hsome]
  simp only [Codec.decodeDelta_of_encodeDelta hraw zone, Check.andThen_eq_ok, Check.failIf_eq_ok]
  refine ⟨d, rfl, (), ?_, rfl⟩
  rintro (hid | hsecond)
  · exact hid rfl
  · exact hsecond rfl

theorem readSeconds_cons {zone : Zone} {stored : String → Option Bytes} {id : UInt64} {second : Nat}
    {seconds : List Nat} {front back : List BookDelta}
    (hfront : readSecond h zone stored id second = .ok front)
    (hback : readSeconds h zone stored id seconds = .ok back) :
    readSeconds h zone stored id (second :: seconds) = .ok (front ++ back) := by
  rw [readSeconds, hfront]
  show (readSeconds h zone stored id seconds >>= _) = _
  rw [hback]
  rfl

/-- The seconds in order give the deltas back, which are in order too. -/
theorem readSeconds_eq (zone : Zone) (stored : String → Option Bytes) (id : UInt64) (seconds : List Nat) :
    ∀ (ds : List BookDelta) (fields : List (String × Bytes)), encodeDeltas h ds = .ok fields →
      (∀ second ∈ seconds, second < 100 ∧
        stored (secondField second) = hsetAll (fun _ => none) fields (secondField second)) →
      seconds.Pairwise (· < ·) → ds.Pairwise (fun a b => a.secondOffset.toNat < b.secondOffset.toNat) →
      (∀ d ∈ ds, d.minuteID = id ∧ d.secondOffset.toNat ∈ seconds) →
      readSeconds h zone stored id seconds = .ok ds := by
  induction seconds with
  | nil =>
      intro ds fields _ _ _ _ hds
      cases ds with
      | nil => rfl
      | cons d ds => exact absurd (hds d List.mem_cons_self).2 List.not_mem_nil
  | cons second seconds ih =>
      intro ds fields hfields hstored hseconds hincreasing hds
      obtain ⟨hlater, hrest⟩ := List.pairwise_cons.1 hseconds
      obtain ⟨hsecond, hfield⟩ := hstored second List.mem_cons_self
      have hbelow : ∀ d ∈ ds, d.secondOffset.toNat < 100 := fun d hd => (hstored _ (hds d hd).2).1
      -- a second without a delta has no field, and one with a delta comes first
      by_cases hnone : ∀ d ∈ ds, d.secondOffset.toNat ≠ second
      · have hempty : stored (secondField second) = none := by
          rw [hfield, hsetAll_of_notMem
            (secondField_notMem hfields hsecond fun d hd => ⟨hbelow d hd, hnone d hd⟩)]
        refine @readSeconds_cons _ _ _ _ _ _ [] _ (readSecond_none hempty) ?_
        refine ih ds fields hfields (fun s hs => hstored s (List.mem_cons_of_mem _ hs)) hrest
          hincreasing fun d hd => ⟨(hds d hd).1, ?_⟩
        exact (List.mem_cons.1 (hds d hd).2).resolve_left (hnone d hd)
      · obtain ⟨d, ds, rfl⟩ : ∃ d ds', ds = d :: ds' := by
          cases ds with
          | nil => exact absurd (fun d hd => absurd hd List.not_mem_nil) hnone
          | cons d ds => exact ⟨d, ds, rfl⟩
        obtain ⟨hahead, hincreasing⟩ := List.pairwise_cons.1 hincreasing
        have hd : d.secondOffset.toNat = second := by
          by_contra hne
          refine hnone fun e he => ?_
          rcases List.mem_cons.1 he with rfl | he
          · exact hne
          · have hfirst := (List.mem_cons.1 (hds d List.mem_cons_self).2).resolve_left hne
            have hlt := hlater _ hfirst
            have hlt' := hahead e he
            omega
        obtain ⟨raw, rest, hraw, hencode, rfl⟩ := encodeDeltas_cons.1 hfields
        have hid := (hds d List.mem_cons_self).1
        have hnotMem : secondField d.secondOffset.toNat ∉ rest.map Prod.fst :=
          secondField_notMem hencode (hbelow d List.mem_cons_self) fun e he =>
            ⟨hbelow e (List.mem_cons_of_mem _ he), (hahead e he).ne'⟩
        have hsome : stored (secondField d.secondOffset.toNat) = some raw := by
          rw [hd, hfield, hsetAll_cons, ← hd, hsetAll_of_notMem hnotMem, Function.update_self]
        have hread := @readSecond_some _ zone _ _ _ hraw hsome
        rw [hid, hd] at hread
        refine @readSeconds_cons _ _ _ _ _ _ [d] _ hread ?_
        refine ih ds rest hencode (fun s hs => ?_) hrest hincreasing fun e he => ?_
        · obtain ⟨hs100, hsfield⟩ := hstored s (List.mem_cons_of_mem _ hs)
          refine ⟨hs100, ?_⟩
          rw [hsfield, hsetAll_cons]
          refine hsetAll_congr rest (Function.update_of_ne ?_ _ _)
          intro heq
          have hsame := secondField_inj hs100 (hbelow d List.mem_cons_self) heq
          have hlt := hlater s hs
          omega
        · obtain ⟨heid, hemem⟩ := hds e (List.mem_cons_of_mem _ he)
          refine ⟨heid, (List.mem_cons.1 hemem).resolve_left ?_⟩
          have hlt := hahead e he
          omega

/-! ## The parts of a delivery -/

theorem ceilMilliseconds_mono {now now' : Time} (hnow : now.unixNano ≤ now'.unixNano) :
    Codec.ceilMilliseconds now ≤ Codec.ceilMilliseconds now' := by
  unfold Codec.ceilMilliseconds Time.millisecond
  exact Int.tdiv_le_tdiv (by norm_num) (by omega)

/-- What is no knowledge from the future stays none. -/
theorem framed_later {tag : List Char → Vector UInt8 32} {now now' minute : Time} {known : Int64}
    {raw p : Bytes} {version : UInt16} (hnow : now.unixNano ≤ now'.unixNano)
    (hframed : Codec.Framed tag now minute known raw version p) :
    Codec.Framed tag now' minute known raw version p := by
  have hceil := ceilMilliseconds_mono hnow
  cases hframed with
  | plain hknown => exact .plain hknown
  | knowing hknown hsize =>
      refine .knowing ?_ hsize
      obtain ⟨hearly, hlate⟩ := not_or.1 hknown
      refine not_or.2 ⟨hearly, ?_⟩
      omega

theorem framed_version {tag : List Char → Vector UInt8 32} {now minute : Time} {known : Int64}
    {raw p : Bytes} {version : UInt16} (hframed : Codec.Framed tag now minute known raw version p) :
    version = 1 ∨ version = 2 := by
  cases hframed with
  | plain _ => exact .inl rfl
  | knowing _ _ => exact .inr rfl

theorem encode_later {now now' : Time} {c : CompletedMinute} {version : UInt16} {p : Bytes}
    (hnow : now.unixNano ≤ now'.unixNano) (hencode : EncodeBookDelivery h.tag now c version = .ok p) :
    EncodeBookDelivery h.tag now' c version = .ok p := by
  obtain ⟨raw, hpayload, hframed⟩ := Codec.encodeBookDelivery_eq_ok.1 hencode
  exact Codec.encodeBookDelivery_eq_ok.2 ⟨raw, hpayload, framed_later hnow hframed⟩

theorem booksSpent_singleton (b : MinuteBatch) : Codec.booksSpent [b] = 1 + Codec.batchSpent b := by
  simp [Codec.booksSpent]

theorem length_booksBytes_singleton (b : MinuteBatch) :
    (Codec.booksBytes [b]).length = 4 + (Codec.batchBytes b).length := by
  simp [Codec.booksBytes]

/-- A batch no larger than one of the delivery has an encoding too. -/
theorem encode_part {now : Time} {c : CompletedMinute} {version : UInt16} {p : Bytes}
    {b part : MinuteBatch} (hencode : EncodeBookDelivery h.tag now c version = .ok p) (hb : b ∈ c.batches)
    (hminute : part.minute = b.minute) (hvalid : validateMinuteBatch part = .ok ())
    (hsize : (Codec.batchBytes part).length ≤ (Codec.batchBytes b).length)
    (hspent : Codec.batchSpent part ≤ Codec.batchSpent b) :
    ∃ q, EncodeBookDelivery h.tag now ⟨c.minuteTime, c.knownFromMS, [part]⟩ version = .ok q := by
  obtain ⟨raw, hpayload, hframed⟩ := Codec.encodeBookDelivery_eq_ok.1 hencode
  have hequal := (Codec.validateBatches_mem hpayload.valid b hb).1
  have hbytes : (Codec.batchBytes b).length ≤ (c.batches.flatMap Codec.batchBytes).length := by
    rw [List.length_flatMap]
    exact List.single_le_sum (fun _ _ => Nat.zero_le _) _ (List.mem_map_of_mem hb)
  have helements : Codec.batchSpent b ≤ (c.batches.map Codec.batchSpent).sum :=
    List.single_le_sum (fun _ _ => Nat.zero_le _) _ (List.mem_map_of_mem hb)
  have hcount : 1 ≤ c.batches.length := List.length_pos_of_mem hb
  have hlimit := hpayload.elements
  have hmax := hpayload.size
  have hwhole : (Codec.booksBytes c.batches).length = 4 + (c.batches.flatMap Codec.batchBytes).length := by
    unfold Codec.booksBytes
    rw [List.length_append, Wire.length_bigEndian]
  unfold Codec.booksSpent at hlimit
  have hpart : Codec.Payload h.tag c.minuteTime [part]
      (1 :: (Codec.bookEnvelopeType h.tag).2.toList ++ Codec.booksBytes [part]) := by
    refine ⟨hpayload.exact_minute, Codec.validateBatches_cons.2 ⟨?_, hvalid, rfl⟩, ?_, ?_, ?_, rfl⟩
    · rw [not_or, not_not, hminute]
      exact ⟨hequal, by simp⟩
    · intro b' hb'
      obtain rfl := List.mem_singleton.1 hb'
      rw [hminute]
      exact hpayload.range b hb
    · rw [booksSpent_singleton]
      omega
    · rw [length_booksBytes_singleton]
      omega
  have hraw : raw.length = 17 + (Codec.booksBytes c.batches).length := by
    rw [hpayload.bytes, List.length_append]
    simp
  cases hframed with
  | plain hknown => exact ⟨_, Codec.encodeBookDelivery_eq_ok.2 ⟨_, hpart, .plain hknown⟩⟩
  | knowing hknown hfits =>
      refine ⟨_, Codec.encodeBookDelivery_eq_ok.2 ⟨_, hpart, .knowing hknown ?_⟩⟩
      have htag : (1 :: (Codec.bookEnvelopeType h.tag).2.toList).length = 17 := by simp
      rw [List.length_append, htag, length_booksBytes_singleton]
      omega

theorem validate_anchorOf {b : MinuteBatch} (hvalid : validateMinuteBatch b = .ok ()) :
    validateMinuteBatch (anchorOf b) = .ok () := by
  obtain ⟨bids, asks, hb⟩ := validateMinuteBatch_eq_ok.1 hvalid
  refine validateMinuteBatch_eq_ok.2 ⟨bids, asks, ?_⟩
  refine ⟨hb.depth, hb.id, hb.anchor, hb.range, hb.padBids, hb.padAsks, hb.snapshot, ?_, .nil, ?_⟩
  · exact fun d hd => absurd hd List.not_mem_nil
  · intro front d back hds
    exact absurd hds (by simp [anchorOf])

theorem length_batchBytes_anchorOf (b : MinuteBatch) :
    (Codec.batchBytes (anchorOf b)).length ≤ (Codec.batchBytes b).length := by
  simp only [Codec.batchBytes, Codec.deltasBytes, anchorOf, List.length_append, Wire.length_bigEndian,
    List.flatMap_nil, List.length_nil]
  omega

theorem batchSpent_anchorOf (b : MinuteBatch) : Codec.batchSpent (anchorOf b) ≤ Codec.batchSpent b := by
  simp only [Codec.batchSpent, Codec.deltasSpent, anchorOf, List.map_nil, List.length_nil, List.sum_nil]
  omega

theorem encodeDeltas_exists {ds : List BookDelta} (hds : ∀ d ∈ ds, Codec.Separable d) :
    ∃ fields, encodeDeltas h ds = .ok fields := by
  induction ds with
  | nil => exact ⟨[], rfl⟩
  | cons d ds ih =>
      obtain ⟨rest, hrest⟩ := ih fun e he => hds e (List.mem_cons_of_mem _ he)
      have hd := hds d List.mem_cons_self
      exact ⟨_, encodeDeltas_cons.2 ⟨_, rest, Codec.encodeDelta_eq_ok.2 ⟨hd, rfl⟩, hrest, rfl⟩⟩

theorem encodeValid_exists (bitmap : BitVec 64) :
    ∃ valid, Codec.Encode (uintType h) (.uint64 (.ofBitVec bitmap)) = .ok valid := by
  refine ⟨_, (Codec.exact_uint64 _).encode.2 ⟨Nat.zero_le _, ?_, rfl⟩⟩
  rw [Wire.length_bigEndian]
  norm_num [Codec.maxBytes]

/-- The member of a batch, by its parts. -/
structure MemberOf (h : Hashes) (now : Time) (d : Delivery) (known : Int64) (b : MinuteBatch)
    (p : Member) : Prop where
  index : p.index = b.minute.instrumentID
  payload : ∃ payload, EncodeBookDelivery h.tag now ⟨d.minuteTime, known, [b]⟩ d.codec = .ok payload ∧
    p.digest = h.digest payload
  fields : ∃ anchor valid deltas,
    EncodeBookDelivery h.tag now ⟨d.minuteTime, known, [anchorOf b]⟩ d.codec = .ok anchor ∧
      encodeDeltas h b.deltas = .ok deltas ∧ p.fields = ("anchor", anchor) :: ("valid", valid) :: deltas

theorem splitBatch_exists {now : Time} {d : Delivery} {c : CompletedMinute} {p : Bytes} {b : MinuteBatch}
    (hminute : c.minuteTime = d.minuteTime)
    (hencode : EncodeBookDelivery h.tag now c d.codec = .ok p) (hb : b ∈ c.batches)
    (hvalid : validateMinuteBatch b = .ok ()) (hds : ∀ e ∈ b.deltas, Codec.Separable e) :
    ∃ q, splitBatch h now d c.knownFromMS b = .ok q ∧ MemberOf h now d c.knownFromMS b q := by
  obtain ⟨payload, hpayload⟩ := encode_part hencode hb rfl hvalid le_rfl le_rfl
  obtain ⟨anchor, hanchor⟩ := encode_part hencode hb (show (anchorOf b).minute = b.minute from rfl)
    (validate_anchorOf hvalid) (length_batchBytes_anchorOf b) (batchSpent_anchorOf b)
  obtain ⟨valid, hvalid⟩ := @encodeValid_exists h b.minute.validBitmap
  obtain ⟨deltas, hdeltas⟩ := @encodeDeltas_exists h _ hds
  rw [hminute] at hpayload hanchor
  refine ⟨{ index := b.minute.instrumentID, digest := h.digest payload,
            fields := ("anchor", anchor) :: ("valid", valid) :: deltas }, ?_, rfl,
    ⟨payload, hpayload, rfl⟩, ⟨anchor, valid, deltas, hanchor, hdeltas, rfl⟩⟩
  unfold splitBatch
  rw [hpayload, hanchor, hvalid, hdeltas]
  rfl

/-! ## Loading a member -/

theorem stored_anchor {fields : List (String × Bytes)} {anchor valid : Bytes} {ds : List BookDelta}
    (hfields : encodeDeltas h ds = .ok fields) :
    hsetAll (fun _ => none) (("anchor", anchor) :: ("valid", valid) :: fields) "anchor" = some anchor := by
  have hnotMem : "anchor" ∉ (("valid", valid) :: fields).map Prod.fst := by
    rw [List.map_cons, List.mem_cons, encodeDeltas_names hfields, not_or]
    refine ⟨fun heq => absurd heq (show "anchor" ≠ "valid" by decide), ?_⟩
    intro hmem
    obtain ⟨d, -, heq⟩ := List.mem_map.1 hmem
    exact secondField_ne_anchor _ heq
  rw [hsetAll_cons, hsetAll_of_notMem hnotMem, Function.update_self]

theorem stored_second {fields : List (String × Bytes)} {anchor valid : Bytes} (second : Nat) :
    hsetAll (fun _ => none) (("anchor", anchor) :: ("valid", valid) :: fields) (secondField second) =
      hsetAll (fun _ => none) fields (secondField second) := by
  rw [hsetAll_cons, hsetAll_cons]
  refine hsetAll_congr fields ?_
  rw [Function.update_of_ne (secondField_ne_valid second), Function.update_of_ne (secondField_ne_anchor second)]

theorem mem_laterSeconds {n : Nat} : n ∈ laterSeconds ↔ 1 ≤ n ∧ n < 60 := by
  unfold laterSeconds
  rw [List.mem_range'_1]

/-- A member that is stored is loaded as its batch. -/
theorem loadBook_eq {now now' : Time} {zone : Zone} {s : Store} {d : Delivery} {keys : List BookKey}
    {known : Int64} {b : MinuteBatch} {p : Member} {before : Option Int64}
    (hp : MemberOf h now d known b p) (hnow : now.unixNano ≤ now'.unixNano)
    (hvalid : validateMinuteBatch b = .ok ()) (hutc : b.minute.minuteTime.offset = 0)
    (hbefore : ∀ k ∈ before, k = known)
    (hstored : s.bookAt (d.bookKey p.index) = { digest := some p.digest, fields := p.stored }) :
    loadBook h now' zone s (d.headerOf keys) before (d.bookKey b.minute.instrumentID) = .ok (known, b) := by
  obtain ⟨payload, hpayload, hdigest⟩ := hp.payload
  obtain ⟨anchor, valid, deltas, hanchor, hdeltas, hfields⟩ := hp.fields
  obtain ⟨bids, asks, hb⟩ := validateMinuteBatch_eq_ok.1 hvalid
  rw [hp.index] at hstored
  have hfield : p.stored "anchor" = some anchor := by
    unfold Member.stored
    rw [hfields]
    exact stored_anchor hdeltas
  have hdecode : DecodeBookDelivery h.tag now' d.minuteTime anchor d.codec =
      .ok ⟨d.minuteTime, known, [anchorOf b]⟩ := by
    refine Codec.decodeBookDelivery_eq_ok.2 ⟨encode_later hnow hanchor, rfl, fun b' hb' => ?_⟩
    obtain rfl := List.mem_singleton.1 hb'
    exact hutc
  have hseconds : readSeconds h zone p.stored b.minute.id laterSeconds = .ok b.deltas := by
    refine readSeconds_eq zone p.stored b.minute.id laterSeconds b.deltas deltas hdeltas ?_ ?_
      hb.increasing ?_
    · intro second hsecond
      obtain ⟨-, hlt⟩ := mem_laterSeconds.1 hsecond
      refine ⟨by omega, ?_⟩
      unfold Member.stored
      rw [hfields]
      exact stored_second second
    · exact List.pairwise_lt_range'
    · intro e he
      have hdelta := hb.deltas e he
      have hpos := hdelta.pos
      have hle := hdelta.le
      exact ⟨hdelta.minuteID, mem_laterSeconds.2 ⟨by omega, by omega⟩⟩
  unfold loadBook
  simp only [Check.andThen_eq_ok, Check.failIf_eq_ok]
  refine ⟨(), fun hne => hne rfl, ⟨d.minuteTime, known, [anchorOf b]⟩, ?_, anchorOf b, rfl, (), ?_,
    b.deltas, ?_, payload, encode_later hnow hpayload, (), ?_, (), ?_, rfl⟩
  · rw [hstored]
    show DecodeBookDelivery h.tag now' d.minuteTime ((p.stored "anchor").getD []) d.codec = _
    rw [hfield]
    exact hdecode
  · rintro ⟨k, hk, hne⟩
    exact hne (hbefore k hk)
  · rw [hstored]
    exact hseconds
  · rw [hstored, ← hdigest, not_not]
  · exact fun hne => hne rfl

theorem loadBooks_eq {now now' : Time} {zone : Zone} {s : Store} {d : Delivery} {keys : List BookKey}
    {known : Int64} (hnow : now.unixNano ≤ now'.unixNano) :
    ∀ (bs : List MinuteBatch) (ps : List Member) (before : Option Int64),
      List.Forall₂ (MemberOf h now d known) bs ps → (∀ k ∈ before, k = known) →
      (∀ b ∈ bs, validateMinuteBatch b = .ok () ∧ b.minute.minuteTime.offset = 0) →
      (∀ p ∈ ps, s.bookAt (d.bookKey p.index) = { digest := some p.digest, fields := p.stored }) →
      ∃ after, loadBooks h now' zone s (d.headerOf keys) before
          (bs.map fun b => d.bookKey b.minute.instrumentID) = .ok (after, bs) ∧
        (∀ k ∈ after, k = known) ∧ (bs ≠ [] ∨ before ≠ none → after ≠ none) := by
  intro bs ps before hmembers
  induction hmembers generalizing before with
  | nil =>
      intro hbefore _ _
      exact ⟨before, rfl, hbefore, fun hsome => hsome.resolve_left fun hne => hne rfl⟩
  | @cons b p bs ps hp _ ih =>
      intro hbefore hbs hstored
      obtain ⟨hvalid, hutc⟩ := hbs b List.mem_cons_self
      have hfirst := @loadBook_eq h _ _ zone _ _ keys _ _ _ _ hp hnow hvalid hutc hbefore
        (hstored p List.mem_cons_self)
      obtain ⟨after, hrest, hafter, hsome⟩ := ih (some known) (by simp)
        (fun b' hb' => hbs b' (List.mem_cons_of_mem _ hb'))
        (fun p' hp' => hstored p' (List.mem_cons_of_mem _ hp'))
      refine ⟨after, ?_, hafter, fun _ => hsome (.inr (by simp))⟩
      rw [List.map_cons, loadBooks, hfirst]
      show (loadBooks h now' zone s (d.headerOf keys) (some known) _ >>= _) = _
      rw [hrest]
      rfl

/-! ## The scripts of a delivery -/

/-- No key of the delivery is there. -/
structure Fresh (s : Store) (d : Delivery) : Prop where
  batch : s.batch d.batchKey = none
  books : ∀ index, s.book (d.bookKey index) = none

theorem bookKey_inj {d : Delivery} {i j : UInt32} (heq : d.bookKey i = d.bookKey j) : i = j :=
  congrArg BookKey.index heq

theorem run_memberScript {d : Delivery} {s : Store} {p : Member}
    (hopen : ∃ st ∈ (s.batchAt d.batchKey).state, st.Open)
    (hdigest : (s.batchAt d.batchKey).digest = some d.digest)
    (hfresh : s.book (d.bookKey p.index) = none) :
    Script.run (memberScript s (d.bookKey p.index) d.batchKey p.digest d.digest p.fields) =
      .ok (s.setBook (d.bookKey p.index) { digest := some p.digest, fields := p.stored }) := by
  have hat : s.bookAt (d.bookKey p.index) = {} := by
    unfold Store.bookAt
    rw [hfresh]
    rfl
  unfold memberScript
  dsimp only
  rw [if_neg (not_not.2 hopen), if_neg (not_not.2 hdigest), hat, if_neg (fun hne => hne.1 rfl)]
  rfl

theorem storeMembers_eq {d : Delivery} {ps : List Member} {s : Store}
    (hopen : ∃ st ∈ (s.batchAt d.batchKey).state, st.Open)
    (hdigest : (s.batchAt d.batchKey).digest = some d.digest)
    (hnodup : (ps.map Member.index).Nodup) (hfresh : ∀ p ∈ ps, s.book (d.bookKey p.index) = none) :
    ∃ s', storeMembers d s ps = .ok s' ∧ s'.batch = s.batch ∧
      (∀ p ∈ ps, s'.bookAt (d.bookKey p.index) = { digest := some p.digest, fields := p.stored }) ∧
        ∀ m, (∀ p ∈ ps, m ≠ d.bookKey p.index) → s'.book m = s.book m := by
  induction ps generalizing s with
  | nil => exact ⟨s, rfl, rfl, fun p hp => absurd hp List.not_mem_nil, fun _ _ => rfl⟩
  | cons p ps ih =>
      rw [List.map_cons, List.nodup_cons] at hnodup
      obtain ⟨hnew, hnodup⟩ := hnodup
      have hother : ∀ q ∈ ps, d.bookKey q.index ≠ d.bookKey p.index := fun q hq heq =>
        hnew (bookKey_inj heq ▸ List.mem_map_of_mem hq)
      have hfirst := run_memberScript hopen hdigest (hfresh p List.mem_cons_self)
      obtain ⟨s', hrest, hbatch, hstored, hkept⟩ := @ih
        (s.setBook (d.bookKey p.index) { digest := some p.digest, fields := p.stored }) hopen hdigest hnodup
        (fun q hq => by
          show Function.update s.book _ _ _ = none
          rw [Function.update_of_ne (hother q hq)]
          exact hfresh q (List.mem_cons_of_mem _ hq))
      refine ⟨s', ?_, hbatch, ?_, ?_⟩
      · rw [storeMembers, hfirst]
        exact hrest
      · intro q hq
        rcases List.mem_cons.1 hq with rfl | hq
        · unfold Store.bookAt
          rw [hkept _ fun q' hq' => (hother q' hq').symm]
          show (Function.update s.book _ _ _).getD {} = _
          rw [Function.update_self]
          rfl
        · exact hstored q hq
      · intro m hm
        rw [hkept m fun q hq => hm q (List.mem_cons_of_mem _ hq)]
        exact Function.update_of_ne (hm p List.mem_cons_self) _ _

/-- The batch key after `begin`. -/
def begunBatch (d : Delivery) (header : Header) : BatchHash :=
  { digest := some d.digest, header := some header, state := some .collecting }

theorem run_beginScript {d : Delivery} {s : Store} {header : Header} (hfresh : s.batch d.batchKey = none) :
    Script.run (beginScript s d.batchKey d.digest header) =
      .ok (s.setBatch d.batchKey (begunBatch d header)) := by
  have hat : s.batchAt d.batchKey = {} := by
    unfold Store.batchAt
    rw [hfresh]
    rfl
  unfold beginScript
  dsimp only
  rw [hat]
  rfl

/-- The batch key after `seal`. -/
def sealedBatch (d : Delivery) (header : Header) (token : String) : BatchHash :=
  { digest := some d.digest, header := some header, state := some .sealed, token := some token,
    payloadBytes := some d.payload.length }

theorem run_sealScript {d : Delivery} {s : Store} {header : Header} {token : String}
    {members : List (BookKey × String)} (hat : s.batchAt d.batchKey = begunBatch d header)
    (hmembers : ∀ e ∈ members, (s.bookAt e.1).digest = some e.2) :
    ∃ s', Script.run (sealScript s d.batchKey members d.digest header d.minute token d.payload.length) =
        .ok s' ∧ s'.batchAt d.batchKey = sealedBatch d header token ∧ s'.book = s.book := by
  refine ⟨(s.setBatch d.batchKey (sealedBatch d header token)).setReady d.batchKey (some d.minute),
    ?_, ?_, rfl⟩
  · have hcomplete : ¬ ∃ e ∈ members, (s.bookAt e.1).digest ≠ some e.2 := by
      rintro ⟨e, he, hne⟩
      exact hne (hmembers e he)
    have hopen : ¬ Closed (begunBatch d header).state := by
      rintro ⟨st, hst, hclosed⟩
      obtain rfl := Option.some.inj hst
      exact hclosed trivial
    unfold sealScript
    dsimp only
    rw [hat, if_neg (fun hne => hne.2 rfl), if_neg hcomplete, if_neg hopen]
    rfl
  · show (Function.update s.batch d.batchKey _ d.batchKey).getD {} = _
    rw [Function.update_self]
    rfl

/-! ## A delivery and back -/

theorem validateBatches_increasing {minute : Time} {previous : Option UInt32} {bs : List MinuteBatch}
    (hvalid : Codec.validateBatches minute previous bs = .ok ()) :
    bs.Pairwise (fun a b => a.minute.instrumentID < b.minute.instrumentID) ∧
      ∀ p ∈ previous, ∀ b ∈ bs, p < b.minute.instrumentID := by
  induction bs generalizing previous with
  | nil => exact ⟨.nil, fun _ _ b hb => absurd hb List.not_mem_nil⟩
  | cons b bs ih =>
      obtain ⟨hfirst, -, hrest⟩ := Codec.validateBatches_cons.1 hvalid
      obtain ⟨hincreasing, hafter⟩ := ih hrest
      have hahead := hafter _ rfl
      refine ⟨List.pairwise_cons.2 ⟨hahead, hincreasing⟩, ?_⟩
      intro p hp c hc
      have hpb : p < b.minute.instrumentID := by
        by_contra hle
        exact hfirst (.inr ⟨p, hp, UInt32.not_lt.1 hle⟩)
      rcases List.mem_cons.1 hc with rfl | hc
      · exact hpb
      · exact UInt32.lt_trans hpb (hahead c hc)

/-- A valid book delivery that the buffer has room for: no more than a hundred
instruments, and no delta with more values than a codec value may hold. -/
structure Deliverable (h : Hashes) (now : Time) (d : Delivery) (c : CompletedMinute) : Prop where
  valid : validateDelivery h d = .ok ()
  kind : d.kind = "cex"
  decoded : DecodeBookDelivery h.tag now d.minuteTime d.payload d.codec = .ok c
  quota : c.batches.length ≤ 100
  members : UInt32.ofNat c.batches.length = d.members
  elements : ∀ b ∈ c.batches, ∀ e ∈ b.deltas, Codec.deltaSpent e ≤ Codec.maxElements

theorem splitBatches_exists {now : Time} {d : Delivery} {c : CompletedMinute} {p : Bytes}
    (hminute : c.minuteTime = d.minuteTime) (hencode : EncodeBookDelivery h.tag now c d.codec = .ok p) :
    ∀ bs : List MinuteBatch, (∀ b ∈ bs, b ∈ c.batches ∧ validateMinuteBatch b = .ok () ∧
        ∀ e ∈ b.deltas, Codec.Separable e) →
      ∃ ps, splitBatches h now d c.knownFromMS bs = .ok ps ∧
        List.Forall₂ (MemberOf h now d c.knownFromMS) bs ps := by
  intro bs
  induction bs with
  | nil => exact fun _ => ⟨[], rfl, .nil⟩
  | cons b bs ih =>
      intro hbs
      obtain ⟨hb, hvalid, hds⟩ := hbs b List.mem_cons_self
      obtain ⟨q, hq, hmember⟩ := splitBatch_exists hminute hencode hb hvalid hds
      obtain ⟨qs, hqs, hmembers⟩ := ih fun b' hb' => hbs b' (List.mem_cons_of_mem _ hb')
      refine ⟨q :: qs, ?_, .cons hmember hmembers⟩
      rw [splitBatches, hq]
      show (splitBatches h now d c.knownFromMS bs >>= _) = _
      rw [hqs]
      rfl

theorem map_index_eq {now : Time} {d : Delivery} {known : Int64} {bs : List MinuteBatch} {ps : List Member}
    (hmembers : List.Forall₂ (MemberOf h now d known) bs ps) :
    ps.map Member.index = bs.map fun b => b.minute.instrumentID := by
  induction hmembers with
  | nil => rfl
  | cons hp _ ih => rw [List.map_cons, List.map_cons, ih, hp.index]

/-- What is accepted is loaded again, byte for byte. -/
theorem load_accept {now now' : Time} {zone : Zone} {token : String} {s : Store} {d : Delivery}
    {c : CompletedMinute} (hd : Deliverable h now d c) (hfresh : Fresh s d)
    (hnow : now.unixNano ≤ now'.unixNano) (hshows : (zone.local d.minuteTime).YearInRange) :
    ∃ s', acceptBooks h now token s d = .ok s' ∧ loadBookDelivery h now' zone s' d.batchKey = .ok d := by
  obtain ⟨hencode, hminute, hutc⟩ := Codec.decodeBookDelivery_eq_ok.1 hd.decoded
  obtain ⟨raw, hpayload, hframed⟩ := Codec.encodeBookDelivery_eq_ok.1 hencode
  have hcodec := framed_version hframed
  have hbatches := Codec.validateBatches_mem hpayload.valid
  -- every batch becomes a member
  have hseparable : ∀ b ∈ c.batches, ∀ e ∈ b.deltas, Codec.Separable e := by
    intro b hb e he
    obtain ⟨bids, asks, hvalid⟩ := validateMinuteBatch_eq_ok.1 (hbatches b hb).2
    have hdelta := hvalid.deltas e he
    exact ⟨hdelta.pos, hdelta.le, hdelta.bids_length, hdelta.asks_length, hd.elements b hb e he⟩
  obtain ⟨ps, hsplit, hmembers⟩ := splitBatches_exists hminute hencode c.batches fun b hb =>
    ⟨hb, (hbatches b hb).2, hseparable b hb⟩
  have hnodup : (ps.map Member.index).Nodup := by
    rw [map_index_eq hmembers]
    refine List.Pairwise.map _ (fun x y hxy => ?_) (validateBatches_increasing hpayload.valid).1
    exact UInt32.ne_of_lt hxy
  -- the scripts run one after another
  obtain ⟨header, hheader⟩ : ∃ header, header =
      d.headerOf (c.batches.map fun b => d.bookKey b.minute.instrumentID) := ⟨_, rfl⟩
  have hbegin := @run_beginScript d s header hfresh.batch
  obtain ⟨s₁, hs₁⟩ : ∃ s₁, s₁ = s.setBatch d.batchKey (begunBatch d header) := ⟨_, rfl⟩
  have hat₁ : s₁.batchAt d.batchKey = begunBatch d header := by
    rw [hs₁]
    show (Function.update s.batch d.batchKey _ d.batchKey).getD {} = _
    rw [Function.update_self]
    rfl
  obtain ⟨s₂, hstore, hbatch₂, hstored, -⟩ := @storeMembers_eq d ps s₁
    (by rw [hat₁]; exact ⟨.collecting, rfl, trivial⟩) (by rw [hat₁]; rfl) hnodup
    (fun p _ => by rw [hs₁]; exact hfresh.books p.index)
  have hat₂ : s₂.batchAt d.batchKey = begunBatch d header := by
    rw [← hat₁]
    unfold Store.batchAt
    rw [hbatch₂]
  obtain ⟨s₃, hseal, hat₃, hbook₃⟩ := @run_sealScript d s₂ header token
    (ps.map fun p => (d.bookKey p.index, p.digest)) hat₂ (by
      intro e he
      obtain ⟨p, hp, rfl⟩ := List.mem_map.1 he
      rw [hstored p hp])
  refine ⟨s₃, ?_, ?_⟩
  · unfold acceptBooks
    simp only [Check.andThen_eq_ok, Check.failIf_eq_ok]
    refine ⟨(), hd.valid, (), ?_, c, hd.decoded, (), ?_, s₁, ?_, ps, hsplit, s₂, hstore, ?_⟩
    · rintro (hkind | hversion)
      · exact hkind hd.kind
      · rcases hcodec with h1 | h2
        · exact hversion.1 h1
        · exact hversion.2 h2
    · rintro (hmany | hcount)
      · exact absurd hd.quota (by omega)
      · exact hcount hd.members
    · rw [← hheader, hs₁]
      exact hbegin
    · rw [← hheader]
      exact hseal
  · have hloaded : ∀ p ∈ ps, s₃.bookAt (d.bookKey p.index) =
        { digest := some p.digest, fields := p.stored } := by
      intro p hp
      rw [← hstored p hp]
      unfold Store.bookAt
      rw [hbook₃]
    obtain ⟨after, hload, hafter, hsome⟩ := @loadBooks_eq h now now' zone s₃ d
      (c.batches.map fun b => d.bookKey b.minute.instrumentID) c.knownFromMS hnow c.batches ps none hmembers
      (by simp) (fun b hb => ⟨(hbatches b hb).2, hutc b hb⟩) hloaded
    have hvalid := hd.valid
    simp only [validateDelivery, Check.seq_eq_ok, Check.failIf_eq_ok, not_or] at hvalid
    obtain ⟨hlabels, henvelope, -⟩ := hvalid
    have hnonempty : c.batches ≠ [] := by
      intro hempty
      refine henvelope.2.2.1 ?_
      rw [← hd.members, hempty]
      rfl
    have hknown : after.getD 0 = c.knownFromMS := by
      cases after with
      | none => exact absurd rfl (hsome (.inl hnonempty))
      | some k => exact hafter k rfl
    unfold loadBookDelivery
    rw [hat₃]
    simp only [Check.andThen_eq_ok, Check.failIf_eq_ok]
    refine ⟨(), ?_, (), ?_, ?_⟩
    · rintro (hdatabase | hid)
      · exact hlabels.1 hdatabase
      · exact hlabels.2.2.1 hid
    · rintro ⟨hsealed, -⟩
      exact hsealed rfl
    · show loadHeader h now' zone s₃ d.batchKey header = .ok d
      unfold loadHeader
      simp only [Check.andThen_eq_ok, Check.failIf_eq_ok]
      rw [hat₃, hheader]
      refine ⟨(), not_not.2 hshows, (), ?_, (), ?_, (), ?_, (after, c.batches), hload, d.payload, ?_,
        (), hd.valid, rfl⟩
      · rintro (hne | hne | hne)
        · exact hne rfl
        · exact hne rfl
        · exact hne rfl
      · show ¬ OptionsKind d.kind
        rw [hd.kind]
        decide
      · show ¬ (100 < (c.batches.map _).length ∨ UInt32.ofNat (c.batches.map _).length ≠ d.members)
        rw [List.length_map, hd.members]
        rintro (hmany | hcount)
        · exact absurd hd.quota (by omega)
        · exact hcount rfl
      · show EncodeBookDelivery h.tag now' ⟨d.minuteTime, after.getD 0, c.batches⟩ d.codec = _
        rw [hknown, ← hminute]
        exact encode_later hnow hencode

/-! ## Nothing else is loaded -/

/-- The member's anchor and seconds make up the batch, and its digest is that of the batch. -/
structure HoldsBatch (h : Hashes) (now : Time) (zone : Zone) (hd : Header) (member : MemberHash)
    (known : Int64) (b : MinuteBatch) : Prop where
  parts : ∃ anchor ds,
    DecodeBookDelivery h.tag now hd.minuteTime ((member.fields "anchor").getD []) hd.codec =
        .ok ⟨hd.minuteTime, known, [anchor]⟩ ∧
      readSeconds h zone member.fields anchor.minute.id laterSeconds = .ok ds ∧
        b = { anchor with deltas := anchor.deltas ++ ds }
  digest : ∃ payload, EncodeBookDelivery h.tag now ⟨hd.minuteTime, known, [b]⟩ hd.codec = .ok payload ∧
    member.digest = some (h.digest payload)

theorem onlyBatch_eq_ok {bs : List MinuteBatch} {b : MinuteBatch} : onlyBatch bs = .ok b ↔ bs = [b] := by
  unfold onlyBatch
  split
  · rename_i b'
    simp
  · rename_i hmany
    constructor
    · intro heq
      cases heq
    · intro heq
      exact absurd heq (hmany b)

theorem HoldsBatch.utc {now : Time} {zone : Zone} {hd : Header} {member : MemberHash} {known : Int64}
    {b : MinuteBatch} (hb : HoldsBatch h now zone hd member known b) : b.minute.minuteTime.offset = 0 := by
  obtain ⟨anchor, ds, hdecode, -, rfl⟩ := hb.parts
  obtain ⟨-, -, hutc⟩ := Codec.decodeBookDelivery_eq_ok.1 hdecode
  exact hutc anchor (List.mem_singleton.2 rfl)

/-- A member that is loaded holds the batch, under the batch's own key. -/
theorem loadBook_sound {now : Time} {zone : Zone} {s : Store} {hd : Header} {before : Option Int64}
    {key : BookKey} {known : Int64} {b : MinuteBatch}
    (hload : loadBook h now zone s hd before key = .ok (known, b)) :
    hd.bookKey b.minute.instrumentID = key ∧ (∀ k ∈ before, k = known) ∧
      HoldsBatch h now zone hd (s.bookAt key) known b := by
  unfold loadBook at hload
  simp only [Check.andThen_eq_ok, Check.failIf_eq_ok] at hload
  obtain ⟨-, -, ⟨t, k, bs⟩, hanchor, anchor, hbatch, -, hbefore, ds, hseconds, payload, hpayload,
    -, hdigest, -, hkey, hresult⟩ := hload
  obtain ⟨rfl, rfl⟩ := Prod.mk.inj (Except.ok.inj hresult)
  obtain rfl := onlyBatch_eq_ok.1 hbatch
  obtain ⟨-, rfl, -⟩ := Codec.decodeBookDelivery_eq_ok.1 hanchor
  refine ⟨not_not.1 hkey, ?_, ⟨⟨anchor, ds, hanchor, hseconds, rfl⟩, ⟨payload, hpayload, not_not.1 hdigest⟩⟩⟩
  intro k' hk'
  by_contra hne
  exact hbefore ⟨k', hk', hne⟩

theorem loadBooks_sound {now : Time} {zone : Zone} {s : Store} {hd : Header} {keys : List BookKey}
    {before after : Option Int64} {bs : List MinuteBatch}
    (hload : loadBooks h now zone s hd before keys = .ok (after, bs)) :
    keys = bs.map (fun b => hd.bookKey b.minute.instrumentID) ∧
      (∀ k ∈ before, k ∈ after) ∧
        ∀ b ∈ bs, ∃ known ∈ after,
          HoldsBatch h now zone hd (s.bookAt (hd.bookKey b.minute.instrumentID)) known b := by
  induction keys generalizing before bs with
  | nil =>
      obtain ⟨rfl, rfl⟩ := Prod.mk.inj (Except.ok.inj hload)
      exact ⟨rfl, fun k hk => hk, fun b hb => absurd hb List.not_mem_nil⟩
  | cons key keys ih =>
      rw [loadBooks] at hload
      simp only [Check.andThen_eq_ok] at hload
      obtain ⟨⟨known, b⟩, hfirst, ⟨after', bs'⟩, hrest, hresult⟩ := hload
      obtain ⟨rfl, rfl⟩ := Prod.mk.inj (Except.ok.inj hresult)
      obtain ⟨rfl, hbefore, hholds⟩ := loadBook_sound hfirst
      obtain ⟨rfl, hafter, hothers⟩ := ih hrest
      have hknown : known ∈ after' := hafter known rfl
      refine ⟨rfl, ?_, ?_⟩
      · intro k hk
        rw [hbefore k hk]
        exact hknown
      · intro b' hb'
        rcases List.mem_cons.1 hb' with rfl | hb'
        · exact ⟨known, hknown, hholds⟩
        · exact hothers b' hb'

/-- Under the header of a delivery, with whatever manifest, the delivery itself is all
that can be loaded: from the manifest of its batches, and from members that hold them. -/
theorem load_only {now now' : Time} {zone : Zone} {s : Store} {d d' : Delivery} {c : CompletedMinute}
    {keys : List BookKey} (hd : Deliverable h now d c) (hnow : now.unixNano ≤ now'.unixNano)
    (hcollision : ∀ q, h.digest q = d.digest → q = d.payload)
    (hheader : (s.batchAt d.batchKey).header = some (d.headerOf keys))
    (hload : loadBookDelivery h now' zone s d.batchKey = .ok d') :
    d' = d ∧ keys = c.batches.map (fun b => d.bookKey b.minute.instrumentID) ∧
      ∀ b ∈ c.batches, HoldsBatch h now' zone (d.headerOf keys)
        (s.bookAt (d.bookKey b.minute.instrumentID)) c.knownFromMS b := by
  unfold loadBookDelivery at hload
  rw [hheader] at hload
  simp only [Check.andThen_eq_ok, Check.failIf_eq_ok] at hload
  obtain ⟨-, -, -, -, hload⟩ := hload
  unfold loadHeader at hload
  simp only [Check.andThen_eq_ok, Check.failIf_eq_ok] at hload
  obtain ⟨-, -, -, -, -, -, -, -, ⟨after, bs⟩, hbooks, payload, hpayload, ⟨⟩, hvalid, hresult⟩ := hload
  obtain rfl := Except.ok.inj hresult
  obtain ⟨hkeys, -, hholds⟩ := loadBooks_sound hbooks
  -- the digest of the header identifies the payload
  have hdigest : h.digest payload = d.digest := by
    simp only [validateDelivery, Check.seq_eq_ok, Check.failIf_eq_ok, not_not] at hvalid
    exact hvalid.2.2
  obtain rfl := hcollision payload hdigest
  obtain ⟨hencode, hminute, hutc⟩ := Codec.decodeBookDelivery_eq_ok.1 hd.decoded
  have hsame : (⟨d.minuteTime, after.getD 0, bs⟩ : CompletedMinute) = c := by
    have hloaded : DecodeBookDelivery h.tag now' d.minuteTime d.payload d.codec =
        .ok ⟨d.minuteTime, after.getD 0, bs⟩ := by
      refine Codec.decodeBookDelivery_eq_ok.2 ⟨hpayload, rfl, fun b hb => ?_⟩
      obtain ⟨known, -, hholds⟩ := hholds b hb
      exact hholds.utc
    have horiginal : DecodeBookDelivery h.tag now' d.minuteTime d.payload d.codec = .ok c :=
      Codec.decodeBookDelivery_eq_ok.2 ⟨encode_later hnow hencode, hminute, hutc⟩
    rw [horiginal] at hloaded
    exact (Except.ok.inj hloaded).symm
  subst hsame
  refine ⟨rfl, hkeys, ?_⟩
  intro b hb
  obtain ⟨known, hknown, hholds⟩ := hholds b hb
  rw [hknown]
  exact hholds

/-- A delivery is loaded as it was accepted, and nothing else is loaded in its place. -/
theorem split_reload {now now' : Time} {zone : Zone} {token : String} {s : Store} {d : Delivery}
    {c : CompletedMinute} (hd : Deliverable h now d c) (hfresh : Fresh s d)
    (hnow : now.unixNano ≤ now'.unixNano) (hshows : (zone.local d.minuteTime).YearInRange)
    (hcollision : ∀ q, h.digest q = d.digest → q = d.payload) :
    (∃ s', acceptBooks h now token s d = .ok s' ∧ loadBookDelivery h now' zone s' d.batchKey = .ok d) ∧
      ∀ (s' : Store) (keys : List BookKey) (d' : Delivery),
        (s'.batchAt d.batchKey).header = some (d.headerOf keys) →
        loadBookDelivery h now' zone s' d.batchKey = .ok d' →
          d' = d ∧ keys = c.batches.map (fun b => d.bookKey b.minute.instrumentID) ∧
            ∀ b ∈ c.batches, HoldsBatch h now' zone (d.headerOf keys)
              (s'.bookAt (d.bookKey b.minute.instrumentID)) c.knownFromMS b :=
  ⟨load_accept hd hfresh hnow hshows, fun _ _ _ => load_only hd hnow hcollision⟩

/-! ## Runs -/

/-- A payload of version 1 is decoded at any time. -/
theorem decode_of_payload {now minute : Time} {bs : List MinuteBatch} {p : Bytes}
    (hpayload : Codec.Payload h.tag minute bs p) (hutc : ∀ b ∈ bs, b.minute.minuteTime.offset = 0) :
    DecodeBookDelivery h.tag now minute p 1 = .ok ⟨minute, 0, bs⟩ :=
  Codec.decodeBookDelivery_eq_ok.2
    ⟨Codec.encodeBookDelivery_eq_ok.2 ⟨p, hpayload, .plain rfl⟩, rfl, hutc⟩

/-- A batch at the epoch with one level a side. -/
def smallBatch (instrumentID : UInt32) : MinuteBatch where
  minute :=
    { id := instrumentID.toUInt64, instrumentID, minuteTime := ⟨0, 0⟩, validBitmap := 33#64,
      storedDepth := 10,
      bids := (Vector.replicate legacyBookDepth Level.zero).set 0 ⟨100, 1⟩ (by decide),
      asks := (Vector.replicate legacyBookDepth Level.zero).set 0 ⟨101, 1⟩ (by decide) }
  deltas := []

/-- Hashes that tell one payload from all others. -/
def hashesOf (payload : Bytes) : Hashes where
  tag := Codec.noHash
  digest p := if p = payload then "this" else "other"

/-- A delivery of batches at the epoch. -/
def epochDelivery (bs : List MinuteBatch) : Delivery where
  database := "db"
  kind := "cex"
  id := "id"
  service := "collector"
  generation := 1
  minute := 0
  digest := "this"
  members := UInt32.ofNat bs.length
  codec := 1
  payload := 1 :: (Codec.bookEnvelopeType Codec.noHash).2.toList ++ Codec.booksBytes bs

theorem length_epochPayload (bs : List MinuteBatch) :
    (epochDelivery bs).payload.length = 17 + (Codec.booksBytes bs).length := by
  have htag : (1 :: (Codec.bookEnvelopeType Codec.noHash).2.toList).length = 17 := by simp
  show (1 :: (Codec.bookEnvelopeType Codec.noHash).2.toList ++ Codec.booksBytes bs).length = _
  rw [List.length_append, htag]

theorem validate_epochDelivery {bs : List MinuteBatch} (hsize : 17 + (Codec.booksBytes bs).length ≤ Codec.maxBytes)
    (hcount : UInt32.ofNat bs.length ≠ 0) :
    validateDelivery (hashesOf (epochDelivery bs).payload) (epochDelivery bs) = .ok () := by
  have hlength := length_epochPayload bs
  simp only [validateDelivery, Check.seq_eq_ok, Check.failIf_eq_ok, not_or, not_not]
  refine ⟨⟨show ¬ isLabel "db" = false by decide, show ¬ isLabel "cex" = false by decide,
      show ¬ isLabel "id" = false by decide, show ¬ isLabel "collector" = false by decide⟩,
    ⟨fun hne => absurd hne (show (1 : UInt64) ≠ 0 by decide), fun hne => absurd hne (show (1 : UInt16) ≠ 0 by decide),
      hcount, by omega, ?_, fun hzero => absurd hzero (show ¬ (minuteTimeOf 0).IsZero by decide)⟩, ?_⟩
  · rw [hlength]
    unfold Codec.maxBytes at hsize
    unfold Spool.maxPayload
    omega
  · show (if _ then _ else _) = _
    rw [if_pos rfl]
    rfl

/-- One instrument more than the buffer takes. -/
def manyBatches : List MinuteBatch := (List.range 101).map fun n => smallBatch (UInt32.ofNat (n + 1))

theorem length_smallBatch (i : UInt32) : (Codec.batchBytes (smallBatch i)).length = 1649 := by
  simp only [Codec.batchBytes, Codec.deltasBytes, smallBatch, List.length_append, Wire.length_bigEndian,
    Wire.length_signedBytes, Codec.length_int64sBytes, Codec.length_uint64sBytes, List.length_map,
    Codec.length_side, List.flatMap_nil, List.length_nil]

theorem length_booksBytes_of {bs : List MinuteBatch} {k : Nat}
    (hbs : ∀ b ∈ bs, (Codec.batchBytes b).length = k) :
    (Codec.booksBytes bs).length = 4 + bs.length * k := by
  have hlengths : bs.map (fun b => (Codec.batchBytes b).length) = List.replicate bs.length k :=
    List.eq_replicate_iff.2 ⟨List.length_map _, fun n hn => by
      obtain ⟨b, hb, rfl⟩ := List.mem_map.1 hn
      exact hbs b hb⟩
  unfold Codec.booksBytes
  rw [List.length_append, Wire.length_bigEndian, List.length_flatMap, hlengths, List.sum_replicate,
    smul_eq_mul]

theorem length_manyBatches : manyBatches.length = 101 := by
  unfold manyBatches
  rw [List.length_map, List.length_range]

theorem size_manyBatches : 17 + (Codec.booksBytes manyBatches).length ≤ Codec.maxBytes := by
  have hlength : (Codec.booksBytes manyBatches).length = 4 + manyBatches.length * 1649 := by
    refine length_booksBytes_of fun b hb => ?_
    obtain ⟨i, -, rfl⟩ := List.mem_map.1 hb
    exact length_smallBatch _
  rw [hlength, length_manyBatches]
  unfold Codec.maxBytes
  omega

theorem spent_manyBatches : Codec.booksSpent manyBatches ≤ Codec.bookElements := by
  have hspent : Codec.batchSpent ∘ (fun n => smallBatch (UInt32.ofNat (n + 1))) = fun _ => 200 := rfl
  unfold Codec.booksSpent manyBatches
  rw [List.map_map, hspent, List.length_map, List.length_range, List.map_const', List.sum_replicate,
    List.length_range, smul_eq_mul]
  unfold Codec.bookElements
  omega

theorem payload_manyBatches : Codec.Payload Codec.noHash (minuteTimeOf 0) manyBatches
    (epochDelivery manyBatches).payload where
  exact_minute := by decide
  valid := by decide +kernel
  range := by
    intro b hb
    obtain ⟨n, -, rfl⟩ := List.mem_map.1 hb
    exact show Time.YearInRange ⟨0, 0⟩ by decide
  elements := spent_manyBatches
  size := size_manyBatches
  bytes := rfl

/-- A valid delivery of a hundred and one instruments is not stored. -/
theorem accept_refuses_many :
    validateDelivery (hashesOf (epochDelivery manyBatches).payload) (epochDelivery manyBatches) = .ok () ∧
      DecodeBookDelivery Codec.noHash ⟨0, 0⟩ (minuteTimeOf 0) (epochDelivery manyBatches).payload 1 =
        .ok ⟨minuteTimeOf 0, 0, manyBatches⟩ ∧
      ∀ now token s s',
        acceptBooks (hashesOf (epochDelivery manyBatches).payload) now token s (epochDelivery manyBatches) ≠
          .ok s' := by
  have hutc : ∀ b ∈ manyBatches, b.minute.minuteTime.offset = 0 := by
    intro b hb
    obtain ⟨n, -, rfl⟩ := List.mem_map.1 hb
    rfl
  have hdecode := fun now => @decode_of_payload (hashesOf (epochDelivery manyBatches).payload) now _ _ _
    payload_manyBatches hutc
  refine ⟨validate_epochDelivery size_manyBatches (by decide), hdecode ⟨0, 0⟩, ?_⟩
  intro now token s s' haccept
  unfold acceptBooks at haccept
  simp only [Check.andThen_eq_ok, Check.failIf_eq_ok] at haccept
  obtain ⟨-, -, -, -, c, hc, -, hquota, -⟩ := haccept
  obtain rfl := Except.ok.inj ((hdecode now).symm.trans hc)
  exact hquota (.inl (by decide))

/-- A batch with a change in its sixth second. -/
def movedBatch : MinuteBatch :=
  { smallBatch 1 with
    deltas := [{ minuteID := 1, secondOffset := 5, bidChangePrice := [100], bidChangeQty := [2],
                 askChangePrice := [], askChangeQty := [] }] }

theorem size_movedBatch : 17 + (Codec.booksBytes [movedBatch]).length ≤ Codec.maxBytes := by
  rw [length_booksBytes_singleton]
  simp only [Codec.batchBytes, Codec.deltasBytes, movedBatch, smallBatch, List.length_append,
    Wire.length_bigEndian, Wire.length_signedBytes, Codec.length_int64sBytes, Codec.length_uint64sBytes,
    List.length_map, Codec.length_side, List.flatMap_cons, List.flatMap_nil, List.length_nil,
    Codec.length_deltaBytes, Codec.deltaSpent, List.length_cons]
  norm_num [Codec.maxBytes]

theorem payload_movedBatch : Codec.Payload Codec.noHash (minuteTimeOf 0) [movedBatch]
    (epochDelivery [movedBatch]).payload where
  exact_minute := by decide
  valid := by decide +kernel
  range := by
    intro b hb
    obtain rfl := List.mem_singleton.1 hb
    exact ⟨by decide, by decide⟩
  elements := by decide +kernel
  size := size_movedBatch
  bytes := rfl

theorem deliverable_movedBatch :
    Deliverable (hashesOf (epochDelivery [movedBatch]).payload) ⟨0, 0⟩ (epochDelivery [movedBatch])
      ⟨minuteTimeOf 0, 0, [movedBatch]⟩ where
  valid := validate_epochDelivery payload_movedBatch.size (by decide)
  kind := rfl
  decoded := decode_of_payload payload_movedBatch fun b hb => by
    obtain rfl := List.mem_singleton.1 hb
    rfl
  quota := by decide
  members := rfl
  elements := by
    intro b hb e he
    obtain rfl := List.mem_singleton.1 hb
    obtain rfl := List.mem_singleton.1 he
    decide

theorem split_reload_movedBatch :
    (∃ s', acceptBooks (hashesOf (epochDelivery [movedBatch]).payload) ⟨0, 0⟩ "token" {}
        (epochDelivery [movedBatch]) = .ok s' ∧
      loadBookDelivery (hashesOf (epochDelivery [movedBatch]).payload) ⟨0, 0⟩ Codec.utcZone s'
        (epochDelivery [movedBatch]).batchKey = .ok (epochDelivery [movedBatch])) ∧
      ∀ (s' : Store) (keys : List BookKey) (d' : Delivery),
        (s'.batchAt (epochDelivery [movedBatch]).batchKey).header =
            some ((epochDelivery [movedBatch]).headerOf keys) →
        loadBookDelivery (hashesOf (epochDelivery [movedBatch]).payload) ⟨0, 0⟩ Codec.utcZone s'
            (epochDelivery [movedBatch]).batchKey = .ok d' →
          d' = epochDelivery [movedBatch] ∧
            keys = [movedBatch].map (fun b => (epochDelivery [movedBatch]).bookKey b.minute.instrumentID) ∧
            ∀ b ∈ [movedBatch], HoldsBatch (hashesOf (epochDelivery [movedBatch]).payload) ⟨0, 0⟩
              Codec.utcZone ((epochDelivery [movedBatch]).headerOf keys)
              (s'.bookAt ((epochDelivery [movedBatch]).bookKey b.minute.instrumentID)) 0 b := by
  refine split_reload deliverable_movedBatch ⟨rfl, fun _ => rfl⟩ le_rfl ⟨by decide, by decide⟩ ?_
  intro q hq
  by_contra hne
  have hother : (hashesOf (epochDelivery [movedBatch]).payload).digest q = "other" := if_neg hne
  rw [hother] at hq
  exact absurd hq (show "other" ≠ "this" by decide)

end Redis

end MarketInfo
