import MarketInfo.Spool.Envelope

/-! # Round trip of the spool envelope

A valid delivery is read back from its envelope, the header reader agrees with the
full one, and the lengths inside an envelope leave no room for a shorter or a
longer file.
-/

namespace MarketInfo.Spool

open Wire (bigEndian signedBytes ofSignedBytes Reading Reads Stable)

variable {sha256 : List UInt8 → Vector UInt8 32} {z : Zlib}

/-! ## The header -/

/-- The delivery as it is read back: its minute is shown in UTC. -/
def Delivery.inUTC (d : Delivery) : Delivery :=
  { d with minute := d.minute.utc, minute_unix := by rw [Time.utc_unix]; exact d.minute_unix }

/-- The header fields of a delivery. -/
def Delivery.head (d : Delivery) : Head :=
  { database := d.database, kind := d.kind, id := d.id, service := d.service,
    generation := d.generation, sec := Int64.ofInt d.minute.unix, codec := d.codec,
    members := d.members, size := d.payload.length, digest := d.digest }

/-- What a valid delivery has been checked for. -/
structure Valid (sha256 : List UInt8 → Vector UInt8 32) (d : Delivery) : Prop where
  database : isLabel d.database = true
  kind : isLabel d.kind = true
  id : isLabel d.id = true
  service : isLabel d.service = true
  generation : d.generation ≠ 0
  codec : d.codec ≠ 0
  members : d.members ≠ 0
  payload_pos : d.payload.length ≠ 0
  payload_le : d.payload.length ≤ maxPayload
  nonzero : ¬ d.minute.IsZero
  minute : d.minute.Equal (d.minute.utc.truncate Time.minute)
  digest : sha256 d.payload = d.digest

theorem validate_eq_ok {d : Delivery} {u : Unit} : validate sha256 d = .ok u ↔ Valid sha256 d := by
  unfold validate
  simp only [Check.seq_eq_ok, Check.failIf_eq_ok, not_or, not_not, not_lt, Bool.not_eq_false]
  constructor
  · rintro ⟨⟨h1, h2, h3, h4⟩, ⟨h5, h6, h7, h8, h9, h10, h11⟩, h12⟩
    exact ⟨h1, h2, h3, h4, h5, h6, h7, h8, h9, h10, h11, h12⟩
  · rintro ⟨h1, h2, h3, h4, h5, h6, h7, h8, h9, h10, h11, h12⟩
    exact ⟨⟨h1, h2, h3, h4⟩, ⟨h5, h6, h7, h8, h9, h10, h11⟩, h12⟩

theorem isLabel_length {s : List UInt8} (h : isLabel s = true) : 1 ≤ s.length ∧ s.length ≤ 160 := by
  unfold isLabel at h
  simp only [Bool.and_eq_true, decide_eq_true_eq] at h
  exact h.1

theorem reads_readString {s : List UInt8} (h : isLabel s = true) :
    Reads readString (stringBytes s) 0 s := by
  obtain ⟨hpos, hle⟩ := isLabel_length h
  refine Reads.after (Wire.reads_readNat (by omega)) ?_
  exact Reads.guarded (by omega) (Wire.reads_take rfl)

theorem reads_readLabel {s : List UInt8} (h : isLabel s = true) :
    Reads readLabel (stringBytes s) 0 s := by
  obtain ⟨hpos, hle⟩ := isLabel_length h
  refine Reads.after (Wire.reads_readNat (by omega)) ?_
  refine Reads.guarded (by omega) (Reads.followed (Wire.reads_take rfl) ?_)
  exact Reads.guarded (by simp [h]) (Wire.reads_pure s)

theorem reads_readDigest (a : Vector UInt8 32) : Reads readDigest a.toList 0 a := by
  refine Reads.followed (Wire.reads_take a.length_toList) ?_
  rw [dif_pos a.length_toList]
  exact Wire.reads_pure _

/-- A header of a valid delivery is read back, whichever way its strings are read. -/
theorem reads_head {field : Reading (List UInt8)} {d : Delivery} (h : Valid sha256 d)
    (hfield : ∀ s, isLabel s = true → Reads field (stringBytes s) 0 s) :
    Reads (readHeadWith field) (headBytes d) 0 d.head := by
  have hgeneration : Reads (UInt64.ofNat <$> Wire.readNat 8) (bigEndian 8 d.generation.toNat) 0
      d.generation := by
    have hread : Reads (Wire.readNat 8) (bigEndian 8 d.generation.toNat) 0 d.generation.toNat :=
      Wire.reads_readNat d.generation.toNat_lt
    have hword := hread.map UInt64.ofNat
    rwa [UInt64.ofNat_toNat] at hword
  have hcodec : Reads (UInt16.ofNat <$> Wire.readNat 2) (bigEndian 2 d.codec.toNat) 0 d.codec := by
    have hread : Reads (Wire.readNat 2) (bigEndian 2 d.codec.toNat) 0 d.codec.toNat :=
      Wire.reads_readNat d.codec.toNat_lt
    have hword := hread.map UInt16.ofNat
    rwa [UInt16.ofNat_toNat] at hword
  have hmembers : Reads (UInt32.ofNat <$> Wire.readNat 4) (bigEndian 4 d.members.toNat) 0 d.members := by
    have hread : Reads (Wire.readNat 4) (bigEndian 4 d.members.toNat) 0 d.members.toNat :=
      Wire.reads_readNat d.members.toNat_lt
    have hword := hread.map UInt32.ofNat
    rwa [UInt32.ofNat_toNat] at hword
  have hsec : Reads ((fun a => Int64.ofInt (ofSignedBytes a)) <$> Wire.take 8)
      (signedBytes 8 d.minute.utc.unix) 0 (Int64.ofInt d.minute.unix) := by
    have hword := (Wire.reads_take (Wire.length_signedBytes 8 d.minute.utc.unix)).map
      fun a => Int64.ofInt (ofSignedBytes a)
    have hrange := d.minute_unix
    rwa [Wire.ofSignedBytes_signedBytes (by rw [Time.utc_unix]; omega) (by rw [Time.utc_unix]; omega),
      Time.utc_unix] at hword
  have hsize : d.payload.length < 256 ^ 4 := by
    have hle := h.payload_le
    unfold maxPayload at hle
    omega
  unfold readHeadWith headBytes
  refine Reads.after (hfield _ h.database) ?_
  refine Reads.after (hfield _ h.kind) ?_
  refine Reads.after (hfield _ h.id) ?_
  refine Reads.after (hfield _ h.service) ?_
  refine Reads.after hgeneration ?_
  refine Reads.after hsec ?_
  refine Reads.after hcodec ?_
  refine Reads.after hmembers ?_
  refine Reads.after (Wire.reads_readNat hsize) ?_
  exact Reads.followed (reads_readDigest d.digest) (Wire.reads_pure _)

theorem stable_readString : Stable readString :=
  (Wire.stable_readNat 2).bind fun _ => (Wire.stable_failIf _ _).bind fun _ => Wire.stable_take _

theorem stable_readLabel : Stable readLabel :=
  (Wire.stable_readNat 2).bind fun _ => (Wire.stable_failIf _ _).bind fun _ =>
    (Wire.stable_take _).bind fun _ => (Wire.stable_failIf _ _).bind fun _ => Wire.stable_pure _

theorem stable_readDigest : Stable readDigest := by
  refine (Wire.stable_take 32).bind fun a => ?_
  split
  · exact Wire.stable_pure _
  · intro rest budget b c' more h
    exact absurd h (by simp)

theorem stable_head {field : Reading (List UInt8)} (h : Stable field) :
    Stable (readHeadWith field) :=
  h.bind fun _ => h.bind fun _ => h.bind fun _ => h.bind fun _ =>
    ((Wire.stable_readNat 8).map _).bind fun _ => ((Wire.stable_take 8).map _).bind fun _ =>
      ((Wire.stable_readNat 2).map _).bind fun _ => ((Wire.stable_readNat 4).map _).bind fun _ =>
        (Wire.stable_readNat 4).bind fun _ => stable_readDigest.bind fun _ => Wire.stable_pure _

/-- A valid minute is its own count of seconds. -/
theorem Valid.unixNano {d : Delivery} (h : Valid sha256 d) :
    d.minute.unix * Time.second = d.minute.unixNano ∧
      (Int64.ofInt d.minute.unix).toInt = d.minute.unix := by
  have hrange := d.minute_unix
  have hminute := h.minute
  unfold Time.Equal at hminute
  rw [Time.truncate_minute_unixNano, Time.utc_unixNano] at hminute
  refine ⟨?_, Int64.toInt_ofInt_of_le hrange.1 hrange.2⟩
  unfold Time.minute Time.second at hminute
  unfold Time.unix Time.second
  omega

/-- The header and the payload make up the delivery again. -/
theorem Valid.delivery {d : Delivery} (h : Valid sha256 d) : d.head.delivery d.payload = d.inUTC := by
  obtain ⟨hnano, hsec⟩ := h.unixNano
  unfold Head.delivery Delivery.head Delivery.inUTC Time.utc
  simp only [hsec, hnano]

theorem Valid.inUTC {d : Delivery} (h : Valid sha256 d) : Valid sha256 d.inUTC :=
  ⟨h.database, h.kind, h.id, h.service, h.generation, h.codec, h.members, h.payload_pos,
    h.payload_le, h.nonzero, h.minute, h.digest⟩

/-! ## The envelope of a delivery -/

/-- The magic of an envelope. -/
def start (compressed : Bool) : List UInt8 := if compressed then compressedMagic else magic

/-- The length of a packed payload. -/
def lengthBytes (compressed : Bool) (stored : List UInt8) : List UInt8 :=
  if compressed then bigEndian 4 stored.length else []

/-- What an envelope stores of a payload. -/
structure Stores (z : Zlib) (d : Delivery) (compressed : Bool) (stored : List UInt8) : Prop where
  plain : compressed = false → stored = d.payload
  packed : compressed = true → stored = z.deflate d.payload ∧ stored.length < d.payload.length

@[simp] theorem length_start (compressed : Bool) : (start compressed).length = 5 := by
  cases compressed <;> rfl

theorem start_eq (compressed : Bool) :
    (start compressed = magic ∨ start compressed = compressedMagic) ∧
      (decide (start compressed = compressedMagic) = compressed) := by
  cases compressed
  · exact ⟨Or.inl rfl, by decide⟩
  · exact ⟨Or.inr rfl, by decide⟩

theorem envelope_eq (d : Delivery) (compressed : Bool) (stored : List UInt8) :
    envelope d compressed stored =
      start compressed ++ (headBytes d ++ (lengthBytes compressed stored ++ stored)) := rfl

theorem marshal_eq_ok {d : Delivery} {compress : Bool} {raw : List UInt8} :
    marshal sha256 z d compress = .ok raw → Valid sha256 d ∧
      ∃ compressed stored, Stores z d compressed stored ∧
        raw = envelope d compressed stored ++ (sha256 (envelope d compressed stored)).toList := by
  intro h
  simp only [marshal, Check.seq_eq_ok] at h
  obtain ⟨hvalid, h⟩ := h
  refine ⟨validate_eq_ok.1 hvalid, _, _, ⟨?_, ?_⟩, (Except.ok.inj h).symm⟩
  · intro hplain
    rw [hplain]
    rfl
  · intro hpacked
    rw [if_pos hpacked]
    simp only [Bool.and_eq_true, decide_eq_true_eq] at hpacked
    exact ⟨rfl, by omega⟩

theorem marshal_of_valid {d : Delivery} (h : Valid sha256 d) (compress : Bool) :
    ∃ raw, marshal sha256 z d compress = .ok raw := by
  have hvalid : validate sha256 d = .ok () := validate_eq_ok.2 h
  unfold marshal
  rw [hvalid]
  exact ⟨_, rfl⟩

theorem length_headBytes {d : Delivery} (h : Valid sha256 d) : (headBytes d).length ≤ 706 := by
  have h1 := (isLabel_length h.database).2
  have h2 := (isLabel_length h.kind).2
  have h3 := (isLabel_length h.id).2
  have h4 := (isLabel_length h.service).2
  simp only [headBytes, stringBytes, List.length_append, Wire.length_bigEndian,
    Wire.length_signedBytes, Vector.length_toList]
  omega

section Parts

variable {d : Delivery} {compressed : Bool} {stored : List UInt8}

/-- The head of what follows the magic is read, whatever comes after the envelope. -/
theorem reads_length (hfits : stored.length < 256 ^ 4) (rest : List UInt8) :
    (compressed = true → Wire.readNat 4 ⟨lengthBytes compressed stored ++ rest, 0⟩ =
      .ok (stored.length, ⟨rest, 0⟩)) ∧
    (compressed = false → lengthBytes compressed stored ++ rest = rest) := by
  constructor
  · rintro rfl
    exact Wire.reads_readNat hfits rest 0 (le_refl 0)
  · rintro rfl
    rfl

theorem Stores.fits (hs : Stores z d compressed stored) (h : Valid sha256 d) :
    stored.length ≤ d.payload.length ∧ stored.length < 256 ^ 4 := by
  have hle := h.payload_le
  unfold maxPayload at hle
  have hshort : stored.length ≤ d.payload.length := by
    rcases compressed with _ | _
    · rw [hs.plain rfl]
    · exact (hs.packed rfl).2.le
  exact ⟨hshort, by omega⟩

theorem Stores.payload (hz : z.RoundTrips) (hs : Stores z d compressed stored) (h : Valid sha256 d) :
    readPayload z compressed d.head ⟨lengthBytes compressed stored ++ stored, 0⟩ = .ok d.payload := by
  obtain ⟨hlength, -⟩ := hs.fits h
  obtain ⟨htrue, hfalse⟩ := @reads_length compressed stored (hs.fits h).2 stored
  unfold readPayload
  rcases compressed with _ | _
  · rw [hfalse rfl]
    obtain rfl := hs.plain rfl
    simp only [Bool.false_eq_true, if_false, Check.seq_eq_ok, Check.failIf_eq_ok, not_not]
    exact ⟨rfl, rfl⟩
  · obtain ⟨rfl, hlt⟩ := hs.packed rfl
    have hpos : (z.deflate d.payload).length ≠ 0 := by
      intro hzero
      exact hz.deflate_ne_nil _ (List.eq_nil_of_length_eq_zero hzero)
    simp only [if_true, htrue rfl, Check.andThen_eq_ok, Check.failIf_eq_ok]
    refine ⟨_, rfl, (), ?_, (d.payload, 0), hz.inflate_deflate _, (), ?_, rfl⟩
    · show ¬ ((z.deflate d.payload).length = 0 ∨ d.payload.length ≤ (z.deflate d.payload).length ∨
        (z.deflate d.payload).length ≠ (z.deflate d.payload).length)
      omega
    · simp [Delivery.head]

end Parts

/-! ## Reading an envelope back -/

theorem length_envelope {d : Delivery} {compressed : Bool} {stored : List UInt8}
    (h : Valid sha256 d) (hs : Stores z d compressed stored) :
    5 ≤ (envelope d compressed stored).length ∧
      (envelope d compressed stored).length + 32 ≤ maxPayload + 1024 := by
  obtain ⟨hlength, -⟩ := hs.fits h
  have hhead := length_headBytes h
  have hpayload := h.payload_le
  have hbytes : (lengthBytes compressed stored).length ≤ 4 := by
    cases compressed
    · exact Nat.zero_le _
    · exact (Wire.length_bigEndian 4 _).le
  rw [envelope_eq]
  simp only [List.length_append, length_start]
  omega

theorem unmarshal_envelope (hz : z.RoundTrips) {d : Delivery} {compressed : Bool}
    {stored : List UInt8} (h : Valid sha256 d) (hs : Stores z d compressed stored) :
    Unmarshal sha256 z (envelope d compressed stored ++
      (sha256 (envelope d compressed stored)).toList) = .ok d.inUTC := by
  obtain ⟨hlo, hhi⟩ := length_envelope h hs
  obtain ⟨hstart, hcompressed⟩ := start_eq compressed
  have htotal : (envelope d compressed stored ++
      (sha256 (envelope d compressed stored)).toList).length - 32 =
        (envelope d compressed stored).length := by
    rw [List.length_append, Vector.length_toList]
    omega
  have hfive : ∀ rest, (envelope d compressed stored ++ rest).take 5 = start compressed := by
    intro rest
    rw [envelope_eq, List.append_assoc, List.take_left' (length_start compressed)]
  unfold Unmarshal
  simp only [Check.andThen_eq_ok, Check.failIf_eq_ok, htotal, hfive, not_or, not_lt, not_and_or, not_not]
  rw [List.take_left, List.drop_left]
  refine ⟨(), ⟨?_, ?_, hstart⟩, (), rfl, (d.head, ⟨lengthBytes compressed stored ++ stored, 0⟩), ?_,
    (), ⟨h.payload_pos, h.payload_le⟩, d.payload, ?_, (), ?_, ?_⟩
  · rw [List.length_append, Vector.length_toList]
    omega
  · rw [List.length_append, Vector.length_toList]
    omega
  · rw [envelope_eq, List.drop_left' (length_start compressed)]
    exact reads_head h (fun s => reads_readString) _ 0 (le_refl 0)
  · rw [hcompressed]
    exact hs.payload hz h
  · rw [h.delivery]
    exact validate_eq_ok.2 h.inUTC
  · rw [h.delivery]
    rfl

/-- The candidate of a delivery: its header, and the size of its payload. -/
def Delivery.candidate (d : Delivery) : Candidate :=
  { header := { d.inUTC with payload := [] }, bytes := d.payload.length }

theorem Valid.header {d : Delivery} (h : Valid sha256 d) :
    d.head.delivery [] = { d.inUTC with payload := [] } := by
  have hdelivery := h.delivery
  rw [← hdelivery]
  rfl

theorem readHeader_envelope (hz : z.RoundTrips) {d : Delivery} {compressed : Bool} {stored tail : List UInt8}
    (h : Valid sha256 d) (hs : Stores z d compressed stored) (htail : tail.length = 32) :
    readHeader sha256 (d.name sha256) (envelope d compressed stored ++ tail) = .ok d.candidate := by
  obtain ⟨hstart, hcompressed⟩ := start_eq compressed
  obtain ⟨-, hfits⟩ := hs.fits h
  obtain ⟨htrue, hfalse⟩ := @reads_length compressed stored hfits (stored ++ tail)
  have hfile : envelope d compressed stored ++ tail =
      start compressed ++ (headBytes d ++ (lengthBytes compressed stored ++ (stored ++ tail))) := by
    simp only [envelope_eq, List.append_assoc]
  have hread : readStored compressed d.head ⟨lengthBytes compressed stored ++ (stored ++ tail), 0⟩ =
      .ok (stored.length, ⟨stored ++ tail, 0⟩) := by
    unfold readStored
    rcases compressed with _ | _
    · rw [hfalse rfl]
      obtain rfl := hs.plain rfl
      rfl
    · obtain ⟨hpacked, hlt⟩ := hs.packed rfl
      have hpos : stored.length ≠ 0 := by
        intro hzero
        exact hz.deflate_ne_nil _ (hpacked ▸ List.eq_nil_of_length_eq_zero hzero)
      simp only [if_true, htrue rfl, Check.andThen_eq_ok, Check.failIf_eq_ok]
      refine ⟨_, rfl, (), ?_, rfl⟩
      show ¬ (stored.length = 0 ∨ d.payload.length ≤ stored.length)
      omega
  unfold readHeader
  simp only [Check.andThen_eq_ok, Check.failIf_eq_ok, not_or, not_lt, not_and_or, not_not]
  refine ⟨(start compressed,
      ⟨headBytes d ++ (lengthBytes compressed stored ++ (stored ++ tail)), 0⟩), ?_, (), hstart,
    (d.head, ⟨lengthBytes compressed stored ++ (stored ++ tail), 0⟩), ?_,
    (stored.length, ⟨stored ++ tail, 0⟩), ?_, (), ?_, (), ?_, ?_⟩
  · rw [hfile]
    exact Wire.reads_take (length_start compressed) _ 0 (le_refl 0)
  · exact reads_head h (fun s => reads_readLabel) _ 0 (le_refl 0)
  · rw [hcompressed]
    exact hread
  · rw [h.header]
    refine ⟨h.payload_pos, h.payload_le, ?_, h.generation, h.codec, h.members, h.minute⟩
    rw [hfile]
    simp only [List.length_append, htail]
    omega
  · rw [h.header]
    rfl
  · rw [h.header]
    rfl

/-! ## Shorter and longer files -/

/-- Two starts of one byte string, without their last bytes. -/
theorem comparable_take {a b : List UInt8} (h : a <+: b ∨ b <+: a) (n : Nat) :
    a.take (a.length - n) <+: b.take (b.length - n) ∨ b.take (b.length - n) <+: a.take (a.length - n) := by
  rcases h with h | h
  · refine Or.inl (List.prefix_of_prefix_length_le ((List.take_prefix _ a).trans h)
      (List.take_prefix _ b) ?_)
    have hle := h.length_le
    simp only [List.length_take]
    omega
  · refine Or.inr (List.prefix_of_prefix_length_le ((List.take_prefix _ b).trans h)
      (List.take_prefix _ a) ?_)
    have hle := h.length_le
    simp only [List.length_take]
    omega

theorem comparable_drop {a b : List UInt8} (h : a <+: b ∨ b <+: a) (n : Nat) :
    a.drop n <+: b.drop n ∨ b.drop n <+: a.drop n :=
  h.imp (fun h => h.drop n) fun h => h.drop n

theorem take_eq_of_comparable {a b : List UInt8} (h : a <+: b ∨ b <+: a) {n : Nat}
    (ha : n ≤ a.length) (hb : n ≤ b.length) : a.take n = b.take n := by
  rcases h with ⟨more, rfl⟩ | ⟨more, rfl⟩
  · rw [List.take_append_of_le_length ha]
  · rw [List.take_append_of_le_length hb]

theorem eq_of_comparable {a b : List UInt8} (h : a <+: b ∨ b <+: a) (hlength : a.length = b.length) :
    a = b := by
  rcases h with h | h
  · exact h.eq_of_length hlength
  · exact (h.eq_of_length hlength.symm).symm

/-- The stored length of a packed payload is read the same from comparable inputs. -/
theorem readNat_comparable {stored : List UInt8} (hfits : stored.length < 256 ^ 4)
    {more rest : List UInt8} {budget n : Nat} {c : Wire.Cursor}
    (h : Wire.readNat 4 ⟨rest, budget⟩ = .ok (n, c))
    (hcomparable : rest <+: bigEndian 4 stored.length ++ more ∨
      bigEndian 4 stored.length ++ more <+: rest) :
    n = stored.length ∧ rest = bigEndian 4 stored.length ++ c.rest :=
  (Wire.stable_readNat 4).reads_unique (Wire.reads_readNat hfits) h hcomparable

theorem comparable_append {a b more : List UInt8} (h : a ++ b <+: a ++ more ∨ a ++ more <+: a ++ b) :
    b <+: more ∨ more <+: b :=
  h.imp (List.prefix_append_right_inj a).1 (List.prefix_append_right_inj a).1

section Lengths

variable {d d' : Delivery} {compressed : Bool} {stored tail raw' : List UInt8}

/-- A start or a continuation of an envelope that is accepted has its length. -/
theorem unmarshal_length (h : Valid sha256 d) (hs : Stores z d compressed stored)
    (htail : tail.length = 32)
    (hcomparable : raw' <+: envelope d compressed stored ++ tail ∨
      envelope d compressed stored ++ tail <+: raw')
    (haccepted : Unmarshal sha256 z raw' = .ok d') :
    raw'.length = (envelope d compressed stored ++ tail).length := by
  obtain ⟨hlo, -⟩ := length_envelope h hs
  obtain ⟨-, hcompressed⟩ := start_eq compressed
  have hfull : (envelope d compressed stored ++ tail).length =
      (envelope d compressed stored).length + 32 := by
    rw [List.length_append, htail]
  have hbody : (envelope d compressed stored ++ tail).take
      ((envelope d compressed stored ++ tail).length - 32) = envelope d compressed stored := by
    rw [hfull, Nat.add_sub_cancel, List.take_left]
  unfold Unmarshal at haccepted
  simp only [Check.andThen_eq_ok, Check.failIf_eq_ok, not_or, not_lt] at haccepted
  obtain ⟨-, ⟨hmin, -, -⟩, -, -, ⟨head, c⟩, hhead, -, -, payload, hpayload, -⟩ := haccepted
  have hmagic : raw'.take 5 = start compressed := by
    rw [take_eq_of_comparable hcomparable (by omega) (by omega), envelope_eq, List.append_assoc,
      List.take_left' (length_start compressed)]
  have hinput := comparable_drop (comparable_take hcomparable 32) 5
  rw [hbody, envelope_eq, List.drop_left' (length_start compressed)] at hinput
  obtain ⟨rfl, hrest⟩ := (stable_head stable_readString).reads_unique
    (reads_head h fun s => reads_readString) hhead hinput
  have hsize : raw'.length = 37 + (headBytes d).length + c.rest.length := by
    have hlength := congrArg List.length hrest
    rw [List.length_drop, List.length_take, List.length_append] at hlength
    omega
  rw [hrest] at hinput
  rw [hmagic, hcompressed] at hpayload
  unfold readPayload at hpayload
  rw [hfull, hsize, envelope_eq]
  rcases compressed with _ | _
  · obtain rfl := hs.plain rfl
    simp only [Bool.false_eq_true, if_false, Check.seq_eq_ok, Check.failIf_eq_ok, not_not] at hpayload
    have hlength : d.payload.length = c.rest.length := hpayload.1
    simp only [lengthBytes, List.length_append, length_start, Bool.false_eq_true, if_false,
      List.length_nil]
    omega
  · simp only [if_true, Check.andThen_eq_ok, Check.failIf_eq_ok, not_or, not_not] at hpayload
    obtain ⟨⟨n, c₁⟩, hn, -, ⟨-, -, hstored⟩, -⟩ := hpayload
    obtain ⟨rfl, hlengthBytes⟩ := readNat_comparable (hs.fits h).2 hn (comparable_append hinput)
    dsimp only at hstored
    simp only [lengthBytes, List.length_append, length_start, if_true, Wire.length_bigEndian,
      hlengthBytes]
    omega

theorem readHeader_length {base : List UInt8} {candidate : Candidate} (h : Valid sha256 d)
    (hs : Stores z d compressed stored) (htail : tail.length = 32)
    (hcomparable : raw' <+: envelope d compressed stored ++ tail ∨
      envelope d compressed stored ++ tail <+: raw')
    (haccepted : readHeader sha256 base raw' = .ok candidate) :
    raw'.length = (envelope d compressed stored ++ tail).length := by
  obtain ⟨-, hcompressed⟩ := start_eq compressed
  have hfile : envelope d compressed stored ++ tail =
      start compressed ++ (headBytes d ++ (lengthBytes compressed stored ++ (stored ++ tail))) := by
    simp only [envelope_eq, List.append_assoc]
  rw [hfile] at hcomparable ⊢
  unfold readHeader at haccepted
  simp only [Check.andThen_eq_ok, Check.failIf_eq_ok, not_or, not_lt, not_not] at haccepted
  obtain ⟨⟨first, c₀⟩, hfirst, -, -, ⟨head, c⟩, hhead, ⟨n, c₁⟩, hn, -, ⟨-, -, hlength, -⟩, -⟩ := haccepted
  obtain ⟨rfl, hrest₀⟩ := (Wire.stable_take 5).reads_unique
    (Wire.reads_take (length_start compressed)) hfirst hcomparable
  rw [hrest₀] at hcomparable
  have hinput := comparable_append hcomparable
  obtain ⟨rfl, hrest⟩ := (stable_head stable_readLabel).reads_unique
    (reads_head h fun s => reads_readLabel) hhead hinput
  rw [hrest] at hinput
  rw [hcompressed] at hn
  unfold readStored at hn
  rcases compressed with _ | _
  · obtain rfl := hs.plain rfl
    simp only [Bool.false_eq_true, if_false] at hn
    obtain ⟨rfl, rfl⟩ := Prod.mk.inj (Except.ok.inj hn)
    dsimp only at hlength
    change raw'.length = raw'.length - c.rest.length + d.payload.length + 32 at hlength
    have htotal := congrArg List.length hrest₀
    rw [hrest] at htotal
    simp only [List.length_append, length_start] at htotal
    simp only [lengthBytes, List.length_append, length_start, Bool.false_eq_true, if_false,
      List.length_nil, htail]
    omega
  · simp only [if_true, Check.andThen_eq_ok] at hn
    obtain ⟨⟨k, c₂⟩, hk, -, -, hn⟩ := hn
    obtain ⟨rfl, rfl⟩ := Prod.mk.inj (Except.ok.inj hn)
    obtain ⟨rfl, hlengthBytes⟩ := readNat_comparable (hs.fits h).2 hk (comparable_append hinput)
    dsimp only at hlength
    have htotal := congrArg List.length hrest₀
    rw [hrest, hlengthBytes] at htotal
    simp only [List.length_append, length_start, Wire.length_bigEndian] at htotal
    simp only [lengthBytes, List.length_append, length_start, if_true, Wire.length_bigEndian, htail]
    omega

end Lengths

/-- A valid delivery has an envelope of either kind, which is read back as the
delivery with its minute in UTC; the header reader gives its header and the size
of its payload; and neither reader accepts a strict start or a continuation. -/
theorem envelope_round_trip (hz : z.RoundTrips) {d : Delivery} (hd : validate sha256 d = .ok ())
    (compress : Bool) :
    ∃ raw, marshal sha256 z d compress = .ok raw ∧ Unmarshal sha256 z raw = .ok d.inUTC ∧
      readHeader sha256 (d.name sha256) raw = .ok d.candidate ∧
      ∀ raw', raw' ≠ raw → raw' <+: raw ∨ raw <+: raw' →
        (∀ d', Unmarshal sha256 z raw' ≠ .ok d') ∧
          ∀ base candidate, readHeader sha256 base raw' ≠ .ok candidate := by
  obtain ⟨raw, hraw⟩ := marshal_of_valid (z := z) (validate_eq_ok.1 hd) compress
  obtain ⟨h, compressed, stored, hs, rfl⟩ := marshal_eq_ok hraw
  have htail : (sha256 (envelope d compressed stored)).toList.length = 32 := Vector.length_toList
  refine ⟨_, hraw, unmarshal_envelope hz h hs, readHeader_envelope hz h hs htail, ?_⟩
  intro raw' hne hcomparable
  constructor
  · intro d' haccepted
    exact hne (eq_of_comparable hcomparable (unmarshal_length h hs htail hcomparable haccepted))
  · intro base candidate haccepted
    exact hne (eq_of_comparable hcomparable (readHeader_length h hs htail hcomparable haccepted))

/-! The second minute of 1970, as a clock one hour east of Greenwich shows it. -/

def sample (sha256 : List UInt8 → Vector UInt8 32) : Delivery where
  database := [109, 97, 114, 107, 101, 116]
  kind := [98, 111, 111, 107]
  id := [98, 58, 49]
  service := [99, 109, 105]
  generation := 1
  minute := ⟨60000000000, 3600⟩
  digest := sha256 [1, 2, 3]
  members := 1
  codec := 1
  payload := [1, 2, 3]
  minute_unix := by decide

theorem sample_valid (sha256 : List UInt8 → Vector UInt8 32) :
    validate sha256 (sample sha256) = .ok () := by
  rw [validate_eq_ok]
  constructor
  case digest => rfl
  all_goals simp only [sample]
  all_goals decide

/-- Payloads behind a header byte, as they are. -/
def unpacked : Zlib where
  deflate p := 120 :: p
  inflate n a :=
    match a with
    | 120 :: p => .ok (p.take n, p.length - n)
    | _ => .error "zlib: invalid header"

theorem unpacked_roundTrips : unpacked.RoundTrips := by
  constructor
  · intro p
    show Except.ok (p.take (p.length + 1), p.length - (p.length + 1)) = _
    rw [List.take_of_length_le (Nat.le_succ _), Nat.sub_eq_zero_of_le (Nat.le_succ _)]
  · intro p
    exact List.cons_ne_nil _ _

/-- A digest for runs on fixed deliveries, which no law looks into. -/
def noDigest : List UInt8 → Vector UInt8 32 := fun _ => Vector.replicate 32 0

/-- The minute of a delivery is not given back in its own location. -/
theorem unmarshal_loses_location :
    validate noDigest (sample noDigest) = .ok () ∧ ∃ raw, Marshal noDigest unpacked (sample noDigest) = .ok raw ∧
      Unmarshal noDigest unpacked raw ≠ .ok (sample noDigest) := by
  have hvalid := validate_eq_ok.1 (sample_valid noDigest)
  obtain ⟨raw, hraw⟩ := marshal_of_valid (z := unpacked) hvalid false
  refine ⟨sample_valid noDigest, raw, hraw, ?_⟩
  obtain ⟨h, compressed, stored, hs, rfl⟩ := marshal_eq_ok hraw
  rw [unmarshal_envelope unpacked_roundTrips h hs]
  intro hsame
  have hoffset := congrArg (fun d : Delivery => d.minute.offset) (Except.ok.inj hsame)
  change (0 : Int) = 3600 at hoffset
  omega

theorem sample_round_trip :
    ∃ raw, marshal noDigest unpacked (sample noDigest) true = .ok raw ∧
      Unmarshal noDigest unpacked raw = .ok (sample noDigest).inUTC ∧
      readHeader noDigest ((sample noDigest).name noDigest) raw = .ok (sample noDigest).candidate ∧
      ∀ raw', raw' ≠ raw → raw' <+: raw ∨ raw <+: raw' →
        (∀ d', Unmarshal noDigest unpacked raw' ≠ .ok d') ∧
          ∀ base candidate, readHeader noDigest base raw' ≠ .ok candidate :=
  envelope_round_trip unpacked_roundTrips (sample_valid noDigest) true

end MarketInfo.Spool
