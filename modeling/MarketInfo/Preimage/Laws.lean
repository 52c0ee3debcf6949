import MarketInfo.Preimage.Texts

/-! # Canonical rows are told apart

Every piece of an encoding says where it ends, so the walk over a row does, and two rows of
one type have the same bytes exactly if they count as one.
-/

namespace MarketInfo.Preimage

open Json (Text intText)
open Wire (bigEndian signedBytes ofBigEndian_bigEndian_of_lt)
open Keeper (civil)
open Framing (Exact Apart exact_of_length)

/-- A spelling whose pieces are exact. -/
structure Spelling.Exact (S : Spelling) (A : Alike) : Prop where
  time : Framing.Exact A.time S.time
  integer : Framing.Exact (· = ·) S.integer
  decimal : Framing.Exact A.decimal S.decimal
  text : Framing.Exact (· = ·) S.text
  bool : Framing.Exact (· = ·) S.bool
  uint : ∀ kind, Framing.Exact (· = ·) (S.uint kind)
  int : ∀ kind, Framing.Exact (· = ·) (S.int kind)
  pointer : Apart S.absent S.present
  count : ∀ kind, Framing.Exact (· = ·) (S.count kind)

/-- The walk puts exact pieces together, one case for each kind of type. -/
theorem Spelling.Exact.encode {S : Spelling} {A : Alike} (h : S.Exact A) (s : Shape) :
    Framing.Exact (A.same s) (S.encode s) := by
  induction s with
  | time => exact h.time
  | integer => exact h.integer
  | decimal => exact h.decimal
  | text => exact h.text
  | bool => exact h.bool
  | uint kind => exact h.uint kind
  | int kind => exact h.int kind
  | pointer elem ih => exact ih.optional h.pointer
  | list kind elem ih =>
      have hitems := ih.counted (h.count kind)
      exact hitems.comap _ (fun vs : Option (List elem.Val) => vs.getD []) fun _ _ => Iff.rfl
  | struct name fields ih => exact ih.mark (S.struct name)
  | none => exact Framing.exact_nothing
  | field name first rest ih ih' => exact (ih.mark (S.field name)).pair ih'

/-! ## Lengths and words -/

theorem bigEndian_inj {m n : Nat} (hm : m < 256 ^ 8) (hn : n < 256 ^ 8) (h :
    bigEndian 8 m = bigEndian 8 n) : m = n := by
  rw [← ofBigEndian_bigEndian_of_lt hm, h, ofBigEndian_bigEndian_of_lt hn]

theorem exact_length64 : Framing.Exact (· = ·) length64 := by
  refine exact_of_length (n := 8) ?_ ?_ ?_
  · intro n x hx
    obtain ⟨-, hx⟩ := Option.ite_none_right_eq_some.1 hx
    rw [← Option.some.inj hx, Wire.length_bigEndian]
  · intro m n x hm hn
    obtain ⟨hm', hm⟩ := Option.ite_none_right_eq_some.1 hm
    obtain ⟨hn', hn⟩ := Option.ite_none_right_eq_some.1 hn
    exact bigEndian_inj hm' hn' (Option.some.inj (hm.trans hn.symm))
  · rintro m n rfl
    rfl

theorem exact_framed : Framing.Exact (· = ·) framed := Framing.exact_framed exact_length64

theorem exact_uint64 : Framing.Exact (· = ·) fun n : UInt64 => some (bigEndian 8 n.toNat) := by
  refine exact_of_length (n := 8) ?_ ?_ ?_
  · intro n x hx
    rw [← Option.some.inj hx, Wire.length_bigEndian]
  · intro m n x hm hn
    have hm' := m.toNat_lt
    have hn' := n.toNat_lt
    exact UInt64.toNat_inj.1 (bigEndian_inj (by omega) (by omega) (Option.some.inj (hm.trans hn.symm)))
  · rintro m n rfl
    rfl

theorem signedBytes_inj {m n : Int} (hm : fits64 m) (hn : fits64 n) (h :
    signedBytes 8 m = signedBytes 8 n) : m = n := by
  have hback : ∀ {k : Int}, fits64 k → Wire.ofSignedBytes (signedBytes 8 k) = k := by
    rintro k ⟨hlo, hhi⟩
    exact Wire.ofSignedBytes_signedBytes (by omega) (by omega)
  rw [← hback hm, h, hback hn]

theorem exact_int64 : Framing.Exact (· = ·) fun n : Int64 => some (signedBytes 8 n.toInt) := by
  refine exact_of_length (n := 8) ?_ ?_ ?_
  · intro n x hx
    rw [← Option.some.inj hx, Wire.length_signedBytes]
  · intro m n x hm hn
    have hfits : ∀ k : Int64, fits64 k.toInt := fun k => ⟨k.le_toInt, k.toInt_lt⟩
    exact Int64.toInt_inj.1 (signedBytes_inj (hfits m) (hfits n) (Option.some.inj (hm.trans hn.symm)))
  · rintro m n rfl
    rfl

theorem exact_flag : Framing.Exact (· = ·) fun b => some (flag b) := by
  refine exact_of_length (n := 1) ?_ ?_ ?_
  · intro b x hx
    rw [← Option.some.inj hx]
    rfl
  · intro b c x hb hc
    have hsame := Option.some.inj (hb.trans hc.symm)
    revert hsame
    cases b <;> cases c <;> simp [flag]
  · rintro b c rfl
    rfl

theorem exact_micro :
    Framing.Exact (fun t t' => unixMicro t = unixMicro t')
      fun t => if fits64 (unixMicro t) then some (signedBytes 8 (unixMicro t)) else none := by
  refine exact_of_length (n := 8) ?_ ?_ ?_
  · intro t x hx
    obtain ⟨-, hx⟩ := Option.ite_none_right_eq_some.1 hx
    rw [← Option.some.inj hx, Wire.length_signedBytes]
  · intro t t' x ht ht'
    obtain ⟨hfits, ht⟩ := Option.ite_none_right_eq_some.1 ht
    obtain ⟨hfits', ht'⟩ := Option.ite_none_right_eq_some.1 ht'
    exact signedBytes_inj hfits hfits' (Option.some.inj (ht.trans ht'.symm))
  · intro t t' hsame
    rw [hsame]

/-- The bytes of a varint end with the first that is small. -/
theorem uvarint_inj (room : Nat) {m n : Nat} (hm : m < 128 ^ room) (hn : n < 128 ^ room) {r r' : Bytes}
    (h : Keeper.Events.uvarint room m ++ r = Keeper.Events.uvarint room n ++ r') : m = n ∧ r = r' := by
  induction room generalizing m n with
  | zero => exact ⟨by omega, h⟩
  | succ room ih =>
      rw [pow_succ] at hm hn
      have hbyte : ∀ k < 256, ∀ l < 256, UInt8.ofNat k = UInt8.ofNat l → k = l := by
        intro k hk l hl heq
        have hnat := congrArg UInt8.toNat heq
        simpa [Nat.mod_eq_of_lt hk, Nat.mod_eq_of_lt hl] using hnat
      unfold Keeper.Events.uvarint at h
      split at h
      · -- a byte below 128 is the last one
        split at h
        · obtain ⟨hhead, hrest⟩ := List.cons.inj h
          exact ⟨hbyte m (by omega) n (by omega) hhead, hrest⟩
        · have hhead := hbyte m (by omega) (n % 128 + 128) (by omega) (List.cons.inj h).1
          omega
      · split at h
        · have hhead := hbyte (m % 128 + 128) (by omega) n (by omega) (List.cons.inj h).1
          omega
        · obtain ⟨hhead, hrest⟩ := List.cons.inj h
          have hlow := hbyte (m % 128 + 128) (by omega) (n % 128 + 128) (by omega) hhead
          obtain ⟨hhigh, hrest⟩ := ih (by omega) (by omega) hrest
          exact ⟨by omega, hrest⟩

theorem exact_uvarint : Framing.Exact (· = ·) lengthUvarint where
  frames := by
    intro m n x y r r' hx hy heq
    obtain ⟨hm, hx⟩ := Option.ite_none_right_eq_some.1 hx
    obtain ⟨hn, hy⟩ := Option.ite_none_right_eq_some.1 hy
    rw [← Option.some.inj hx, ← Option.some.inj hy] at heq
    exact uvarint_inj 10 (by omega) (by omega) heq
  agrees := by
    rintro m n rfl
    rfl

theorem exact_factText : Framing.Exact (· = ·) factText := Framing.exact_framed exact_uvarint

theorem magnitude_inj {m n : Int} (h : Keeper.Events.magnitude m = Keeper.Events.magnitude n) :
    m.natAbs = n.natAbs := by
  have hbytes : ∀ k, ((Nat.digits 256 k).map UInt8.ofNat).map UInt8.toNat = Nat.digits 256 k := by
    intro k
    rw [List.map_map]
    refine (List.map_congr_left fun d hd => ?_).trans (List.map_id _)
    have hlt := Nat.digits_lt_base (b := 256) (by norm_num) hd
    simp [Nat.mod_eq_of_lt hlt]
  have hdigits := congrArg (List.map UInt8.toNat) (List.reverse_injective h)
  rw [hbytes, hbytes] at hdigits
  exact Nat.digits_inj_iff.1 hdigits

theorem exact_factInteger : Framing.Exact (· = ·) factInteger := by
  have hpair := exact_flag.pair exact_factText
  have hread := hpair.comap (· = ·) (fun n : Int => (decide (n < 0), Keeper.Events.magnitude n)) ?_
  · exact hread
  · intro m n
    constructor
    · rintro rfl
      exact ⟨rfl, rfl⟩
    · rintro ⟨hsign, hmagnitude⟩
      have habs := magnitude_inj hmagnitude
      have hsign : m < 0 ↔ n < 0 := by simpa using hsign
      omega

/-- Decimals of one value are cut off alike. -/
theorem shifted_eq {a b : Decimal} (h : a.value = b.value) : shifted a = shifted b := by
  have hscaled : ∀ {a b : Decimal}, a.value = b.value → a.exponent ≤ b.exponent → shifted a = shifted b := by
    intro a b h hle
    obtain ⟨n, he, hc⟩ := scale_of_value_eq h hle
    unfold shifted
    by_cases ha : -18 ≤ a.exponent
    · have hb : -18 ≤ b.exponent := ha.trans hle
      have hpow : (b.exponent + 18).toNat = n + (a.exponent + 18).toNat := by omega
      rw [if_pos ha, if_pos hb, hc, hpow, pow_add, mul_assoc]
    · -- the zeros of the longer one are cut off with the rest
      by_cases hb : -18 ≤ b.exponent
      · have hpow : n = (b.exponent + 18).toNat + (-18 - a.exponent).toNat := by omega
        rw [if_neg ha, if_pos hb, hc, hpow, pow_add, ← mul_assoc]
        exact Int.mul_tdiv_cancel _ (by positivity)
      · have hpow : (-18 - a.exponent).toNat = (-18 - b.exponent).toNat + n := by omega
        rw [if_neg ha, if_neg hb, hc, hpow, pow_add]
        exact Int.mul_tdiv_mul_of_pos_left _ _ (by positivity)
  rcases le_total a.exponent b.exponent with hle | hle
  · exact hscaled h hle
  · exact (hscaled h.symm hle).symm

theorem exact_factDecimal : Framing.Exact (fun a b => a.value = b.value) factDecimal where
  frames := by
    intro a b x y r r' hx hy heq
    obtain ⟨ha, hx⟩ := Option.ite_none_right_eq_some.1 hx
    obtain ⟨hb, hy⟩ := Option.ite_none_right_eq_some.1 hy
    obtain ⟨hsame, hrest⟩ := exact_factInteger.frames _ _ x y r r' hx hy heq
    exact ⟨by rw [← ha, ← hb, hsame], hrest⟩
  agrees := by
    intro a b hsame
    unfold factDecimal
    rw [shifted_eq hsame, hsame]

/-! ## Texts as bytes -/

def Ascii (s : Text) : Prop := ∀ c ∈ s, c.toNat < 256

theorem ascii_append {s t : Text} (hs : Ascii s) (ht : Ascii t) : Ascii (s ++ t) := by
  intro c hc
  rcases List.mem_append.1 hc with h | h
  · exact hs c h
  · exact ht c h

theorem ascii_cons {c : Char} {s : Text} (hc : c.toNat < 256) (hs : Ascii s) : Ascii (c :: s) := by
  intro d hd
  rcases List.mem_cons.1 hd with rfl | h
  · exact hc
  · exact hs d h

theorem ascii_nil : Ascii [] := nofun

theorem ascii_digits {s : Text} (h : AllDigits s) : Ascii s := by
  intro c hc
  have hle := (Char.isDigit_iff_toNat.1 (h c hc)).2
  exact lt_of_le_of_lt hle (by decide)

theorem ascii_sign (p : Prop) [Decidable p] : Ascii (if p then ['-'] else []) := by
  split
  · exact ascii_cons (by decide) ascii_nil
  · exact ascii_nil

theorem digits_toDigits (n : Nat) : AllDigits (Nat.toDigits 10 n) := fun _ hc =>
  Nat.isDigit_of_mem_toDigits (by norm_num) (by norm_num) hc

theorem ascii_inj {s t : Text} (hs : Ascii s) (ht : Ascii t) (h : ascii s = ascii t) : s = t := by
  have hback : ∀ {s : Text}, Ascii s → (ascii s).map (fun b => Char.ofNat b.toNat) = s := by
    intro s hs
    unfold ascii
    rw [List.map_map]
    refine (List.map_congr_left fun c hc => ?_).trans (List.map_id s)
    have hlt := hs c hc
    simp [Nat.mod_eq_of_lt hlt, Char.ofNat_toNat]
  rw [← hback hs, h, hback ht]

/-- Values that are written as texts. -/
theorem exact_text {α : Type} {same : α → α → Prop} {f : α → Text} (hf : ∀ a, Ascii (f a))
    (hsame : ∀ a b, same a b ↔ f a = f b) : Framing.Exact same fun a => framedText (f a) := by
  refine exact_framed.comap same (fun a => ascii (f a)) fun a b => ?_
  rw [hsame]
  constructor
  · intro h
    rw [h]
  · intro h
    exact ascii_inj (hf a) (hf b) h

theorem ascii_intText (n : Int) : Ascii (intText n) := by
  unfold intText
  split
  · exact ascii_cons (by decide) (ascii_digits (digits_toDigits _))
  · exact ascii_digits (digits_toDigits _)

theorem stops_nil : Json.Stops [] := fun c hc => by cases hc

theorem intText_eq_iff (m n : Int) : m = n ↔ intText m = intText n := by
  constructor
  · rintro rfl
    rfl
  · intro h
    have happend : intText m ++ [] = intText n ++ [] := by rw [h]
    exact (Json.intText_inj stops_nil stops_nil happend).1

theorem toDigits_eq_iff (m n : Nat) : m = n ↔ Nat.toDigits 10 m = Nat.toDigits 10 n := by
  constructor
  · rintro rfl
    rfl
  · intro h
    rw [← Nat.ofDigitChars_ten_toDigits (n := m), h, Nat.ofDigitChars_ten_toDigits]

theorem ascii_fraction (n : Nat) : Ascii (fraction n) := by
  unfold fraction
  dsimp only
  split
  · exact ascii_nil
  · exact ascii_cons (by decide) (ascii_digits (digits_trim (digits_padded 9 n)))

theorem ascii_rfc3339Nano (t : Int) : Ascii (rfc3339Nano t) := by
  have hnumber : ∀ w n, Ascii (padded w n) := fun w n => ascii_digits (digits_padded w n)
  unfold rfc3339Nano
  dsimp only
  refine ascii_append (ascii_append (ascii_sign _) (hnumber 4 _)) (ascii_cons (by decide) ?_)
  refine ascii_append (hnumber 2 _) (ascii_cons (by decide) (ascii_append (hnumber 2 _) (ascii_cons (by decide) ?_)))
  refine ascii_append (hnumber 2 _) (ascii_cons (by decide) (ascii_append (hnumber 2 _) (ascii_cons (by decide) ?_)))
  exact ascii_append (hnumber 2 _) (ascii_append (ascii_fraction _) (ascii_cons (by decide) ascii_nil))

theorem ascii_stringFixed (d : Decimal) : Ascii d.stringFixed := by
  have hall := Decimal.digits_padded d.scaled.natAbs
  unfold Decimal.stringFixed
  refine ascii_append (ascii_append (ascii_sign _) (ascii_digits fun c hc => hall c (List.mem_of_mem_take hc)))
    (ascii_cons (by decide) (ascii_digits fun c hc => hall c (List.mem_of_mem_drop hc)))

theorem ascii_decimalString (d : Decimal) : Ascii (decimalString d) := by
  obtain ⟨whole, tail, hwhole, htail, hs, -⟩ := decimalString_parts d
  rw [hs]
  refine ascii_append (ascii_sign _) (ascii_append (ascii_digits hwhole) ?_)
  split
  · exact ascii_nil
  · exact ascii_cons (by decide) (ascii_digits htail)

/-- A value behind a tag that all of its kind have. -/
theorem exact_tagged {α : Type} {same : α → α → Prop} {enc : α → Option Bytes} (h :
    Framing.Exact same enc) (tag : Text) :
    Framing.Exact same fun a => Framing.pair framedText enc (tag, a) := by
  rcases htag : framedText tag with _ | mark
  · have hnone : ∀ a, Framing.pair framedText enc (tag, a) = none := fun a => by simp [Framing.pair, htag]
    refine ⟨fun a b x y r r' hx => ?_, fun a b _ => ?_⟩
    · rw [hnone] at hx
      cases hx
    · rw [hnone, hnone]
  · have hmark : (fun a => Framing.pair framedText enc (tag, a)) = fun a => (enc a).map (mark ++ ·) := by
      funext a
      simp [Framing.pair, htag]
    rw [hmark]
    exact h.mark mark

/-! ## The four encoders -/

/-- The keeper tells instants apart to a microsecond, and so does `CanonicalHash`. -/
def microAlike : Alike := ⟨fun t t' => unixMicro t = unixMicro t', fun a b => a.value = b.value⟩

/-- `Encoding` tells all instants apart, and decimals to 18 places. -/
def nanoAlike : Alike := ⟨(· = ·), fun a b => a.scaled = b.scaled⟩

theorem apart_flags : Apart ([0] : Bytes) [1] := by
  intro r r' h
  cases (List.cons.inj h).1

theorem exact_factSpelling : factSpelling.Exact microAlike where
  time := exact_micro
  integer := exact_factInteger
  decimal := exact_factDecimal
  text := exact_factText
  bool := exact_flag
  uint := fun _ => exact_uint64
  int := fun _ => exact_int64
  pointer := apart_flags
  count := fun _ => exact_length64

theorem rfc3339Nano_eq_iff (t t' : Int) : t = t' ↔ rfc3339Nano t = rfc3339Nano t' := by
  constructor
  · rintro rfl
    rfl
  · exact rfc3339Nano_inj

theorem exact_encodingSpelling : encodingSpelling.Exact nanoAlike where
  time := exact_text ascii_rfc3339Nano rfc3339Nano_eq_iff
  integer := exact_text ascii_intText intText_eq_iff
  decimal := exact_text ascii_stringFixed stringFixed_eq_iff
  text := exact_framed
  bool := exact_flag
  uint := fun _ => exact_uint64
  int := fun _ => exact_int64
  pointer := apart_flags
  count := fun _ => exact_length64

theorem exact_reserveSpelling : { encodingSpelling with decimal := fun _ => none }.Exact nanoAlike where
  time := exact_encodingSpelling.time
  integer := exact_encodingSpelling.integer
  decimal := ⟨nofun, fun _ _ _ => rfl⟩
  text := exact_framed
  bool := exact_flag
  uint := fun _ => exact_uint64
  int := fun _ => exact_int64
  pointer := exact_encodingSpelling.pointer
  count := fun _ => exact_length64

theorem exact_framedFlag : Framing.Exact (· = ·) fun b => framed (flag b) := by
  refine exact_framed.comap (· = ·) flag fun b c => ?_
  cases b <;> cases c <;> simp [flag]

theorem exact_canonicalSpelling : canonicalSpelling.Exact microAlike where
  time := exact_tagged (exact_text (fun t => ascii_intText (unixMicro t)) fun t t' => intText_eq_iff _ _) "time".toList
  integer := exact_tagged (exact_text ascii_intText intText_eq_iff) "integer".toList
  decimal := exact_tagged (exact_text ascii_decimalString decimalString_eq_iff) "decimal".toList
  text := exact_tagged exact_framed "string".toList
  bool := exact_tagged exact_framedFlag "bool".toList
  uint := fun kind => exact_tagged (exact_text (fun n : UInt64 => ascii_digits (digits_toDigits n.toNat)) fun m n => by
    rw [← toDigits_eq_iff, UInt64.toNat_inj]) kind
  int := fun kind => exact_tagged (exact_text (fun n : Int64 => ascii_intText n.toInt) fun m n => by
    rw [← intText_eq_iff, Int64.toInt_inj]) kind
  pointer := by
    intro r r' h
    have hhead := congrArg (List.take 8) h
    revert hhead
    simp [canonicalSpelling, framedText, framed, Framing.framed, length64, ascii, Wire.bigEndian]
  count := fun kind => exact_tagged (exact_text (fun n => ascii_digits (digits_toDigits n)) toDigits_eq_iff) kind

/-- Rows of one type have the same bytes exactly if they count as one, and are then refused
together, if they are. -/
def TellsApart (enc : (s : Shape) → s.Val → Option Bytes) (A : Alike) : Prop :=
  ∀ (s : Shape) (v w : s.Val),
    (∀ x y, enc s v = some x → enc s w = some y → (x = y ↔ A.same s v w)) ∧ (A.same s v w → enc s v = enc s w)

theorem tellsApart_of_exact {enc : (s : Shape) → s.Val → Option Bytes} {A : Alike}
    (h : ∀ s, Framing.Exact (A.same s) (enc s)) : TellsApart enc A := by
  intro s v w
  constructor
  · intro x y hx hy
    exact (h s).eq_iff hx hy
  · intro hsame
    exact (h s).agrees v w hsame

/-- What is the same row counts as one, and so does a nil list and an empty one. -/
theorem canonical_bytes_exact :
    TellsApart FactBytes microAlike ∧ TellsApart Encoding nanoAlike ∧ TellsApart reserveEncoding nanoAlike ∧
      TellsApart canonicalPreimage microAlike := by
  refine ⟨tellsApart_of_exact fun s => ?_, tellsApart_of_exact fun s => ?_, tellsApart_of_exact fun s => ?_,
    tellsApart_of_exact fun s => ?_⟩
  · exact (exact_factSpelling.encode s).mark _
  · exact exact_encodingSpelling.encode s
  · exact exact_reserveSpelling.encode s
  · exact exact_canonicalSpelling.encode s

/-- The same instant, and decimals of one value. -/
def instantAlike : Alike := ⟨(· = ·), fun a b => a.value = b.value⟩

/-- Two instants of one microsecond are one to the keeper. -/
theorem canonical_bytes_not_instants :
    ¬ (TellsApart FactBytes instantAlike ∧ TellsApart Encoding instantAlike ∧
    TellsApart reserveEncoding instantAlike ∧
      TellsApart canonicalPreimage instantAlike) := by
  intro h
  have hsome : ∃ x, FactBytes .time (0 : Int) = some x := Option.isSome_iff_exists.1 (by decide +kernel)
  obtain ⟨x, hx⟩ := hsome
  have hx' : FactBytes .time (1 : Int) = some x := hx ▸ by decide +kernel
  have hsame : (0 : Int) = 1 := ((h.1 .time (0 : Int) (1 : Int)).1 x x hx hx').1 rfl
  exact absurd hsame (by decide)

end MarketInfo.Preimage
