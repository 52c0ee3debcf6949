import MarketInfo.Keeper.Events
import MarketInfo.Discovery.CapitalVersions

/-! # The round trip of events

What the two readers of events produce is of one shape, `Readable`, and a row of that shape
is what its indexed form reads as.
-/

namespace MarketInfo.Keeper.Events

open Json (Text)
open Discovery (hexText)

/-! ## Values -/

theorem hexDigit_digitChar {n : Nat} (h : n < 16) : hexDigit (Nat.digitChar n) = some n := by
  interval_cases n <;> rfl

theorem decodeHex_hexText (b : Bytes) : decodeHex (hexText b) = some b := by
  induction b with
  | nil => rfl
  | cons x b ih =>
      have hx := x.toNat_lt
      have hjoin : 16 * (x.toNat / 16) + x.toNat % 16 = x.toNat := Nat.div_add_mod x.toNat 16
      unfold hexText at ih ⊢
      rw [List.flatMap_cons, List.cons_append, List.cons_append, List.nil_append]
      simp only [decodeHex, hexDigit_digitChar (show x.toNat / 16 < 16 by omega),
        hexDigit_digitChar (show x.toNat % 16 < 16 by omega), ih, hjoin, Option.pure_def,
        Option.bind_eq_bind, Option.bind_some, UInt8.ofNat_toNat]

/-- A digest, or the empty string that a malformed one leaves. -/
def IsDigest (b : Bytes) : Prop := b = [] ∨ b.length = 32

theorem isDigest_orEmpty (s : Text) : IsDigest (orEmpty (BinaryHex s 32)) := by
  unfold BinaryHex
  split
  · split
    · right
      assumption
    · exact .inl rfl
  · exact .inl rfl

theorem orEmpty_hexText {b : Bytes} (h : IsDigest b) : orEmpty (BinaryHex (hexText b) 32) = b := by
  rw [BinaryHex, decodeHex_hexText]
  rcases h with rfl | h
  · rfl
  · simp only [h, if_true, orEmpty]

/-- A TRON address of 21 bytes. -/
def IsAddress (a : Bytes) : Prop := ∃ rest : Bytes, rest.length = 20 ∧ a = 0x41 :: rest

theorem isAddress_of_hexAddress {s : Text} {a : Bytes} (h : HexAddress s = .ok a) : IsAddress a := by
  unfold HexAddress at h
  split at h
  · rename_i b hb
    split at h
    · rename_i hlength
      obtain rfl := Except.ok.inj h
      obtain ⟨x, rest, rfl⟩ := List.exists_cons_of_length_eq_add_one hlength.1
      refine ⟨rest, by simpa using hlength.1, ?_⟩
      rw [Option.some.inj hlength.2]
    · cases h
  · cases h

theorem isAddress_of_address {s : Text} {a : Bytes} (h : Address s = .ok a) : IsAddress a := by
  unfold Address at h
  split_ifs at h <;> exact isAddress_of_hexAddress h

theorem isAddress_of_wordAddress {s : Text} {a : Bytes} (h : WordAddress s = .ok a) : IsAddress a := by
  unfold WordAddress at h
  split at h
  · rename_i b hb
    split at h
    · rename_i hb
      obtain rfl := Except.ok.inj h
      exact ⟨b.drop 12, by rw [List.length_drop, hb.1], rfl⟩
    · cases h
  · cases h

theorem utf8Size_digitChar {n : Nat} (h : n < 16) : (Nat.digitChar n).utf8Size = 1 := by
  interval_cases n <;> rfl

theorem byteLength_hexText (b : Bytes) : byteLength (hexText b) = 2 * b.length := by
  induction b with
  | nil => rfl
  | cons x b ih =>
      have hx := x.toNat_lt
      unfold byteLength hexText at ih ⊢
      rw [List.flatMap_cons, List.cons_append, List.cons_append, List.nil_append, List.map_cons,
        List.map_cons, List.sum_cons, List.sum_cons, ih, List.length_cons,
        utf8Size_digitChar (show x.toNat / 16 < 16 by omega),
        utf8Size_digitChar (show x.toNat % 16 < 16 by omega)]
      ring

theorem address_hexText {rest : Bytes} (h : rest.length = 20) :
    Address ('0' :: 'x' :: hexText rest) = .ok (0x41 :: rest) := by
  have hlength : byteLength ('0' :: 'x' :: hexText rest) = 42 := by
    change 1 + (1 + byteLength (hexText rest)) = 42
    rw [byteLength_hexText, h]
  have hdecode : decodeHex ('4' :: '1' :: hexText rest) = some (0x41 :: rest) :=
    decodeHex_hexText (0x41 :: rest)
  rw [Address, if_pos ⟨hlength, rfl⟩, List.drop_succ_cons, List.drop_succ_cons, List.drop_zero,
    HexAddress, hdecode]
  simp [h]

/-- An amount that fits in 256 bits. -/
def IsAmount (n : Option Int) : Prop := ∃ k : Nat, k < 2 ^ 256 ∧ n = some (k : Int)

theorem mem_digits (n : Nat) : Nat.toDigits 10 n ∈ digits.matches' := by
  rw [digits, RegularExpression.matches'_add, Language.mem_add]
  rcases Nat.eq_zero_or_pos n with rfl | hpos
  · exact .inl rfl
  · right
    obtain ⟨c, rest, hdigits, hc⟩ := Json.head_toDigits_pos hpos
    rw [hdigits, Pattern.mem_mul]
    refine ⟨[c], Pattern.mem_oneOf.2 ⟨c, hc, rfl⟩, rest, Pattern.mem_star_digit.2 ?_, rfl⟩
    intro d hd
    exact Nat.isDigit_of_mem_toDigits (by norm_num) (by norm_num)
      (hdigits ▸ List.mem_cons_of_mem c hd : d ∈ Nat.toDigits 10 n)

theorem Uint_intText {n : Nat} (h : n < 2 ^ 256) : Uint (.quoted (Json.intText n)) = .ok n := by
  have htext : Json.intText n = Nat.toDigits 10 n := by
    rw [Json.intText, if_neg (by omega), Int.natAbs_natCast]
  have hvalue : setString (Nat.toDigits 10 n) = some (n : Int) := by
    rw [setString_digits Nat.toDigits_ne_nil fun c hc =>
      Nat.isDigit_of_mem_toDigits (by norm_num) (by norm_num) hc, Nat.ofDigitChars_ten_toDigits]
  rw [Uint, RawMessage.content, htext,
    if_pos ((RegularExpression.rmatch_iff_matches' _ _).2 (mem_digits n)), hvalue]
  simp only [Int.natAbs_natCast, if_neg (not_le.2 h)]

/-- Digits alone spell no negative number. -/
theorem nonneg_of_digits {s : Text} {n : Int} (hs : digits.rmatch s = true) (h : setString s = some n) :
    0 ≤ n := by
  have hmem : s ∈ digits.matches' := (RegularExpression.rmatch_iff_matches' _ _).1 hs
  have hdigits : AllDigits s ∧ s ≠ [] := by
    rw [digits, RegularExpression.matches'_add, Language.mem_add] at hmem
    rcases hmem with hmem | hmem
    · rw [Pattern.mem_char.1 hmem]
      exact ⟨by simp [AllDigits], by simp⟩
    · rw [Pattern.mem_mul] at hmem
      obtain ⟨a, ha, b, hb, rfl⟩ := hmem
      obtain ⟨c, hc, rfl⟩ := Pattern.mem_oneOf.1 ha
      rw [List.singleton_append]
      refine ⟨fun d hd => ?_, by simp⟩
      rcases List.mem_cons.1 hd with rfl | hd
      · fin_cases hc <;> rfl
      · exact Pattern.mem_star_digit.1 hb d hd
  rw [setString_digits hdigits.2 hdigits.1] at h
  rw [← Option.some.inj h]
  exact Int.natCast_nonneg _

theorem isAmount_of_Uint {b : RawMessage} {n : Int} (h : Uint b = .ok n) : IsAmount (some n) := by
  unfold Uint at h
  split at h
  · rename_i hdigits
    split at h
    · rename_i k hk
      have hnonneg := nonneg_of_digits hdigits hk
      split at h
      · cases h
      · obtain rfl := Except.ok.inj h
        exact ⟨k.natAbs, by omega, by rw [Int.natAbs_of_nonneg hnonneg]⟩
    · cases h
  · cases h

theorem isAmount_of_Num {m : Result} {k : String} {n : Int} (h : Num m k = .ok n) :
    IsAmount (some n) := by
  unfold Num at h
  split at h
  · cases h
  · exact isAmount_of_Uint h

theorem isAmount_word (data : Bytes) (i : Nat) : IsAmount (some (word data i)) := by
  refine ⟨_, ?_, rfl⟩
  calc Wire.ofBigEndian ((data.drop (32 * i)).take 32)
      < 256 ^ ((data.drop (32 * i)).take 32).length := Wire.ofBigEndian_lt _
    _ ≤ 256 ^ 32 := Nat.pow_le_pow_right (by norm_num) (List.length_take_le _ _)
    _ = 2 ^ 256 := by norm_num

/-! ## The shape of a row -/

/-- The fields of its kind are there and the others are not. -/
inductive Kind (r : RentalEvent) : Prop
  | liquidate (kind : r.EventKind = "liquidate")
      (liquidator : ∃ a, IsAddress a ∧ r.Liquidator = some a)
      (usage : IsAmount r.UsageRentalSun) (reward : IsAmount r.RewardSun) (back : IsAmount r.SendBackSun)
      (rest : r.AddedAmountSun = none ∧ r.AddedDepositSun = none ∧ r.ReturnedAmountSun = none ∧
        r.ReturnedDepositSun = none)
      (plain : r.AbiRevision = baseRevision ∧ r.SecurityDepositSun = none ∧ r.RentIndex = none)
  | rent (kind : r.EventKind = "rent")
      (added : IsAmount r.AddedAmountSun) (deposit : IsAmount r.AddedDepositSun)
      (rest : r.Liquidator = none ∧ r.UsageRentalSun = none ∧ r.RewardSun = none ∧
        r.SendBackSun = none ∧ r.ReturnedAmountSun = none ∧ r.ReturnedDepositSun = none)
  | returned (kind : r.EventKind = "return")
      (returned : IsAmount r.ReturnedAmountSun) (deposit : IsAmount r.ReturnedDepositSun)
      (usage : IsAmount r.UsageRentalSun)
      (rest : r.Liquidator = none ∧ r.RewardSun = none ∧ r.SendBackSun = none ∧
        r.AddedAmountSun = none ∧ r.AddedDepositSun = none)

/-- Both fields of the second revision, or neither. -/
def Extension (r : RentalEvent) : Prop :=
  (r.AbiRevision = baseRevision ∧ r.SecurityDepositSun = none ∧ r.RentIndex = none) ∨
    (r.AbiRevision = seedRevision ∧ IsAmount r.SecurityDepositSun ∧ IsAmount r.RentIndex)

/-- A row that its indexed form spells in full. -/
structure Readable (r : RentalEvent) : Prop where
  resource : r.ResourceType = 1
  contract : r.ContractAddress = Events.contract
  time : ∃ ms, r.BlockTime = UTC (ofUnixMilli ms)
  tx : IsDigest r.TxId
  payload : IsDigest r.PayloadHash
  renter : IsAddress r.Renter
  receiver : IsAddress r.Receiver
  amount : IsAmount r.AmountSun
  kind : Kind r
  extension : Extension r

/-! ## From a row to its indexed form and back -/

@[simp] theorem set_same (m : Result) (k : String) (s : Text) : set m k s k = some (.quoted s) :=
  Function.update_self k _ m

@[simp] theorem set_of_ne {m : Result} {k k' : String} {s : Text} (h : k' ≠ k) : set m k s k' = m k' :=
  Function.update_of_ne h _ m

theorem Num_of_set {m : Result} {k : String} {n : Nat} (h : m k = some (.quoted (Json.intText n)))
    (hn : n < 2 ^ 256) : Num m k = .ok (n : Int) := by
  rw [Num, h]
  exact Uint_intText hn

theorem readAddress_of_set {m : Result} {k : String} {rest : Bytes}
    (h : m k = some (.quoted ('0' :: 'x' :: hexText rest))) (hrest : rest.length = 20) :
    readAddress m k = .ok (0x41 :: rest) := by
  rw [readAddress, text, h]
  exact address_hexText hrest

theorem unixMilli_ofUnixMilli (ms : Int) : (UTC (ofUnixMilli ms)).unixMilli = ms := by
  simp only [UTC, ofUnixMilli, Time.utc, Time.truncate, Time.unixMilli, Time.zero, Time.zeroUnix,
    Time.millisecond, Time.microsecond, Time.second]
  omega

/-- The indexed form of a row around the fields of its kind. -/
def rawOf (r : RentalEvent) (name : String) (m : Result) : RawEvent where
  BlockNumber := r.BlockNumber
  BlockTimestamp := r.BlockTime.unixMilli
  ContractAddress := ContractBase58
  Index := r.ProviderEventIndex
  Name := name
  Result := m
  Transaction := hexText r.TxId
  Evidence := {
    Source := "trongrid", Started := r.RequestStartedAt, Available := r.AvailableAt,
    ResponseHash := hexText r.PayloadHash }

/-- The fields that every kind has. -/
def commonFields (renter receiver : Bytes) (amount : Nat) : Result :=
  set (set (set (set (fun _ => none) "renter" ('0' :: 'x' :: hexText renter))
    "receiver" ('0' :: 'x' :: hexText receiver)) "resourceType" ['1']) "amount" (Json.intText amount)

theorem rawFromRow_eq {r : RentalEvent} {renter receiver : Bytes} {amount : Nat} {name : String} {m : Result}
    (hrenter : r.Renter = 0x41 :: renter) (hreceiver : r.Receiver = 0x41 :: receiver)
    (hamount : r.AmountSun = some (amount : Int))
    (hkind : rawKind r (rawExtended r (commonFields renter receiver amount)) = some (name, m)) :
    RawFromRow r = some (rawOf r name m) := by
  have hkind' := hkind
  unfold commonFields at hkind'
  simp only [RawFromRow, hrenter, hreceiver, hamount, addressText, amountText, Option.bind_eq_bind,
    Option.bind_some, hkind', Option.pure_def]
  rfl

/-- The row before its kind is read. -/
def commonRow (r : RentalEvent) : RentalEvent where
  ResourceType := r.ResourceType
  Finality := "solid"
  ContractAddress := r.ContractAddress
  BlockNumber := r.BlockNumber
  BlockTime := r.BlockTime
  TxId := r.TxId
  ProviderEventIndex := r.ProviderEventIndex
  AbiRevision := baseRevision
  PositionStatus := "indexed_only"
  Renter := r.Renter
  Receiver := r.Receiver
  AmountSun := r.AmountSun
  RequestStartedAt := r.RequestStartedAt
  AvailableAt := r.AvailableAt
  PayloadHash := r.PayloadHash

/-- The row as the indexed form has it. -/
def indexed (r : RentalEvent) : RentalEvent :=
  { r with Finality := "solid", PositionStatus := "indexed_only" }

/-- The row before its extension is read. -/
def plainRow (r : RentalEvent) : RentalEvent :=
  { indexed r with AbiRevision := baseRevision, SecurityDepositSun := none, RentIndex := none }

/-- The keys that are written before those of a kind. -/
def firstKeys : List String :=
  ["renter", "receiver", "resourceType", "amount", "securityDeposit", "rentIndex"]

theorem readKind_rawKind {r : RentalEvent} (h : Kind r) (m : Result) :
    ∃ name m', rawKind r m = some (name, m') ∧ readKind (rawOf r name m') (commonRow r) = .ok (plainRow r) ∧
      (∀ k ∈ firstKeys, m' k = m k) ∧ (name = "Liquidate" → r.SecurityDepositSun = none ∧ r.RentIndex = none) := by
  cases h with
  | liquidate kind liquidator usage reward back rest plain =>
      obtain ⟨a, ⟨liq, hliq, rfl⟩, hliquidator⟩ := liquidator
      obtain ⟨u, hu, husage⟩ := usage
      obtain ⟨w, hw, hreward⟩ := reward
      obtain ⟨b, hb, hback⟩ := back
      obtain ⟨m', hm'⟩ : ∃ m', m' = set (set (set (set m "liquidator" ('0' :: 'x' :: hexText liq)) "usageRental"
        (Json.intText u)) "liquidateFee" (Json.intText w)) "sendBack" (Json.intText b) := ⟨_, rfl⟩
      have haddress : readAddress m' "liquidator" = .ok (0x41 :: liq) :=
        readAddress_of_set (by simp [hm']) hliq
      have hfirst : Num m' "usageRental" = .ok (u : Int) := Num_of_set (by simp [hm']) hu
      have hsecond : Num m' "liquidateFee" = .ok (w : Int) := Num_of_set (by simp [hm']) hw
      have hthird : Num m' "sendBack" = .ok (b : Int) := Num_of_set (by simp [hm']) hb
      refine ⟨"Liquidate", m', ?_, ?_, by simp [hm', firstKeys], fun _ => plain.2⟩
      · simp [rawKind, kind, hliquidator, addressText, husage, hreward, hback, amountText, hm']
      · simp only [readKind, rawOf, haddress, hfirst, hsecond, hthird, bind, Except.bind, pure, Except.pure]
        simp only [plainRow, indexed, commonRow, kind, hliquidator, husage, hreward, hback, rest]
  | rent kind added deposit rest =>
      obtain ⟨u, hu, hadded⟩ := added
      obtain ⟨w, hw, hdeposit⟩ := deposit
      obtain ⟨m', hm'⟩ : ∃ m', m' = set (set m "addedAmount" (Json.intText u)) "addedSecurityDeposit"
        (Json.intText w) := ⟨_, rfl⟩
      have hfirst : Num m' "addedAmount" = .ok (u : Int) := Num_of_set (by simp [hm']) hu
      have hsecond : Num m' "addedSecurityDeposit" = .ok (w : Int) := Num_of_set (by simp [hm']) hw
      refine ⟨"RentResource", m', ?_, ?_, by simp [hm', firstKeys], by simp⟩
      · simp [rawKind, kind, hadded, hdeposit, amountText, hm']
      · simp only [readKind, rawOf, hfirst, hsecond, bind, Except.bind, pure, Except.pure]
        simp only [plainRow, indexed, commonRow, kind, hadded, hdeposit, rest]
  | returned kind returned deposit usage rest =>
      obtain ⟨u, hu, hreturned⟩ := returned
      obtain ⟨w, hw, hdeposit⟩ := deposit
      obtain ⟨b, hb, husage⟩ := usage
      obtain ⟨m', hm'⟩ : ∃ m', m' = set (set (set m "subedAmount" (Json.intText u)) "subedSecurityDeposit"
        (Json.intText w)) "usageRental" (Json.intText b) := ⟨_, rfl⟩
      have hfirst : Num m' "subedAmount" = .ok (u : Int) := Num_of_set (by simp [hm']) hu
      have hsecond : Num m' "subedSecurityDeposit" = .ok (w : Int) := Num_of_set (by simp [hm']) hw
      have hthird : Num m' "usageRental" = .ok (b : Int) := Num_of_set (by simp [hm']) hb
      refine ⟨"ReturnResource", m', ?_, ?_, by simp [hm', firstKeys], by simp⟩
      · simp [rawKind, kind, hreturned, hdeposit, husage, amountText, hm']
      · simp only [readKind, rawOf, hfirst, hsecond, hthird, bind, Except.bind, pure, Except.pure]
        simp only [plainRow, indexed, commonRow, kind, hreturned, hdeposit, husage, rest]

theorem readExtended_rawExtended {r : RentalEvent} {name : String} {m m' : Result} (h : Extension r)
    (hplain : m "securityDeposit" = none ∧ m "rentIndex" = none)
    (hname : name = "Liquidate" → r.SecurityDepositSun = none ∧ r.RentIndex = none)
    (hdeposit : m' "securityDeposit" = rawExtended r m "securityDeposit")
    (hindex : m' "rentIndex" = rawExtended r m "rentIndex") :
    readExtended (rawOf r name m') (plainRow r) = .ok (indexed r) := by
  rcases h with ⟨hrevision, hnone⟩ | ⟨hrevision, ⟨d, hd, hsome⟩, ⟨i, hi, hsome'⟩⟩
  · -- the first revision writes neither of the two
    have hsame : plainRow r = indexed r := by simp only [plainRow, indexed, ← hrevision, hnone]
    simp only [rawExtended, hnone, ne_eq, not_true_eq_false, false_and, if_false] at hdeposit hindex
    simp only [readExtended, rawOf, hdeposit, hindex, hplain, hsame, Option.isSome_none, ne_eq,
      not_true_eq_false, if_false, Bool.false_eq_true, ite_self]
  · have hother : name ≠ "Liquidate" := fun heq => by
      rw [(hname heq).1] at hsome
      cases hsome
    have hwritten : rawExtended r m =
        set (set m "securityDeposit" (Json.intText d)) "rentIndex" (Json.intText i) := by
      simp [rawExtended, hsome, hsome', amountText]
    rw [hwritten] at hdeposit hindex
    rw [set_same] at hindex
    rw [set_of_ne (by decide), set_same] at hdeposit
    have hfirst : Num m' "securityDeposit" = .ok (d : Int) := Num_of_set hdeposit hd
    have hsecond : Num m' "rentIndex" = .ok (i : Int) := Num_of_set hindex hi
    rw [readExtended, if_neg (show ¬ (rawOf r name m').Name = "Liquidate" from hother)]
    simp only [rawOf, hdeposit, hindex, hfirst, hsecond, Option.isSome_some, ne_eq, not_true_eq_false,
      if_false, if_true, bind, Except.bind, pure, Except.pure]
    simp only [plainRow, indexed, hrevision, hsome, hsome']

theorem eventRow_rawFromRow {r : RentalEvent} (h : Readable r) :
    ∃ raw, RawFromRow r = some raw ∧ EventRow raw = .ok (indexed r) := by
  obtain ⟨renter, hrenterLength, hrenter⟩ := h.renter
  obtain ⟨receiver, hreceiverLength, hreceiver⟩ := h.receiver
  obtain ⟨amount, hrange, hamount⟩ := h.amount
  obtain ⟨ms, hms⟩ := h.time
  have hfields : ∀ k, k ∈ ["renter", "receiver", "resourceType", "amount"] →
      rawExtended r (commonFields renter receiver amount) k = commonFields renter receiver amount k := by
    intro k hk
    unfold rawExtended
    split
    · simp only [List.mem_cons, List.not_mem_nil, or_false] at hk
      rcases hk with rfl | rfl | rfl | rfl <;> simp
    · rfl
  obtain ⟨name, m, hkind, hread, hfirst, hname⟩ :=
    readKind_rawKind h.kind (rawExtended r (commonFields renter receiver amount))
  refine ⟨rawOf r name m, rawFromRow_eq hrenter hreceiver hamount hkind, ?_⟩
  have hresource : Num m "resourceType" = .ok ((1 : Nat) : Int) := by
    refine Num_of_set ?_ (by norm_num)
    rw [hfirst _ (by simp [firstKeys]), hfields _ (by simp)]
    simp [commonFields]
    rfl
  have hrenterRead : readAddress m "renter" = .ok r.Renter := by
    rw [hrenter]
    refine readAddress_of_set ?_ hrenterLength
    rw [hfirst _ (by simp [firstKeys]), hfields _ (by simp)]
    simp [commonFields]
  have hreceiverRead : readAddress m "receiver" = .ok r.Receiver := by
    rw [hreceiver]
    refine readAddress_of_set ?_ hreceiverLength
    rw [hfirst _ (by simp [firstKeys]), hfields _ (by simp)]
    simp [commonFields]
  have hamountRead : Num m "amount" = .ok (amount : Int) := by
    refine Num_of_set ?_ hrange
    rw [hfirst _ (by simp [firstKeys]), hfields _ (by simp)]
    simp [commonFields]
  have hcommon : { rowOf (rawOf r name m) with
      Renter := r.Renter, Receiver := r.Receiver, AmountSun := some (amount : Int) } = commonRow r := by
    simp only [rowOf, rawOf, commonRow, orEmpty_hexText h.tx, orEmpty_hexText h.payload, h.resource,
      h.contract, hms, hamount, unixMilli_ofUnixMilli]
  have hextended : readExtended (rawOf r name m) (plainRow r) = .ok (indexed r) := by
    exact readExtended_rawExtended h.extension ⟨by simp [commonFields], by simp [commonFields]⟩ hname
      (hfirst _ (by simp [firstKeys])) (hfirst _ (by simp [firstKeys]))
  simp only [EventRow, show (rawOf r name m).Result = m from rfl, hresource, hrenterRead, hreceiverRead,
    hamountRead, bind, Except.bind, Check.failIf, hcommon]
  rw [if_neg (by simp)]
  simp only [hread]
  exact hextended

/-! ## What the readers produce -/

theorem isAddress_of_readAddress {m : Result} {k : String} {a : Bytes} (h : readAddress m k = .ok a) :
    IsAddress a := by
  obtain ⟨s, -, hs⟩ := Check.andThen_eq_ok.1 h
  exact isAddress_of_address hs

/-- The columns that neither the kind nor the extension sets are those of the first row. -/
def SameFrame (r back : RentalEvent) : Prop :=
  back = { back with
    ResourceType := r.ResourceType, Finality := r.Finality, ContractAddress := r.ContractAddress,
    BlockNumber := r.BlockNumber, BlockTime := r.BlockTime, TxId := r.TxId,
    ProviderEventIndex := r.ProviderEventIndex, PositionStatus := r.PositionStatus, Renter := r.Renter,
    Receiver := r.Receiver, RequestStartedAt := r.RequestStartedAt,
    AvailableAt := r.AvailableAt, PayloadHash := r.PayloadHash }

theorem readable_of_frame {r back : RentalEvent} (hframe : SameFrame r back) (hresource : r.ResourceType = 1)
    (hcontract : r.ContractAddress = contract) (htime : ∃ ms, r.BlockTime = UTC (ofUnixMilli ms))
    (htx : IsDigest r.TxId) (hpayload : IsDigest r.PayloadHash) (hrenter : IsAddress r.Renter)
    (hreceiver : IsAddress r.Receiver) (hamount : IsAmount back.AmountSun) (hkind : Kind back)
    (hextension : Extension back) : Readable back where
  resource := (congrArg RentalEvent.ResourceType hframe).trans hresource
  contract := (congrArg RentalEvent.ContractAddress hframe).trans hcontract
  time := htime.imp fun ms hms => (congrArg RentalEvent.BlockTime hframe).trans hms
  tx := by
    rw [congrArg RentalEvent.TxId hframe]
    exact htx
  payload := by
    rw [congrArg RentalEvent.PayloadHash hframe]
    exact hpayload
  renter := by
    rw [congrArg RentalEvent.Renter hframe]
    exact hrenter
  receiver := by
    rw [congrArg RentalEvent.Receiver hframe]
    exact hreceiver
  amount := hamount
  kind := hkind
  extension := hextension

theorem readExtended_cases {raw : RawEvent} {out back : RentalEvent} (h : readExtended raw out = .ok back) :
    back = out ∨ raw.Name ≠ "Liquidate" ∧ ∃ d i, IsAmount (some d) ∧ IsAmount (some i) ∧
      back = { out with AbiRevision := seedRevision, SecurityDepositSun := some d, RentIndex := some i } := by
  unfold readExtended at h
  split_ifs at h with hname hboth hdeposit
  · exact .inl (Except.ok.inj h).symm
  · right
    obtain ⟨d, hd, h⟩ := Check.andThen_eq_ok.1 h
    obtain ⟨i, hi, h⟩ := Check.andThen_eq_ok.1 h
    exact ⟨hname, d, i, isAmount_of_Num hd, isAmount_of_Num hi, (Except.ok.inj h).symm⟩
  · exact .inl (Except.ok.inj h).symm

theorem readable_of_eventRow {raw : RawEvent} {r : RentalEvent} (h : EventRow raw = .ok r) :
    Readable r ∧ indexed r = r := by
  obtain ⟨resource, -, h⟩ := Check.andThen_eq_ok.1 h
  obtain ⟨-, -, h⟩ := Check.andThen_eq_ok.1 h
  obtain ⟨renter, hrenter, h⟩ := Check.andThen_eq_ok.1 h
  obtain ⟨receiver, hreceiver, h⟩ := Check.andThen_eq_ok.1 h
  obtain ⟨amount, hamount, h⟩ := Check.andThen_eq_ok.1 h
  obtain ⟨out, hkind, hextended⟩ := Check.andThen_eq_ok.1 h
  have hreadable : ∀ back, SameFrame { rowOf raw with Renter := renter, Receiver := receiver } back →
      IsAmount back.AmountSun → Kind back → Extension back → Readable back := fun back hframe =>
    readable_of_frame hframe rfl rfl ⟨_, rfl⟩ (isDigest_orEmpty _) (isDigest_orEmpty _)
      (isAddress_of_readAddress hrenter) (isAddress_of_readAddress hreceiver)
  have hnum := isAmount_of_Num hamount
  unfold readKind at hkind
  split at hkind
  · rename_i hname
    simp only [Check.andThen_eq_ok, pure, Except.pure, Except.ok.injEq] at hkind
    obtain ⟨liquidator, hliquidator, usage, husage, reward, hreward, back, hback, rfl⟩ := hkind
    rcases readExtended_cases hextended with rfl | ⟨hother, -⟩
    · refine ⟨hreadable _ rfl hnum (.liquidate rfl ⟨liquidator, isAddress_of_readAddress hliquidator, rfl⟩
        (isAmount_of_Num husage) (isAmount_of_Num hreward) (isAmount_of_Num hback) ⟨rfl, rfl, rfl, rfl⟩
        ⟨rfl, rfl, rfl⟩) (.inl ⟨rfl, rfl, rfl⟩), rfl⟩
    · exact absurd hname hother
  · simp only [Check.andThen_eq_ok, pure, Except.pure, Except.ok.injEq] at hkind
    obtain ⟨added, hadded, deposit, hdeposit, rfl⟩ := hkind
    rcases readExtended_cases hextended with rfl | ⟨-, d, i, hd, hi, rfl⟩
    · exact ⟨hreadable _ rfl hnum (.rent rfl (isAmount_of_Num hadded) (isAmount_of_Num hdeposit)
        ⟨rfl, rfl, rfl, rfl, rfl, rfl⟩) (.inl ⟨rfl, rfl, rfl⟩), rfl⟩
    · exact ⟨hreadable _ rfl hnum (.rent rfl (isAmount_of_Num hadded) (isAmount_of_Num hdeposit)
        ⟨rfl, rfl, rfl, rfl, rfl, rfl⟩) (.inr ⟨rfl, hd, hi⟩), rfl⟩
  · simp only [Check.andThen_eq_ok, pure, Except.pure, Except.ok.injEq] at hkind
    obtain ⟨returned, hreturned, deposit, hdeposit, usage, husage, rfl⟩ := hkind
    rcases readExtended_cases hextended with rfl | ⟨-, d, i, hd, hi, rfl⟩
    · exact ⟨hreadable _ rfl hnum (.returned rfl (isAmount_of_Num hreturned) (isAmount_of_Num hdeposit)
        (isAmount_of_Num husage) ⟨rfl, rfl, rfl, rfl, rfl⟩) (.inl ⟨rfl, rfl, rfl⟩), rfl⟩
    · exact ⟨hreadable _ rfl hnum (.returned rfl (isAmount_of_Num hreturned) (isAmount_of_Num hdeposit)
        (isAmount_of_Num husage) ⟨rfl, rfl, rfl, rfl, rfl⟩) (.inr ⟨rfl, hd, hi⟩), rfl⟩
  · cases hkind

/-! ## Logs -/

section Logs

variable (Topic : String → Bytes)

/-- Only the two that have an extended signature are recognised as extended. -/
theorem recognise_cases (t : Bytes) :
    recognise Topic t ∈ [("", false), ("Liquidate", false), ("RentResource", false),
      ("ReturnResource", false), ("RentResource", true), ("ReturnResource", true)] := by
  simp only [recognise, signatures, extendedSignatures, List.foldl_cons, List.foldl_nil]
  split_ifs <;> simp

/-- Where a log stands. -/
structure BlockPosition where
  BlockNumber : UInt64
  BlockTimestamp : Int
  TxId : Bytes
  Index : UInt32

/-- The row of a log at its position. -/
def placed (r : RentalEvent) (p : BlockPosition) : RentalEvent :=
  { r with
    BlockNumber := p.BlockNumber, BlockTime := UTC (ofUnixMilli p.BlockTimestamp), TxId := p.TxId,
    ProviderEventIndex := p.Index }

theorem liquidator_of_decode {l : Log} {liquidator : Option Bytes}
    (h : decodeLiquidator "Liquidate" l = .ok liquidator) : ∃ a, IsAddress a ∧ liquidator = some a := by
  rw [decodeLiquidator, if_pos rfl] at h
  rcases hword : WordAddress (topic l 1) with err | a
  · rw [hword] at h
    cases h
  · rw [hword] at h
    exact ⟨a, isAddress_of_wordAddress hword, (Except.ok.inj h).symm⟩

theorem readable_of_decodeLog {l : Log} {r : RentalEvent} (p : BlockPosition) (hp : p.TxId.length = 32)
    (h : DecodeLog Topic l = .ok r) : Readable (placed r p) := by
  obtain ⟨-, -, h⟩ := Check.andThen_eq_ok.1 h
  obtain ⟨t, -, h⟩ := Check.andThen_eq_ok.1 h
  have hcases := recognise_cases Topic t
  obtain ⟨⟨name, extended⟩, hfound⟩ : ∃ found, recognise Topic t = found := ⟨_, rfl⟩
  rw [hfound] at h hcases
  obtain ⟨_, hname, h⟩ := Check.andThen_eq_ok.1 h
  obtain ⟨-, -, h⟩ := Check.andThen_eq_ok.1 h
  obtain ⟨data, -, h⟩ := Check.andThen_eq_ok.1 h
  obtain ⟨-, -, h⟩ := Check.andThen_eq_ok.1 h
  obtain ⟨liquidator, hliquidator, h⟩ := Check.andThen_eq_ok.1 h
  obtain ⟨renter, hrenter, h⟩ := Check.andThen_eq_ok.1 h
  obtain ⟨receiver, hreceiver, h⟩ := Check.andThen_eq_ok.1 h
  have hback := Except.ok.inj h
  have hword : ∀ i, IsAmount (some (word data i)) := isAmount_word data
  have hreadable : ∀ back, SameFrame { placed { ResourceType := 1, ContractAddress := contract } p with
      Renter := renter, Receiver := receiver } back →
      IsAmount back.AmountSun → Kind back → Extension back → Readable back := fun back hframe =>
    readable_of_frame hframe rfl rfl ⟨_, rfl⟩ (.inr hp) (.inl rfl)
      (isAddress_of_wordAddress hrenter) (isAddress_of_wordAddress hreceiver)
  simp only [List.mem_cons, Prod.mk.injEq, List.not_mem_nil, or_false] at hcases
  rcases hcases with ⟨rfl, rfl⟩ | ⟨rfl, rfl⟩ | ⟨rfl, rfl⟩ | ⟨rfl, rfl⟩ | ⟨rfl, rfl⟩ | ⟨rfl, rfl⟩
  · exact absurd rfl (Check.failIf_eq_ok.1 hname)
  · subst hback
    obtain ⟨a, ha, rfl⟩ := liquidator_of_decode hliquidator
    exact hreadable _ rfl (hword _) (.liquidate rfl ⟨a, ha, rfl⟩ (hword _) (hword _) (hword _)
      ⟨rfl, rfl, rfl, rfl⟩ ⟨rfl, rfl, rfl⟩) (.inl ⟨rfl, rfl, rfl⟩)
  · subst hback
    obtain rfl : none = liquidator := Except.ok.inj hliquidator
    exact hreadable _ rfl (hword _) (.rent rfl (hword _) (hword _) ⟨rfl, rfl, rfl, rfl, rfl, rfl⟩)
      (.inl ⟨rfl, rfl, rfl⟩)
  · subst hback
    obtain rfl : none = liquidator := Except.ok.inj hliquidator
    exact hreadable _ rfl (hword _) (.returned rfl (hword _) (hword _) (hword _) ⟨rfl, rfl, rfl, rfl, rfl⟩)
      (.inl ⟨rfl, rfl, rfl⟩)
  · subst hback
    obtain rfl : none = liquidator := Except.ok.inj hliquidator
    exact hreadable _ rfl (hword _) (.rent rfl (hword _) (hword _) ⟨rfl, rfl, rfl, rfl, rfl, rfl⟩)
      (.inr ⟨rfl, hword _, hword _⟩)
  · subst hback
    obtain rfl : none = liquidator := Except.ok.inj hliquidator
    exact hreadable _ rfl (hword _) (.returned rfl (hword _) (hword _) (hword _) ⟨rfl, rfl, rfl, rfl, rfl⟩)
      (.inr ⟨rfl, hword _, hword _⟩)

end Logs

/-! ## The round trip -/

/-- The indexed form of the row reads as a row that is the same in every column but those two
that an indexed row has fixed, and `EventEqual` says so too. -/
def RoundTrips (r : RentalEvent) : Prop :=
  ∃ raw back, RawFromRow r = some raw ∧ EventRow raw = .ok back ∧
    back = { r with Finality := "solid", PositionStatus := "indexed_only" } ∧ EventEqual r back = true

theorem roundTrips_of_readable {r : RentalEvent} (h : Readable r) : RoundTrips r := by
  obtain ⟨raw, hraw, hback⟩ := eventRow_rawFromRow h
  exact ⟨raw, indexed r, hraw, hback, rfl, decide_eq_true rfl⟩

/-- Every row that a provider's event or a contract log becomes survives its indexed form. -/
theorem EventRow_RawFromRow (Topic : String → Bytes) :
    (∀ raw r, EventRow raw = .ok r → RoundTrips r ∧ indexed r = r) ∧
      ∀ l r p, DecodeLog Topic l = .ok r → p.TxId.length = 32 → RoundTrips (placed r p) := by
  constructor
  · intro raw r h
    obtain ⟨hreadable, hsame⟩ := readable_of_eventRow h
    exact ⟨roundTrips_of_readable hreadable, hsame⟩
  · intro l r p h hp
    exact roundTrips_of_readable (readable_of_decodeLog Topic p hp h)

/-! Keccak on the signatures. -/

def signatureTopic (s : String) : Bytes :=
  if s = "Liquidate(address,address,address,uint256,uint256,uint256,uint256,uint256)" then
    orEmpty (BinaryHex "b0dbe18c6ffdf0da655dd690e77211d379205c497be44c64447c3f5f021b5167".toList 32)
  else if s = "RentResource(address,address,uint256,uint256,uint256,uint256)" then
    orEmpty (BinaryHex "23a5a93ae252bbe6a35d225666689d1f0e0d326670eb0ff841e52968e3c76fbf".toList 32)
  else if s = "ReturnResource(address,address,uint256,uint256,uint256,uint256,uint256)" then
    orEmpty (BinaryHex "527a7eef0c64cf08b7987567ee2a858e7c11f7020624076a8d670a6b7dbd73ad".toList 32)
  else if s = "RentResource(address,address,uint256,uint256,uint256,uint256,uint256,uint256)" then
    orEmpty (BinaryHex "cbf7e7bd355ef86ba2c3d4f8c101abbec40074070c31fcb142bd713cd5409158".toList 32)
  else if s = "ReturnResource(address,address,uint256,uint256,uint256,uint256,uint256,uint256,uint256)" then
    orEmpty (BinaryHex "f7e21d5bf17851f93ab7bda7e390841620f59dfbe9d86add32824f33bd40d3f5".toList 32)
  else []

def rentRaw : RawEvent where
  BlockNumber := 80000000
  BlockTimestamp := 1760000000000
  ContractAddress := ContractBase58
  Index := 3
  Name := "RentResource"
  Result := fun k =>
    if k = "resourceType" then some (.quoted ['1'])
    else if k = "renter" then some (.quoted "0x1111111111111111111111111111111111111111".toList)
    else if k = "receiver" then some (.quoted "412222222222222222222222222222222222222222".toList)
    else if k = "amount" then some (.bare ['9', '0'])
    else if k = "addedAmount" then some (.quoted ['9', '0'])
    else if k = "addedSecurityDeposit" then some (.quoted ['7'])
    else none
  Transaction := List.replicate 64 'a'
  Evidence := { ResponseHash := List.replicate 64 'b' }

def liquidationLog : Log where
  Address := ContractHex.drop 2
  Topics :=
    ["b0dbe18c6ffdf0da655dd690e77211d379205c497be44c64447c3f5f021b5167".toList,
      List.replicate 24 '0' ++ List.replicate 40 '1', List.replicate 24 '0' ++ List.replicate 40 '2',
      List.replicate 24 '0' ++ List.replicate 40 '3']
  Data := List.replicate 64 'f' ++ List.replicate 63 '0' ++ ['1'] ++ List.replicate 192 'C'

def liquidationPosition : BlockPosition where
  BlockNumber := 80000000
  BlockTimestamp := 1760000000000
  TxId := List.replicate 32 7
  Index := 0

theorem isOk_rentRaw : (EventRow rentRaw).isOk = true := by decide +kernel

theorem isOk_liquidationLog : (DecodeLog signatureTopic liquidationLog).isOk = true := by decide +kernel

theorem exists_of_isOk {α : Type} {x : Except String α} (h : x.isOk = true) : ∃ a, x = .ok a := by
  cases x with
  | error err => cases h
  | ok a => exact ⟨a, rfl⟩

theorem EventRow_RawFromRow_rent_and_liquidation :
    (∃ r, EventRow rentRaw = .ok r ∧ RoundTrips r) ∧
      ∃ r, DecodeLog signatureTopic liquidationLog = .ok r ∧ RoundTrips (placed r liquidationPosition) := by
  obtain ⟨rent, hrent⟩ := exists_of_isOk isOk_rentRaw
  obtain ⟨liquidation, hliquidation⟩ := exists_of_isOk isOk_liquidationLog
  exact ⟨⟨rent, hrent, ((EventRow_RawFromRow signatureTopic).1 rentRaw rent hrent).1⟩, liquidation, hliquidation,
    (EventRow_RawFromRow signatureTopic).2 liquidationLog liquidation liquidationPosition hliquidation rfl⟩

end MarketInfo.Keeper.Events
