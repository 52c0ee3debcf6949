import MarketInfo.Discovery.CapitalVersions
import MarketInfo.Reserve.RowsExact
import MarketInfo.Reserve.Seal

/-! # What a seal binds

A sealed batch is checked alike in any order of its rows, as long as the keys they are sorted by
tell them apart, and no other rows pass under the same capture.
-/

namespace MarketInfo.Reserve

open Preimage
open Listing (sortBy sortBy_perm sortBy_eq_of_perm)

variable {sha256 : Bytes → Hash}

/-! ## Orders -/

theorem strLess_iff (a b : Bytes) : strLess a b = true ↔ a.map UInt8.toNat < b.map UInt8.toNat :=
  decide_eq_true_iff

theorem bytes_inj {a b : Bytes} (h : a.map UInt8.toNat = b.map UInt8.toNat) : a = b :=
  List.map_injective_iff.2 (fun _ _ => UInt8.toNat_inj.1) h

theorem string_injective : Function.Injective Hash.string := by
  intro h k heq
  exact Vector.toList_inj.1 (Discovery.hexText_injective (List.append_cancel_left heq))

/-- Two keys, one after the other. -/
theorem pairLess_iff {α κ ν : Type} [LinearOrder κ] [LinearOrder ν] (first : α → κ) (second : α → ν)
    {less : α → α → Bool}
    (hless : ∀ a b, less a b = true ↔ if first a ≠ first b then first a < first b else second a < second b)
    (a b : α) : less a b = true ↔ toLex (first a, second a) < toLex (first b, second b) := by
  rw [hless, Prod.Lex.toLex_lt_toLex]
  split
  · rename_i hne
    simp [hne]
  · rename_i heq
    rw [not_not] at heq
    simp [heq]

theorem logLess_iff (a b : Log) : logLess a b = true ↔
    toLex (a.anchor.number.toNat, a.index.toNat) < toLex (b.anchor.number.toNat, b.index.toNat) := by
  refine pairLess_iff (fun l : Log => l.anchor.number.toNat) (fun l => l.index.toNat) (fun a b => ?_) a b
  unfold logLess
  by_cases heq : a.anchor.number = b.anchor.number
  · simp [heq, UInt32.lt_iff_toNat_lt]
  · simp [heq, UInt64.toNat_inj, UInt64.lt_iff_toNat_lt]

theorem memberLess_iff (a b : Member) : memberLess a b = true ↔
    toLex (Hash.string a.block, Hash.string a.tx) < toLex (Hash.string b.block, Hash.string b.tx) := by
  refine pairLess_iff (fun m : Member => Hash.string m.block) (fun m => Hash.string m.tx) (fun a b => ?_) a b
  unfold memberLess
  by_cases heq : a.block = b.block
  · simp [heq]
  · simp [heq, string_injective.eq_iff]

theorem refLess_iff (a b : ReceiptRef) : refLess a b = true ↔
    toLex (a.blockHash.map UInt8.toNat, a.txHash.map UInt8.toNat) <
      toLex (b.blockHash.map UInt8.toNat, b.txHash.map UInt8.toNat) := by
  refine pairLess_iff (fun r : ReceiptRef => r.blockHash.map UInt8.toNat) (fun r => r.txHash.map UInt8.toNat)
    (fun a b => ?_) a b
  unfold refLess
  by_cases heq : a.blockHash = b.blockHash
  · simp [heq, strLess_iff]
  · have hne : a.blockHash.map UInt8.toNat ≠ b.blockHash.map UInt8.toNat := fun h => heq (bytes_inj h)
    rw [if_pos heq, if_pos hne, strLess_iff]

/-! ## Any order of the rows -/

/-- Rows that agree on the key they are sorted by are the same row, as far as it is hashed. -/
structure TiesAgree (b : Batch) : Prop where
  states : ∀ s ∈ b.states, ∀ s' ∈ b.states, s.folio = s'.folio → s = s'
  quotes : ∀ q ∈ b.quotes, ∀ q' ∈ b.quotes, q.quoteId = q'.quoteId → q = q'
  logs : ∀ l ∈ b.logs, ∀ l' ∈ b.logs, l.anchor.number = l'.anchor.number → l.index = l'.index → l = l'
  receipts : ∀ r ∈ b.receipts, ∀ r' ∈ b.receipts, r.anchor.hash = r'.anchor.hash → r.txHash = r'.txHash →
    r.member = r'.member

/-- The rows of a batch in another order, where the receipt data goes with its receipts. -/
structure Reordered (b b' : Batch) : Prop where
  capture : b'.capture = b.capture
  states : b'.states.Perm b.states
  quotes : b'.quotes.Perm b.quotes
  logs : b'.logs.Perm b.logs
  receipts : b'.receipts.Perm b.receipts
  data : b'.receiptData.length = b.receiptData.length
  pairs : (b'.receiptData.zip b'.receipts).Perm (b.receiptData.zip b.receipts)

variable {b b' : Batch}

theorem stateRow_reordered (hties : TiesAgree b) (h : Reordered b b') :
    stateRow b'.states = stateRow b.states := by
  have hsort := sortBy_eq_of_perm
    (fun s s' : State => strLess_iff s.folio s'.folio) h.states.symm fun s hs s' hs' heq =>
      hties.states s hs s' hs' (bytes_inj heq)
  unfold stateRow
  rw [hsort]

theorem quoteRow_reordered (hties : TiesAgree b) (h : Reordered b b') :
    quoteRow b'.quotes = quoteRow b.quotes := by
  have hsort := sortBy_eq_of_perm
    (fun q q' : Quote => strLess_iff q.quoteId q'.quoteId) h.quotes.symm fun q hq q' hq' heq =>
      hties.quotes q hq q' hq' (bytes_inj heq)
  unfold quoteRow
  rw [hsort]

theorem logRow_reordered (hties : TiesAgree b) (h : Reordered b b') : logRow b'.logs = logRow b.logs := by
  have hsort := sortBy_eq_of_perm logLess_iff h.logs.symm fun l hl l' hl' heq => by
    obtain ⟨hnumber, hindex⟩ := Prod.mk.inj (toLex.injective heq)
    exact hties.logs l hl l' hl' (UInt64.toNat_inj.1 hnumber) (UInt32.toNat_inj.1 hindex)
  unfold logRow
  rw [hsort]

theorem memberRow_reordered (hties : TiesAgree b) (h : Reordered b b') :
    memberRow b'.receipts = memberRow b.receipts := by
  have hsort := sortBy_eq_of_perm memberLess_iff (h.receipts.map Receipt.member).symm fun m hm m' hm' heq => by
    obtain ⟨hblock, htx⟩ := Prod.mk.inj (toLex.injective heq)
    obtain ⟨r, hr, rfl⟩ := List.mem_map.1 hm
    obtain ⟨r', hr', rfl⟩ := List.mem_map.1 hm'
    exact hties.receipts r hr r' hr' (string_injective hblock) (string_injective htx)
  unfold memberRow
  rw [hsort]

theorem receiptRefs_reordered (hties : TiesAgree b) (h : Reordered b b') :
    receiptRefs b'.receipts = receiptRefs b.receipts := by
  have hsort := sortBy_eq_of_perm refLess_iff (h.receipts.map Receipt.ref).symm fun m hm m' hm' heq => by
    obtain ⟨hblock, htx⟩ := Prod.mk.inj (toLex.injective heq)
    obtain ⟨r, hr, rfl⟩ := List.mem_map.1 hm
    obtain ⟨r', hr', rfl⟩ := List.mem_map.1 hm'
    have hmember := hties.receipts r hr r' hr' (Vector.toList_inj.1 (bytes_inj hblock))
      (Vector.toList_inj.1 (bytes_inj htx))
    simp only [Receipt.member, Member.mk.injEq] at hmember
    obtain ⟨-, hhash, htxHash, hreceipt, hcalldata⟩ := hmember
    simp only [Receipt.ref, hhash, htxHash, hreceipt, hcalldata]
  unfold receiptRefs
  rw [hsort]

theorem receiptDataContains_perm {d : ReceiptData} {r : Receipt} {wanted wanted' : List Log}
    (hmem : ∀ l ∈ wanted', l ∈ wanted) (h : ReceiptDataContains sha256 d r wanted = .ok ()) :
    ReceiptDataContains sha256 d r wanted' = .ok () := by
  unfold ReceiptDataContains at h ⊢
  rw [Check.seq_eq_ok, Check.checkAll_eq_ok] at h ⊢
  exact ⟨h.1, fun l hl => h.2 l (hmem l hl)⟩

theorem checkReceiptData_reordered (h : Reordered b b') (hcheck : checkReceiptData sha256 b = .ok ()) :
    checkReceiptData sha256 b' = .ok () := by
  unfold checkReceiptData at hcheck ⊢
  simp only [Check.seq_eq_ok, Check.failIf_eq_ok, Check.checkAll_eq_ok, not_not] at hcheck ⊢
  constructor
  · rw [h.data, h.receipts.length_eq]
    exact hcheck.1
  · intro p hp
    refine receiptDataContains_perm (fun l hl => ?_) (hcheck.2 p (h.pairs.mem_iff.1 hp))
    -- the same logs are of the transaction
    rw [logsOf, List.mem_filter] at hl ⊢
    exact ⟨h.logs.mem_iff.1 hl.1, hl.2⟩

/-- The checks of a batch, one after another. -/
theorem validate_iff : Validate sha256 b = .ok () ↔
    checkCapture b.capture = .ok () ∧ checkMembers sha256 b = .ok () ∧
      (∀ s ∈ b.states, checkState b.capture s = .ok ()) ∧ (∀ q ∈ b.quotes, checkQuote b.capture q = .ok ()) ∧
        ID sha256 _ (refRow (receiptRefs b.receipts)) = ID sha256 _ (refRow b.capture.receiptRefs) ∧
          (0 < b.receiptData.length → checkReceiptData sha256 b = .ok ()) ∧
            ∀ l ∈ b.logs, checkLog b.capture l = .ok () := by
  unfold Validate
  simp only [Check.seq_eq_ok, Check.checkAll_eq_ok, Check.failIf_eq_ok, not_not]
  by_cases hsome : 0 < b.receiptData.length
  · rw [if_pos hsome, Check.seq_eq_ok, Check.checkAll_eq_ok]
    simp [hsome]
  · rw [if_neg hsome, Check.checkAll_eq_ok]
    simp [hsome]

theorem checkMembers_reordered (hties : TiesAgree b) (h : Reordered b b')
    (hcheck : checkMembers sha256 b = .ok ()) : checkMembers sha256 b' = .ok () := by
  unfold checkMembers StateMembers QuoteMembers LogMembers ReceiptMembers at hcheck ⊢
  rw [h.capture, stateRow_reordered hties h, quoteRow_reordered hties h, logRow_reordered hties h,
    memberRow_reordered hties h, h.states.length_eq, h.quotes.length_eq, h.logs.length_eq, h.receipts.length_eq]
  exact hcheck

theorem validate_reordered (hties : TiesAgree b) (h : Reordered b b') (hvalid : Validate sha256 b = .ok ()) :
    Validate sha256 b' = .ok () := by
  rw [validate_iff] at hvalid ⊢
  obtain ⟨hcapture, hmembers, hstates, hquotes, hrefs, hdata, hlogs⟩ := hvalid
  have hchecked := checkMembers_reordered hties h hmembers
  rw [h.capture, receiptRefs_reordered hties h, h.data]
  refine ⟨hcapture, hchecked, ?_, ?_, hrefs, ?_, ?_⟩
  · intro s hs
    exact hstates s (h.states.mem_iff.1 hs)
  · intro q hq
    exact hquotes q (h.quotes.mem_iff.1 hq)
  · intro hsome
    exact checkReceiptData_reordered h (hdata hsome)
  · intro l hl
    exact hlogs l (h.logs.mem_iff.1 hl)

/-- A seal is made again of the rows in any order. -/
theorem seal_reordered {now : Int} {b₀ : Batch} (hsealed : Seal sha256 now b₀ = some b) (hties : TiesAgree b)
    (h : Reordered b b') : Seal sha256 now b' = some b' := by
  unfold Seal at hsealed ⊢
  simp only [Option.bind_eq_bind, Option.bind_eq_some_iff, Option.pure_def, Option.some_inj] at hsealed ⊢
  obtain ⟨states, hstates, quotes, hquotes, logs, hlogs, members, hmembers, rfl⟩ := hsealed
  have hstates' : StateMembers sha256 b'.states = some states := by
    unfold StateMembers
    rw [stateRow_reordered hties h]
    exact hstates
  have hquotes' : QuoteMembers sha256 b'.quotes = some quotes := by
    unfold QuoteMembers
    rw [quoteRow_reordered hties h]
    exact hquotes
  have hlogs' : LogMembers sha256 b'.logs = some logs := by
    unfold LogMembers
    rw [logRow_reordered hties h]
    exact hlogs
  have hmembers' : ReceiptMembers sha256 b'.receipts = some members := by
    unfold ReceiptMembers
    rw [memberRow_reordered hties h]
    exact hmembers
  refine ⟨states, hstates', quotes, hquotes', logs, hlogs', members, hmembers', ?_⟩
  rw [receiptRefs_reordered hties h, h.states.length_eq, h.quotes.length_eq, h.logs.length_eq,
    h.receipts.length_eq]
  obtain ⟨capture, states', quotes', logs', receipts', data'⟩ := b'
  have hcapture := h.capture
  dsimp only at hcapture
  subst hcapture
  rfl

/-! ## No other rows -/

/-- What is hashed for the checks of a batch. -/
def preimages (b : Batch) : List Bytes :=
  [reserveEncoding _ (stateRow b.states), reserveEncoding _ (quoteRow b.quotes),
    reserveEncoding _ (logRow b.logs), reserveEncoding _ (memberRow b.receipts)].reduceOption ++
    b.receiptData.filterMap fun d =>
      reserveEncoding receiptDataShape { d with dataHash := [], materializedAt := Time.zero.unixNano }.val

/-- No two of the texts that are hashed for the two batches collide. -/
def NoCollision (sha256 : Bytes → Hash) (b b' : Batch) : Prop :=
  Set.InjOn sha256 {x | x ∈ preimages b ∨ x ∈ preimages b'}

/-- The rows differ: a hashed field of one, or how many times one is there. Receipt data is held against
its own digest. -/
inductive Changed (b b' : Batch) : Prop
  | states : ¬ b'.states.Perm b.states → Changed b b'
  | quotes : ¬ b'.quotes.Perm b.quotes → Changed b b'
  | logs : ¬ b'.logs.Perm b.logs → Changed b b'
  | receipts : ¬ (b'.receipts.map Receipt.member).Perm (b.receipts.map Receipt.member) → Changed b b'
  | data {d d' : ReceiptData} : d ∈ b.receiptData → d' ∈ b'.receiptData → d'.dataHash = d.dataHash →
      { d' with materializedAt := d.materializedAt } ≠ d → Changed b b'

/-- Rows of one digest are the same rows. -/
theorem same_of_digest {s : Shape} {v w : s.Val} {x : Bytes} (hv : ID sha256 s v = some x)
    (hw : ID sha256 s w = some x) {texts : Set Bytes} (htells : Set.InjOn sha256 texts)
    (hmem : ∀ t, reserveEncoding s v = some t → t ∈ texts)
    (hmem' : ∀ t, reserveEncoding s w = some t → t ∈ texts) :
    nanoAlike.same s v w := by
  unfold ID at hv hw
  obtain ⟨t, ht, hx⟩ := Option.map_eq_some_iff.1 hv
  obtain ⟨t', ht', hx'⟩ := Option.map_eq_some_iff.1 hw
  have hhash : sha256 t = sha256 t' := Vector.toList_inj.1 (hx.trans hx'.symm)
  have htext := htells (hmem t ht) (hmem' t' ht') hhash
  exact ((exact_reserveSpelling.encode s).eq_iff ht ht').1 htext

/-- Sorted lists of one digest are of the same elements. -/
theorem perm_of_rows {α : Type} {elem : Shape} {val : α → elem.Val}
    (hval : ∀ a a', nanoAlike.same elem (val a) (val a') → a = a')
    {less : α → α → Bool} {as bs : List α}
    (h : nanoAlike.same (listShape elem) (some ((sortBy less as).map val)) (some ((sortBy less bs).map val))) :
    as.Perm bs := by
  have hsorted : sortBy less as = sortBy less bs := eq_of_all_map hval h
  have hleft := (sortBy_perm less as).symm
  rw [hsorted] at hleft
  exact hleft.trans (sortBy_perm less bs)

theorem checkMembers_digests (h : checkMembers sha256 b = .ok ()) :
    StateMembers sha256 b.states = some b.capture.stateMembers ∧
      QuoteMembers sha256 b.quotes = some b.capture.quoteMembers ∧
        LogMembers sha256 b.logs = some b.capture.logMembers ∧
          ReceiptMembers sha256 b.receipts = some b.capture.receiptMembers := by
  unfold checkMembers at h
  simp only [Check.failIf_eq_ok, not_or, not_not] at h
  obtain ⟨-, -, -, -, hstates, hquotes, hlogs, hreceipts⟩ := h
  exact ⟨hstates.symm, hquotes.symm, hlogs.symm, hreceipts.symm⟩

theorem dataHash_of_validate (hvalid : Validate sha256 b = .ok ()) {d : ReceiptData} (hd : d ∈ b.receiptData) :
    ReceiptDataHash sha256 d = some d.dataHash := by
  obtain ⟨-, -, -, -, -, hdata, -⟩ := validate_iff.1 hvalid
  have hcheck := hdata (List.length_pos_of_mem hd)
  unfold checkReceiptData at hcheck
  simp only [Check.seq_eq_ok, Check.failIf_eq_ok, Check.checkAll_eq_ok, not_not] at hcheck
  obtain ⟨hlength, hpairs⟩ := hcheck
  have hfst := List.map_fst_zip hlength.le
  rw [← hfst] at hd
  obtain ⟨p, hp, rfl⟩ := List.mem_map.1 hd
  have hcontains := hpairs p hp
  unfold ReceiptDataContains ValidateReceiptData at hcontains
  simp only [Check.seq_eq_ok, Check.failIf_eq_ok, not_or, not_not] at hcontains
  obtain ⟨⟨-, -, hdigest, -⟩, -⟩ := hcontains
  exact hdigest.2.1.symm

theorem mem_preimages_row {s : Shape} {v : s.Val} {rows : List (Option Bytes)} (h : reserveEncoding s v ∈ rows)
    {t : Bytes} (ht : reserveEncoding s v = some t) : t ∈ rows.reduceOption := by
  rw [List.reduceOption_mem_iff, ← ht]
  exact h

theorem preimages_rows (b : Batch) :
    (∀ t, reserveEncoding _ (stateRow b.states) = some t → t ∈ preimages b) ∧
      (∀ t, reserveEncoding _ (quoteRow b.quotes) = some t → t ∈ preimages b) ∧
        (∀ t, reserveEncoding _ (logRow b.logs) = some t → t ∈ preimages b) ∧
          (∀ t, reserveEncoding _ (memberRow b.receipts) = some t → t ∈ preimages b) ∧
            ∀ d ∈ b.receiptData, ∀ t, reserveEncoding receiptDataShape
              { d with dataHash := [], materializedAt := Time.zero.unixNano }.val = some t → t ∈ preimages b := by
  refine ⟨?_, ?_, ?_, ?_, ?_⟩
  · exact fun t ht => List.mem_append_left _ (mem_preimages_row (by simp) ht)
  · exact fun t ht => List.mem_append_left _ (mem_preimages_row (by simp) ht)
  · exact fun t ht => List.mem_append_left _ (mem_preimages_row (by simp) ht)
  · exact fun t ht => List.mem_append_left _ (mem_preimages_row (by simp) ht)
  · intro d hd t ht
    exact List.mem_append_right _ (List.mem_filterMap.2 ⟨d, hd, ht⟩)

/-- What passes under one capture is the same rows. -/
theorem not_changed (hvalid : Validate sha256 b = .ok ()) (hvalid' : Validate sha256 b' = .ok ())
    (hcapture : b'.capture = b.capture) (htells : NoCollision sha256 b b') : ¬ Changed b b' := by
  obtain ⟨-, hmembers, -⟩ := validate_iff.1 hvalid
  obtain ⟨-, hmembers', -⟩ := validate_iff.1 hvalid'
  obtain ⟨hstates, hquotes, hlogs, hreceipts⟩ := checkMembers_digests hmembers
  obtain ⟨hstates', hquotes', hlogs', hreceipts'⟩ := checkMembers_digests hmembers'
  rw [hcapture] at hstates' hquotes' hlogs' hreceipts'
  obtain ⟨hstate, hquote, hlog, hmember, hdatum⟩ := preimages_rows b
  obtain ⟨hstate', hquote', hlog', hmember', hdatum'⟩ := preimages_rows b'
  intro hchanged
  cases hchanged with
  | states hne =>
      have hsame := same_of_digest hstates' hstates htells (fun t ht => Or.inr (hstate' t ht)) fun t ht =>
        Or.inl (hstate t ht)
      exact hne (perm_of_rows (fun _ _ => State.same_iff.1) hsame)
  | quotes hne =>
      have hsame := same_of_digest hquotes' hquotes htells (fun t ht => Or.inr (hquote' t ht)) fun t ht =>
        Or.inl (hquote t ht)
      exact hne (perm_of_rows (fun _ _ => Quote.same_iff.1) hsame)
  | logs hne =>
      have hsame := same_of_digest hlogs' hlogs htells (fun t ht => Or.inr (hlog' t ht)) fun t ht =>
        Or.inl (hlog t ht)
      exact hne (perm_of_rows (fun _ _ => Log.same_iff.1) hsame)
  | receipts hne =>
      have hsame := same_of_digest hreceipts' hreceipts htells (fun t ht => Or.inr (hmember' t ht)) fun t ht =>
        Or.inl (hmember t ht)
      exact hne (perm_of_rows (fun _ _ => Member.same_iff.1) hsame)
  | @data d d' hd hd' hhash hne =>
      have hdigest := dataHash_of_validate hvalid hd
      have hdigest' := dataHash_of_validate hvalid' hd'
      rw [hhash] at hdigest'
      have hsame := ReceiptData.same_iff.1 (same_of_digest hdigest' hdigest htells
        (fun t ht => Or.inr (hdatum' d' hd' t ht)) fun t ht => Or.inl (hdatum d hd t ht))
      refine hne ?_
      -- all that is hashed is equal, and so is the digest
      cases d
      cases d'
      simp only [ReceiptData.mk.injEq] at hsame hhash ⊢
      simp only [hsame, hhash, and_self]

/-- A batch that was sealed and is valid is valid in any order of its rows, if these agree where they tie,
and sealed alike; and it is the only one of its capture. -/
theorem sealed_batch_binds {now : Int} {b₀ : Batch} (hsealed : Seal sha256 now b₀ = some b)
    (hvalid : Validate sha256 b = .ok ()) :
    (TiesAgree b → ∀ b', Reordered b b' → Validate sha256 b' = .ok () ∧ Seal sha256 now b' = some b') ∧
      ∀ b', b'.capture = b.capture → NoCollision sha256 b b' → Changed b b' → Validate sha256 b' ≠ .ok () := by
  constructor
  · intro hties b' h
    exact ⟨validate_reordered hties h hvalid, seal_reordered hsealed hties h⟩
  · intro b' hcapture htells hchanged hvalid'
    exact not_changed hvalid hvalid' hcapture htells hchanged

/-! Two states of a capture without a range of blocks. -/

def zeros (n : Nat) : Bytes := List.replicate n 0

/-- A number of 256 bits made of a text. -/
def checksum (text : Bytes) : Hash :=
  let n := text.foldl (fun n x => (n * 257 + x.toNat + 1) % 2 ^ 256) 0
  Vector.ofFn fun i => UInt8.ofNat (n / 256 ^ i.val)

def plainState (folio : UInt8) (reason : Bytes) : State :=
  { (default : State) with
    chainId := 1, manifestHash := zeros 32, captureId := zeros 32, batchId := zeros 32,
    blockHash := zeros 32, payloadHash := zeros 32, folio := folio :: zeros 19, reason := reason }

def batchOf (states : List State) : Batch where
  capture := { (default : Capture) with
    chainId := 1, manifestHash := zeros 32, captureId := zeros 32, batchId := zeros 32,
    payloadHash := zeros 32, planHash := zeros 32, fromHash := zeros 32, toHash := zeros 32,
    expectedStates := 2 }
  states := states
  quotes := []
  logs := []
  receipts := []
  receiptData := []

def sealedOf (states : List State) : Batch := (Seal checksum 1 (batchOf states)).getD (batchOf states)

theorem seal_sealedOf {states : List State} (h : (Seal checksum 1 (batchOf states)).isSome) :
    Seal checksum 1 (batchOf states) = some (sealedOf states) := by
  obtain ⟨b, hb⟩ := Option.isSome_iff_exists.1 h
  unfold sealedOf
  rw [hb]
  rfl

/-- The rows stay what they are. -/
theorem sealedOf_rows {states : List State} (h : (Seal checksum 1 (batchOf states)).isSome) :
    (sealedOf states).states = states ∧ (sealedOf states).quotes = [] ∧ (sealedOf states).logs = [] ∧
      (sealedOf states).receipts = [] := by
  have hsealed := seal_sealedOf h
  unfold Seal at hsealed
  simp only [Option.bind_eq_bind, Option.bind_eq_some_iff, Option.pure_def, Option.some_inj] at hsealed
  obtain ⟨_, _, _, _, _, _, _, _, hbatch⟩ := hsealed
  rw [← hbatch]
  exact ⟨rfl, rfl, rfl, rfl⟩

theorem sealed_batch_binds_twoStates :
    (∀ b', Reordered (sealedOf [plainState 1 [], plainState 0 []]) b' →
      Validate checksum b' = .ok () ∧ Seal checksum 1 b' = some b') ∧
      ∀ b', b'.capture = (sealedOf [plainState 1 [], plainState 0 []]).capture →
        NoCollision checksum (sealedOf [plainState 1 [], plainState 0 []]) b' →
          Changed (sealedOf [plainState 1 [], plainState 0 []]) b' → Validate checksum b' ≠ .ok () := by
  have hsome : (Seal checksum 1 (batchOf [plainState 1 [], plainState 0 []])).isSome := by decide +kernel
  obtain ⟨hstates, hquotes, hlogs, hreceipts⟩ := sealedOf_rows hsome
  have hboth := sealed_batch_binds (seal_sealedOf hsome) (by decide +kernel)
  have hfolio : (plainState 1 []).folio ≠ (plainState 0 []).folio := by decide
  refine ⟨hboth.1 ⟨?_, ?_, ?_, ?_⟩, hboth.2⟩
  · rw [hstates]
    intro s hs s' hs' heq
    simp only [List.mem_cons, List.not_mem_nil, or_false] at hs hs'
    rcases hs with rfl | rfl <;> rcases hs' with rfl | rfl
    · rfl
    · exact absurd heq hfolio
    · exact absurd heq.symm hfolio
    · rfl
  · rw [hquotes]
    exact fun _ hq => absurd hq List.not_mem_nil
  · rw [hlogs]
    exact fun _ hl => absurd hl List.not_mem_nil
  · rw [hreceipts]
    exact fun _ hr => absurd hr List.not_mem_nil

/-- Two states of one folio are sorted as they come. -/
theorem sealed_batch_binds_tie :
    ∃ b b', Seal checksum 1 (batchOf [plainState 0 [], plainState 0 [1]]) = some b ∧
      Validate checksum b = .ok () ∧ Reordered b b' ∧ NoCollision checksum b b' ∧
        Validate checksum b' = .error "member_digest_mismatch" := by
  have hsome : (Seal checksum 1 (batchOf [plainState 0 [], plainState 0 [1]])).isSome := by decide +kernel
  obtain ⟨hstates, -, -, -⟩ := sealedOf_rows hsome
  refine ⟨sealedOf [plainState 0 [], plainState 0 [1]],
    { sealedOf [plainState 0 [], plainState 0 [1]] with states := [plainState 0 [1], plainState 0 []] },
    seal_sealedOf hsome, by decide +kernel, ⟨rfl, ?_, .refl _, .refl _, .refl _, rfl, .refl _⟩, ?_,
    by decide +kernel⟩
  · rw [hstates]
    exact List.Perm.swap _ _ _
  · intro x hx y hy heq
    have htexts : ∀ x ∈ preimages (sealedOf [plainState 0 [], plainState 0 [1]]) ++
        preimages { sealedOf [plainState 0 [], plainState 0 [1]] with
          states := [plainState 0 [1], plainState 0 []] },
      ∀ y ∈ preimages (sealedOf [plainState 0 [], plainState 0 [1]]) ++
        preimages { sealedOf [plainState 0 [], plainState 0 [1]] with
          states := [plainState 0 [1], plainState 0 []] }, checksum x = checksum y → x = y := by
      decide +kernel
    exact htexts x (List.mem_append.2 hx) y (List.mem_append.2 hy) heq

end MarketInfo.Reserve
