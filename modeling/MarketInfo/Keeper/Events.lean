import MarketInfo.Lib.Wire
import MarketInfo.Discovery.Capital
import MarketInfo.Model.Decimal
import MarketInfo.Model.Time

/-! # Rental events

A rental event is read from the indexed form of a provider, from a contract log, and
back from a stored row, which is first put into the indexed form again.
-/

namespace MarketInfo.Keeper.Events

open Json (Text)
open Discovery (hexText)

/-- A Go string of bytes. -/
abbrev Bytes := List UInt8

/-! ## Hexadecimal -/

def hexDigit (c : Char) : Option Nat :=
  if '0' ≤ c ∧ c ≤ '9' then some (c.toNat - 48)
  else if 'a' ≤ c ∧ c ≤ 'f' then some (c.toNat - 87)
  else if 'A' ≤ c ∧ c ≤ 'F' then some (c.toNat - 55)
  else none

/-- `hex.DecodeString`. -/
def decodeHex : Text → Option Bytes
  | [] => some []
  | [_] => none
  | high :: low :: rest => do
      let x ← hexDigit high
      let y ← hexDigit low
      let b ← decodeHex rest
      return UInt8.ofNat (16 * x + y) :: b

def BinaryHex (s : Text) (n : Nat) : Except String Bytes :=
  match decodeHex s with
  | some b => if b.length = n then .ok b else .error "invalid_hex_length"
  | none => .error "invalid_hex_length"

def HexAddress (s : Text) : Except String Bytes :=
  match decodeHex s with
  | some b =>
      if b.length = 21 ∧ b.head? = some 0x41 then .ok b else .error "invalid_tron_hex_address"
  | none => .error "invalid_tron_hex_address"

/-- `len` of the text as a Go string. -/
def byteLength (s : Text) : Nat := (s.map Char.utf8Size).sum

def Address (s : Text) : Except String Bytes :=
  if byteLength s = 42 ∧ s.take 2 = ['0', 'x'] then HexAddress ('4' :: '1' :: s.drop 2)
  else if byteLength s = 42 then HexAddress s
  else if byteLength s = 40 then HexAddress ('4' :: '1' :: s)
  else .error "invalid_address"

def WordAddress (s : Text) : Except String Bytes :=
  match decodeHex s with
  | some b =>
      if b.length = 32 ∧ b.take 12 = List.replicate 12 0 then .ok (0x41 :: b.drop 12)
      else .error "invalid_abi_address"
  | none => .error "invalid_abi_address"

/-- What is left of a value whose error is dropped. -/
def orEmpty : Except String Bytes → Bytes
  | .ok b => b
  | .error _ => []

/-! ## Values of the indexed form -/

/-- A `json.RawMessage`: a string, by what it decodes to, or another value, by its text. -/
inductive RawMessage
  | quoted (s : Text)
  | bare (s : Text)

def RawMessage.content : RawMessage → Text
  | .quoted s => s
  | .bare s => s

abbrev Result := String → Option RawMessage

/-- A bare value as the decoder names it. -/
def kindName : Text → String
  | 't' :: _ => "bool"
  | 'f' :: _ => "bool"
  | '[' :: _ => "array"
  | '\x7b' :: _ => "object"
  | _ => "number"

/-- `text`. A null leaves the string as it was, empty. -/
def text (m : Result) (k : String) : Except String Text :=
  match m k with
  | none => .error ("missing_" ++ k)
  | some (.quoted s) => .ok s
  | some (.bare s) =>
      if s = ['n', 'u', 'l', 'l'] then .ok []
      else .error ("json: cannot unmarshal " ++ kindName s ++ " into Go value of type string")

/-- `^(0|[1-9][0-9]*)$` -/
def digits : RegularExpression Char :=
  .char '0' + Pattern.oneOf ['1', '2', '3', '4', '5', '6', '7', '8', '9'] * Pattern.digit.star

def Uint (b : RawMessage) : Except String Int :=
  if digits.rmatch b.content then
    match setString b.content with
    | some n => if 2 ^ 256 ≤ n.natAbs then .error "uint256_overflow" else .ok n
    | none => .error "uint256_overflow"
  else .error "invalid_unsigned_integer"

def Num (m : Result) (k : String) : Except String Int :=
  match m k with
  | none => .error ("missing_" ++ k)
  | some b => Uint b

/-! ## Rows -/

structure Evidence where
  Source : String := ""
  Started : Time := Time.zero
  Available : Time := Time.zero
  ResponseHash : Text := []

structure RawEvent where
  BlockNumber : UInt64
  BlockTimestamp : Int
  ContractAddress : String
  Index : UInt32
  Name : String
  Result : Events.Result
  Transaction : Text
  Evidence : Events.Evidence

/-- The columns of a rental event that the readers set. -/
structure RentalEvent where
  ContractAddress : Bytes := []
  BlockNumber : UInt64 := 0
  BlockTime : Time := Time.zero
  Finality : String := ""
  TxId : Bytes := []
  ProviderEventIndex : UInt32 := 0
  PositionStatus : String := ""
  AbiRevision : String := ""
  EventKind : String := ""
  Renter : Bytes := []
  Receiver : Bytes := []
  ResourceType : UInt8 := 0
  Liquidator : Option Bytes := none
  AmountSun : Option Int := none
  AddedAmountSun : Option Int := none
  AddedDepositSun : Option Int := none
  ReturnedAmountSun : Option Int := none
  ReturnedDepositSun : Option Int := none
  UsageRentalSun : Option Int := none
  RewardSun : Option Int := none
  SendBackSun : Option Int := none
  SecurityDepositSun : Option Int := none
  RentIndex : Option Int := none
  RequestStartedAt : Time := Time.zero
  AvailableAt : Time := Time.zero
  PayloadHash : Bytes := []
deriving DecidableEq

def ContractHex : Text := "41c60a6f5c81431c97ed01b61698b6853557f3afd4".toList

def ContractBase58 : String := "TU2MJ5Veik1LRAgjeSzEdvmDYx7mefJZvd"

def contract : Bytes := orEmpty (HexAddress ContractHex)

def baseRevision : String := "energy-market-events-v1"

def seedRevision : String := "energy-market-events-v2"

/-- `UTC`. -/
def UTC (t : Time) : Time := t.utc.truncate Time.microsecond

/-- `time.UnixMilli`, whose location `UTC` drops. -/
def ofUnixMilli (ms : Int) : Time := ⟨ms * Time.millisecond, 0⟩

/-! ## The indexed form -/

def readAddress (m : Result) (k : String) : Except String Bytes := do
  Address (← text m k)

/-- The switch over the names. -/
def readKind (r : RawEvent) (out : RentalEvent) : Except String RentalEvent :=
  match r.Name with
  | "Liquidate" => do
      let liquidator ← readAddress r.Result "liquidator"
      let usage ← Num r.Result "usageRental"
      let reward ← Num r.Result "liquidateFee"
      let back ← Num r.Result "sendBack"
      return { out with
        EventKind := "liquidate", Liquidator := some liquidator, UsageRentalSun := some usage,
        RewardSun := some reward, SendBackSun := some back }
  | "RentResource" => do
      let added ← Num r.Result "addedAmount"
      let deposit ← Num r.Result "addedSecurityDeposit"
      return { out with
        EventKind := "rent", AddedAmountSun := some added, AddedDepositSun := some deposit }
  | "ReturnResource" => do
      let returned ← Num r.Result "subedAmount"
      let deposit ← Num r.Result "subedSecurityDeposit"
      let usage ← Num r.Result "usageRental"
      return { out with
        EventKind := "return", ReturnedAmountSun := some returned,
        ReturnedDepositSun := some deposit, UsageRentalSun := some usage }
  | _ => .error "unknown_event"

/-- The two fields of the second revision, which come together. -/
def readExtended (r : RawEvent) (out : RentalEvent) : Except String RentalEvent :=
  if r.Name = "Liquidate" then .ok out
  else if (r.Result "securityDeposit").isSome ≠ (r.Result "rentIndex").isSome then
    .error "incomplete_extended_event"
  else if (r.Result "securityDeposit").isSome then do
    let deposit ← Num r.Result "securityDeposit"
    let index ← Num r.Result "rentIndex"
    return { out with
      AbiRevision := seedRevision, SecurityDepositSun := some deposit, RentIndex := some index }
  else .ok out

/-- What is set before the result is read. -/
def rowOf (r : RawEvent) : RentalEvent where
  ResourceType := 1
  Finality := "solid"
  ContractAddress := contract
  BlockNumber := r.BlockNumber
  BlockTime := UTC (ofUnixMilli r.BlockTimestamp)
  TxId := orEmpty (BinaryHex r.Transaction 32)
  ProviderEventIndex := r.Index
  AbiRevision := baseRevision
  PositionStatus := "indexed_only"
  RequestStartedAt := r.Evidence.Started
  AvailableAt := r.Evidence.Available
  PayloadHash := orEmpty (BinaryHex r.Evidence.ResponseHash 32)

def EventRow (r : RawEvent) : Except String RentalEvent := do
  let resource ← Num r.Result "resourceType"
  Check.failIf (resource ≠ 1) "not_energy_event"
  let renter ← readAddress r.Result "renter"
  let receiver ← readAddress r.Result "receiver"
  let amount ← Num r.Result "amount"
  let out ← readKind r
    { rowOf r with Renter := renter, Receiver := receiver, AmountSun := some amount }
  readExtended r out

/-! ## Contract logs -/

structure Log where
  Address : Text
  Topics : List Text
  Data : Text

def signatures : List (String × String) :=
  [("Liquidate", "Liquidate(address,address,address,uint256,uint256,uint256,uint256,uint256)"),
   ("RentResource", "RentResource(address,address,uint256,uint256,uint256,uint256)"),
   ("ReturnResource", "ReturnResource(address,address,uint256,uint256,uint256,uint256,uint256)")]

def extendedSignatures : List (String × String) :=
  [("RentResource", "RentResource(address,address,uint256,uint256,uint256,uint256,uint256,uint256)"),
   ("ReturnResource",
    "ReturnResource(address,address,uint256,uint256,uint256,uint256,uint256,uint256,uint256)")]

section Logs

-- `Topic`, the Keccak digest of a signature
variable (Topic : String → Bytes)

/-- The loops over the signatures. No two of the five share a digest, so the order of a
map does not show. -/
def recognise (t : Bytes) : String × Bool :=
  let known := signatures.foldl
    (fun found s => if t = Topic s.2 then (s.1, found.2) else found) ("", false)
  extendedSignatures.foldl (fun found s => if t = Topic s.2 then (s.1, true) else found) known

def wantTopics (name : String) : Nat := if name = "Liquidate" then 4 else 3

def wordCount (name : String) (extended : Bool) : Nat :=
  (if name = "RentResource" then 4 else 5) + if extended then 2 else 0

/-- `ints[i]`. -/
def word (data : Bytes) (i : Nat) : Int := Wire.ofBigEndian ((data.drop (32 * i)).take 32)

/-- `l.Topics[i]`. -/
def topic (l : Log) (i : Nat) : Text := l.Topics.getD i []

def decodeData (s : Text) (words : Nat) : Except String Bytes :=
  match decodeHex s with
  | some data => if data.length = 32 * words then .ok data else .error "bad_event_data"
  | none => .error "bad_event_data"

def decodeLiquidator (name : String) (l : Log) : Except String (Option Bytes) :=
  if name = "Liquidate" then some <$> WordAddress (topic l 1) else .ok none

/-- The amounts of a log, by its name. -/
def decodeAmounts (name : String) (data : Bytes) (out : RentalEvent) : RentalEvent :=
  match name with
  | "Liquidate" => { out with
      EventKind := "liquidate", AmountSun := some (word data 0), UsageRentalSun := some (word data 2),
      RewardSun := some (word data 3), SendBackSun := some (word data 4) }
  | "RentResource" => { out with
      EventKind := "rent", AddedAmountSun := some (word data 0), AddedDepositSun := some (word data 2),
      AmountSun := some (word data 3) }
  | "ReturnResource" => { out with
      EventKind := "return", ReturnedAmountSun := some (word data 0),
      UsageRentalSun := some (word data 2), ReturnedDepositSun := some (word data 3),
      AmountSun := some (word data 4) }
  | _ => out

def decodeExtended (extended : Bool) (words : Nat) (data : Bytes) (out : RentalEvent) : RentalEvent :=
  if extended then { out with
    AbiRevision := seedRevision, SecurityDepositSun := some (word data (words - 2)),
    RentIndex := some (word data (words - 1)) }
  else out

def DecodeLog (l : Log) : Except String RentalEvent := do
  Check.failIf ((Address l.Address).toOption ≠ some contract ∨ l.Topics.length < 3) "other_log"
  let t ← BinaryHex (topic l 0) 32
  let (name, extended) := recognise Topic t
  Check.failIf (name = "") "other_log"
  Check.failIf (l.Topics.length ≠ wantTopics name) "bad_event_topics"
  let words := wordCount name extended
  let data ← decodeData l.Data words
  Check.failIf (word data 1 ≠ 1) "not_energy_event"
  let offset := if name = "Liquidate" then 2 else 1
  let liquidator ← decodeLiquidator name l
  let renter ← WordAddress (topic l offset)
  let receiver ← WordAddress (topic l (offset + 1))
  let out : RentalEvent := {
    Liquidator := liquidator, Renter := renter, Receiver := receiver, ResourceType := 1,
    ContractAddress := contract, AbiRevision := baseRevision }
  return decodeAmounts name data (decodeExtended extended words data out)

end Logs

/-! ## Stored rows -/

def set (m : Result) (k : String) (s : Text) : Result := Function.update m k (some (.quoted s))

/-- `n.String()`. -/
def amountText : Option Int → Text
  | some n => Json.intText n
  | none => "<nil>".toList

/-- `"0x" + Hex(a[1:])`, which panics on an empty string. -/
def addressText : Bytes → Option Text
  | [] => none
  | _ :: rest => some ('0' :: 'x' :: hexText rest)

/-- The name of a row and the fields of its kind. -/
def rawKind (r : RentalEvent) (m : Result) : Option (String × Result) :=
  if r.EventKind = "rent" then
    let m := set m "addedAmount" (amountText r.AddedAmountSun)
    let m := set m "addedSecurityDeposit" (amountText r.AddedDepositSun)
    some ("RentResource", m)
  else if r.EventKind = "return" then
    let m := set m "subedAmount" (amountText r.ReturnedAmountSun)
    let m := set m "subedSecurityDeposit" (amountText r.ReturnedDepositSun)
    let m := set m "usageRental" (amountText r.UsageRentalSun)
    some ("ReturnResource", m)
  else do
    let liquidator ← r.Liquidator
    let m := set m "liquidator" (← addressText liquidator)
    let m := set m "usageRental" (amountText r.UsageRentalSun)
    let m := set m "liquidateFee" (amountText r.RewardSun)
    let m := set m "sendBack" (amountText r.SendBackSun)
    return ("Liquidate", m)

def rawExtended (r : RentalEvent) (m : Result) : Result :=
  if r.SecurityDepositSun ≠ none ∧ r.RentIndex ≠ none then
    set (set m "securityDeposit" (amountText r.SecurityDepositSun)) "rentIndex" (amountText r.RentIndex)
  else m

/-- `RawFromRow`, or nothing where it panics. -/
def RawFromRow (r : RentalEvent) : Option RawEvent := do
  let m : Result := fun _ => none
  let m := set m "renter" (← addressText r.Renter)
  let m := set m "receiver" (← addressText r.Receiver)
  let m := set m "resourceType" ['1']
  let m := set m "amount" (amountText r.AmountSun)
  let (name, m) ← rawKind r (rawExtended r m)
  return {
    BlockNumber := r.BlockNumber, BlockTimestamp := r.BlockTime.unixMilli,
    ContractAddress := ContractBase58, Index := r.ProviderEventIndex, Name := name, Result := m,
    Transaction := hexText r.TxId,
    Evidence := {
      Source := "trongrid", Started := r.RequestStartedAt, Available := r.AvailableAt,
      ResponseHash := hexText r.PayloadHash } }

/-! ## Comparing events -/

/-- `binary.PutUvarint` into a buffer of `room` bytes. -/
def uvarint : Nat → Nat → Bytes
  | 0, _ => []
  | room + 1, n => if n < 128 then [UInt8.ofNat n] else UInt8.ofNat (n % 128 + 128) :: uvarint room (n / 128)

def factText (b : Bytes) : Bytes := uvarint 10 b.length ++ b

/-- A field of the structure that is compared. -/
inductive Fact
  | text (b : Bytes)
  | textPointer (b : Option Bytes)
  | intPointer (n : Option Int)
deriving DecidableEq

/-- `x.Bytes()`. -/
def magnitude (n : Int) : Bytes := ((Nat.digits 256 n.natAbs).map UInt8.ofNat).reverse

/-- `encodeFact` on one field. -/
def encodeFact : Fact → Bytes
  | .text b => factText b
  | .textPointer none => [0]
  | .textPointer (some b) => 1 :: factText b
  | .intPointer none => [0]
  | .intPointer (some n) => 1 :: (if n < 0 then 1 else 0) :: factText (magnitude n)

def asciiBytes (s : String) : Bytes := s.toList.map fun c => UInt8.ofNat c.toNat

/-- The structure that `EventEqual` compares, field by field. -/
def protocol (r : RentalEvent) : List (String × Fact) :=
  [("Kind", .text (asciiBytes r.EventKind)), ("Renter", .text r.Renter), ("Receiver", .text r.Receiver),
   ("Liquidator", .textPointer r.Liquidator), ("Amount", .intPointer r.AmountSun),
   ("Added", .intPointer r.AddedAmountSun), ("Deposit", .intPointer r.AddedDepositSun),
   ("Returned", .intPointer r.ReturnedAmountSun), ("Refund", .intPointer r.ReturnedDepositSun),
   ("Usage", .intPointer r.UsageRentalSun), ("Reward", .intPointer r.RewardSun),
   ("Back", .intPointer r.SendBackSun), ("Security", .intPointer r.SecurityDepositSun),
   ("Index", .intPointer r.RentIndex)]

/-- `FactBytes` of that structure, which has no name of its own. -/
def FactBytes (fields : List (String × Fact)) : Bytes :=
  asciiBytes "jl-keeper-fact-v1" ++ 0 :: factText [] ++
    fields.flatMap fun f => factText (asciiBytes f.1) ++ encodeFact f.2

/-- `EventEqual`. No field of the structure is of a kind that has no encoding. -/
def EventEqual (a b : RentalEvent) : Bool := FactBytes (protocol a) = FactBytes (protocol b)

end MarketInfo.Keeper.Events
