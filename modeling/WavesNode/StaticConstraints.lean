/-
What the static checks come to on the wire.

`WireValid` says of an array, by the places of its fields, when the transaction it
holds passes the validator of its type; `TransferFieldsValid` says the same of a
protobuf transfer. Neither asks a parser for a transaction: a field is a word at a
place, and only a part of variable form (a data entry, a call) is given by the reader
of that part alone.

No parser asks for any of it. So a transaction that was read satisfies its validator
exactly when the array it was read from happens to be `WireValid`, and an array that is
not, properly signed, still becomes a transaction.
-/
import WavesNode.WireLayout
import WavesNode.PBTransactions
import WavesNode.Verifier

set_option autoImplicit false

namespace WavesNode

open ByteBuffer

/-! ## 1. The conditions, type by type -/

/-- Where the fields start, in the old encoding and in the modern one. -/
def fieldsAt (b : ByteStr) (old modern : ℕ) : ℕ := if byteAt b 0 = 0 then modern else old

namespace GenesisTxSerializer

def WireValid (b : ByteStr) : Prop := 0 ≤ longAt b 35

end GenesisTxSerializer

namespace PaymentTxSerializer

def WireValid (b : ByteStr) : Prop :=
  0 < longAt b 67 ∧ 0 < longAt b 75 ∧ Long.InRange ((longAt b 67).toInt + (longAt b 75).toInt)

end PaymentTxSerializer

namespace IssueTxSerializer

def nameAt (b : ByteStr) : ℕ := fieldsAt b 66 4 + KeyLength

def descriptionAt (b : ByteStr) : ℕ := nameAt b + arrayWidth b (nameAt b)

def quantityAt (b : ByteStr) : ℕ := descriptionAt b + arrayWidth b (descriptionAt b)

/-- The conditions on the fields both encodings have. -/
def FieldsValid (b : ByteStr) : Prop :=
  0 < longAt b (quantityAt b) ∧
    (IssueTransaction.MinAssetNameLength ≤ arrayLength b (nameAt b) ∧
      arrayLength b (nameAt b) ≤ IssueTransaction.MaxAssetNameLength) ∧
    arrayLength b (descriptionAt b) ≤ IssueTransaction.MaxAssetDescriptionLength ∧
    (0 ≤ byteAt b (quantityAt b + 8) ∧
      byteAt b (quantityAt b + 8) ≤ IssueTransaction.MaxAssetDecimals) ∧
    0 < longAt b (quantityAt b + 8 + 1 + 1)

def WireValid [ScriptReader] (b : ByteStr) : Prop :=
  FieldsValid b ∧
    (byteAt b 0 = 0 → ∀ s ∈ scriptAt b (quantityAt b + 8 + 1 + 1 + 8 + 8), s.expr = .expr)

end IssueTxSerializer

namespace TransferTxSerializer

def WireValid (b : ByteStr) : Prop :=
  let assetAt := fieldsAt b 66 3 + KeyLength
  let feeAssetAt := assetAt + assetWidth b assetAt
  let amountAt := feeAssetAt + assetWidth b feeAssetAt + 8
  let recipientAt := amountAt + 8 + 8
  0 < longAt b (amountAt + 8) ∧ 0 < longAt b amountAt ∧
    arrayLength b (recipientAt + recipientWidth b recipientAt) ≤
      TransferTransaction.MaxAttachmentSize

end TransferTxSerializer

namespace ReissueTxSerializer

def WireValid (b : ByteStr) : Prop :=
  let quantityAt := fieldsAt b 66 4 + KeyLength + AssetIdLength
  0 < longAt b quantityAt ∧ 0 < longAt b (quantityAt + 8 + 1)

end ReissueTxSerializer

namespace BurnTxSerializer

def WireValid (b : ByteStr) : Prop :=
  let quantityAt := fieldsAt b 1 4 + KeyLength + AssetIdLength
  0 ≤ longAt b quantityAt ∧ 0 < longAt b (quantityAt + 8)

end BurnTxSerializer

namespace OrderSerializer

/-- The order of an array, field by field, without its proofs. -/
def orderAt (version : Byte) (o : ByteStr) : Order :=
  let senderAt := if version = 1 then 0 else 1
  let amountAssetAt := senderAt + KeyLength + KeyLength
  let priceAssetAt := amountAssetAt + assetWidth o amountAssetAt
  let orderTypeAt := priceAssetAt + assetWidth o priceAssetAt
  let priceAt := orderTypeAt + 1
  { version := version
    senderPublicKey := slice o senderAt KeyLength
    matcherPublicKey := slice o (senderAt + KeyLength) KeyLength
    assetPair := ⟨assetAt o amountAssetAt, assetAt o priceAssetAt⟩
    orderType := if byteAt o orderTypeAt = 0 then .BUY else .SELL
    price := longAt o priceAt
    amount := longAt o (priceAt + 8)
    timestamp := longAt o (priceAt + 8 + 8)
    expiration := longAt o (priceAt + 8 + 8 + 8)
    matcherFee := longAt o (priceAt + 8 + 8 + 8 + 8)
    matcherFeeAssetId :=
      if version = 3 then assetAt o (priceAt + 8 + 8 + 8 + 8 + 8) else .Waves
    proofs := ⟨[]⟩ }

end OrderSerializer

/-- The order that stands at a place after its length and its version. -/
def versionedOrderAt (b : ByteStr) (p : ℕ) : Order :=
  let version := byteAt b (p + 4)
  if version = 1 then OrderSerializer.orderAt 1 (slice b (p + 4 + 1) (intAt b p).toNat)
  else OrderSerializer.orderAt version (version :: slice b (p + 4 + 1) (intAt b p - 1).toNat)

def versionedOrderWidth (b : ByteStr) (p : ℕ) : ℕ :=
  4 + 1 + if byteAt b (p + 4) = 1 then (intAt b p).toNat else (intAt b p - 1).toNat

namespace ExchangeTxSerializer

/-- The checks of an exchange of two orders whose numbers stand at a place. -/
def NumbersValid (buy sell : Order) (b : ByteStr) (p : ℕ) : Prop :=
  let price := longAt b p
  let amount := longAt b (p + 8)
  let buyMatcherFee := longAt b (p + 8 + 8)
  let sellMatcherFee := longAt b (p + 8 + 8 + 8)
  let fee := longAt b (p + 8 + 8 + 8 + 8)
  let timestamp := longAt b (p + 8 + 8 + 8 + 8 + 8)
  (0 < fee ∧ fee ≤ Order.MaxAmount) ∧ (0 < amount ∧ amount ≤ Order.MaxAmount) ∧
    (0 < price ∧ price ≤ Order.MaxAmount) ∧
    (sellMatcherFee ≤ Order.MaxAmount ∧ buyMatcherFee ≤ Order.MaxAmount) ∧
    (buy.orderType = .BUY ∧ sell.orderType = .SELL) ∧
    buy.matcherPublicKey = sell.matcherPublicKey ∧ buy.assetPair = sell.assetPair ∧
    (buy.isValid timestamp = none ∧ sell.isValid timestamp = none) ∧
    (price ≤ buy.price ∧ sell.price ≤ price)

def WireValid (b : ByteStr) : Prop :=
  if byteAt b 0 = 0 then
    let sellAt := 3 + versionedOrderWidth b 3
    NumbersValid (versionedOrderAt b 3) (versionedOrderAt b sellAt) b
      (sellAt + versionedOrderWidth b sellAt)
  else
    let sellAt := 9 + (intAt b 1).toNat
    NumbersValid (OrderSerializer.orderAt 1 (slice b 9 (intAt b 1).toNat))
      (OrderSerializer.orderAt 1 (slice b sellAt (intAt b 5).toNat)) b (sellAt + (intAt b 5).toNat)

end ExchangeTxSerializer

namespace LeaseTxSerializer

/-- The modern encoding has an asset, which must be Waves, before the sender. -/
def WireValid [Crypto] (b : ByteStr) : Prop :=
  let senderAt := fieldsAt b 1 4
  let recipientAt := senderAt + KeyLength
  let amountAt := recipientAt + recipientWidth b recipientAt
  0 < longAt b (amountAt + 8) ∧ 0 < longAt b amountAt ∧
    ([longAt b amountAt, longAt b (amountAt + 8)].foldlM Long.addExact 0).isSome = true ∧
    ¬addressStandsAt b recipientAt (PublicKey.toAddress (slice b senderAt KeyLength))

end LeaseTxSerializer

namespace LeaseCancelTxSerializer

def WireValid (b : ByteStr) : Prop := 0 < longAt b (fieldsAt b 1 4 + KeyLength)

end LeaseCancelTxSerializer

namespace CreateAliasTxSerializer

def WireValid (b : ByteStr) : Prop :=
  let aliasAt := fieldsAt b 1 3 + KeyLength
  0 < longAt b (aliasAt + arrayWidth b aliasAt)

end CreateAliasTxSerializer

namespace MassTransferTxSerializer

def nextTransfer (b : ByteStr) (p : ℕ) : ℕ := p + recipientWidth b p + 8

def WireValid (b : ByteStr) : Prop :=
  let countAt := 2 + KeyLength + assetWidth b (2 + KeyLength)
  let count := (shortAt b countAt).toNat
  let amounts := (List.iterate (nextTransfer b) (countAt + 2) count).map
    fun p => longAt b (p + recipientWidth b p)
  let feeAt := (nextTransfer b)^[count] (countAt + 2) + 8
  ((longAt b feeAt :: amounts).foldlM Long.addExact 0).isSome = true ∧
    count ≤ MassTransferTransaction.MaxTransferCount ∧
    arrayLength b (feeAt + 8) ≤ TransferTransaction.MaxAttachmentSize ∧
    (∀ amount ∈ amounts, 0 ≤ amount) ∧ 0 < longAt b feeAt

end MassTransferTxSerializer

/-- The bytes proofs take: a version, their number, and each after its length. -/
def proofsWidth (b : ByteStr) (p : ℕ) : ℕ :=
  1 + 2 + ((arrayPlaces b (p + 1)).map fun r => 2 + arrayLength b r).sum

namespace DataTxSerializer

/-- The conditions on the entries that stand from the place 37 on, and on what follows
them. -/
def EntriesValid (b : ByteStr) (entries : List DataEntry) (entriesEnd : ℕ) : Prop :=
  (entries.length ≤ DataTransaction.MaxEntryCount ∧ ∀ e ∈ entries, e.valid = true) ∧
    (∀ e ∈ entries, e.key ≠ "") ∧ (entries.map DataEntry.key).Nodup ∧
    0 < longAt b (entriesEnd + 8) ∧
    1 + 2 + KeyLength + 2 + (entries.map DataEntry.toBytes).flatten.length + 8 + 8 +
      proofsWidth b (entriesEnd + 8 + 8) ≤ DataTransaction.MaxBytes

def WireValid (b : ByteStr) : Prop :=
  ∀ entries next, fill DataEntry.parse (shortAt b 35).toNat ⟨b, 37⟩ = .ok (entries, next) →
    EntriesValid b entries next.position

end DataTxSerializer

namespace SetScriptTxSerializer

def WireValid (b : ByteStr) : Prop :=
  let scriptAt := 4 + KeyLength
  0 < longAt b (scriptAt + optionalArrayWidth b scriptAt)

end SetScriptTxSerializer

namespace SponsorFeeTxSerializer

def WireValid (b : ByteStr) : Prop :=
  let minFeeAt := 5 + KeyLength + AssetIdLength
  0 ≤ longAt b minFeeAt ∧ 0 < longAt b (minFeeAt + 8)

end SponsorFeeTxSerializer

namespace SetAssetScriptTxSerializer

def WireValid [ScriptReader] (b : ByteStr) : Prop :=
  let feeAt := 4 + KeyLength + AssetIdLength
  (∀ s ∈ scriptAt b (feeAt + 8 + 8), s.expr = .expr) ∧ 0 < longAt b feeAt

end SetAssetScriptTxSerializer

namespace InvokeScriptTxSerializer

/-- The bytes a payment takes when it is written again: of its array, no more than the
amount and an asset. -/
def paymentWidth (b : ByteStr) (r : ℕ) : ℕ :=
  8 + if byteAt b (r + 2 + 8) = 1 then 1 + min AssetIdLength (arrayLength b r - 9) else 1

/-- The conditions on a call that was read, and on what follows it from a place on. -/
def CallValid (b : ByteStr) (dApp : AddressOrAlias) (call : Option FunctionCall) (p : ℕ) : Prop :=
  let feeAt := arraysEnd b p
  let proofsAt := feeAt + 8 + assetWidth b (feeAt + 8) + 8
  InvokeScriptTxValidator.callChecks call = [] ∧
    (∀ r ∈ arrayPlaces b p, 0 < longAt b (r + 2)) ∧ 0 < longAt b feeAt ∧
    4 + KeyLength + dApp.bytes.length +
      (Deser.serializeOption (call.map Serde.serialize)).length +
      (2 + ((arrayPlaces b p).map fun r => 2 + paymentWidth b r).sum) + 8 +
      assetWidth b (feeAt + 8) + 8 + proofsWidth b proofsAt ≤
        ContractLimits.MaxInvokeScriptSizeInBytes

def WireValid [Crypto] (b : ByteStr) : Prop :=
  ∀ dApp next, getAddressOrAlias ⟨b, 4 + KeyLength⟩ = .ok (dApp, next) →
    let flagAt := next.position
    if byteAt b flagAt = 1 then
      ∀ call rest, Serde.deserializeCall ⟨b, flagAt + 1⟩ = .ok (call, rest) →
        CallValid b dApp (some call) rest.position
    else CallValid b dApp none (flagAt + 1)

end InvokeScriptTxSerializer

/-- The type an array names. -/
def typeAt (b : ByteStr) : Byte := if byteAt b 0 = 0 then byteAt b 1 else byteAt b 0

/-- The condition on an array that holds a transaction of a type. -/
def WireValidOf [Crypto] [ScriptReader] (typeId : Byte) (b : ByteStr) : Prop :=
  if typeId = 1 then GenesisTxSerializer.WireValid b
  else if typeId = 2 then PaymentTxSerializer.WireValid b
  else if typeId = 3 then IssueTxSerializer.WireValid b
  else if typeId = 4 then TransferTxSerializer.WireValid b
  else if typeId = 5 then ReissueTxSerializer.WireValid b
  else if typeId = 6 then BurnTxSerializer.WireValid b
  else if typeId = 7 then ExchangeTxSerializer.WireValid b
  else if typeId = 8 then LeaseTxSerializer.WireValid b
  else if typeId = 9 then LeaseCancelTxSerializer.WireValid b
  else if typeId = 10 then CreateAliasTxSerializer.WireValid b
  else if typeId = 11 then MassTransferTxSerializer.WireValid b
  else if typeId = 12 then DataTxSerializer.WireValid b
  else if typeId = 13 then SetScriptTxSerializer.WireValid b
  else if typeId = 14 then SponsorFeeTxSerializer.WireValid b
  else if typeId = 15 then SetAssetScriptTxSerializer.WireValid b
  else InvokeScriptTxSerializer.WireValid b

def WireValid [Crypto] [ScriptReader] (b : ByteStr) : Prop := WireValidOf (typeAt b) b

/-- The condition on a protobuf message: it bears on transfers alone. -/
def TransferFieldsValid (signedTx : PBSignedTransaction) : Prop :=
  ∀ tx fee recipient amount attachment, signedTx.transaction = some tx → tx.fee = some fee →
    tx.data = .Transfer recipient (some amount) attachment →
    0 < fee.amount ∧ 0 < amount.amount ∧
      attachment.length ≤ TransferTransaction.MaxAttachmentSize

/-! ## 2. The frames around the fields -/

section
variable {α : Type} {l : ByteStr} {p : ℕ}

theorem reads_provenLast {common : Reader (Proofs → α)} {Q : α → Prop}
    (h : Reads common l p fun f _ => ∀ proofs, Q (f proofs)) :
    Reads (provenLast common) l p fun a _ => Q a := by
  refine h.bind ?_
  intro f q hf
  exact reads_getProofs.bind fun proofs _ _ => .pure (hf proofs)

theorem reads_signatureLast {common : Reader (Proofs → α)} {Q : α → Prop}
    (h : Reads common l p fun f _ => ∀ proofs, Q (f proofs)) :
    Reads (signatureLast common) l p fun a _ => Q a := by
  refine h.bind ?_
  intro f q hf
  exact reads_getSignature.bind fun signature _ _ => .pure (hf _)

theorem reads_signatureFirst {typeId : Byte} {common : Reader (Proofs → α)} {Q : α → Prop}
    (h : Reads common l (p + SignatureLength + 1) fun f _ => ∀ proofs, Q (f proofs)) :
    Reads (signatureFirst typeId common) l p fun a _ => Q a := by
  refine reads_getSignature.bind ?_
  rintro signature _ rfl
  refine reads_get.bind ?_
  rintro repeated _ ⟨-, rfl⟩
  refine reads_require.bind ?_
  rintro _ _ ⟨-, rfl⟩
  refine h.bind ?_
  intro f q hf
  exact .pure (hf _)

theorem reads_header {expected : ByteStr} :
    Reads (header expected) l p fun _ q => q = p + expected.length := by
  refine reads_getArray.bind ?_
  rintro bytes _ ⟨-, -, rfl⟩
  exact reads_require.mono fun _ _ h => h.2

/-- A type with two versions: what each of its encodings gives. -/
theorem of_eitherEncoding {typeId : Byte} {modernOffset : ℕ} {modern old : Reader α}
    {Q : α → Prop} {a : α}
    (hmodern : byteAt l 0 = 0 → Reads modern l modernOffset fun a _ => Q a)
    (hold : byteAt l 0 ≠ 0 → Reads old l 1 fun a _ => Q a)
    (h : eitherEncoding l typeId modernOffset modern old = .ok a) : Q a := by
  unfold eitherEncoding at h
  split_ifs at h with hlen h0 h1 h1
  · obtain ⟨-, hQ⟩ := (hmodern h0).of_from h
    exact hQ
  · obtain ⟨-, hQ⟩ := (hold h0).of_from h
    exact hQ

end

/-! ## 3. What a parsed transaction's validator comes to -/

section
variable {b : ByteStr}

theorem fieldsAt_modern (h : byteAt b 0 = 0) (old modern : ℕ) : fieldsAt b old modern = modern :=
  if_pos h

theorem fieldsAt_old (h : byteAt b 0 ≠ 0) (old modern : ℕ) : fieldsAt b old modern = old :=
  if_neg h

theorem Long.isSome_addExact {x y : Long} :
    (Long.addExact x y).isSome = true ↔ Long.InRange (x.toInt + y.toInt) := by
  unfold Long.addExact
  split <;> rename_i h <;> simp [h]

theorem Script.all_expr_iff {script : Option Script} :
    (script.all fun s => s.expr = .expr) = true ↔ ∀ s ∈ script, s.expr = .expr := by
  cases script <;> simp

variable [Crypto]

theorem GenesisTxSerializer.validate_iff {tx : GenesisTransaction}
    (h : GenesisTxSerializer.parseBytes b = .ok tx) : tx.checks = [] ↔ WireValid b := by
  have hreads : Reads GenesisTxSerializer.parse b 0 fun tx _ => tx.amount = longAt b 35 := by
    refine reads_header.bind ?_
    rintro _ _ rfl
    refine reads_getLong.bind ?_
    rintro timestamp _ ⟨-, rfl⟩
    refine reads_getAddress.bind ?_
    rintro recipient _ ⟨-, rfl⟩
    refine reads_getLong.bind ?_
    rintro amount _ ⟨rfl, rfl⟩
    exact .pure rfl
  obtain ⟨-, hamount⟩ := hreads.of_from h
  unfold GenesisTransaction.checks WireValid
  rw [V.cond_eq_nil, hamount]
  simp

theorem PaymentTxSerializer.validate_iff {tx : PaymentTransaction}
    (h : PaymentTxSerializer.parseBytes b = .ok tx) : tx.checks = [] ↔ WireValid b := by
  have hreads : Reads PaymentTxSerializer.parse b 0 fun tx _ =>
      tx.amount = longAt b 67 ∧ tx.fee = longAt b 75 := by
    refine reads_header.bind ?_
    rintro _ _ rfl
    refine reads_getLong.bind ?_
    rintro timestamp _ ⟨-, rfl⟩
    refine reads_getPublicKey.bind ?_
    rintro sender _ ⟨-, -, rfl⟩
    refine reads_getAddress.bind ?_
    rintro recipient _ ⟨-, rfl⟩
    refine reads_getLong.bind ?_
    rintro amount _ ⟨rfl, rfl⟩
    refine reads_getLong.bind ?_
    rintro fee _ ⟨rfl, rfl⟩
    exact reads_getSignature.bind fun _ _ _ => .pure ⟨rfl, rfl⟩
  obtain ⟨-, hamount, hfee⟩ := hreads.of_from h
  unfold PaymentTransaction.checks WireValid
  rw [hamount, hfee]
  simp [Long.isSome_addExact]

theorem TransferTxSerializer.validate_iff {tx : TransferTransaction}
    (h : TransferTxSerializer.parseBytes b = .ok tx) :
    TransferTxValidator.validate tx = [] ↔ WireValid b := by
  have hreads (version : TxVersion) : Reads (parseCommonPart version) b (fieldsAt b 66 3)
      fun f _ => ∀ proofs, TransferTxValidator.validate (f proofs) = [] ↔ WireValid b := by
    refine reads_getPublicKey.bind ?_
    rintro sender _ ⟨-, -, rfl⟩
    refine reads_getAsset.bind ?_
    rintro assetId _ ⟨-, -, rfl⟩
    refine reads_getAsset.bind ?_
    rintro feeAssetId _ ⟨-, -, rfl⟩
    refine reads_getLong.bind ?_
    rintro ts _ ⟨-, rfl⟩
    refine reads_getLong.bind ?_
    rintro amount _ ⟨rfl, rfl⟩
    refine reads_getLong.bind ?_
    rintro fee _ ⟨rfl, rfl⟩
    refine reads_getAddressOrAlias.bind ?_
    rintro recipient _ ⟨-, rfl⟩
    refine reads_parseArrayWithLength.bind ?_
    rintro attachment _ ⟨-, hlen, rfl⟩
    refine .pure fun proofs => ?_
    unfold TransferTxValidator.validate WireValid
    rw [hlen]
    simp
  refine of_eitherEncoding (Q := fun tx => TransferTxValidator.validate tx = [] ↔ WireValid b)
    (fun h0 => ?_) (fun h0 => ?_) h
  · have hcommon := hreads 2
    rw [fieldsAt_modern h0] at hcommon
    exact reads_provenLast hcommon
  · have hcommon := hreads 1
    rw [fieldsAt_old h0] at hcommon
    exact reads_signatureFirst hcommon

omit [Crypto]

theorem IssueTxSerializer.reads_parseCommonPart (version : TxVersion) :
    Reads (parseCommonPart version) b (fieldsAt b 66 4) fun f q =>
      q = quantityAt b + 8 + 1 + 1 + 8 + 8 ∧ ∀ script proofs,
        IssueTxValidator.validate (f script proofs) = [] ↔
          FieldsValid b ∧ (1 < version ∨ script = none) ∧ ∀ s ∈ script, s.expr = .expr := by
  refine reads_getPublicKey.bind ?_
  rintro sender _ ⟨-, -, rfl⟩
  refine reads_parseArrayWithLength.bind ?_
  rintro name _ ⟨-, hname, rfl⟩
  refine reads_parseArrayWithLength.bind ?_
  rintro description _ ⟨-, hdescription, rfl⟩
  refine reads_getLong.bind ?_
  rintro quantity _ ⟨rfl, rfl⟩
  refine reads_get.bind ?_
  rintro decimals _ ⟨rfl, rfl⟩
  refine reads_getBoolean.bind ?_
  rintro reissuable _ rfl
  refine reads_getLong.bind ?_
  rintro fee _ ⟨rfl, rfl⟩
  refine reads_getLong.bind ?_
  rintro timestamp _ ⟨-, rfl⟩
  refine .pure ⟨rfl, fun script proofs => ?_⟩
  unfold IssueTxValidator.validate
  dsimp only
  rw [hname, hdescription]
  simp only [List.append_eq_nil_iff, V.cond_eq_nil, Script.all_expr_iff]
  simp [FieldsValid, nameAt, descriptionAt, quantityAt, and_assoc]

theorem IssueTxSerializer.validate_iff [ScriptReader] {tx : IssueTransaction}
    (h : IssueTxSerializer.parseBytes b = .ok tx) :
    IssueTxValidator.validate tx = [] ↔ WireValid b := by
  refine of_eitherEncoding (Q := fun tx => IssueTxValidator.validate tx = [] ↔ WireValid b)
    (fun h0 => ?_) (fun h0 => ?_) h
  · have hcommon := reads_parseCommonPart (b := b) 2
    rw [fieldsAt_modern h0] at hcommon
    refine reads_provenLast (hcommon.bind ?_)
    rintro f _ ⟨rfl, hf⟩
    refine reads_getScript.bind ?_
    rintro script _ ⟨rfl, -⟩
    refine .pure fun proofs => ?_
    rw [hf, WireValid]
    simp [h0]
  · have hcommon := reads_parseCommonPart (b := b) 1
    rw [fieldsAt_old h0] at hcommon
    refine reads_signatureFirst (hcommon.map ?_)
    rintro f _ ⟨-, hf⟩ proofs
    rw [hf, WireValid]
    simp [h0]

theorem ReissueTxSerializer.validate_iff {tx : ReissueTransaction}
    (h : ReissueTxSerializer.parseBytes b = .ok tx) :
    ReissueTxValidator.validate tx = [] ↔ WireValid b := by
  have hreads (version : TxVersion) : Reads (parseCommonPart version) b (fieldsAt b 66 4)
      fun f _ => ∀ proofs, ReissueTxValidator.validate (f proofs) = [] ↔ WireValid b := by
    refine reads_getPublicKey.bind ?_
    rintro sender _ ⟨-, -, rfl⟩
    refine reads_getIssuedAsset.bind ?_
    rintro asset _ ⟨-, -, rfl⟩
    refine reads_getLong.bind ?_
    rintro quantity _ ⟨rfl, rfl⟩
    refine reads_getBoolean.bind ?_
    rintro reissuable _ rfl
    refine reads_getLong.bind ?_
    rintro fee _ ⟨rfl, rfl⟩
    refine reads_getLong.bind ?_
    rintro timestamp _ ⟨-, rfl⟩
    refine .pure fun proofs => ?_
    unfold ReissueTxValidator.validate WireValid
    simp
  refine of_eitherEncoding (Q := fun tx => ReissueTxValidator.validate tx = [] ↔ WireValid b)
    (fun h0 => ?_) (fun h0 => ?_) h
  · have hcommon := hreads 2
    rw [fieldsAt_modern h0] at hcommon
    exact reads_provenLast hcommon
  · have hcommon := hreads 1
    rw [fieldsAt_old h0] at hcommon
    exact reads_signatureFirst hcommon

theorem BurnTxSerializer.validate_iff {tx : BurnTransaction}
    (h : BurnTxSerializer.parseBytes b = .ok tx) :
    BurnTxValidator.validate tx = [] ↔ WireValid b := by
  have hreads (version : TxVersion) : Reads (parseCommonPart version) b (fieldsAt b 1 4)
      fun f _ => ∀ proofs, BurnTxValidator.validate (f proofs) = [] ↔ WireValid b := by
    refine reads_getPublicKey.bind ?_
    rintro sender _ ⟨-, -, rfl⟩
    refine reads_getIssuedAsset.bind ?_
    rintro asset _ ⟨-, -, rfl⟩
    refine reads_getLong.bind ?_
    rintro quantity _ ⟨rfl, rfl⟩
    refine reads_getLong.bind ?_
    rintro fee _ ⟨rfl, rfl⟩
    refine reads_getLong.bind ?_
    rintro timestamp _ ⟨-, rfl⟩
    refine .pure fun proofs => ?_
    unfold BurnTxValidator.validate WireValid
    simp
  refine of_eitherEncoding (Q := fun tx => BurnTxValidator.validate tx = [] ↔ WireValid b)
    (fun h0 => ?_) (fun h0 => ?_) h
  · have hcommon := hreads 2
    rw [fieldsAt_modern h0] at hcommon
    exact reads_provenLast hcommon
  · have hcommon := hreads 1
    rw [fieldsAt_old h0] at hcommon
    exact reads_signatureLast hcommon

/-! ### Exchanges -/

/-- An order is valid or not whatever its proofs. -/
theorem Order.isValid_proofs (o : Order) (proofs : Proofs) (atTime : Long) :
    ({ o with proofs := proofs } : Order).isValid atTime = o.isValid atTime := rfl

namespace OrderSerializer

theorem reads_parseOrderType {o : ByteStr} {p : ℕ} : Reads parseOrderType o p fun t q =>
    (t = if byteAt o p = 0 then .BUY else .SELL) ∧ q = p + 1 := by
  refine reads_get.bind ?_
  rintro x _ ⟨rfl, rfl⟩
  by_cases h0 : byteAt o p = 0
  · rw [if_pos h0, if_pos h0]
    exact .pure ⟨rfl, rfl⟩
  · rw [if_neg h0, if_neg h0]
    by_cases h1 : byteAt o p = 1
    · rw [if_pos h1]
      exact .pure ⟨rfl, rfl⟩
    · rw [if_neg h1]
      exact .throw

theorem reads_parseCommonPart {version : Byte} {o : ByteStr} :
    Reads (parseCommonPart version) o (if version = 1 then 0 else 1) fun f q =>
      (q = let amountAssetAt := (if version = 1 then 0 else 1) + KeyLength + KeyLength
        let priceAssetAt := amountAssetAt + assetWidth o amountAssetAt
        priceAssetAt + assetWidth o priceAssetAt + 1 + 8 + 8 + 8 + 8 + 8) ∧
      ∀ matcherFeeAssetId proofs, f matcherFeeAssetId proofs =
        { orderAt version o with matcherFeeAssetId := matcherFeeAssetId, proofs := proofs } := by
  refine reads_getPublicKey.bind ?_
  rintro sender _ ⟨rfl, -, rfl⟩
  refine reads_getPublicKey.bind ?_
  rintro matcher _ ⟨rfl, -, rfl⟩
  refine reads_getAsset.bind ?_
  rintro amountAsset _ ⟨rfl, -, rfl⟩
  refine reads_getAsset.bind ?_
  rintro priceAsset _ ⟨rfl, -, rfl⟩
  refine reads_parseOrderType.bind ?_
  rintro orderType _ ⟨rfl, rfl⟩
  refine reads_getLong.bind ?_
  rintro price _ ⟨rfl, rfl⟩
  refine reads_getLong.bind ?_
  rintro amount _ ⟨rfl, rfl⟩
  refine reads_getLong.bind ?_
  rintro timestamp _ ⟨rfl, rfl⟩
  refine reads_getLong.bind ?_
  rintro expiration _ ⟨rfl, rfl⟩
  refine reads_getLong.bind ?_
  rintro matcherFee _ ⟨rfl, rfl⟩
  exact .pure ⟨rfl, fun _ _ => rfl⟩

/-- An order read from an array is the order of its places, with some proofs. -/
theorem eq_orderAt {version : Byte} {o : ByteStr} {order : Order}
    (h : parseBytes version o = .ok order) :
    ∃ proofs, order = { orderAt version o with proofs := proofs } := by
  suffices hreads : Reads (parse version) o 0 fun order _ =>
      ∃ proofs, order = { orderAt version o with proofs := proofs } by
    obtain ⟨-, hproofs⟩ := hreads.of_from h
    exact hproofs
  unfold parse
  split_ifs with h1 h2 h3
  · subst h1
    refine reads_signatureLast (Reads.map reads_parseCommonPart ?_)
    rintro f _ ⟨-, hf⟩ proofs
    exact ⟨proofs, hf .Waves proofs⟩
  · subst h2
    refine reads_header.bind ?_
    rintro _ _ rfl
    refine reads_provenLast (Reads.map reads_parseCommonPart ?_)
    rintro f _ ⟨-, hf⟩ proofs
    exact ⟨proofs, hf .Waves proofs⟩
  · subst h3
    refine reads_header.bind ?_
    rintro _ _ rfl
    refine reads_provenLast (Reads.bind reads_parseCommonPart ?_)
    rintro f _ ⟨rfl, hf⟩
    refine reads_getAsset.bind ?_
    rintro matcherFeeAssetId _ ⟨rfl, -, rfl⟩
    exact .pure fun proofs => ⟨proofs, hf _ proofs⟩
  · exact .throw

end OrderSerializer

theorem reads_ofTry {α : Type} {x : Except String α} {p : ℕ} :
    Reads (Reader.ofTry x) b p fun a q => x = .ok a ∧ q = p := by
  unfold Reader.ofTry
  cases x with
  | error e => exact .throw
  | ok a => exact .pure ⟨rfl, rfl⟩

theorem reads_getVersionedOrder {p : ℕ} : Reads getVersionedOrder b p fun order q =>
    (∃ proofs, order = { versionedOrderAt b p with proofs := proofs }) ∧
      q = p + versionedOrderWidth b p := by
  unfold versionedOrderAt versionedOrderWidth
  refine reads_getInt.bind ?_
  rintro length _ ⟨rfl, rfl⟩
  refine reads_get.bind ?_
  rintro version _ ⟨rfl, rfl⟩
  by_cases h1 : byteAt b (p + 4) = 1
  · rw [if_pos h1, if_pos h1, if_pos h1]
    refine reads_getByteArray.bind ?_
    rintro bytes _ ⟨-, rfl, -, rfl⟩
    refine reads_ofTry.mono ?_
    rintro order _ ⟨horder, rfl⟩
    exact ⟨OrderSerializer.eq_orderAt horder, by omega⟩
  · rw [if_neg h1, if_neg h1, if_neg h1]
    split_ifs with h23
    · refine reads_require.bind ?_
      rintro _ _ ⟨-, rfl⟩
      refine reads_getByteArray.bind ?_
      rintro rest _ ⟨-, rfl, -, rfl⟩
      refine reads_ofTry.mono ?_
      rintro order _ ⟨horder, rfl⟩
      exact ⟨OrderSerializer.eq_orderAt horder, by omega⟩
    · exact .throw

namespace ExchangeTxSerializer

/-- The numbers of an exchange, for any orders that only lack the proofs of these. -/
theorem reads_parseNumbers {version : TxVersion} {buy sell : Order} {buyProofs sellProofs : Proofs}
    {p : ℕ} (hversion : 1 < version ∨ (buy.version = 1 ∧ sell.version = 1)) :
    Reads (parseNumbers version { buy with proofs := buyProofs } { sell with proofs := sellProofs })
      b p fun f _ => ∀ proofs,
        ExchangeTxValidator.validate (f proofs) = [] ↔ NumbersValid buy sell b p := by
  refine reads_getLong.bind ?_
  rintro price _ ⟨rfl, rfl⟩
  refine reads_getLong.bind ?_
  rintro amount _ ⟨rfl, rfl⟩
  refine reads_getLong.bind ?_
  rintro buyMatcherFee _ ⟨rfl, rfl⟩
  refine reads_getLong.bind ?_
  rintro sellMatcherFee _ ⟨rfl, rfl⟩
  refine reads_getLong.bind ?_
  rintro fee _ ⟨rfl, rfl⟩
  refine reads_getLong.bind ?_
  rintro timestamp _ ⟨rfl, rfl⟩
  refine .pure fun proofs => ?_
  unfold ExchangeTxValidator.validate NumbersValid
  dsimp only
  rw [Order.isValid_proofs, Order.isValid_proofs]
  simp only [List.append_eq_nil_iff, V.fee_eq_nil, V.positiveAmount_eq_nil, V.cond_eq_nil,
    decide_eq_true_eq, Option.isNone_iff_eq_none, Bool.and_eq_true, Bool.or_eq_true]
  constructor
  · rintro ⟨⟨⟨⟨⟨⟨⟨⟨⟨⟨⟨⟨⟨⟨⟨hfee, hamount⟩, hamount'⟩, hprice⟩, hprice'⟩, hsellFee⟩, hbuyFee⟩, hfee'⟩,
      hbuyType⟩, hsellType⟩, hmatcher⟩, hpair⟩, hbuy⟩, hsell⟩, hcross⟩, -⟩
    exact ⟨⟨hfee, hfee'⟩, ⟨hamount, hamount'⟩, ⟨hprice, hprice'⟩, ⟨hsellFee, hbuyFee⟩,
      ⟨hbuyType, hsellType⟩, hmatcher, hpair, ⟨hbuy, hsell⟩, hcross⟩
  · rintro ⟨⟨hfee, hfee'⟩, ⟨hamount, hamount'⟩, ⟨hprice, hprice'⟩, ⟨hsellFee, hbuyFee⟩,
      ⟨hbuyType, hsellType⟩, hmatcher, hpair, ⟨hbuy, hsell⟩, hcross⟩
    exact ⟨⟨⟨⟨⟨⟨⟨⟨⟨⟨⟨⟨⟨⟨⟨hfee, hamount⟩, hamount'⟩, hprice⟩, hprice'⟩, hsellFee⟩, hbuyFee⟩, hfee'⟩,
      hbuyType⟩, hsellType⟩, hmatcher⟩, hpair⟩, hbuy⟩, hsell⟩, hcross⟩, hversion⟩

theorem validate_iff {tx : ExchangeTransaction} (h : parseBytes b = .ok tx) :
    ExchangeTxValidator.validate tx = [] ↔ WireValid b := by
  refine of_eitherEncoding (Q := fun tx => ExchangeTxValidator.validate tx = [] ↔ WireValid b)
    (fun h0 => reads_provenLast ?_) (fun h0 => reads_signatureLast ?_) h
  · rw [WireValid, if_pos h0]
    refine reads_getVersionedOrder.bind ?_
    rintro _ _ ⟨⟨buyProofs, rfl⟩, rfl⟩
    refine reads_getVersionedOrder.bind ?_
    rintro _ _ ⟨⟨sellProofs, rfl⟩, rfl⟩
    exact reads_parseNumbers (.inl (by decide))
  · rw [WireValid, if_neg h0]
    refine reads_getInt.bind ?_
    rintro buyLength _ ⟨rfl, rfl⟩
    refine reads_getInt.bind ?_
    rintro sellLength _ ⟨rfl, rfl⟩
    refine reads_getByteArray.bind ?_
    rintro buyBytes _ ⟨-, rfl, -, rfl⟩
    refine reads_ofTry.bind ?_
    rintro buy _ ⟨hbuy, rfl⟩
    obtain ⟨buyProofs, rfl⟩ := OrderSerializer.eq_orderAt hbuy
    refine reads_getByteArray.bind ?_
    rintro sellBytes _ ⟨-, rfl, -, rfl⟩
    refine reads_ofTry.bind ?_
    rintro sell _ ⟨hsell, rfl⟩
    obtain ⟨sellProofs, rfl⟩ := OrderSerializer.eq_orderAt hsell
    exact reads_parseNumbers (.inr ⟨rfl, rfl⟩)

end ExchangeTxSerializer

/-! ### Leases and aliases -/

theorem LeaseTxSerializer.validate_iff [Crypto] {tx : LeaseTransaction}
    (h : LeaseTxSerializer.parseBytes b = .ok tx) :
    LeaseTxValidator.validate tx = [] ↔ WireValid b := by
  have hreads (version : TxVersion) : Reads (parseCommonPart version) b (fieldsAt b 1 4)
      fun f _ => ∀ proofs, LeaseTxValidator.validate (f proofs) = [] ↔ WireValid b := by
    refine reads_getPublicKey.bind ?_
    rintro sender _ ⟨rfl, -, rfl⟩
    refine reads_getAddressOrAlias.bind ?_
    rintro recipient _ ⟨hrecipient, rfl⟩
    refine reads_getLong.bind ?_
    rintro amount _ ⟨rfl, rfl⟩
    refine reads_getLong.bind ?_
    rintro fee _ ⟨rfl, rfl⟩
    refine reads_getLong.bind ?_
    rintro timestamp _ ⟨-, rfl⟩
    refine .pure fun proofs => ?_
    unfold LeaseTxValidator.validate WireValid
    dsimp only
    rw [← hrecipient, eq_comm (a := recipient)]
    simp
  refine of_eitherEncoding (Q := fun tx => LeaseTxValidator.validate tx = [] ↔ WireValid b)
    (fun h0 => ?_) (fun h0 => ?_) h
  · have hcommon := hreads 2
    rw [fieldsAt_modern h0] at hcommon
    refine reads_provenLast (reads_getAsset.bind ?_)
    rintro asset _ ⟨hasset, hlen, rfl⟩
    refine reads_require.bind ?_
    rintro _ _ ⟨hwaves, rfl⟩
    -- the asset is Waves, so it takes one byte
    have hwidth : assetWidth b 3 = 1 := by
      rw [← hlen, of_decide_eq_true hwaves]
      rfl
    rw [hwidth]
    exact hcommon
  · have hcommon := hreads 1
    rw [fieldsAt_old h0] at hcommon
    exact reads_signatureLast hcommon

theorem LeaseCancelTxSerializer.validate_iff [Crypto] {tx : LeaseCancelTransaction}
    (h : LeaseCancelTxSerializer.parseBytes b = .ok tx) :
    LeaseCancelTxValidator.validate tx = [] ↔ WireValid b := by
  have hreads (version : TxVersion) : Reads (parseCommonPart version) b (fieldsAt b 1 4)
      fun f _ => ∀ proofs, LeaseCancelTxValidator.validate (f proofs) = [] ↔ WireValid b := by
    refine reads_getPublicKey.bind ?_
    rintro sender _ ⟨-, -, rfl⟩
    refine reads_getLong.bind ?_
    rintro fee _ ⟨rfl, rfl⟩
    refine reads_getLong.bind ?_
    rintro timestamp _ ⟨-, rfl⟩
    refine reads_getArray.bind ?_
    rintro leaseId _ ⟨-, hlen, rfl⟩
    refine .pure fun proofs => ?_
    unfold LeaseCancelTxValidator.validate WireValid
    simp [hlen]
  refine of_eitherEncoding (Q := fun tx => LeaseCancelTxValidator.validate tx = [] ↔ WireValid b)
    (fun h0 => ?_) (fun h0 => ?_) h
  · have hcommon := hreads 2
    rw [fieldsAt_modern h0] at hcommon
    refine reads_provenLast (reads_header.bind ?_)
    rintro _ _ rfl
    exact hcommon
  · have hcommon := hreads 1
    rw [fieldsAt_old h0] at hcommon
    exact reads_signatureLast hcommon

theorem CreateAliasTxSerializer.validate_iff [Crypto] {tx : CreateAliasTransaction}
    (h : CreateAliasTxSerializer.parseBytes b = .ok tx) :
    TxFeeValidator.validate tx.fee = [] ↔ WireValid b := by
  have hreads (version : TxVersion) : Reads (parseCommonPart version) b (fieldsAt b 1 3)
      fun f _ => ∀ proofs, TxFeeValidator.validate (f proofs).fee = [] ↔ WireValid b := by
    refine reads_getPublicKey.bind ?_
    rintro sender _ ⟨-, -, rfl⟩
    refine reads_getAlias.bind ?_
    rintro a _ rfl
    refine reads_getLong.bind ?_
    rintro fee _ ⟨rfl, rfl⟩
    refine reads_getLong.bind ?_
    rintro timestamp _ ⟨-, rfl⟩
    exact .pure fun proofs => V.fee_eq_nil
  unfold CreateAliasTxSerializer.parseBytes at h
  split_ifs at h with hlen h10 h0
  · have hcommon := hreads 1
    rw [fieldsAt_old (by rw [h10]; decide)] at hcommon
    have hold : Reads (signatureLast (parseCommonPart 1)) b 1 fun tx _ =>
        TxFeeValidator.validate tx.fee = [] ↔ WireValid b := reads_signatureLast hcommon
    obtain ⟨-, hfee⟩ := hold.of_from h
    exact hfee
  · have hcommon := hreads 2
    rw [fieldsAt_modern h0.1] at hcommon
    have hmodern : Reads (provenLast (parseCommonPart 2)) b 3 fun tx _ =>
        TxFeeValidator.validate tx.fee = [] ↔ WireValid b := reads_provenLast hcommon
    obtain ⟨-, hfee⟩ := hmodern.of_from h
    exact hfee

/-! ### Types with one version -/

theorem reads_entryCount {p : ℕ} :
    Reads entryCount b p fun n q => n = (shortAt b p).toNat ∧ q = p + 2 := by
  refine reads_getShort.bind ?_
  rintro count _ ⟨rfl, rfl⟩
  refine reads_getThe.bind ?_
  rintro buf _ ⟨-, rfl⟩
  refine reads_require.bind ?_
  rintro _ _ ⟨-, rfl⟩
  exact .pure ⟨rfl, rfl⟩

theorem MassTransferTxSerializer.validate_iff [Crypto] {tx : MassTransferTransaction}
    (h : MassTransferTxSerializer.parseBytes b = .ok tx) :
    MassTransferTxValidator.validate tx = [] ↔ WireValid b := by
  have htransfer (p : ℕ) : Reads readTransfer b p fun t q =>
      t.amount = longAt b (p + recipientWidth b p) ∧ q = nextTransfer b p := by
    refine reads_AddressOrAlias_read.bind ?_
    rintro recipient _ rfl
    refine reads_getLong.bind ?_
    rintro amount _ ⟨rfl, rfl⟩
    exact .pure ⟨rfl, rfl⟩
  suffices hreads : Reads parse b 0 fun tx _ =>
      MassTransferTxValidator.validate tx = [] ↔ WireValid b by
    obtain ⟨-, hvalid⟩ := hreads.of_from h
    exact hvalid
  refine reads_header.bind fun _ q hq => ?_
  obtain rfl : q = 2 := hq
  refine reads_getPublicKey.bind ?_
  rintro sender _ ⟨-, -, rfl⟩
  refine reads_getAsset.bind ?_
  rintro assetId _ ⟨-, -, rfl⟩
  refine reads_entryCount.bind ?_
  rintro count _ ⟨rfl, rfl⟩
  refine (Reads.fill htransfer _ _).bind ?_
  rintro transfers _ ⟨hamounts, rfl⟩
  refine reads_getLong.bind ?_
  rintro timestamp _ ⟨-, rfl⟩
  refine reads_getLong.bind ?_
  rintro fee _ ⟨rfl, rfl⟩
  refine reads_parseArrayWithLength.bind ?_
  rintro attachment _ ⟨-, hattachment, rfl⟩
  refine reads_getProofs.bind fun proofs _ _ => .pure ?_
  have hlength := congrArg List.length hamounts
  rw [List.length_map, List.length_map, List.length_iterate] at hlength
  have hnonneg : (transfers.all fun t => t.amount ≥ 0) = true ↔
      ∀ amount ∈ transfers.map ParsedTransfer.amount, 0 ≤ amount := by
    simp
  unfold MassTransferTxValidator.validate WireValid
  simp only [List.append_eq_nil_iff, V.noOverflow_eq_nil, V.cond_eq_nil, V.fee_eq_nil, hnonneg,
    hattachment, hlength, decide_eq_true_eq, and_assoc]
  rw [hamounts]

theorem SetScriptTxSerializer.validate_iff [Crypto] [ScriptReader] {tx : SetScriptTransaction}
    (h : SetScriptTxSerializer.parseBytes b = .ok tx) :
    TxFeeValidator.validate tx.fee = [] ↔ WireValid b := by
  have hreads : Reads SetScriptTxSerializer.parse b 0 fun tx _ =>
      TxFeeValidator.validate tx.fee = [] ↔ WireValid b := by
    refine reads_header.bind ?_
    rintro _ _ rfl
    refine reads_getPublicKey.bind ?_
    rintro sender _ ⟨-, -, rfl⟩
    refine reads_getScript.bind ?_
    rintro script _ ⟨-, rfl⟩
    refine reads_getLong.bind ?_
    rintro fee _ ⟨rfl, rfl⟩
    refine reads_getLong.bind ?_
    rintro timestamp _ ⟨-, rfl⟩
    exact reads_getProofs.bind fun proofs _ _ => .pure V.fee_eq_nil
  obtain ⟨-, hfee⟩ := hreads.of_from h
  exact hfee

theorem SponsorFeeTxSerializer.validate_iff {tx : SponsorFeeTransaction}
    (h : SponsorFeeTxSerializer.parseBytes b = .ok tx) :
    SponsorFeeTxValidator.validate tx = [] ↔ WireValid b := by
  have hreads : Reads SponsorFeeTxSerializer.parse b 0 fun tx _ =>
      SponsorFeeTxValidator.validate tx = [] ↔ WireValid b := by
    refine reads_header.bind fun _ q hq => ?_
    obtain rfl : q = 5 := hq
    refine reads_getPublicKey.bind ?_
    rintro sender _ ⟨-, -, rfl⟩
    refine reads_getIssuedAsset.bind ?_
    rintro asset _ ⟨-, -, rfl⟩
    refine reads_getLong.bind ?_
    rintro minSponsoredAssetFee _ ⟨rfl, rfl⟩
    refine reads_getLong.bind ?_
    rintro fee _ ⟨rfl, rfl⟩
    refine reads_getLong.bind ?_
    rintro timestamp _ ⟨-, rfl⟩
    refine reads_getProofs.bind fun proofs _ _ => .pure ?_
    unfold SponsorFeeTxValidator.validate WireValid
    simp only [List.append_eq_nil_iff, V.cond_eq_nil, V.fee_eq_nil]
    refine and_congr ?_ Iff.rfl
    -- a minimal fee of zero is no fee, and passes
    split_ifs with h0
    · have hzero : 0 ≤ longAt b (5 + KeyLength + AssetIdLength) := by rw [h0]; decide
      simpa using hzero
    · rw [Option.all_some, decide_eq_true_eq]
      have hne : (longAt b (5 + KeyLength + AssetIdLength)).toInt ≠ 0 := fun hz =>
        h0 (Long.toInt_inj (hz.trans Long.toInt_zero.symm))
      rw [gt_iff_lt, Long.pos_iff, Long.nonneg_iff]
      exact ⟨le_of_lt, fun hle => lt_of_le_of_ne hle (Ne.symm hne)⟩
  obtain ⟨-, hvalid⟩ := hreads.of_from h
  exact hvalid

theorem SetAssetScriptTxSerializer.validate_iff [Crypto] [ScriptReader]
    {tx : SetAssetScriptTransaction} (h : SetAssetScriptTxSerializer.parseBytes b = .ok tx) :
    SetAssetScriptTxValidator.validate tx = [] ↔ WireValid b := by
  have hreads : Reads SetAssetScriptTxSerializer.parse b 0 fun tx _ =>
      SetAssetScriptTxValidator.validate tx = [] ↔ WireValid b := by
    refine reads_header.bind ?_
    rintro _ _ rfl
    refine reads_getPublicKey.bind ?_
    rintro sender _ ⟨-, -, rfl⟩
    refine reads_getIssuedAsset.bind ?_
    rintro asset _ ⟨-, -, rfl⟩
    refine reads_getLong.bind ?_
    rintro fee _ ⟨rfl, rfl⟩
    refine reads_getLong.bind ?_
    rintro timestamp _ ⟨-, rfl⟩
    refine reads_getScript.bind ?_
    rintro script _ ⟨rfl, -⟩
    refine reads_getProofs.bind fun proofs _ _ => .pure ?_
    unfold SetAssetScriptTxValidator.validate WireValid
    rw [List.append_eq_nil_iff, V.cond_eq_nil, V.fee_eq_nil, Script.all_expr_iff]
    rfl
  obtain ⟨-, hvalid⟩ := hreads.of_from h
  exact hvalid

/-! ### Types with a limit on their bytes -/

theorem Deser.length_serializeArrays (bs : List ByteStr) :
    (Deser.serializeArrays bs).length = 2 + ((bs.map List.length).map (2 + ·)).sum := by
  unfold Deser.serializeArrays
  rw [List.length_append, Shorts.length_toByteArray, List.length_flatten, List.map_map,
    List.map_map]
  congr 3
  funext bytes
  rw [Function.comp_apply, Function.comp_apply, Deser.serializeArrayWithLength, List.length_append,
    Shorts.length_toByteArray]

/-- Proofs that were read can be written again, in the bytes they were read from. -/
theorem Proofs.of_read {proofs : Proofs} {p : ℕ}
    (hlen : proofs.proofs.map List.length = (arrayPlaces b (p + 1)).map (arrayLength b))
    (hvalid : Proofs.validate proofs.proofs = .ok ()) :
    proofs.writable = true ∧ proofs.bytes.length = proofsWidth b p := by
  constructor
  · obtain ⟨_, hcount, -⟩ := Validation.bind_eq_ok.mp hvalid
    rw [Validation.cond_eq_ok, decide_eq_true_eq] at hcount
    have hle : ∀ x ∈ proofs.proofs, x.length ≤ Short.MaxValue := by
      intro x hx
      have hmem := List.mem_map_of_mem (f := List.length) hx
      rw [hlen] at hmem
      obtain ⟨r, -, hr⟩ := List.mem_map.mp hmem
      have := shortAt_le b r
      rw [← hr, arrayLength, Short.MaxValue]
      omega
    have hcount' : proofs.proofs.length ≤ Short.MaxValue := hcount.trans (by decide)
    simpa [Proofs.writable, hcount'] using hle
  · rw [Proofs.bytes, List.length_cons, Deser.length_serializeArrays, hlen, List.map_map, proofsWidth]
    simp only [Function.comp_def]
    omega

namespace DataTxSerializer

theorem DataEntry.reads_parse {p : ℕ} :
    Reads DataEntry.parse b p fun e _ => e.writable = true := by
  refine reads_getShort.bind fun keyLength q _ => ?_
  refine reads_getByteArray.bind fun bytes q _ => ?_
  unfold DataEntry.parseValue
  refine reads_get.bind fun type q _ => ?_
  split_ifs
  · exact reads_getLong.bind fun v _ _ => .pure rfl
  · exact reads_get.bind fun v _ _ => .pure rfl
  · refine reads_parseArrayWithLength.bind ?_
    rintro v _ ⟨-, hlen, rfl⟩
    refine .pure ?_
    have hle : v.length ≤ Short.MaxValue := by
      have := shortAt_le b q
      rw [hlen, arrayLength, Short.MaxValue]
      omega
    simpa [DataEntry.writable] using hle
  · refine reads_getThe.bind fun start _ _ => ?_
    refine reads_parseArrayWithLength.bind fun blob _ _ => ?_
    refine reads_getThe.bind fun stop _ _ => ?_
    exact reads_require.bind fun _ _ _ => .pure rfl
  · exact .throw

variable [Crypto] [PBTransactionSerializer]

theorem length_bytes {tx : DataTransaction} (hversion : tx.version = 1) :
    (TxSerializer.bytes (.data tx)).length =
      1 + 2 + tx.sender.length + 2 + (tx.data.map DataEntry.toBytes).flatten.length + 8 + 8 +
        tx.proofs.bytes.length := by
  have hbody : TxSerializer.bytes (.data tx) = 0 :: bodyBytes tx ++ tx.proofs.bytes := rfl
  rw [hbody, bodyBytes, singleVersionBody, if_pos hversion]
  simp only [List.cons_append, List.length_cons, List.length_append, Longs.length_toByteArray,
    Shorts.length_toByteArray]
  omega

theorem validate_iff {tx : DataTransaction} (h : parseBytes b = .ok tx) :
    DataTxValidator.validate tx = [] ↔ WireValid b := by
  suffices hreads : Reads parse b 0 fun tx _ => DataTxValidator.validate tx = [] ↔ WireValid b by
    obtain ⟨-, hvalid⟩ := hreads.of_from h
    exact hvalid
  refine reads_header.bind fun _ q hq => ?_
  obtain rfl : q = 3 := hq
  refine reads_getPublicKey.bind ?_
  rintro sender q ⟨-, hsender, hq⟩
  obtain rfl : q = 35 := hq
  refine reads_entryCount.bind ?_
  rintro count q ⟨rfl, hq⟩
  obtain rfl : q = 37 := hq
  have hentries := Reads.fill_forall (fun p => DataEntry.reads_parse (b := b) (p := p))
    (shortAt b 35).toNat 37
  refine (hentries.and (hentries.self)).bind ?_
  rintro data entriesEnd ⟨hwritable, hrun⟩
  refine reads_getLong.bind ?_
  rintro timestamp _ ⟨-, rfl⟩
  refine reads_getLong.bind ?_
  rintro fee _ ⟨rfl, rfl⟩
  refine reads_getProofs.bind ?_
  rintro proofs _ ⟨hlen, hproofs⟩
  refine .pure ?_
  obtain ⟨hproofsWritable, hproofsLength⟩ := Proofs.of_read (p := entriesEnd + 8 + 8) hlen hproofs
  have hdata : data.all DataEntry.writable = true := List.all_eq_true.mpr hwritable
  have hfits : fitsIn (.data ⟨1, sender, data, longAt b (entriesEnd + 8), timestamp, proofs⟩)
      (data.all DataEntry.writable && proofs.writable) DataTransaction.MaxBytes = true ↔
      1 + 2 + KeyLength + 2 + (data.map DataEntry.toBytes).flatten.length + 8 + 8 +
        proofsWidth b (entriesEnd + 8 + 8) ≤ DataTransaction.MaxBytes := by
    unfold fitsIn
    rw [length_bytes rfl, hsender, hproofsLength, hdata, hproofsWritable]
    simp [Transaction.isProtobufVersion, Transaction.version?, Transaction.protobufVersion?]
  rw [WireValid, forall_run_iff (C := EntriesValid b) hrun]
  unfold DataTxValidator.validate EntriesValid
  simp only [List.append_eq_nil_iff, V.cond_eq_nil, V.fee_eq_nil, hfits]
  simp [and_assoc]

end DataTxSerializer

namespace InvokeScriptTxSerializer

/-- A payment's amount, and the bytes it takes when it is written. -/
def amountAndWidth (p : Payment) : Long × ℕ :=
  (p.amount, (Longs.toByteArray p.amount ++ p.assetId.byteRepr).length)

theorem parsePayment_eq_ok {r : ℕ} {payment : Payment}
    (h : parsePayment (slice b (r + 2) (arrayLength b r)) = .ok payment)
    (hlen : (slice b (r + 2) (arrayLength b r)).length = arrayLength b r) :
    amountAndWidth payment = (longAt b (r + 2), paymentWidth b r) := by
  unfold parsePayment at h
  rw [hlen] at h
  by_cases h8 : arrayLength b r ≤ 8
  · rw [if_pos h8] at h
    cases h
  · rw [if_neg h8, byteAt_slice (by omega), Except.ok.injEq] at h
    have hamount : longAt (slice b (r + 2) (arrayLength b r)) 0 = longAt b (r + 2) := by
      rw [longAt, slice_slice (by omega), Nat.add_zero, longAt]
    rw [hamount] at h
    subst h
    unfold amountAndWidth paymentWidth
    rw [List.length_append, Longs.length_toByteArray]
    by_cases hflag : byteAt b (r + 2 + 8) = 1
    · rw [if_pos hflag, if_pos hflag, Asset.byteRepr, List.length_cons, slice, List.length_take,
        List.length_drop, hlen, Nat.add_comm 1]
    · rw [if_neg hflag, if_neg hflag]
      rfl

theorem map_parsePayment {places : List ℕ} {payments : List Payment}
    (h : (places.map fun r => slice b (r + 2) (arrayLength b r)).mapM parsePayment = .ok payments)
    (hlen : ∀ r ∈ places, (slice b (r + 2) (arrayLength b r)).length = arrayLength b r) :
    payments.map amountAndWidth = places.map fun r => (longAt b (r + 2), paymentWidth b r) := by
  induction places generalizing payments with
  | nil =>
    cases h
    rfl
  | cons r places ih =>
    rw [List.map_cons, List.mapM_cons] at h
    cases hpayment : parsePayment (slice b (r + 2) (arrayLength b r)) with
    | error e =>
      rw [hpayment] at h
      cases h
    | ok payment =>
      cases hrest : (places.map fun r => slice b (r + 2) (arrayLength b r)).mapM parsePayment with
      | error e =>
        rw [hpayment, hrest] at h
        cases h
      | ok rest =>
        rw [hpayment, hrest] at h
        cases h
        rw [List.map_cons, List.map_cons, parsePayment_eq_ok hpayment (hlen r List.mem_cons_self),
          ih hrest fun r hr => hlen r (List.mem_cons_of_mem _ hr)]

variable [Crypto] [PBTransactionSerializer]

theorem length_bytes {tx : InvokeScriptTransaction} (hversion : tx.version = 1) :
    (TxSerializer.bytes (.invokeScript tx)).length =
      4 + tx.sender.length + tx.dAppAddressOrAlias.bytes.length +
        (Deser.serializeOption (tx.funcCallOpt.map Serde.serialize)).length +
        (2 + ((tx.payments.map amountAndWidth).map fun p => 2 + p.2).sum) + 8 +
        tx.feeAssetId.byteRepr.length + 8 + tx.proofs.bytes.length := by
  have hbody : TxSerializer.bytes (.invokeScript tx) = 0 :: bodyBytes tx ++ tx.proofs.bytes := rfl
  rw [hbody, bodyBytes, singleVersionBody, if_pos hversion]
  simp only [List.cons_append, List.length_cons, List.length_append, Longs.length_toByteArray,
    Deser.length_serializeArrays, List.map_map, Function.comp_def, amountAndWidth]
  omega

/-- What follows the call, whatever the call is. -/
theorem reads_afterCall {sender : PublicKey} {dApp : AddressOrAlias} {call : Option FunctionCall}
    {p : ℕ} (hsender : sender.length = KeyLength) :
    Reads (do
      let arrays ← Deser.parseArrays
      let payments ← Reader.ofTry (arrays.mapM parsePayment)
      let fee ← getLong
      let feeAssetId ← getAsset
      let timestamp ← getLong
      let proofs ← getProofs
      pure (⟨1, sender, dApp, call, payments, fee, feeAssetId, timestamp, proofs⟩ :
        InvokeScriptTransaction)) b p fun tx _ =>
      InvokeScriptTxValidator.validate tx = [] ↔ CallValid b dApp call p := by
  refine reads_parseArrays.bind ?_
  rintro arrays _ ⟨rfl, hlengths, rfl⟩
  refine reads_ofTry.bind ?_
  rintro payments _ ⟨hpayments, rfl⟩
  refine reads_getLong.bind ?_
  rintro fee _ ⟨rfl, rfl⟩
  refine reads_getAsset.bind ?_
  rintro feeAssetId _ ⟨-, hfeeAsset, rfl⟩
  refine reads_getLong.bind ?_
  rintro timestamp _ ⟨-, rfl⟩
  refine reads_getProofs.bind ?_
  rintro proofs _ ⟨hlen, hproofs⟩
  refine .pure ?_
  obtain ⟨hproofsWritable, hproofsLength⟩ := Proofs.of_read
    (p := arraysEnd b p + 8 + assetWidth b (arraysEnd b p + 8) + 8) hlen hproofs
  have hmap := map_parsePayment hpayments fun r hr => by
    rw [List.map_map, List.map_inj_left] at hlengths
    exact hlengths r hr
  have hcount : payments.length ≤ Short.MaxValue := by
    have hlength := congrArg List.length hmap
    rw [List.length_map, List.length_map, arrayPlaces, List.length_iterate] at hlength
    have := shortAt_le b p
    rw [hlength, Short.MaxValue]
    omega
  have hpositive : payments.filter (fun p => p.amount ≤ 0) = [] ↔
      ∀ r ∈ arrayPlaces b p, 0 < longAt b (r + 2) := by
    have hamounts := congrArg (List.map Prod.fst) hmap
    rw [List.map_map, List.map_map] at hamounts
    rw [List.filter_eq_nil_iff]
    calc (∀ p ∈ payments, ¬decide (p.amount ≤ 0) = true)
        ↔ ∀ a ∈ payments.map (Prod.fst ∘ amountAndWidth), 0 < a := by
          simp [amountAndWidth, Long.le_iff, Long.lt_iff]
      _ ↔ ∀ r ∈ arrayPlaces b p, 0 < longAt b (r + 2) := by
          rw [hamounts, List.forall_mem_map]
          rfl
  have hfits : fitsIn (.invokeScript ⟨1, sender, dApp, call, payments, longAt b (arraysEnd b p),
        feeAssetId, timestamp, proofs⟩)
      (payments.length ≤ Short.MaxValue && proofs.writable)
      ContractLimits.MaxInvokeScriptSizeInBytes = true ↔
      4 + KeyLength + dApp.bytes.length +
        (Deser.serializeOption (call.map Serde.serialize)).length +
        (2 + ((arrayPlaces b p).map fun r => 2 + paymentWidth b r).sum) + 8 +
        assetWidth b (arraysEnd b p + 8) + 8 +
        proofsWidth b (arraysEnd b p + 8 + assetWidth b (arraysEnd b p + 8) + 8) ≤
          ContractLimits.MaxInvokeScriptSizeInBytes := by
    unfold fitsIn
    rw [length_bytes rfl, hsender, hproofsLength, hproofsWritable, hfeeAsset, hmap, List.map_map]
    simp [Transaction.isProtobufVersion, Transaction.version?, Transaction.protobufVersion?, hcount,
      Function.comp_def]
  unfold InvokeScriptTxValidator.validate CallValid
  simp only [List.append_eq_nil_iff, List.map_eq_nil_iff, V.cond_eq_nil, V.fee_eq_nil, hfits,
    hpositive, and_assoc]

theorem validate_iff {tx : InvokeScriptTransaction} (h : parseBytes b = .ok tx) :
    InvokeScriptTxValidator.validate tx = [] ↔ WireValid b := by
  suffices hreads : Reads parse b 0 fun tx _ =>
      InvokeScriptTxValidator.validate tx = [] ↔ WireValid b by
    obtain ⟨-, hvalid⟩ := hreads.of_from h
    exact hvalid
  refine reads_header.bind fun _ q hq => ?_
  obtain rfl : q = 4 := hq
  refine reads_getPublicKey.bind ?_
  rintro sender _ ⟨-, hsender, rfl⟩
  have hdApp : Reads getAddressOrAlias b (4 + KeyLength) fun dApp q =>
      getAddressOrAlias ⟨b, 4 + KeyLength⟩ = .ok (dApp, ⟨b, q⟩) := reads_getAddressOrAlias.self
  refine hdApp.bind ?_
  intro dApp flagAt hdApp
  refine reads_get.bind ?_
  rintro flag _ ⟨rfl, rfl⟩
  rw [WireValid, forall_run_iff (C := fun dApp flagAt => if byteAt b flagAt = 1 then
    ∀ call rest, Serde.deserializeCall ⟨b, flagAt + 1⟩ = .ok (call, rest) →
        CallValid b dApp (some call) rest.position
    else CallValid b dApp none (flagAt + 1)) hdApp]
  by_cases h1 : byteAt b flagAt = 1
  · rw [if_pos h1, if_pos h1]
    have hcall : Reads (some <$> Serde.deserializeCall) b (flagAt + 1) fun call q =>
        ∃ c, call = some c ∧ Serde.deserializeCall ⟨b, flagAt + 1⟩ = .ok (c, ⟨b, q⟩) :=
      (Serde.stays_deserializeCall b (flagAt + 1)).self.map fun c q hq => ⟨c, rfl, hq⟩
    refine hcall.bind ?_
    rintro _ rest ⟨call, rfl, hrun⟩
    rw [forall_run_iff (C := fun call q => CallValid b dApp (some call) q) hrun]
    exact reads_afterCall hsender
  · rw [if_neg h1, if_neg h1]
    refine Reads.bind (Q := fun call q => call = none ∧ q = flagAt + 1) (.pure ⟨rfl, rfl⟩) ?_
    rintro _ _ ⟨rfl, rfl⟩
    exact reads_afterCall hsender

end InvokeScriptTxSerializer

end

/-! ## 4. Both ways in -/

theorem Except.map_eq_ok {ε α β : Type} {f : α → β} {x : Except ε α} {b : β} :
    f <$> x = .ok b ↔ ∃ a, x = .ok a ∧ f a = b := by
  cases x with
  | error e => simp [Functor.map, Except.map]
  | ok a => simp [Functor.map, Except.map]

section
variable [Crypto] [PBTransactionSerializer] [ScriptReader]

/-- One line of a dispatch: the type it names, its parser, and what its validator comes
to. -/
theorem dispatch {α : Type} {b : ByteStr} {tx : Transaction} {c : Prop} [Decidable c]
    {typeId : Byte} {build : α → Transaction} {parse : Except String α}
    {rest : Except String Transaction} (htype : c → typeAt b = typeId)
    (hparse : ∀ t, parse = .ok t → ((build t).validate = [] ↔ WireValidOf typeId b))
    (hrest : rest = .ok tx → (tx.validate = [] ↔ WireValid b))
    (h : (if c then build <$> parse else rest) = .ok tx) : tx.validate = [] ↔ WireValid b := by
  by_cases hc : c
  · rw [if_pos hc] at h
    obtain ⟨t, ht, rfl⟩ := Except.map_eq_ok.mp h
    rw [WireValid, htype hc]
    exact hparse t ht
  · rw [if_neg hc] at h
    exact hrest h

/-- A parsed transaction is valid exactly when its array is. -/
theorem TransactionParsers.validate_iff {b : ByteStr} {tx : Transaction}
    (h : TransactionParsers.parseBytes b = .ok tx) : tx.validate = [] ↔ WireValid b := by
  unfold TransactionParsers.parseBytes at h
  split_ifs at h with hlen h0
  · have htype {typeId : Byte} {c : Prop} (h : byteAt b 1 = typeId ∧ c) : typeAt b = typeId := by
      rw [typeAt, if_pos h0, h.1]
    revert h
    refine dispatch htype (fun _ ht => IssueTxSerializer.validate_iff ht) ?_
    refine dispatch htype (fun _ ht => TransferTxSerializer.validate_iff ht) ?_
    refine dispatch htype (fun _ ht => ReissueTxSerializer.validate_iff ht) ?_
    refine dispatch htype (fun _ ht => BurnTxSerializer.validate_iff ht) ?_
    refine dispatch htype (fun _ ht => ExchangeTxSerializer.validate_iff ht) ?_
    refine dispatch htype (fun _ ht => LeaseTxSerializer.validate_iff ht) ?_
    refine dispatch htype (fun _ ht => LeaseCancelTxSerializer.validate_iff ht) ?_
    refine dispatch htype (fun _ ht => CreateAliasTxSerializer.validate_iff ht) ?_
    refine dispatch htype (fun _ ht => DataTxSerializer.validate_iff ht) ?_
    refine dispatch htype (fun _ ht => SetScriptTxSerializer.validate_iff ht) ?_
    refine dispatch htype (fun _ ht => SponsorFeeTxSerializer.validate_iff ht) ?_
    refine dispatch htype (fun _ ht => SetAssetScriptTxSerializer.validate_iff ht) ?_
    refine dispatch htype (fun _ ht => InvokeScriptTxSerializer.validate_iff ht) ?_
    exact fun h => absurd h (by simp)
  · have htype {typeId : Byte} (h : byteAt b 0 = typeId) : typeAt b = typeId := by
      rw [typeAt, if_neg h0, h]
    revert h
    refine dispatch htype (fun _ ht => GenesisTxSerializer.validate_iff ht) ?_
    refine dispatch htype (fun _ ht => PaymentTxSerializer.validate_iff ht) ?_
    refine dispatch htype (fun _ ht => IssueTxSerializer.validate_iff ht) ?_
    refine dispatch htype (fun _ ht => TransferTxSerializer.validate_iff ht) ?_
    refine dispatch htype (fun _ ht => ReissueTxSerializer.validate_iff ht) ?_
    refine dispatch htype (fun _ ht => BurnTxSerializer.validate_iff ht) ?_
    refine dispatch htype (fun _ ht => ExchangeTxSerializer.validate_iff ht) ?_
    refine dispatch htype (fun _ ht => LeaseTxSerializer.validate_iff ht) ?_
    refine dispatch htype (fun _ ht => LeaseCancelTxSerializer.validate_iff ht) ?_
    refine dispatch htype (fun _ ht => CreateAliasTxSerializer.validate_iff ht) ?_
    refine dispatch htype (fun _ ht => MassTransferTxSerializer.validate_iff ht) ?_
    exact fun h => absurd h (by simp)

/-- A transaction from a protobuf message is valid exactly when the fields of a transfer
are. -/
theorem PBTransactions.validate_iff {signedTx : PBSignedTransaction} {tx : Transaction}
    (h : PBTransactions.vanilla signedTx = .ok tx) :
    tx.validate = [] ↔ TransferFieldsValid signedTx := by
  obtain ⟨parsedTx, hparsed, h⟩ := Validation.bind_eq_ok.mp h
  obtain ⟨fee, hfee, h⟩ := Validation.bind_eq_ok.mp h
  obtain ⟨_, -, h⟩ := Validation.bind_eq_ok.mp h
  rw [Validation.ofOption_eq_ok] at hparsed hfee
  dsimp only at h
  by_cases htransfer : ∃ recipient amount attachment,
      parsedTx.data = .Transfer recipient amount attachment
  · obtain ⟨recipient, amount, attachment, hdata⟩ := htransfer
    rw [hdata] at h
    -- a transfer that was built had a recipient and an amount
    rcases recipient with _ | recipient
    · simp [createVanilla] at h
    · rcases amount with _ | amount
      · simp [createVanilla] at h
      · obtain ⟨address, -, h⟩ := Validation.bind_eq_ok.mp h
        cases h
        have hvalid : TransferFieldsValid signedTx ↔ 0 < fee.amount ∧ 0 < amount.amount ∧
            attachment.length ≤ TransferTransaction.MaxAttachmentSize := by
          unfold TransferFieldsValid
          constructor
          · exact fun h => h parsedTx fee _ amount attachment hparsed hfee hdata
          · rintro h tx fee' recipient' amount' attachment' htx hfee' hdata'
            rw [hparsed] at htx
            cases htx
            rw [hfee] at hfee'
            cases hfee'
            rw [hdata] at hdata'
            cases hdata'
            exact h
        rw [hvalid]
        change TransferTxValidator.validate _ = [] ↔ _
        unfold TransferTxValidator.validate
        simp [PBAmounts.toAssetAndAmount]
  · have hvalid : tx.validate = [] := createVanilla_valid
      (fun recipient amount attachment hdata => htransfer ⟨recipient, amount, attachment, hdata⟩) h
    refine iff_of_true hvalid ?_
    intro tx' fee' recipient amount attachment htx _ hdata
    rw [hparsed] at htx
    cases htx
    exact absurd ⟨recipient, some amount, attachment, hdata⟩ htransfer

end

/-! ## 5. A transfer of a negative amount -/

namespace Devnet

/-- No script is read here. -/
@[reducible] def scriptReader : ScriptReader := ⟨fun _ => .error "no script"⟩

def transferToBobBytes : ByteStr :=
  bytes 152 0x0439f441fcae8561b6a2165ffee83e20a03bc8aadbbd5d00c86eb65aa46a45bf37571c02d336be3e1a6ff02cede367d2fd09c4beab6238acce8b1bed238739dd8d042e8b2883c27b391359d7d0c15d00815a6693290a38dd8eba341cc07ddaa8ed4d00000000015d3ef798000000000005f5e10000000000000186a00154aa259a33e350952c45254e402badc9b74c47e88d2cdd1ded0000

def transferToBobMessage : PBSignedTransaction where
  transaction := some
    { chainId := 84
      senderPublicKey := alice.publicKey
      fee := some ⟨[], 100000⟩
      timestamp := 1500000000000
      version := 1
      data := .Transfer (some (.Address bob.address.bytes)) (some ⟨[], 100000000⟩) [] }
  proofs := transferToBob.proofs.proofs

/-- Alice sends Bob a Waves less than nothing, and signs. -/
def negativeTransfer : TransferTransaction where
  version := 1
  sender := alice.publicKey
  recipient := .address bob.address
  assetId := .Waves
  amount := -100000000
  feeAssetId := .Waves
  fee := 100000
  attachment := []
  timestamp := 1500000000000
  proofs := ⟨[bytes 64
    0x161e6a97dc9e85e06b8ffac28e6ddfddef409aa588e2723a0bb41e894eb6b5b723792a00db36cc0db3995495e0493896d61c0723d9a2fab34b3fd686d299c081]⟩

def negativeTransferBytes : ByteStr :=
  bytes 152 0x04161e6a97dc9e85e06b8ffac28e6ddfddef409aa588e2723a0bb41e894eb6b5b723792a00db36cc0db3995495e0493896d61c0723d9a2fab34b3fd686d299c081042e8b2883c27b391359d7d0c15d00815a6693290a38dd8eba341cc07ddaa8ed4d00000000015d3ef79800fffffffffa0a1f0000000000000186a00154aa259a33e350952c45254e402badc9b74c47e88d2cdd1ded0000

end Devnet

section
open Devnet

local instance parsingCrypto : Crypto := KnownAnswers.crypto {}
local instance parsingSerializer : PBTransactionSerializer := pbTransactionSerializer
local instance parsingScripts : ScriptReader := scriptReader

theorem parseBytes_transferToBob :
    TransactionParsers.parseBytes transferToBobBytes = .ok (.transfer transferToBob) ∧
      TransactionParsers.parseBytes negativeTransferBytes = .ok (.transfer negativeTransfer) := by
  decide +kernel

end

end WavesNode
