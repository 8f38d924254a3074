/-
What `bytes()` of a transaction comes to.

`TxSerializer.bytes` is total: it wraps a body without asking whether the body can be
written. `toBytes` is the function of the source, which throws where an array is longer than
the 16-bit length before it can say, where a protobuf version is asked for in the older
form, and where a version has no match. What it gives is the common part of the type
(`baseBytes`) between the header of a version and its signature or proofs; one lemma a
version says so, and the readers are compared with these forms.
-/
import WavesNode.TxValidators

set_option autoImplicit false

namespace WavesNode

/-! ## 1. What can be written -/

section

def Short.isValid (n : ℕ) : Bool := n ≤ Short.MaxValue

/-- A script fits the length it is written after, if there is one. -/
def scriptFits (script : Option Script) : Bool := script.all fun s => Short.isValid s.bytes.length

/-- `OrderSerializer.toBytes` has a case for three versions. -/
def Order.writable (o : Order) : Bool :=
  o.version = 1 || ((o.version = 2 || o.version = 3) && o.proofs.writable)

/-- Whether every array of a transaction fits the length it is written after. -/
def Transaction.writable : Transaction → Bool
  | genesis tx => tx.recipient.bytes.length = Address.AddressLength
  | payment _ => true
  | issue tx => Short.isValid tx.name.length && Short.isValid tx.description.length &&
      (tx.version = 1 || (scriptFits tx.script && tx.proofs.writable))
  | transfer tx => Short.isValid tx.attachment.length && (tx.version = 1 || tx.proofs.writable)
  | reissue tx => tx.version = 1 || tx.proofs.writable
  | burn tx => tx.version = 1 || tx.proofs.writable
  | exchange tx =>
      tx.buyOrder.writable && tx.sellOrder.writable && (tx.version = 1 || tx.proofs.writable)
  | lease tx => tx.version = 1 || tx.proofs.writable
  | leaseCancel tx => tx.version = 1 || tx.proofs.writable
  | createAlias tx => tx.version = 1 || tx.proofs.writable
  | massTransfer tx => Short.isValid tx.attachment.length && tx.proofs.writable
  | data tx => tx.data.all DataEntry.writable && tx.proofs.writable
  | setScript tx => scriptFits tx.script && tx.proofs.writable
  | sponsorFee tx => tx.proofs.writable
  | setAssetScript tx => scriptFits tx.script && tx.proofs.writable
  | invokeScript tx => Short.isValid tx.payments.length && tx.proofs.writable

end

variable [Crypto] [PBTransactionSerializer]

/-- `bytes()`, of every type. -/
def TxSerializer.toBytes (tx : Transaction) : Except String ByteStr :=
  if tx.isProtobufVersion then .error "requirement failed: Should be serialized with protobuf"
  else if tx.isSigProofsSwitch && tx.version? ≠ some 1 && tx.version? ≠ some 2 then
    .error "MatchError"
  else if tx.writable then .ok (TxSerializer.bytes tx)
  else .error "Attempting to serialize array with size, but the size exceeds MaxShort"

theorem TxSerializer.toBytes_eq_ok {tx : Transaction} {b : ByteStr}
    (hprotobuf : tx.isProtobufVersion = false)
    (hversion : tx.isSigProofsSwitch = true → tx.version? = some 1 ∨ tx.version? = some 2) :
    TxSerializer.toBytes tx = .ok b ↔ tx.writable = true ∧ TxSerializer.bytes tx = b := by
  have hmatch : (tx.isSigProofsSwitch && tx.version? ≠ some 1 && tx.version? ≠ some 2) = false := by
    rcases hswitch : tx.isSigProofsSwitch with _ | _
    · rfl
    · rcases hversion hswitch with h | h
      · simp [h]
      · simp [h]
  rw [TxSerializer.toBytes, hprotobuf, hmatch, if_neg (by decide), if_neg (by decide)]
  by_cases hwritable : tx.writable = true
  · rw [if_pos hwritable]
    simp [hwritable]
  · rw [if_neg hwritable]
    simp [hwritable]

/-! ## 2. The common parts -/

section

omit [Crypto] [PBTransactionSerializer]

namespace IssueTxSerializer

def baseBytes (tx : IssueTransaction) : ByteStr :=
  tx.sender ++ Deser.serializeArrayWithLength tx.name ++
    Deser.serializeArrayWithLength tx.description ++ Longs.toByteArray tx.quantity ++
    [tx.decimals] ++ Deser.serializeBoolean tx.reissuable ++ Longs.toByteArray tx.fee ++
    Longs.toByteArray tx.timestamp

end IssueTxSerializer

namespace TransferTxSerializer

def baseBytes (tx : TransferTransaction) : ByteStr :=
  tx.sender ++ tx.assetId.byteRepr ++ tx.feeAssetId.byteRepr ++
    Longs.toByteArray tx.timestamp ++ Longs.toByteArray tx.amount ++ Longs.toByteArray tx.fee ++
    tx.recipient.bytes ++ Deser.serializeArrayWithLength tx.attachment

end TransferTxSerializer

namespace ReissueTxSerializer

def baseBytes (tx : ReissueTransaction) : ByteStr :=
  tx.sender ++ tx.asset.id ++ Longs.toByteArray tx.quantity ++
    Deser.serializeBoolean tx.reissuable ++ Longs.toByteArray tx.fee ++
    Longs.toByteArray tx.timestamp

end ReissueTxSerializer

namespace BurnTxSerializer

def baseBytes (tx : BurnTransaction) : ByteStr :=
  tx.sender ++ tx.asset.id ++ Longs.toByteArray tx.quantity ++
    Longs.toByteArray tx.fee ++ Longs.toByteArray tx.timestamp

end BurnTxSerializer

namespace ExchangeTxSerializer

/-- What both versions write after the orders. -/
def numberBytes (tx : ExchangeTransaction) : ByteStr :=
  Longs.toByteArray tx.price ++ Longs.toByteArray tx.amount ++
    Longs.toByteArray tx.buyMatcherFee ++ Longs.toByteArray tx.sellMatcherFee ++
    Longs.toByteArray tx.fee ++ Longs.toByteArray tx.timestamp

/-- An order of the second version of an exchange: its length, and a mark if it is of the
first version. -/
def versionedOrderBytes (o : Order) : ByteStr :=
  Ints.toByteArray (OrderSerializer.toBytes o).length ++ (if o.version = 1 then [1] else []) ++
    OrderSerializer.toBytes o

end ExchangeTxSerializer

namespace LeaseTxSerializer

def baseBytes (tx : LeaseTransaction) : ByteStr :=
  tx.sender ++ tx.recipient.bytes ++ Longs.toByteArray tx.amount ++
    Longs.toByteArray tx.fee ++ Longs.toByteArray tx.timestamp

end LeaseTxSerializer

namespace LeaseCancelTxSerializer

def baseBytes (tx : LeaseCancelTransaction) : ByteStr :=
  tx.sender ++ Longs.toByteArray tx.fee ++ Longs.toByteArray tx.timestamp ++ tx.leaseId

end LeaseCancelTxSerializer

namespace CreateAliasTxSerializer

def baseBytes (tx : CreateAliasTransaction) : ByteStr :=
  tx.sender ++ Deser.serializeArrayWithLength tx.alias.bytes ++
    Longs.toByteArray tx.fee ++ Longs.toByteArray tx.timestamp

end CreateAliasTxSerializer

end

/-! ## 3. Whole transactions, version by version -/

namespace TxSerializer

-- what every type's bytes are put together from
attribute [local simp] bytes wrap bodyBytes versionedBody singleVersionBody Transaction.version?
  Transaction.typeId Transaction.proofs

theorem bytes_issue_v1 {tx : IssueTransaction} (h : tx.version = 1) :
    bytes (.issue tx) =
      [3] ++ (tx.proofs.toSignature ++ ([3] ++ IssueTxSerializer.baseBytes tx)) := by
  simp [h, IssueTxSerializer.bodyBytes, IssueTxSerializer.baseBytes]

theorem bytes_issue_v2 {tx : IssueTransaction} (h : tx.version = 2) :
    bytes (.issue tx) = [0, 3, 2, Crypto.chainId] ++ (IssueTxSerializer.baseBytes tx ++
      Deser.serializeOptionOfArrayWithLength (tx.script.map Script.bytes) ++ tx.proofs.bytes) := by
  simp [h, IssueTxSerializer.bodyBytes, IssueTxSerializer.baseBytes]

theorem bytes_transfer_v1 {tx : TransferTransaction} (h : tx.version = 1) :
    bytes (.transfer tx) =
      [4] ++ (tx.proofs.toSignature ++ ([4] ++ TransferTxSerializer.baseBytes tx)) := by
  simp [h, TransferTxSerializer.bodyBytes, TransferTxSerializer.baseBytes]

theorem bytes_transfer_v2 {tx : TransferTransaction} (h : tx.version = 2) :
    bytes (.transfer tx) =
      [0, 4, 2] ++ (TransferTxSerializer.baseBytes tx ++ tx.proofs.bytes) := by
  simp [h, TransferTxSerializer.bodyBytes, TransferTxSerializer.baseBytes]

theorem bytes_reissue_v1 {tx : ReissueTransaction} (h : tx.version = 1) :
    bytes (.reissue tx) =
      [5] ++ (tx.proofs.toSignature ++ ([5] ++ ReissueTxSerializer.baseBytes tx)) := by
  simp [h, ReissueTxSerializer.bodyBytes, ReissueTxSerializer.baseBytes]

theorem bytes_reissue_v2 {tx : ReissueTransaction} (h : tx.version = 2) :
    bytes (.reissue tx) =
      [0, 5, 2, Crypto.chainId] ++ (ReissueTxSerializer.baseBytes tx ++ tx.proofs.bytes) := by
  simp [h, ReissueTxSerializer.bodyBytes, ReissueTxSerializer.baseBytes]

theorem bytes_burn_v1 {tx : BurnTransaction} (h : tx.version = 1) :
    bytes (.burn tx) = [6] ++ (BurnTxSerializer.baseBytes tx ++ tx.proofs.toSignature) := by
  simp [h, BurnTxSerializer.bodyBytes, BurnTxSerializer.baseBytes]

theorem bytes_burn_v2 {tx : BurnTransaction} (h : tx.version = 2) :
    bytes (.burn tx) =
      [0, 6, 2, Crypto.chainId] ++ (BurnTxSerializer.baseBytes tx ++ tx.proofs.bytes) := by
  simp [h, BurnTxSerializer.bodyBytes, BurnTxSerializer.baseBytes]

theorem bytes_exchange_v1 {tx : ExchangeTransaction} (h : tx.version = 1) :
    bytes (.exchange tx) = [7] ++ (Ints.toByteArray (OrderSerializer.toBytes tx.buyOrder).length ++
      Ints.toByteArray (OrderSerializer.toBytes tx.sellOrder).length ++
      OrderSerializer.toBytes tx.buyOrder ++ OrderSerializer.toBytes tx.sellOrder ++
      ExchangeTxSerializer.numberBytes tx ++ tx.proofs.toSignature) := by
  simp [h, ExchangeTxSerializer.bodyBytes, ExchangeTxSerializer.numberBytes]

theorem bytes_exchange_v2 {tx : ExchangeTransaction} (h : tx.version = 2) :
    bytes (.exchange tx) = [0, 7, 2] ++ (ExchangeTxSerializer.versionedOrderBytes tx.buyOrder ++
      ExchangeTxSerializer.versionedOrderBytes tx.sellOrder ++
      ExchangeTxSerializer.numberBytes tx ++ tx.proofs.bytes) := by
  simp [h, ExchangeTxSerializer.bodyBytes, ExchangeTxSerializer.numberBytes,
    ExchangeTxSerializer.versionedOrderBytes]

theorem bytes_lease_v1 {tx : LeaseTransaction} (h : tx.version = 1) :
    bytes (.lease tx) = [8] ++ (LeaseTxSerializer.baseBytes tx ++ tx.proofs.toSignature) := by
  simp [h, LeaseTxSerializer.bodyBytes, LeaseTxSerializer.baseBytes]

theorem bytes_lease_v2 {tx : LeaseTransaction} (h : tx.version = 2) :
    bytes (.lease tx) =
      [0, 8, 2] ++ (Asset.Waves.byteRepr ++ LeaseTxSerializer.baseBytes tx ++ tx.proofs.bytes) := by
  simp [h, LeaseTxSerializer.bodyBytes, LeaseTxSerializer.baseBytes]

theorem bytes_leaseCancel_v1 {tx : LeaseCancelTransaction} (h : tx.version = 1) :
    bytes (.leaseCancel tx) =
      [9] ++ (LeaseCancelTxSerializer.baseBytes tx ++ tx.proofs.toSignature) := by
  simp [h, LeaseCancelTxSerializer.bodyBytes, LeaseCancelTxSerializer.baseBytes]

theorem bytes_leaseCancel_v2 {tx : LeaseCancelTransaction} (h : tx.version = 2) :
    bytes (.leaseCancel tx) = [0, 9] ++ ([2, Crypto.chainId] ++
      LeaseCancelTxSerializer.baseBytes tx ++ tx.proofs.bytes) := by
  simp [h, LeaseCancelTxSerializer.bodyBytes, LeaseCancelTxSerializer.baseBytes]

theorem bytes_createAlias_v1 {tx : CreateAliasTransaction} (h : tx.version = 1) :
    bytes (.createAlias tx) =
      [10] ++ (CreateAliasTxSerializer.baseBytes tx ++ tx.proofs.toSignature) := by
  simp [h, CreateAliasTxSerializer.bodyBytes, CreateAliasTxSerializer.baseBytes]

theorem bytes_createAlias_v2 {tx : CreateAliasTransaction} (h : tx.version = 2) :
    bytes (.createAlias tx) =
      [0, 10, 2] ++ (CreateAliasTxSerializer.baseBytes tx ++ tx.proofs.bytes) := by
  simp [h, CreateAliasTxSerializer.bodyBytes, CreateAliasTxSerializer.baseBytes]

theorem bytes_massTransfer {tx : MassTransferTransaction} (h : tx.version = 1) :
    bytes (.massTransfer tx) = [11, 1] ++ tx.sender ++ tx.assetId.byteRepr ++
      Shorts.toByteArray tx.transfers.length ++
      (tx.transfers.flatMap fun t => t.address.bytes ++ Longs.toByteArray t.amount) ++
      Longs.toByteArray tx.timestamp ++ Longs.toByteArray tx.fee ++
      Deser.serializeArrayWithLength tx.attachment ++ tx.proofs.bytes := by
  simp [h, MassTransferTxSerializer.bodyBytes, List.flatMap]

theorem bytes_data {tx : DataTransaction} (h : tx.version = 1) :
    bytes (.data tx) = [0, 12, 1] ++ tx.sender ++ Shorts.toByteArray tx.data.length ++
      tx.data.flatMap DataEntry.toBytes ++ Longs.toByteArray tx.timestamp ++
      Longs.toByteArray tx.fee ++ tx.proofs.bytes := by
  simp [h, DataTxSerializer.bodyBytes, List.flatMap]

theorem bytes_setScript {tx : SetScriptTransaction} (h : tx.version = 1) :
    bytes (.setScript tx) = [0, 13, 1, Crypto.chainId] ++ tx.sender ++
      Deser.serializeOptionOfArrayWithLength (tx.script.map Script.bytes) ++
      Longs.toByteArray tx.fee ++ Longs.toByteArray tx.timestamp ++ tx.proofs.bytes := by
  simp [h, SetScriptTxSerializer.bodyBytes]

theorem bytes_sponsorFee {tx : SponsorFeeTransaction} (h : tx.version = 1) :
    bytes (.sponsorFee tx) = [0, 14, 1, 14, 1] ++ tx.sender ++ tx.asset.id ++
      Longs.toByteArray (tx.minSponsoredAssetFee.getD 0) ++ Longs.toByteArray tx.fee ++
      Longs.toByteArray tx.timestamp ++ tx.proofs.bytes := by
  simp [h, SponsorFeeTxSerializer.bodyBytes]

theorem bytes_setAssetScript {tx : SetAssetScriptTransaction} (h : tx.version = 1) :
    bytes (.setAssetScript tx) = [0, 15, 1, Crypto.chainId] ++ tx.sender ++ tx.asset.id ++
      Longs.toByteArray tx.fee ++ Longs.toByteArray tx.timestamp ++
      Deser.serializeOptionOfArrayWithLength (tx.script.map Script.bytes) ++ tx.proofs.bytes := by
  simp [h, SetAssetScriptTxSerializer.bodyBytes]

theorem bytes_invokeScript {tx : InvokeScriptTransaction} (h : tx.version = 1) :
    bytes (.invokeScript tx) = [0, 16, 1, Crypto.chainId] ++ tx.sender ++
      tx.dAppAddressOrAlias.bytes ++ Deser.serializeOption (tx.funcCallOpt.map Serde.serialize) ++
      Deser.serializeArrays
        (tx.payments.map fun p => Longs.toByteArray p.amount ++ p.assetId.byteRepr) ++
      Longs.toByteArray tx.fee ++ tx.feeAssetId.byteRepr ++ Longs.toByteArray tx.timestamp ++
      tx.proofs.bytes := by
  simp [h, InvokeScriptTxSerializer.bodyBytes]

end TxSerializer

end WavesNode
