/-
The bytes of transactions and orders: the `…TxSerializer` objects.

`bodyBytes` is what a sender signs and what most ids are digests of; `toBytes` is the
whole transaction on the wire. Both are written out here, version by version, for
every version older than protobuf. The protobuf encoding is generated code, so its
bytes are the one field of `PBTransactionSerializer`.

The functions are total. Where the source refuses to write (an array longer than its
16-bit length can say, a protobuf version in `toBytes`), what they give is never read
by a validator without asking `writable` first.
-/
import WavesNode.Transaction

set_option autoImplicit false

namespace WavesNode

/-- `PBTransactionSerializer`: the protobuf form of a transaction's body. -/
class PBTransactionSerializer where
  bodyBytes : Transaction → ByteStr

/-! ## 1. The parts -/

def Asset.byteRepr : Asset → ByteStr
  | .Waves => [0]
  | .issued a => 1 :: a.id

def AssetPair.bytes (p : AssetPair) : ByteStr := p.amountAsset.byteRepr ++ p.priceAsset.byteRepr

def OrderType.bytes : OrderType → ByteStr
  | .BUY => [0]
  | .SELL => [1]

namespace Deser

def serializeBoolean (b : Bool) : ByteStr := if b then [1] else [0]

def serializeOption (b : Option ByteStr) : ByteStr :=
  match b with
  | some bytes => 1 :: bytes
  | none => [0]

def serializeOptionOfArrayWithLength (b : Option ByteStr) : ByteStr :=
  serializeOption (b.map serializeArrayWithLength)

def serializeArrays (bs : List ByteStr) : ByteStr :=
  Shorts.toByteArray bs.length ++ (bs.map serializeArrayWithLength).flatten

end Deser

namespace Proofs

def bytes (p : Proofs) : ByteStr := 1 :: Deser.serializeArrays p.proofs

def toSignature (p : Proofs) : ByteStr := p.proofs.headD []

end Proofs

namespace DataEntry

def valueBytes (e : DataEntry) : ByteStr :=
  match e.value with
  | .Integer v => 0 :: Longs.toByteArray v
  | .Boolean v => 1 :: Deser.serializeBoolean v
  | .Binary v => 2 :: Deser.serializeArrayWithLength v
  | .String v => 3 :: Deser.serializeArrayWithLength (utf8Bytes v)

/-- `DataEntry.toBytes`: a parsed string entry keeps the bytes it was read from. -/
def toBytes (e : DataEntry) : ByteStr :=
  e.dataBytes.getD (Deser.serializeArrayWithLength (utf8Bytes e.key) ++ e.valueBytes)

end DataEntry

namespace Serde

/-- `writeString`: the bytes after their 32-bit length. -/
def writeString (b : ByteStr) : ByteStr := Ints.toByteArray b.length ++ b

def serializeArg : CallArg → ByteStr
  | .CONST_LONG n => 0 :: Longs.toByteArray n
  | .CONST_BYTESTR b => 1 :: writeString b
  | .CONST_STRING s => 2 :: writeString (utf8Bytes s)
  | .CONST_BOOLEAN b => if b then [6] else [7]
  | .other bytes => bytes

def writeFunctionHeader : FunctionHeader → ByteStr
  | .Native id => 0 :: Shorts.toByteArray id.toUInt16.toNat
  | .User internalName => 1 :: writeString (utf8Bytes internalName)

/-- `Serde.serialize` of a call. -/
def serialize (f : FunctionCall) : ByteStr :=
  9 :: writeFunctionHeader f.function ++ Ints.toByteArray f.args.length ++
    (f.args.map serializeArg).flatten

end Serde

/-! ## 2. Orders -/

namespace OrderSerializer

/-- The part every version shares. -/
def baseBytes (o : Order) : ByteStr :=
  o.senderPublicKey ++ o.matcherPublicKey ++ o.assetPair.bytes ++ o.orderType.bytes ++
    Longs.toByteArray o.price ++ Longs.toByteArray o.amount ++ Longs.toByteArray o.timestamp ++
    Longs.toByteArray o.expiration ++ Longs.toByteArray o.matcherFee

/-- `OrderSerializer.bodyBytes`; a version beyond the third has no match. -/
def bodyBytes (o : Order) : ByteStr :=
  if o.version = 1 then baseBytes o
  else if o.version = 2 then o.version :: baseBytes o
  else o.version :: baseBytes o ++ o.matcherFeeAssetId.byteRepr

def toBytes (o : Order) : ByteStr :=
  if o.version = 1 then bodyBytes o ++ o.proofs.toSignature
  else bodyBytes o ++ o.proofs.bytes

end OrderSerializer

/-! ## 3. Bodies -/

variable [Crypto] [PBTransactionSerializer]

/-- The body of a type whose first two versions are its type, its version from the
second on, and a common part. -/
def versionedBody (tx : Transaction) (version : TxVersion) (v1 v2 : ByteStr) : ByteStr :=
  if version = 1 then tx.typeId :: v1
  else if version = 2 then tx.typeId :: version :: v2
  else PBTransactionSerializer.bodyBytes tx

/-- The body of a type that has one binary version. -/
def singleVersionBody (tx : Transaction) (version : TxVersion) (v1 : ByteStr) : ByteStr :=
  if version = 1 then tx.typeId :: version :: v1
  else PBTransactionSerializer.bodyBytes tx

namespace GenesisTxSerializer

omit [Crypto] [PBTransactionSerializer]

def toBytes (tx : GenesisTransaction) : ByteStr :=
  1 :: Longs.toByteArray tx.timestamp ++ tx.recipient.bytes ++ Longs.toByteArray tx.amount

end GenesisTxSerializer

namespace PaymentTxSerializer

omit [Crypto] [PBTransactionSerializer]

def baseBytes (tx : PaymentTransaction) : ByteStr :=
  Longs.toByteArray tx.timestamp ++ tx.sender ++ tx.recipient.bytes ++
    Longs.toByteArray tx.amount ++ Longs.toByteArray tx.fee

def hashBytes (tx : PaymentTransaction) : ByteStr := 2 :: baseBytes tx

/-- The signed body has its type in four bytes. -/
def bodyBytes (tx : PaymentTransaction) : ByteStr := Ints.toByteArray 2 ++ baseBytes tx

end PaymentTxSerializer

namespace IssueTxSerializer

def bodyBytes (tx : IssueTransaction) : ByteStr :=
  let base := tx.sender ++ Deser.serializeArrayWithLength tx.name ++
    Deser.serializeArrayWithLength tx.description ++ Longs.toByteArray tx.quantity ++
    [tx.decimals] ++ Deser.serializeBoolean tx.reissuable ++ Longs.toByteArray tx.fee ++
    Longs.toByteArray tx.timestamp
  versionedBody (.issue tx) tx.version base
    (Crypto.chainId :: base ++ Deser.serializeOptionOfArrayWithLength (tx.script.map Script.bytes))

end IssueTxSerializer

namespace TransferTxSerializer

omit [Crypto] in
def bodyBytes (tx : TransferTransaction) : ByteStr :=
  let base := tx.sender ++ tx.assetId.byteRepr ++ tx.feeAssetId.byteRepr ++
    Longs.toByteArray tx.timestamp ++ Longs.toByteArray tx.amount ++ Longs.toByteArray tx.fee ++
    tx.recipient.bytes ++ Deser.serializeArrayWithLength tx.attachment
  versionedBody (.transfer tx) tx.version base base

end TransferTxSerializer

namespace ReissueTxSerializer

def bodyBytes (tx : ReissueTransaction) : ByteStr :=
  let base := tx.sender ++ tx.asset.id ++ Longs.toByteArray tx.quantity ++
    Deser.serializeBoolean tx.reissuable ++ Longs.toByteArray tx.fee ++
    Longs.toByteArray tx.timestamp
  versionedBody (.reissue tx) tx.version base (Crypto.chainId :: base)

end ReissueTxSerializer

namespace BurnTxSerializer

def bodyBytes (tx : BurnTransaction) : ByteStr :=
  let base := tx.sender ++ tx.asset.id ++ Longs.toByteArray tx.quantity ++
    Longs.toByteArray tx.fee ++ Longs.toByteArray tx.timestamp
  versionedBody (.burn tx) tx.version base (Crypto.chainId :: base)

end BurnTxSerializer

namespace ExchangeTxSerializer

omit [Crypto] in
/-- The second version marks its own body with a zero and each first-version order
with a one. -/
def bodyBytes (tx : ExchangeTransaction) : ByteStr :=
  let buy := OrderSerializer.toBytes tx.buyOrder
  let sell := OrderSerializer.toBytes tx.sellOrder
  let base := Longs.toByteArray tx.price ++ Longs.toByteArray tx.amount ++
    Longs.toByteArray tx.buyMatcherFee ++ Longs.toByteArray tx.sellMatcherFee ++
    Longs.toByteArray tx.fee ++ Longs.toByteArray tx.timestamp
  let orderMark (version : Byte) : ByteStr := if version = 1 then [1] else []
  if tx.version = 1 then
    7 :: Ints.toByteArray buy.length ++ Ints.toByteArray sell.length ++ buy ++ sell ++ base
  else if tx.version = 2 then
    0 :: 7 :: tx.version :: Ints.toByteArray buy.length ++ orderMark tx.buyOrder.version ++ buy ++
      Ints.toByteArray sell.length ++ orderMark tx.sellOrder.version ++ sell ++ base
  else PBTransactionSerializer.bodyBytes (.exchange tx)

end ExchangeTxSerializer

namespace LeaseTxSerializer

omit [Crypto] in
def bodyBytes (tx : LeaseTransaction) : ByteStr :=
  let base := tx.sender ++ tx.recipient.bytes ++ Longs.toByteArray tx.amount ++
    Longs.toByteArray tx.fee ++ Longs.toByteArray tx.timestamp
  versionedBody (.lease tx) tx.version base (Asset.Waves.byteRepr ++ base)

end LeaseTxSerializer

namespace LeaseCancelTxSerializer

def bodyBytes (tx : LeaseCancelTransaction) : ByteStr :=
  let base := tx.sender ++ Longs.toByteArray tx.fee ++ Longs.toByteArray tx.timestamp ++ tx.leaseId
  versionedBody (.leaseCancel tx) tx.version base (Crypto.chainId :: base)

end LeaseCancelTxSerializer

namespace CreateAliasTxSerializer

omit [Crypto] in
def bodyBytes (tx : CreateAliasTransaction) : ByteStr :=
  let base := tx.sender ++ Deser.serializeArrayWithLength tx.alias.bytes ++
    Longs.toByteArray tx.fee ++ Longs.toByteArray tx.timestamp
  versionedBody (.createAlias tx) tx.version base base

end CreateAliasTxSerializer

namespace MassTransferTxSerializer

omit [Crypto] in
def bodyBytes (tx : MassTransferTransaction) : ByteStr :=
  singleVersionBody (.massTransfer tx) tx.version <|
    tx.sender ++ tx.assetId.byteRepr ++ Shorts.toByteArray tx.transfers.length ++
      (tx.transfers.map fun t => t.address.bytes ++ Longs.toByteArray t.amount).flatten ++
      Longs.toByteArray tx.timestamp ++ Longs.toByteArray tx.fee ++
      Deser.serializeArrayWithLength tx.attachment

end MassTransferTxSerializer

namespace DataTxSerializer

omit [Crypto] in
def bodyBytes (tx : DataTransaction) : ByteStr :=
  singleVersionBody (.data tx) tx.version <|
    tx.sender ++ Shorts.toByteArray tx.data.length ++ (tx.data.map DataEntry.toBytes).flatten ++
      Longs.toByteArray tx.timestamp ++ Longs.toByteArray tx.fee

end DataTxSerializer

namespace SetScriptTxSerializer

def bodyBytes (tx : SetScriptTransaction) : ByteStr :=
  singleVersionBody (.setScript tx) tx.version <|
    Crypto.chainId :: tx.sender ++
      Deser.serializeOptionOfArrayWithLength (tx.script.map Script.bytes) ++
      Longs.toByteArray tx.fee ++ Longs.toByteArray tx.timestamp

end SetScriptTxSerializer

namespace SetAssetScriptTxSerializer

def bodyBytes (tx : SetAssetScriptTransaction) : ByteStr :=
  singleVersionBody (.setAssetScript tx) tx.version <|
    Crypto.chainId :: tx.sender ++ tx.asset.id ++ Longs.toByteArray tx.fee ++
      Longs.toByteArray tx.timestamp ++
      Deser.serializeOptionOfArrayWithLength (tx.script.map Script.bytes)

end SetAssetScriptTxSerializer

namespace SponsorFeeTxSerializer

omit [Crypto] in
def bodyBytes (tx : SponsorFeeTransaction) : ByteStr :=
  singleVersionBody (.sponsorFee tx) tx.version <|
    tx.sender ++ tx.asset.id ++ Longs.toByteArray (tx.minSponsoredAssetFee.getD 0) ++
      Longs.toByteArray tx.fee ++ Longs.toByteArray tx.timestamp

end SponsorFeeTxSerializer

namespace InvokeScriptTxSerializer

def bodyBytes (tx : InvokeScriptTransaction) : ByteStr :=
  singleVersionBody (.invokeScript tx) tx.version <|
    Crypto.chainId :: tx.sender ++ tx.dAppAddressOrAlias.bytes ++
      Deser.serializeOption (tx.funcCallOpt.map Serde.serialize) ++
      Deser.serializeArrays
        (tx.payments.map fun p => Longs.toByteArray p.amount ++ p.assetId.byteRepr) ++
      Longs.toByteArray tx.fee ++ tx.feeAssetId.byteRepr ++ Longs.toByteArray tx.timestamp

end InvokeScriptTxSerializer

/-! ## 4. Whole transactions -/

namespace TxSerializer

/-- `bodyBytes` of every type. -/
def bodyBytes : Transaction → ByteStr
  | .genesis tx => GenesisTxSerializer.toBytes tx
  | .payment tx => PaymentTxSerializer.bodyBytes tx
  | .issue tx => IssueTxSerializer.bodyBytes tx
  | .transfer tx => TransferTxSerializer.bodyBytes tx
  | .reissue tx => ReissueTxSerializer.bodyBytes tx
  | .burn tx => BurnTxSerializer.bodyBytes tx
  | .exchange tx => ExchangeTxSerializer.bodyBytes tx
  | .lease tx => LeaseTxSerializer.bodyBytes tx
  | .leaseCancel tx => LeaseCancelTxSerializer.bodyBytes tx
  | .createAlias tx => CreateAliasTxSerializer.bodyBytes tx
  | .massTransfer tx => MassTransferTxSerializer.bodyBytes tx
  | .data tx => DataTxSerializer.bodyBytes tx
  | .setScript tx => SetScriptTxSerializer.bodyBytes tx
  | .sponsorFee tx => SponsorFeeTxSerializer.bodyBytes tx
  | .setAssetScript tx => SetAssetScriptTxSerializer.bodyBytes tx
  | .invokeScript tx => InvokeScriptTxSerializer.bodyBytes tx

/-- `toBytes` of every type, the body being given: where the first version has its
signature (before the body, which repeats the type, or after it), and what marks the
later ones. -/
def wrap (tx : Transaction) (body : ByteStr) : ByteStr :=
  let firstVersion : Bool := tx.version? == some 1
  match tx with
  | .genesis _ => body
  | .payment t => PaymentTxSerializer.hashBytes t ++ t.signature
  | .issue _ | .transfer _ | .reissue _ =>
    if firstVersion then tx.typeId :: tx.proofs.toSignature ++ body
    else 0 :: body ++ tx.proofs.bytes
  | .burn _ | .lease _ | .leaseCancel _ | .createAlias _ =>
    if firstVersion then body ++ tx.proofs.toSignature else 0 :: body ++ tx.proofs.bytes
  | .exchange _ => if firstVersion then body ++ tx.proofs.toSignature else body ++ tx.proofs.bytes
  | .massTransfer _ => body ++ tx.proofs.bytes
  | .sponsorFee t => 0 :: tx.typeId :: t.version :: body ++ tx.proofs.bytes
  | .data _ | .setScript _ | .setAssetScript _ | .invokeScript _ => 0 :: body ++ tx.proofs.bytes

/-- `bytes` of every type. -/
def bytes (tx : Transaction) : ByteStr := wrap tx (bodyBytes tx)

omit [Crypto] [PBTransactionSerializer] in
/-- `OrderSerializer.bodyBytes`. -/
def orderBodyBytes (o : Order) : ByteStr := OrderSerializer.bodyBytes o

end TxSerializer

/-! ## 5. Identity -/

namespace Transaction

/-- `Transaction.id`: the two oldest types are identified by their signature, an
alias by its bytes, every other type by the digest of its body. -/
def id : Transaction → ByteStr
  | genesis tx => tx.signature
  | payment tx => tx.signature
  | createAlias tx => Crypto.fastHash ((10 : Byte) :: tx.alias.bytes)
  | tx => Crypto.fastHash (TxSerializer.bodyBytes tx)

end Transaction

omit [PBTransactionSerializer] in
def Order.id (o : Order) : ByteStr := Crypto.fastHash (TxSerializer.orderBodyBytes o)

end WavesNode
