/-
The sixteen transaction types, with the traits the validators dispatch on.

Every case class is a structure with the fields of the source; the traits they mix
in are functions of `Transaction`: which types carry proofs (`sender?`, `proofs`),
which are `SignedTransaction`, `SigProofsSwitch`, `VersionedTransaction` or
`LegacyPBSwitch`, what a transaction pays (`assetFee`), and which assets it declares
(`checkedAssets`).
-/
import WavesNode.Script

set_option autoImplicit false

namespace WavesNode

abbrev TxVersion := Byte
abbrev TxAmount := Long
abbrev TxTimestamp := Long

/-- A list of proofs; the first one doubles as the legacy signature. -/
structure Proofs where
  proofs : List ByteStr
  deriving DecidableEq

/-! ## 1. Orders -/

inductive OrderType where
  | BUY
  | SELL
  deriving DecidableEq

structure Order where
  version : Byte
  senderPublicKey : PublicKey
  matcherPublicKey : PublicKey
  assetPair : AssetPair
  orderType : OrderType
  amount : TxAmount
  price : TxAmount
  timestamp : TxTimestamp
  expiration : TxTimestamp
  matcherFee : TxAmount
  matcherFeeAssetId : Asset
  proofs : Proofs
  deriving DecidableEq

/-! ## 2. The case classes -/

structure GenesisTransaction where
  recipient : Address
  amount : Long
  timestamp : Long
  signature : ByteStr
  deriving DecidableEq

structure PaymentTransaction where
  sender : PublicKey
  recipient : Address
  amount : Long
  fee : Long
  timestamp : Long
  signature : ByteStr
  deriving DecidableEq

structure IssueTransaction where
  version : TxVersion
  sender : PublicKey
  name : ByteStr
  description : ByteStr
  quantity : Long
  decimals : Byte
  reissuable : Bool
  script : Option Script
  fee : Long
  timestamp : Long
  proofs : Proofs
  deriving DecidableEq

structure TransferTransaction where
  version : TxVersion
  sender : PublicKey
  recipient : AddressOrAlias
  assetId : Asset
  amount : TxAmount
  feeAssetId : Asset
  fee : TxAmount
  attachment : ByteStr
  timestamp : TxTimestamp
  proofs : Proofs
  deriving DecidableEq

structure ReissueTransaction where
  version : TxVersion
  sender : PublicKey
  asset : IssuedAsset
  quantity : Long
  reissuable : Bool
  fee : Long
  timestamp : Long
  proofs : Proofs
  deriving DecidableEq

structure BurnTransaction where
  version : TxVersion
  sender : PublicKey
  asset : IssuedAsset
  quantity : Long
  fee : Long
  timestamp : Long
  proofs : Proofs
  deriving DecidableEq

structure ExchangeTransaction where
  version : TxVersion
  buyOrder : Order
  sellOrder : Order
  amount : Long
  price : Long
  buyMatcherFee : Long
  sellMatcherFee : Long
  fee : Long
  timestamp : Long
  proofs : Proofs
  deriving DecidableEq

structure LeaseTransaction where
  version : TxVersion
  sender : PublicKey
  recipient : AddressOrAlias
  amount : TxAmount
  fee : TxAmount
  timestamp : TxTimestamp
  proofs : Proofs
  deriving DecidableEq

structure LeaseCancelTransaction where
  version : TxVersion
  sender : PublicKey
  leaseId : ByteStr
  fee : TxAmount
  timestamp : TxTimestamp
  proofs : Proofs
  deriving DecidableEq

structure CreateAliasTransaction where
  version : TxVersion
  sender : PublicKey
  («alias» : Alias)
  fee : TxAmount
  timestamp : TxTimestamp
  proofs : Proofs
  deriving DecidableEq

structure ParsedTransfer where
  address : AddressOrAlias
  amount : Long
  deriving DecidableEq

structure MassTransferTransaction where
  version : TxVersion
  sender : PublicKey
  assetId : Asset
  transfers : List ParsedTransfer
  fee : TxAmount
  timestamp : TxTimestamp
  attachment : ByteStr
  proofs : Proofs
  deriving DecidableEq

structure DataTransaction where
  version : TxVersion
  sender : PublicKey
  data : List DataEntry
  fee : TxAmount
  timestamp : TxTimestamp
  proofs : Proofs
  deriving DecidableEq

structure SetScriptTransaction where
  version : TxVersion
  sender : PublicKey
  script : Option Script
  fee : TxAmount
  timestamp : TxTimestamp
  proofs : Proofs
  deriving DecidableEq

structure SponsorFeeTransaction where
  version : TxVersion
  sender : PublicKey
  asset : IssuedAsset
  minSponsoredAssetFee : Option Long
  fee : TxAmount
  timestamp : TxTimestamp
  proofs : Proofs
  deriving DecidableEq

structure SetAssetScriptTransaction where
  version : TxVersion
  sender : PublicKey
  asset : IssuedAsset
  script : Option Script
  fee : TxAmount
  timestamp : TxTimestamp
  proofs : Proofs
  deriving DecidableEq

/-- `InvokeScriptTransaction.Payment`. -/
structure Payment where
  amount : TxAmount
  assetId : Asset
  deriving DecidableEq

structure InvokeScriptTransaction where
  version : TxVersion
  sender : PublicKey
  dAppAddressOrAlias : AddressOrAlias
  funcCallOpt : Option FunctionCall
  payments : List Payment
  fee : TxAmount
  feeAssetId : Asset
  timestamp : TxTimestamp
  proofs : Proofs
  deriving DecidableEq

inductive Transaction where
  | genesis (tx : GenesisTransaction)
  | payment (tx : PaymentTransaction)
  | issue (tx : IssueTransaction)
  | transfer (tx : TransferTransaction)
  | reissue (tx : ReissueTransaction)
  | burn (tx : BurnTransaction)
  | exchange (tx : ExchangeTransaction)
  | lease (tx : LeaseTransaction)
  | leaseCancel (tx : LeaseCancelTransaction)
  | createAlias (tx : CreateAliasTransaction)
  | massTransfer (tx : MassTransferTransaction)
  | data (tx : DataTransaction)
  | setScript (tx : SetScriptTransaction)
  | sponsorFee (tx : SponsorFeeTransaction)
  | setAssetScript (tx : SetAssetScriptTransaction)
  | invokeScript (tx : InvokeScriptTransaction)
  deriving DecidableEq

/-! ## 3. Fields common to the types -/

namespace ExchangeTransaction

/-- The matcher sends the exchange. -/
def sender (tx : ExchangeTransaction) : PublicKey := tx.buyOrder.matcherPublicKey

end ExchangeTransaction

namespace Transaction

def typeId : Transaction → Byte
  | genesis _ => 1
  | payment _ => 2
  | issue _ => 3
  | transfer _ => 4
  | reissue _ => 5
  | burn _ => 6
  | exchange _ => 7
  | lease _ => 8
  | leaseCancel _ => 9
  | createAlias _ => 10
  | massTransfer _ => 11
  | data _ => 12
  | setScript _ => 13
  | sponsorFee _ => 14
  | setAssetScript _ => 15
  | invokeScript _ => 16

/-- `Authorized.sender`: every type but the genesis one has a sender. -/
def sender? : Transaction → Option PublicKey
  | genesis _ => none
  | payment tx => some tx.sender
  | issue tx => some tx.sender
  | transfer tx => some tx.sender
  | reissue tx => some tx.sender
  | burn tx => some tx.sender
  | exchange tx => some tx.sender
  | lease tx => some tx.sender
  | leaseCancel tx => some tx.sender
  | createAlias tx => some tx.sender
  | massTransfer tx => some tx.sender
  | data tx => some tx.sender
  | setScript tx => some tx.sender
  | sponsorFee tx => some tx.sender
  | setAssetScript tx => some tx.sender
  | invokeScript tx => some tx.sender

/-- `Proven.proofs`; a payment's one proof is its signature. -/
def proofs : Transaction → Proofs
  | genesis _ => ⟨[]⟩
  | payment tx => ⟨[tx.signature]⟩
  | issue tx => tx.proofs
  | transfer tx => tx.proofs
  | reissue tx => tx.proofs
  | burn tx => tx.proofs
  | exchange tx => tx.proofs
  | lease tx => tx.proofs
  | leaseCancel tx => tx.proofs
  | createAlias tx => tx.proofs
  | massTransfer tx => tx.proofs
  | data tx => tx.proofs
  | setScript tx => tx.proofs
  | sponsorFee tx => tx.proofs
  | setAssetScript tx => tx.proofs
  | invokeScript tx => tx.proofs

/-- `VersionedTransaction.version`: the two oldest types have none. -/
def version? : Transaction → Option TxVersion
  | genesis _ => none
  | payment _ => none
  | issue tx => some tx.version
  | transfer tx => some tx.version
  | reissue tx => some tx.version
  | burn tx => some tx.version
  | exchange tx => some tx.version
  | lease tx => some tx.version
  | leaseCancel tx => some tx.version
  | createAlias tx => some tx.version
  | massTransfer tx => some tx.version
  | data tx => some tx.version
  | setScript tx => some tx.version
  | sponsorFee tx => some tx.version
  | setAssetScript tx => some tx.version
  | invokeScript tx => some tx.version

/-- `LegacyPBSwitch.protobufVersion`, the first version encoded in protobuf. -/
def protobufVersion? : Transaction → Option TxVersion
  | genesis _ => none
  | payment _ => none
  | issue _ => some 3
  | transfer _ => some 3
  | reissue _ => some 3
  | burn _ => some 3
  | exchange _ => some 3
  | lease _ => some 3
  | leaseCancel _ => some 3
  | createAlias _ => some 3
  | massTransfer _ => some 2
  | data _ => some 2
  | setScript _ => some 2
  | sponsorFee _ => some 2
  | setAssetScript _ => some 2
  | invokeScript _ => some 2

def isProtobufVersion (tx : Transaction) : Bool :=
  match tx.version?, tx.protobufVersion? with
  | some v, some p => p ≤ v
  | _, _ => false

/-- The types whose first version carries a signature in place of proofs. -/
def isSigProofsSwitch : Transaction → Bool
  | issue _ => true
  | transfer _ => true
  | reissue _ => true
  | burn _ => true
  | exchange _ => true
  | lease _ => true
  | leaseCancel _ => true
  | createAlias _ => true
  | _ => false

/-- `SigProofsSwitch.usesLegacySignature`. -/
def usesLegacySignature (tx : Transaction) : Bool :=
  tx.isSigProofsSwitch && tx.version? == some 1

/-- `TxWithFee.assetFee`. -/
def assetFee : Transaction → Asset × Long
  | genesis _ => (.Waves, 0)
  | payment tx => (.Waves, tx.fee)
  | issue tx => (.Waves, tx.fee)
  | transfer tx => (tx.feeAssetId, tx.fee)
  | reissue tx => (.Waves, tx.fee)
  | burn tx => (.Waves, tx.fee)
  | exchange tx => (.Waves, tx.fee)
  | lease tx => (.Waves, tx.fee)
  | leaseCancel tx => (.Waves, tx.fee)
  | createAlias tx => (.Waves, tx.fee)
  | massTransfer tx => (.Waves, tx.fee)
  | data tx => (.Waves, tx.fee)
  | setScript tx => (.Waves, tx.fee)
  | sponsorFee tx => (.Waves, tx.fee)
  | setAssetScript tx => (.Waves, tx.fee)
  | invokeScript tx => (tx.feeAssetId, tx.fee)

def timestamp : Transaction → Long
  | genesis tx => tx.timestamp
  | payment tx => tx.timestamp
  | issue tx => tx.timestamp
  | transfer tx => tx.timestamp
  | reissue tx => tx.timestamp
  | burn tx => tx.timestamp
  | exchange tx => tx.timestamp
  | lease tx => tx.timestamp
  | leaseCancel tx => tx.timestamp
  | createAlias tx => tx.timestamp
  | massTransfer tx => tx.timestamp
  | data tx => tx.timestamp
  | setScript tx => tx.timestamp
  | sponsorFee tx => tx.timestamp
  | setAssetScript tx => tx.timestamp
  | invokeScript tx => tx.timestamp

/-- The assets a transaction declares to be checked by their scripts. -/
def checkedAssets : Transaction → List IssuedAsset
  | genesis _ => []
  | payment _ => []
  | issue _ => []
  | transfer tx => tx.assetId.issued?.toList
  | reissue tx => [tx.asset]
  | burn tx => [tx.asset]
  | exchange tx =>
    [tx.buyOrder.assetPair.priceAsset, tx.buyOrder.assetPair.amountAsset].filterMap Asset.issued?
  | lease _ => []
  | leaseCancel _ => []
  | createAlias _ => []
  | massTransfer tx => tx.assetId.issued?.toList
  | data _ => []
  | setScript _ => []
  | sponsorFee tx => [tx.asset]
  | setAssetScript tx => [tx.asset]
  | invokeScript tx => tx.payments.filterMap fun p => p.assetId.issued?

end Transaction

namespace Order

def sender (o : Order) : PublicKey := o.senderPublicKey

end Order

namespace IssueTransaction

/-- `IssueTransactionExt.isNFT`. -/
def isNFT (tx : IssueTransaction) : Bool :=
  tx.quantity == 1 && tx.decimals == 0 && !tx.reissuable

end IssueTransaction

end WavesNode
