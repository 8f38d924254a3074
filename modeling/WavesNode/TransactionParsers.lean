/-
Transactions from the wire: the `parseBytes` of every type, and the dispatch.

A message that starts with a zero byte is in the modern encoding, and its second and
third bytes name the type and the version; any other is in the old encoding, and its
first byte names the type. Each parser builds its case class from what it reads.
None of them calls a validator.
-/
import WavesNode.ByteBufferOps

set_option autoImplicit false

namespace WavesNode

open ByteBuffer

/-! ## 1. Three ways to carry proofs

What a parser reads before the proofs is a transaction that waits for them. -/

section
variable {α : Type}

/-- A signature after the rest. -/
def signatureLast (common : Reader (Proofs → α)) : Reader α := do
  let tx ← common
  let signature ← getSignature
  pure (tx ⟨[signature]⟩)

/-- A signature before the rest, which repeats the type. -/
def signatureFirst (typeId : Byte) (common : Reader (Proofs → α)) : Reader α := do
  let signature ← getSignature
  let repeated ← ByteBuffer.get
  require (repeated = typeId) "transaction type mismatch"
  let tx ← common
  pure (tx ⟨[signature]⟩)

/-- Proofs after the rest. -/
def provenLast (common : Reader (Proofs → α)) : Reader α := do
  let tx ← common
  let proofs ← getProofs
  pure (tx proofs)

/-- The two encodings of a type with two versions; the modern one has its fields from
`modernOffset` on. -/
def eitherEncoding (bytes : ByteStr) (typeId : Byte) (modernOffset : ℕ) (modern old : Reader α) :
    Except String α :=
  if bytes.length ≤ 2 then .error "buffer underflow while parsing transaction"
  else if byteAt bytes 0 = 0 then
    if byteAt bytes 1 = typeId then modern.from bytes modernOffset
    else .error "transaction type mismatch"
  else if byteAt bytes 0 = typeId then old.from bytes 1
  else .error "transaction type mismatch"

end

/-- The bytes a parser of one version expects at the start. -/
def header (expected : ByteStr) : Reader Unit := do
  let bytes ← getArray expected.length
  require (bytes = expected) "transaction type mismatch"

variable [Crypto]

/-! ## 2. The oldest types -/

def GenesisTransaction.generateSignature (recipient : Address) (amount timestamp : Long) : ByteStr :=
  let hash := Crypto.fastHash (Ints.toByteArray 1 ++ Longs.toByteArray timestamp ++
    recipient.bytes ++ Longs.toByteArray amount)
  hash ++ hash

def GenesisTxSerializer.parse : Reader GenesisTransaction := do
  header [1]
  let timestamp ← getLong
  let recipient ← getAddress
  let amount ← getLong
  pure ⟨recipient, amount, timestamp,
    GenesisTransaction.generateSignature recipient amount timestamp⟩

def GenesisTxSerializer.parseBytes (bytes : ByteStr) : Except String GenesisTransaction :=
  GenesisTxSerializer.parse.from bytes 0

def PaymentTxSerializer.parse : Reader PaymentTransaction := do
  header [2]
  let timestamp ← getLong
  let sender ← getPublicKey
  let recipient ← getAddress
  let amount ← getLong
  let fee ← getLong
  let signature ← getSignature
  pure ⟨sender, recipient, amount, fee, timestamp, signature⟩

def PaymentTxSerializer.parseBytes (bytes : ByteStr) : Except String PaymentTransaction :=
  PaymentTxSerializer.parse.from bytes 0

/-! ## 3. Types with two versions -/

namespace IssueTxSerializer

omit [Crypto]

def parseCommonPart (version : TxVersion) : Reader (Option Script → Proofs → IssueTransaction) := do
  let sender ← getPublicKey
  let name ← Deser.parseArrayWithLength
  let description ← Deser.parseArrayWithLength
  let quantity ← getLong
  let decimals ← ByteBuffer.get
  let reissuable ← getBoolean
  let fee ← getLong
  let timestamp ← getLong
  pure fun script proofs =>
    ⟨version, sender, name, description, quantity, decimals, reissuable, script, fee, timestamp,
      proofs⟩

/-- The byte at the third place is the chain's, and is not looked at. -/
def parseBytes [ScriptReader] (bytes : ByteStr) : Except String IssueTransaction :=
  eitherEncoding bytes 3 4
    (provenLast do
      let tx ← parseCommonPart 2
      let script ← getScript
      pure (tx script))
    (signatureFirst 3 ((· none) <$> parseCommonPart 1))

end IssueTxSerializer

namespace TransferTxSerializer

def parseCommonPart (version : TxVersion) : Reader (Proofs → TransferTransaction) := do
  let sender ← getPublicKey
  let assetId ← getAsset
  let feeAssetId ← getAsset
  let ts ← getLong
  let amount ← getLong
  let fee ← getLong
  let recipient ← getAddressOrAlias
  let attachment ← Deser.parseArrayWithLength
  pure fun proofs =>
    ⟨version, sender, recipient, assetId, amount, feeAssetId, fee, attachment, ts, proofs⟩

def parseBytes (bytes : ByteStr) : Except String TransferTransaction :=
  eitherEncoding bytes 4 3 (provenLast (parseCommonPart 2)) (signatureFirst 4 (parseCommonPart 1))

end TransferTxSerializer

namespace ReissueTxSerializer

omit [Crypto]

def parseCommonPart (version : TxVersion) : Reader (Proofs → ReissueTransaction) := do
  let sender ← getPublicKey
  let asset ← getIssuedAsset
  let quantity ← getLong
  let reissuable ← getBoolean
  let fee ← getLong
  let timestamp ← getLong
  pure fun proofs => ⟨version, sender, asset, quantity, reissuable, fee, timestamp, proofs⟩

def parseBytes (bytes : ByteStr) : Except String ReissueTransaction :=
  eitherEncoding bytes 5 4 (provenLast (parseCommonPart 2)) (signatureFirst 5 (parseCommonPart 1))

end ReissueTxSerializer

namespace BurnTxSerializer

omit [Crypto]

def parseCommonPart (version : TxVersion) : Reader (Proofs → BurnTransaction) := do
  let sender ← getPublicKey
  let asset ← getIssuedAsset
  let quantity ← getLong
  let fee ← getLong
  let timestamp ← getLong
  pure fun proofs => ⟨version, sender, asset, quantity, fee, timestamp, proofs⟩

def parseBytes (bytes : ByteStr) : Except String BurnTransaction :=
  eitherEncoding bytes 6 4 (provenLast (parseCommonPart 2)) (signatureLast (parseCommonPart 1))

end BurnTxSerializer

namespace OrderSerializer

omit [Crypto]

def parseOrderType : Reader OrderType := do
  let b ← ByteBuffer.get
  if b = 0 then pure .BUY else if b = 1 then pure .SELL else throw s!"Unexpected OrderType: {b}"

def parseCommonPart (version : Byte) : Reader (Asset → Proofs → Order) := do
  let sender ← getPublicKey
  let matcher ← getPublicKey
  let amountAsset ← getAsset
  let priceAsset ← getAsset
  let orderType ← parseOrderType
  let price ← getLong
  let amount ← getLong
  let timestamp ← getLong
  let expiration ← getLong
  let matcherFee ← getLong
  pure fun matcherFeeAssetId proofs =>
    ⟨version, sender, matcher, ⟨amountAsset, priceAsset⟩, orderType, amount, price, timestamp,
      expiration, matcherFee, matcherFeeAssetId, proofs⟩

/-- The order of an array that starts, from the second version on, with the version. -/
def parse (version : Byte) : Reader Order :=
  if version = 1 then signatureLast ((· .Waves) <$> parseCommonPart 1)
  else if version = 2 then do
    header [2]
    provenLast ((· .Waves) <$> parseCommonPart 2)
  else if version = 3 then do
    header [3]
    provenLast do
      let order ← parseCommonPart 3
      let matcherFeeAssetId ← getAsset
      pure (order matcherFeeAssetId)
  else throw s!"Unsupported order version: {version}"

/-- `OrderSerializer.parseBytes`. -/
def parseBytes (version : Byte) (bytes : ByteStr) : Except String Order :=
  (parse version).from bytes 0

end OrderSerializer

/-- `Try.get`: a failure is thrown. -/
def Reader.ofTry {α : Type} (x : Except String α) : Reader α :=
  match x with
  | .ok a => pure a
  | .error e => throw e

/-- `getVersionedOrder`: the length, the version and, of a first-version order, all its
bytes; of a later one, which starts with its version, the bytes after it. -/
def getVersionedOrder : Reader Order := do
  let length ← getInt
  let version ← ByteBuffer.get
  if version = 1 then do
    let bytes ← getByteArray length
    Reader.ofTry (OrderSerializer.parseBytes 1 bytes)
  else if version = 2 ∨ version = 3 then do
    require (0 < length) "ArrayIndexOutOfBoundsException"
    let rest ← getByteArray (length - 1)
    Reader.ofTry (OrderSerializer.parseBytes version (version :: rest))
  else throw s!"Invalid order version: {version}"

namespace ExchangeTxSerializer

omit [Crypto]

/-- What both versions read after the orders. -/
def parseNumbers (version : TxVersion) (buy sell : Order) :
    Reader (Proofs → ExchangeTransaction) := do
  let price ← getLong
  let amount ← getLong
  let buyMatcherFee ← getLong
  let sellMatcherFee ← getLong
  let fee ← getLong
  let timestamp ← getLong
  pure fun proofs =>
    ⟨version, buy, sell, amount, price, buyMatcherFee, sellMatcherFee, fee, timestamp, proofs⟩

def parseV1 : Reader (Proofs → ExchangeTransaction) := do
  let buyLength ← getInt
  let sellLength ← getInt
  let buyBytes ← getByteArray buyLength
  let buy ← Reader.ofTry (OrderSerializer.parseBytes 1 buyBytes)
  let sellBytes ← getByteArray sellLength
  let sell ← Reader.ofTry (OrderSerializer.parseBytes 1 sellBytes)
  parseNumbers 1 buy sell

def parseV2 : Reader (Proofs → ExchangeTransaction) := do
  let buy ← getVersionedOrder
  let sell ← getVersionedOrder
  parseNumbers 2 buy sell

def parseBytes (bytes : ByteStr) : Except String ExchangeTransaction :=
  eitherEncoding bytes 7 3 (provenLast parseV2) (signatureLast parseV1)

end ExchangeTxSerializer

namespace LeaseTxSerializer

def parseCommonPart (version : TxVersion) : Reader (Proofs → LeaseTransaction) := do
  let sender ← getPublicKey
  let recipient ← getAddressOrAlias
  let amount ← getLong
  let fee ← getLong
  let timestamp ← getLong
  pure fun proofs => ⟨version, sender, recipient, amount, fee, timestamp, proofs⟩

def parseBytes (bytes : ByteStr) : Except String LeaseTransaction :=
  eitherEncoding bytes 8 3
    (provenLast do
      let asset ← getAsset
      require (asset = .Waves) "Leasing assets is not supported yet"
      parseCommonPart 2)
    (signatureLast (parseCommonPart 1))

end LeaseTxSerializer

namespace LeaseCancelTxSerializer

omit [Crypto] in
def parseCommonPart (version : TxVersion) : Reader (Proofs → LeaseCancelTransaction) := do
  let sender ← getPublicKey
  let fee ← getLong
  let timestamp ← getLong
  let leaseId ← getArray DigestLength
  pure fun proofs => ⟨version, sender, leaseId, fee, timestamp, proofs⟩

/-- The only modern parser that looks at the version and the chain itself. -/
def parseBytes (bytes : ByteStr) : Except String LeaseCancelTransaction :=
  eitherEncoding bytes 9 2
    (provenLast do
      header [2, Crypto.chainId]
      parseCommonPart 2)
    (signatureLast (parseCommonPart 1))

end LeaseCancelTxSerializer

namespace CreateAliasTxSerializer

def parseCommonPart (version : TxVersion) : Reader (Proofs → CreateAliasTransaction) := do
  let sender ← getPublicKey
  let a ← getAlias
  let fee ← getLong
  let timestamp ← getLong
  pure fun proofs => ⟨version, sender, a, fee, timestamp, proofs⟩

def parseBytes (bytes : ByteStr) : Except String CreateAliasTransaction :=
  if bytes.length ≤ 3 then .error "requirement failed: buffer underflow while parsing transaction"
  else if byteAt bytes 0 = 10 then (signatureLast (parseCommonPart 1)).from bytes 1
  else if byteAt bytes 0 = 0 ∧ byteAt bytes 1 = 10 ∧ byteAt bytes 2 = 2 then
    (provenLast (parseCommonPart 2)).from bytes 3
  else .error "Invalid tx header bytes"

end CreateAliasTxSerializer

/-! ## 4. Types with one version -/

/-- The number of entries of an array, each of which takes at least a byte. -/
def entryCount : Reader ℕ := do
  let count ← getShort
  let buf ← getThe ByteBuffer
  require (0 ≤ count && count < buf.remaining) "Broken array size"
  pure count.toNat

namespace MassTransferTxSerializer

def readTransfer : Reader ParsedTransfer := do
  let addressOrAlias ← AddressOrAlias.read
  let amount ← getLong
  pure ⟨addressOrAlias, amount⟩

def parse : Reader MassTransferTransaction := do
  header [11, 1]
  let sender ← getPublicKey
  let assetId ← getAsset
  let count ← entryCount
  let transfers ← fill readTransfer count
  let timestamp ← getLong
  let fee ← getLong
  let attachment ← Deser.parseArrayWithLength
  let proofs ← getProofs
  pure ⟨1, sender, assetId, transfers, fee, timestamp, attachment, proofs⟩

def parseBytes (bytes : ByteStr) : Except String MassTransferTransaction := parse.from bytes 0

end MassTransferTxSerializer

namespace DataTxSerializer

omit [Crypto]

def parse : Reader DataTransaction := do
  header [0, 12, 1]
  let sender ← getPublicKey
  let count ← entryCount
  let data ← fill DataEntry.parse count
  let timestamp ← getLong
  let fee ← getLong
  let proofs ← getProofs
  pure ⟨1, sender, data, fee, timestamp, proofs⟩

def parseBytes (bytes : ByteStr) : Except String DataTransaction := parse.from bytes 0

end DataTxSerializer

namespace SetScriptTxSerializer

def parse [ScriptReader] : Reader SetScriptTransaction := do
  header [0, 13, 1, Crypto.chainId]
  let sender ← getPublicKey
  let script ← getScript
  let fee ← getLong
  let timestamp ← getLong
  let proofs ← getProofs
  pure ⟨1, sender, script, fee, timestamp, proofs⟩

def parseBytes [ScriptReader] (bytes : ByteStr) : Except String SetScriptTransaction :=
  parse.from bytes 0

end SetScriptTxSerializer

namespace SetAssetScriptTxSerializer

def parse [ScriptReader] : Reader SetAssetScriptTransaction := do
  header [0, 15, 1, Crypto.chainId]
  let sender ← getPublicKey
  let asset ← getIssuedAsset
  let fee ← getLong
  let timestamp ← getLong
  let script ← getScript
  let proofs ← getProofs
  pure ⟨1, sender, asset, script, fee, timestamp, proofs⟩

def parseBytes [ScriptReader] (bytes : ByteStr) : Except String SetAssetScriptTransaction :=
  parse.from bytes 0

end SetAssetScriptTxSerializer

namespace SponsorFeeTxSerializer

omit [Crypto]

/-- The type and the version stand twice; a minimal fee of zero stands for none. -/
def parse : Reader SponsorFeeTransaction := do
  header [0, 14, 1, 14, 1]
  let sender ← getPublicKey
  let asset ← getIssuedAsset
  let minSponsoredAssetFee ← getLong
  let fee ← getLong
  let timestamp ← getLong
  let proofs ← getProofs
  pure ⟨1, sender, asset, if minSponsoredAssetFee = 0 then none else some minSponsoredAssetFee, fee,
    timestamp, proofs⟩

def parseBytes (bytes : ByteStr) : Except String SponsorFeeTransaction := parse.from bytes 0

end SponsorFeeTxSerializer

namespace InvokeScriptTxSerializer

omit [Crypto] in
/-- The asset id of a payment is what is left of its array, up to 32 bytes. -/
def parsePayment (arr : ByteStr) : Except String Payment :=
  if arr.length ≤ 8 then .error "ArrayIndexOutOfBoundsException"
  else
    .ok ⟨longAt arr 0,
      if byteAt arr 8 = 1 then .issued ⟨slice arr 9 AssetIdLength⟩ else .Waves⟩

def parse : Reader InvokeScriptTransaction := do
  header [0, 16, 1, Crypto.chainId]
  let sender ← getPublicKey
  let dApp ← getAddressOrAlias
  let flag ← ByteBuffer.get
  let functionCall ← if flag = 1 then some <$> Serde.deserializeCall else pure none
  let arrays ← Deser.parseArrays
  let payments ← Reader.ofTry (arrays.mapM parsePayment)
  let fee ← getLong
  let feeAssetId ← getAsset
  let timestamp ← getLong
  let proofs ← getProofs
  pure ⟨1, sender, dApp, functionCall, payments, fee, feeAssetId, timestamp, proofs⟩

def parseBytes (bytes : ByteStr) : Except String InvokeScriptTransaction := parse.from bytes 0

end InvokeScriptTxSerializer

/-! ## 5. The dispatch -/

namespace TransactionParsers

variable [ScriptReader]

/-- The parsers of the old encoding, by type. -/
def oldParseBytes (bytes : ByteStr) : Except String Transaction :=
  let typeId := byteAt bytes 0
  if typeId = 1 then Transaction.genesis <$> GenesisTxSerializer.parseBytes bytes
  else if typeId = 2 then Transaction.payment <$> PaymentTxSerializer.parseBytes bytes
  else if typeId = 3 then Transaction.issue <$> IssueTxSerializer.parseBytes bytes
  else if typeId = 4 then Transaction.transfer <$> TransferTxSerializer.parseBytes bytes
  else if typeId = 5 then Transaction.reissue <$> ReissueTxSerializer.parseBytes bytes
  else if typeId = 6 then Transaction.burn <$> BurnTxSerializer.parseBytes bytes
  else if typeId = 7 then Transaction.exchange <$> ExchangeTxSerializer.parseBytes bytes
  else if typeId = 8 then Transaction.lease <$> LeaseTxSerializer.parseBytes bytes
  else if typeId = 9 then Transaction.leaseCancel <$> LeaseCancelTxSerializer.parseBytes bytes
  else if typeId = 10 then Transaction.createAlias <$> CreateAliasTxSerializer.parseBytes bytes
  else if typeId = 11 then Transaction.massTransfer <$> MassTransferTxSerializer.parseBytes bytes
  else .error s!"Unknown transaction type (old encoding): '{typeId}'"

/-- The parsers of the modern encoding, by type and version. -/
def modernParseBytes (bytes : ByteStr) : Except String Transaction :=
  let typeId := byteAt bytes 1
  let version := byteAt bytes 2
  let twoVersions : Bool := version = 1 ∨ version = 2
  if typeId = 3 ∧ twoVersions then Transaction.issue <$> IssueTxSerializer.parseBytes bytes
  else if typeId = 4 ∧ twoVersions then
    Transaction.transfer <$> TransferTxSerializer.parseBytes bytes
  else if typeId = 5 ∧ twoVersions then Transaction.reissue <$> ReissueTxSerializer.parseBytes bytes
  else if typeId = 6 ∧ twoVersions then Transaction.burn <$> BurnTxSerializer.parseBytes bytes
  else if typeId = 7 ∧ twoVersions then
    Transaction.exchange <$> ExchangeTxSerializer.parseBytes bytes
  else if typeId = 8 ∧ twoVersions then Transaction.lease <$> LeaseTxSerializer.parseBytes bytes
  else if typeId = 9 ∧ twoVersions then
    Transaction.leaseCancel <$> LeaseCancelTxSerializer.parseBytes bytes
  else if typeId = 10 ∧ twoVersions then
    Transaction.createAlias <$> CreateAliasTxSerializer.parseBytes bytes
  else if typeId = 12 ∧ version = 1 then Transaction.data <$> DataTxSerializer.parseBytes bytes
  else if typeId = 13 ∧ version = 1 then
    Transaction.setScript <$> SetScriptTxSerializer.parseBytes bytes
  else if typeId = 14 ∧ version = 1 then
    Transaction.sponsorFee <$> SponsorFeeTxSerializer.parseBytes bytes
  else if typeId = 15 ∧ version = 1 then
    Transaction.setAssetScript <$> SetAssetScriptTxSerializer.parseBytes bytes
  else if typeId = 16 ∧ version = 1 then
    Transaction.invokeScript <$> InvokeScriptTxSerializer.parseBytes bytes
  else .error s!"Unknown transaction type ({typeId}) and version ({version}) (modern encoding)"

/-- `TransactionParsers.parseBytes`. -/
def parseBytes (bytes : ByteStr) : Except String Transaction :=
  if bytes.length ≤ 2 then .error "Buffer underflow while parsing transaction"
  else if byteAt bytes 0 = 0 then modernParseBytes bytes
  else oldParseBytes bytes

end TransactionParsers

end WavesNode
