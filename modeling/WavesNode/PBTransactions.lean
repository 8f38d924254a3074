/-
Transactions from their protobuf form: `PBTransactions.vanilla`.

The message types are generated from a schema the repository depends on; the records
here have the fields the conversion reads, an absent message being `none` and an
absent scalar its default. The conversion of every type but one ends in the type's
`create`. A transfer is built by its bare constructor.
-/
import WavesNode.TxValidators

set_option autoImplicit false

namespace WavesNode

open ByteBuffer

/-! ## 1. Messages -/

structure PBAmount where
  assetId : ByteStr
  amount : Long
  deriving DecidableEq

inductive PBRecipient where
  | Address (bytes : ByteStr)
  | Alias (name : String)
  | Empty
  deriving DecidableEq

inductive PBSide where
  | BUY
  | SELL
  | Unrecognized (value : ℕ)
  deriving DecidableEq

structure PBOrder where
  senderPublicKey : ByteStr
  matcherPublicKey : ByteStr
  assetPair : Option (ByteStr × ByteStr)
  orderSide : PBSide
  amount : Long
  price : Long
  timestamp : Long
  expiration : Long
  matcherFee : Option PBAmount
  version : Int32
  proofs : List ByteStr
  deriving DecidableEq

structure PBDataEntry where
  key : String
  value : Option DataEntryValue
  deriving DecidableEq

structure PBMassTransferItem where
  address : Option PBRecipient
  amount : Long
  deriving DecidableEq

/-- `Transaction.Data`. -/
inductive PBData where
  | Empty
  | Genesis (recipientAddress : ByteStr) (amount : Long)
  | Payment (recipientAddress : ByteStr) (amount : Long)
  | Issue (name description : ByteStr) (amount : Long) (decimals : Int32) (reissuable : Bool)
      (script : Option ByteStr)
  | Transfer (recipient : Option PBRecipient) (amount : Option PBAmount) (attachment : ByteStr)
  | Reissue (assetAmount : Option PBAmount) (reissuable : Bool)
  | Burn (assetAmount : Option PBAmount)
  | Exchange (amount price buyMatcherFee sellMatcherFee : Long) (orders : List PBOrder)
  | Lease (recipient : Option PBRecipient) (amount : Long)
  | LeaseCancel (leaseId : ByteStr)
  | CreateAlias (name : String)
  | MassTransfer (assetId : ByteStr) (transfers : List PBMassTransferItem) (attachment : ByteStr)
  | DataTransaction (data : List PBDataEntry)
  | SetScript (script : Option ByteStr)
  | SponsorFee (minFee : Option PBAmount)
  | SetAssetScript (assetId : ByteStr) (script : Option ByteStr)
  | InvokeScript (dApp : Option PBRecipient) (functionCall : ByteStr) (payments : List PBAmount)
  deriving DecidableEq

structure PBTransaction where
  chainId : Int32
  senderPublicKey : ByteStr
  fee : Option PBAmount
  timestamp : Long
  version : Int32
  data : PBData
  deriving DecidableEq

structure PBSignedTransaction where
  transaction : Option PBTransaction
  proofs : List ByteStr
  deriving DecidableEq

/-! ## 2. Parts -/

namespace PBAmounts

def toVanillaAssetId (b : ByteStr) : Asset := if b.isEmpty then .Waves else .issued ⟨b⟩

def toAssetAndAmount (a : PBAmount) : Asset × Long := (toVanillaAssetId a.assetId, a.amount)

end PBAmounts

variable [Crypto]

namespace PBRecipients

/-- `toAddress(bytes)`: a compressed address, a whole one, or a public key. -/
def toAddressOfBytes (bytes : ByteStr) : Validation Address :=
  if bytes.length = Address.HashLength then
    let withHeader := Address.AddressVersion :: Crypto.chainId :: bytes
    Address.fromBytes (withHeader ++ Address.calcCheckSum withHeader)
  else if bytes.length = Address.AddressLength then Address.fromBytes bytes
  else if bytes.length = KeyLength then .ok (PublicKey.toAddress bytes)
  else .fail (.GenericError s!"Invalid address length: {bytes.length}")

def toAddressOrAlias : PBRecipient → Validation AddressOrAlias
  | .Address bytes => .address <$> toAddressOfBytes bytes
  | .Alias name => .alias <$> Alias.createWithChainId name Crypto.chainId
  | .Empty => .fail (.GenericError "Not an address or alias: ")

end PBRecipients

/-- `ScriptReader.fromBytes(…).right.get`. -/
def readScript [ScriptReader] : Option ByteStr → Validation (Option Script)
  | none => .ok none
  | some bytes =>
    match ScriptReader.fromBytes bytes with
    | .ok s => .ok (some s)
    | .error _ => .throwing "Either.right.get on Left"

omit [Crypto] in
def toVanillaDataEntry (e : PBDataEntry) : Validation DataEntry :=
  match e.value with
  | some v => .ok ⟨e.key, v, none⟩
  | none => .throwing "Empty entries not supported"

omit [Crypto] in
/-- `PBOrders.vanilla`. -/
def PBOrders.vanilla (o : PBOrder) : Validation Order := do
  let pair := o.assetPair.getD ([], [])
  let fee := o.matcherFee.getD ⟨[], 0⟩
  let orderType ← match o.orderSide with
    | .BUY => .ok .BUY
    | .SELL => .ok .SELL
    | .Unrecognized v => .throwing s!"Unknown order type: {v}"
  .ok ⟨o.version.toInt8, o.senderPublicKey, o.matcherPublicKey,
    ⟨PBAmounts.toVanillaAssetId pair.1, PBAmounts.toVanillaAssetId pair.2⟩, orderType, o.amount,
    o.price, o.timestamp, o.expiration, fee.amount, PBAmounts.toVanillaAssetId fee.assetId,
    ⟨o.proofs⟩⟩

omit [Crypto] in
/-- The call of an invocation: its bytes must be a call and nothing more. -/
def readFunctionCall (bytes : ByteStr) : Validation (Option FunctionCall) :=
  match Deser.parseByteArrayOptionWithLength.from bytes 0 with
  | .error e => .throwing e
  | .ok none => .ok none
  | .ok (some call) =>
    match Serde.deserializeCall ⟨call, 0⟩ with
    | .error e => .fail (.GenericError s!"Invalid InvokeScript function call: {e}")
    | .ok (f, buf) =>
      if buf.remaining = 0 then .ok (some f)
      else .fail (.GenericError
        s!"Invalid InvokeScript function call: {buf.remaining} bytes left")

/-! ## 3. The conversion -/

namespace PBTransactions

variable [PBTransactionSerializer] [ScriptReader]

/-- `createVanilla`. -/
def createVanilla (version : Int32) (chainId : Byte) (sender : PublicKey) (feeAmount : Long)
    (feeAssetId : Asset) (timestamp : Long) (proofs : Proofs) (data : PBData) :
    Validation Transaction :=
  let signature := proofs.toSignature
  match data with
  | .Genesis recipient amount => do
    let addr ← PBRecipients.toAddressOfBytes recipient
    validatedEither (.genesis ⟨addr, amount, timestamp,
      GenesisTransaction.generateSignature addr amount timestamp⟩)
  | .Payment recipient amount => do
    let _ ← PBRecipients.toAddressOfBytes recipient
    -- the recipient is read again, this time as a whole address
    match Address.fromBytes recipient with
    | .ok addr => validatedEither (.payment ⟨sender, addr, amount, feeAmount, timestamp, signature⟩)
    | .error _ => .throwing "Either.right.get on Left"
  | .Transfer (some recipient) (some amount) attachment => do
    let address ← PBRecipients.toAddressOrAlias recipient
    .ok (.transfer ⟨version.toInt8, sender, address, PBAmounts.toVanillaAssetId amount.assetId,
      amount.amount, feeAssetId, feeAmount, attachment, timestamp, proofs⟩)
  | .CreateAlias name => do
    let a ← Alias.createWithChainId name chainId
    validatedEither (.createAlias ⟨version.toInt8, sender, a, feeAmount, timestamp, ⟨[signature]⟩⟩)
  | .Issue name description quantity decimals reissuable script => do
    let s ← readScript script
    validatedEither (.issue ⟨version.toInt8, sender, name, description, quantity, decimals.toInt8,
      reissuable, s, feeAmount, timestamp, proofs⟩)
  | .Reissue (some a) reissuable =>
    validatedEither (.reissue ⟨version.toInt8, sender, ⟨a.assetId⟩, a.amount, reissuable, feeAmount,
      timestamp, proofs⟩)
  | .Burn (some a) =>
    validatedEither (.burn ⟨version.toInt8, sender, ⟨a.assetId⟩, a.amount, feeAmount, timestamp,
      proofs⟩)
  | .SetAssetScript assetId script => do
    let s ← readScript script
    validatedEither (.setAssetScript ⟨1, sender, ⟨assetId⟩, s, feeAmount, timestamp, proofs⟩)
  | .SetScript script => do
    let s ← readScript script
    validatedEither (.setScript ⟨1, sender, s, feeAmount, timestamp, proofs⟩)
  | .Lease (some recipient) amount => do
    let address ← PBRecipients.toAddressOrAlias recipient
    validatedEither (.lease ⟨version.toInt8, sender, address, amount, feeAmount, timestamp, proofs⟩)
  | .LeaseCancel leaseId =>
    validatedEither (.leaseCancel ⟨version.toInt8, sender, leaseId, feeAmount, timestamp, proofs⟩)
  | .Exchange amount price buyMatcherFee sellMatcherFee [buyOrder, sellOrder] => do
    let buy ← PBOrders.vanilla buyOrder
    let sell ← PBOrders.vanilla sellOrder
    validatedEither (.exchange ⟨2, buy, sell, amount, price, buyMatcherFee, sellMatcherFee,
      feeAmount, timestamp, proofs⟩)
  | .DataTransaction entries => do
    let es ← entries.mapM toVanillaDataEntry
    validatedEither (.data ⟨1, sender, es, feeAmount, timestamp, proofs⟩)
  | .MassTransfer assetId transfers attachment =>
    -- a recipient that cannot be read drops its transfer
    let parsed := transfers.filterMap fun t =>
      match PBRecipients.toAddressOrAlias (t.address.getD .Empty) with
      | .ok address => some ⟨address, t.amount⟩
      | .error _ => none
    validatedEither (.massTransfer ⟨1, sender, PBAmounts.toVanillaAssetId assetId, parsed,
      feeAmount, timestamp, attachment, proofs⟩)
  | .SponsorFee (some a) =>
    validatedEither (.sponsorFee ⟨1, sender, ⟨a.assetId⟩,
      if 0 < a.amount then some a.amount else none, feeAmount, timestamp, proofs⟩)
  | .InvokeScript (some dApp) functionCall payments => do
    let address ← PBRecipients.toAddressOrAlias dApp
    let call ← readFunctionCall functionCall
    validatedEither (.invokeScript ⟨1, sender, address, call,
      payments.map fun p => ⟨p.amount, PBAmounts.toVanillaAssetId p.assetId⟩, feeAmount,
      feeAssetId, timestamp, proofs⟩)
  | _ => .fail .UnsupportedTransactionType

/-- `PBTransactions.vanilla(signedTx)`. -/
def vanilla (signedTx : PBSignedTransaction) : Validation Transaction := do
  let parsedTx ← .ofOption (.GenericError "Transaction must be specified") signedTx.transaction
  let fee ← .ofOption (.GenericError "Fee must be specified") parsedTx.fee
  .cond (parsedTx.data ≠ .Empty) (.GenericError "Transaction data must be specified")
  let feeAmount := PBAmounts.toAssetAndAmount fee
  createVanilla parsedTx.version parsedTx.chainId.toInt8 parsedTx.senderPublicKey feeAmount.2
    feeAmount.1 parsedTx.timestamp ⟨signedTx.proofs⟩ parsedTx.data

/-! ## 4. What the conversion checks -/

/-- The one type whose conversion does not end in `create`: a transfer. -/
def isTransfer (signedTx : PBSignedTransaction) : Bool :=
  match signedTx.transaction.map PBTransaction.data with
  | some (.Transfer _ _ _) => true
  | _ => false

/-- Every conversion but a transfer's gives a transaction its validator accepts. -/
theorem createVanilla_valid {version : Int32} {chainId : Byte} {sender : PublicKey}
    {feeAmount : Long} {feeAssetId : Asset} {timestamp : Long} {proofs : Proofs} {data : PBData}
    {tx : Transaction}
    (hdata : ∀ recipient amount attachment, data ≠ .Transfer recipient amount attachment)
    (h : createVanilla version chainId sender feeAmount feeAssetId timestamp proofs data = .ok tx) :
    tx.validate = [] := by
  have done {t : Transaction} (ht : validatedEither t = .ok tx) : tx.validate = [] := by
    obtain ⟨hv, rfl⟩ := validatedEither_eq_ok.mp ht
    exact hv
  unfold createVanilla at h
  dsimp only at h
  split at h
  case h_2 =>
    obtain ⟨_, -, h⟩ := Validation.bind_eq_ok.mp h
    split at h
    · exact done h
    · simp at h
  case h_3 => exact absurd rfl (hdata _ _ _)
  case h_12 =>
    obtain ⟨_, -, h⟩ := Validation.bind_eq_ok.mp h
    obtain ⟨_, -, h⟩ := Validation.bind_eq_ok.mp h
    exact done h
  case h_16 =>
    obtain ⟨_, -, h⟩ := Validation.bind_eq_ok.mp h
    obtain ⟨_, -, h⟩ := Validation.bind_eq_ok.mp h
    exact done h
  case h_17 => simp at h
  -- the types that build nothing, or one thing, before they call `create`
  all_goals
    first
    | exact done h
    | (obtain ⟨_, -, h⟩ := Validation.bind_eq_ok.mp h
       exact done h)

end PBTransactions

end WavesNode
