/-
The static checks of a transaction: the `…TxValidator` objects and `TxConstraints`.

A validator runs all its checks and collects the errors, so it is modelled by the
list of its errors: a transaction is valid when the list is empty, and `create` fails
with the head of it. Genesis and payment transactions have no validator; what their
`create` refuses is listed the same way.

The parsers do not call a validator; the `create` constructors do.
-/
import WavesNode.TransactionParsers
import WavesNode.Block

set_option autoImplicit false

namespace WavesNode

/-! ## 1. `TxConstraints`, called `V` by the validators -/

namespace V

def cond (c : Bool) (err : ValidationError) : List ValidationError := if c then [] else [err]

def fee (fee : Long) : List ValidationError := cond (fee > 0) (.InsufficientFee "insufficient fee")

def positiveAmount (amount : Long) (of_ : String) : List ValidationError :=
  cond (amount > 0) (.NonPositiveAmount amount of_)

def positiveOrZeroAmount (amount : Long) (of_ : String) : List ValidationError :=
  cond (amount ≥ 0) (.NegativeAmount amount of_)

def noOverflow (amounts : List Long) : List ValidationError :=
  cond (amounts.foldlM Long.addExact 0).isSome .OverflowError

@[simp] theorem cond_eq_nil {c : Bool} {err : ValidationError} : cond c err = [] ↔ c = true := by
  cases c <;> simp [cond]

@[simp] theorem fee_eq_nil {f : Long} : fee f = [] ↔ 0 < f := by
  simp [fee]

@[simp] theorem positiveAmount_eq_nil {amount : Long} {of_ : String} :
    positiveAmount amount of_ = [] ↔ 0 < amount := by
  simp [positiveAmount]

@[simp] theorem positiveOrZeroAmount_eq_nil {amount : Long} {of_ : String} :
    positiveOrZeroAmount amount of_ = [] ↔ 0 ≤ amount := by
  simp [positiveOrZeroAmount]

@[simp] theorem noOverflow_eq_nil {amounts : List Long} :
    noOverflow amounts = [] ↔ (amounts.foldlM Long.addExact 0).isSome = true := by
  simp [noOverflow]

end V

namespace TransferTransaction
def MaxAttachmentSize : ℕ := 140
end TransferTransaction

namespace MassTransferTransaction
def MaxTransferCount : ℕ := 100
end MassTransferTransaction

namespace DataTransaction
def MaxBytes : ℕ := 150 * 1024
def MaxEntryCount : ℕ := 100
end DataTransaction

namespace IssueTransaction
def MinAssetNameLength : ℕ := 4
def MaxAssetNameLength : ℕ := 16
def MaxAssetDescriptionLength : ℕ := 1000
def MaxAssetDecimals : Byte := 8
end IssueTransaction

namespace ContractLimits
def MaxInvokeScriptArgs : ℕ := 22
def MaxAnnotatedFunctionNameInBytes : ℕ := 255
def MaxInvokeScriptSizeInBytes : ℕ := 5 * 1024
end ContractLimits

/-- `Short.MaxValue`. -/
def Short.MaxValue : ℕ := 32767

/-! ## 2. Orders -/

namespace Order

def MaxLiveTime : Long := 30 * 24 * 60 * 60 * 1000

def MaxAmount : Long := 100 * 100000000 * 100000000

/-- `Order.PriceConstant`. -/
def PriceConstant : ℤ := 100000000

def getSpendAssetId (o : Order) : Asset :=
  match o.orderType with
  | .BUY => o.assetPair.priceAsset
  | .SELL => o.assetPair.amountAsset

def getReceiveAssetId (o : Order) : Asset :=
  match o.orderType with
  | .BUY => o.assetPair.amountAsset
  | .SELL => o.assetPair.priceAsset

/-- `Order.getSpendAmount`. An amount in Waves must also fit together with the fee. -/
def getSpendAmount (o : Order) (matchAmount matchPrice : Long) : Validation Long :=
  match o.orderType with
  | .SELL => .ok matchAmount
  | .BUY =>
    let spend := (matchAmount.toInt * matchPrice.toInt).tdiv PriceConstant
    if o.getSpendAssetId = .Waves ∧ ¬Long.InRange (spend + o.matcherFee.toInt) then
      .fail (.GenericError "BigInteger out of long range")
    else
      .ofOption (.GenericError "BigInteger out of long range") (Long.longValueExact spend)

/-- `Order.getReceiveAmount`. -/
def getReceiveAmount (o : Order) (matchAmount matchPrice : Long) : Validation Long :=
  match o.orderType with
  | .BUY => .ok matchAmount
  | .SELL =>
    .ofOption (.GenericError "BigInteger out of long range")
      (Long.longValueExact ((matchAmount.toInt * matchPrice.toInt).tdiv PriceConstant))

/-- The label of the first check of a chain that fails. -/
def firstFailure (checks : List (Bool × String)) : Option String :=
  (checks.find? fun c => !c.1).map Prod.snd

/-- `isValid(atTime)`: nothing, or what is wrong first. -/
def isValid (o : Order) (atTime : Long) : Option String :=
  let positive (x : Validation Long) : Bool :=
    match x with
    | .ok v => 0 < v
    | .error _ => false
  firstFailure
    [(0 < o.amount, "amount should be > 0"),
      (0 < o.price, "price should be > 0"),
      (o.amount < MaxAmount, "amount too large"),
      ((o.getSpendAmount o.amount o.price).toBool, "SpendAmount too large"),
      (positive (o.getSpendAmount o.amount o.price), "SpendAmount should be > 0"),
      ((o.getReceiveAmount o.amount o.price).toBool, "ReceiveAmount too large"),
      (positive (o.getReceiveAmount o.amount o.price), "ReceiveAmount should be > 0"),
      (o.assetPair.amountAsset ≠ o.assetPair.priceAsset, "Invalid AssetPair"),
      (0 < o.matcherFee, "matcherFee should be > 0"),
      (o.matcherFee < MaxAmount, "matcherFee too large"),
      (0 < o.timestamp, "timestamp should be > 0"),
      (o.expiration - atTime ≤ MaxLiveTime, "expiration should be earlier than 30 days"),
      (atTime ≤ o.expiration, "expiration should be > currentTime"),
      (o.matcherFeeAssetId = .Waves ∨ 3 ≤ o.version, "matcherFeeAssetId should be waves")]

end Order

/-! ## 3. Data entries and sizes -/

/-- `String.length` of the virtual machine, in 16-bit units. -/
def javaLength (s : String) : ℕ := (s.toList.map fun c => if c.toNat < 0x10000 then 1 else 2).sum

namespace DataEntry

def MaxKeySize : ℕ := 100

def valid (e : DataEntry) : Bool :=
  javaLength e.key ≤ MaxKeySize &&
    match e.value with
    | .Binary v => v.length ≤ Short.MaxValue
    | .String v => (utf8Bytes v).length ≤ Short.MaxValue
    | _ => true

/-- Whether the value fits the 16-bit length it is written with. -/
def writable (e : DataEntry) : Bool :=
  e.dataBytes.isSome ||
    match e.value with
    | .Binary v => v.length ≤ Short.MaxValue
    | .String v => (utf8Bytes v).length ≤ Short.MaxValue
    | _ => true

end DataEntry

def Proofs.writable (p : Proofs) : Bool :=
  p.proofs.length ≤ Short.MaxValue && p.proofs.all fun x => x.length ≤ Short.MaxValue

/-! ## 4. Validators -/

section
variable [Crypto]

/-- What `GenesisTransaction.create` refuses. -/
def GenesisTransaction.checks (tx : GenesisTransaction) : List ValidationError :=
  V.cond (tx.amount ≥ 0) (.NegativeAmount tx.amount "waves")

/-- What `PaymentTransaction.create` refuses. -/
def PaymentTransaction.checks (tx : PaymentTransaction) : List ValidationError :=
  V.cond (tx.amount > 0) (.NonPositiveAmount tx.amount "waves") ++
    V.cond (tx.fee > 0) (.InsufficientFee "insufficient fee") ++
    V.cond (Long.addExact tx.amount tx.fee).isSome .OverflowError

omit [Crypto] in
def IssueTxValidator.validate (tx : IssueTransaction) : List ValidationError :=
  V.positiveAmount tx.quantity "assets" ++
    V.cond (IssueTransaction.MinAssetNameLength ≤ tx.name.length &&
      tx.name.length ≤ IssueTransaction.MaxAssetNameLength) .InvalidName ++
    V.cond (tx.description.length ≤ IssueTransaction.MaxAssetDescriptionLength) .TooBigArray ++
    V.cond (0 ≤ tx.decimals && tx.decimals ≤ IssueTransaction.MaxAssetDecimals) .TooBigArray ++
    V.fee tx.fee ++
    V.cond (1 < tx.version || tx.script.isNone) (.GenericError "Script not supported") ++
    V.cond (tx.script.all fun s => s.expr = .expr)
      (.GenericError "Asset can only be assigned with Expression script, not Contract")

omit [Crypto] in
def TransferTxValidator.validate (tx : TransferTransaction) : List ValidationError :=
  V.fee tx.fee ++
    V.positiveAmount tx.amount (tx.assetId.maybeBase58Repr.getD "waves") ++
    V.cond (tx.attachment.length ≤ TransferTransaction.MaxAttachmentSize) .TooBigArray

omit [Crypto] in
def ReissueTxValidator.validate (tx : ReissueTransaction) : List ValidationError :=
  V.positiveAmount tx.quantity "assets" ++ V.fee tx.fee

omit [Crypto] in
def BurnTxValidator.validate (tx : BurnTransaction) : List ValidationError :=
  V.positiveOrZeroAmount tx.quantity "assets" ++ V.fee tx.fee

omit [Crypto] in
def ExchangeTxValidator.validate (tx : ExchangeTransaction) : List ValidationError :=
  let orderCheck (o : Order) : List ValidationError :=
    V.cond (o.isValid tx.timestamp).isNone
      (.OrderValidationError o ((o.isValid tx.timestamp).getD ""))
  V.fee tx.fee ++
    V.positiveAmount tx.amount "assets" ++
    V.cond (tx.amount ≤ Order.MaxAmount) (.GenericError "amount too large") ++
    V.cond (tx.price > 0) (.GenericError "price should be > 0") ++
    V.cond (tx.price ≤ Order.MaxAmount) (.GenericError "price too large") ++
    V.cond (tx.sellMatcherFee ≤ Order.MaxAmount) (.GenericError "sellMatcherFee too large") ++
    V.cond (tx.buyMatcherFee ≤ Order.MaxAmount) (.GenericError "buyMatcherFee too large") ++
    V.cond (tx.fee ≤ Order.MaxAmount) (.GenericError "fee too large") ++
    V.cond (tx.buyOrder.orderType = .BUY) (.GenericError "buyOrder should has OrderType.BUY") ++
    V.cond (tx.sellOrder.orderType = .SELL) (.GenericError "sellOrder should has OrderType.SELL") ++
    V.cond (tx.buyOrder.matcherPublicKey = tx.sellOrder.matcherPublicKey)
      (.GenericError "buyOrder.matcher should be the same as sellOrder.matcher") ++
    V.cond (tx.buyOrder.assetPair = tx.sellOrder.assetPair)
      (.GenericError "Both orders should have same AssetPair") ++
    orderCheck tx.buyOrder ++
    orderCheck tx.sellOrder ++
    V.cond (tx.price ≤ tx.buyOrder.price && tx.sellOrder.price ≤ tx.price)
      (.GenericError "priceIsValid") ++
    V.cond (1 < tx.version || (tx.buyOrder.version = 1 && tx.sellOrder.version = 1))
      (.GenericError "can only contain orders of version 1")

def LeaseTxValidator.validate (tx : LeaseTransaction) : List ValidationError :=
  V.fee tx.fee ++
    V.cond (tx.amount > 0) (.NonPositiveAmount tx.amount "waves") ++
    V.noOverflow [tx.amount, tx.fee] ++
    V.cond (.address tx.sender.toAddress ≠ tx.recipient) .ToSelf

omit [Crypto] in
def LeaseCancelTxValidator.validate (tx : LeaseCancelTransaction) : List ValidationError :=
  V.fee tx.fee ++
    V.cond (tx.leaseId.length = DigestLength) (.GenericError "Lease transaction id is invalid")

/-- `TxFeeValidator`, the validator of aliases and account scripts. -/
def TxFeeValidator.validate (txFee : Long) : List ValidationError := V.fee txFee

omit [Crypto] in
def MassTransferTxValidator.validate (tx : MassTransferTransaction) : List ValidationError :=
  V.noOverflow (tx.fee :: tx.transfers.map ParsedTransfer.amount) ++
    V.cond (tx.transfers.length ≤ MassTransferTransaction.MaxTransferCount)
      (.GenericError
        s!"Number of transfers {tx.transfers.length} is greater than {MassTransferTransaction.MaxTransferCount}") ++
    V.cond (tx.attachment.length ≤ TransferTransaction.MaxAttachmentSize) .TooBigArray ++
    V.cond (tx.transfers.all fun t => t.amount ≥ 0)
      (.GenericError "One of the transfers has negative amount") ++
    V.fee tx.fee

omit [Crypto] in
def SponsorFeeTxValidator.validate (tx : SponsorFeeTransaction) : List ValidationError :=
  V.cond (tx.minSponsoredAssetFee.all fun m => m > 0)
      (.NegativeMinFee (tx.minSponsoredAssetFee.getD 0) "asset") ++
    V.fee tx.fee

omit [Crypto] in
def SetAssetScriptTxValidator.validate (tx : SetAssetScriptTransaction) : List ValidationError :=
  V.cond (tx.script.all fun s => s.expr = .expr)
      (.GenericError "Asset can only be assigned with Expression script, not Contract") ++
    V.fee tx.fee

/-- The test of the length of `bytes()`, which fails where writing them does. -/
def fitsIn (tx : Transaction) [PBTransactionSerializer] (writable : Bool) (maxBytes : ℕ) : Bool :=
  !tx.isProtobufVersion && writable && (TxSerializer.bytes tx).length ≤ maxBytes

def DataTxValidator.validate [PBTransactionSerializer] (tx : DataTransaction) :
    List ValidationError :=
  V.cond (tx.data.length ≤ DataTransaction.MaxEntryCount && tx.data.all DataEntry.valid)
      .TooBigArray ++
    V.cond (tx.data.all fun e => e.key ≠ "") .EmptyDataKey ++
    V.cond (tx.data.map DataEntry.key).Nodup .DuplicatedDataKeys ++
    V.fee tx.fee ++
    V.cond (fitsIn (.data tx) (tx.data.all DataEntry.writable && tx.proofs.writable)
      DataTransaction.MaxBytes) .TooBigArray

omit [Crypto] in
/-- The three checks of the function call. -/
def InvokeScriptTxValidator.callChecks (call : Option FunctionCall) : List ValidationError :=
  V.cond (call.all fun f => f.args.length ≤ ContractLimits.MaxInvokeScriptArgs)
      (.GenericError
        s!"InvokeScript can't have more than {ContractLimits.MaxInvokeScriptArgs} arguments") ++
    V.cond (call.all fun f =>
        match f.function with
        | .User internalName =>
          (utf8Bytes internalName).length ≤ ContractLimits.MaxAnnotatedFunctionNameInBytes
        | .Native _ => true)
      (.GenericError
        s!"Callable function name size in bytes must be less than {ContractLimits.MaxAnnotatedFunctionNameInBytes} bytes") ++
    V.cond (call.all fun f => f.args.all fun a => !(a matches .other _))
      (.GenericError
        "All arguments of invokeScript must be one of the types: Int, ByteVector, String, Boolean")

def InvokeScriptTxValidator.validate [PBTransactionSerializer] (tx : InvokeScriptTransaction) :
    List ValidationError :=
  InvokeScriptTxValidator.callChecks tx.funcCallOpt ++
    (tx.payments.filter fun p => p.amount ≤ 0).map
      (fun p => .NonPositiveAmount p.amount ((p.assetId.maybeBase58Repr).elim "Waves"
        fun id => s!"IssuedAsset({id})")) ++
    V.fee tx.fee ++
    V.cond (fitsIn (.invokeScript tx)
      (tx.payments.length ≤ Short.MaxValue && tx.proofs.writable)
      ContractLimits.MaxInvokeScriptSizeInBytes) .TooBigArray

end

/-- The errors of a transaction by the validator of its type. -/
def Transaction.validate [Crypto] [PBTransactionSerializer] : Transaction → List ValidationError
  | .genesis tx => tx.checks
  | .payment tx => tx.checks
  | .issue tx => IssueTxValidator.validate tx
  | .transfer tx => TransferTxValidator.validate tx
  | .reissue tx => ReissueTxValidator.validate tx
  | .burn tx => BurnTxValidator.validate tx
  | .exchange tx => ExchangeTxValidator.validate tx
  | .lease tx => LeaseTxValidator.validate tx
  | .leaseCancel tx => LeaseCancelTxValidator.validate tx
  | .createAlias tx => TxFeeValidator.validate tx.fee
  | .massTransfer tx => MassTransferTxValidator.validate tx
  | .data tx => DataTxValidator.validate tx
  | .setScript tx => TxFeeValidator.validate tx.fee
  | .sponsorFee tx => SponsorFeeTxValidator.validate tx
  | .setAssetScript tx => SetAssetScriptTxValidator.validate tx
  | .invokeScript tx => InvokeScriptTxValidator.validate tx

/-- `validatedEither`, and so `create`: the transaction, or its first error. -/
def validatedEither [Crypto] [PBTransactionSerializer] (tx : Transaction) :
    Validation Transaction :=
  match tx.validate with
  | [] => .ok tx
  | e :: _ => .fail e

theorem validatedEither_eq_ok [Crypto] [PBTransactionSerializer] {tx tx' : Transaction} :
    validatedEither tx = .ok tx' ↔ tx.validate = [] ∧ tx' = tx := by
  unfold validatedEither
  cases h : tx.validate with
  | nil => simp [eq_comm]
  | cons e rest => simp

end WavesNode
