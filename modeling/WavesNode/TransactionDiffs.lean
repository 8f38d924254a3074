/-
The changes of every transaction type but calls: the `…TransactionDiff` objects.

Each definition computes the diff of one type as its source does, in the order of
its checks. `Diff.ofTx` records the transaction with the addresses of the portfolios
and data *given to it*. Reissue and burn give it none and add their portfolio
afterwards, so the recorded address set of these two types is empty.
-/
import WavesNode.BalanceDiffValidation
import WavesNode.TxValidators

set_option autoImplicit false

namespace WavesNode

variable [Crypto] [PBTransactionSerializer] [Ride]

/-! ## 1. `DiffsCommon` -/

namespace DiffsCommon

section
omit [Ride]

def countScriptRuns (b : Blockchain) (tx : Transaction) : ℕ :=
  tx.checkedAssets.countP b.hasAssetScript +
    (match tx.sender? with
      | some sender => if b.hasScript sender.toAddress then 1 else 0
      | none => 0)

def getScriptsComplexity (b : Blockchain) (tx : Transaction) : Long :=
  let assetsComplexity :=
    (tx.checkedAssets.filterMap b.assetScriptWithComplexity).map Prod.snd
  let accountComplexity :=
    (tx.sender?.bind fun s => b.accountScriptWithComplexity s.toAddress).map Prod.snd
  longSum assetsComplexity + accountComplexity.getD 0

end

/-- The script with the complexity of its verifier. -/
def countScriptComplexity (script : Option Script) (b : Blockchain) :
    Validation (Option (Script × Long)) :=
  match script with
  | none => .ok none
  | some s =>
    match Ride.verifierComplexity s b.estimator with
    | .ok c => .ok (some (s, c))
    | .error e => .fail (.GenericError e)

omit [PBTransactionSerializer] [Ride] in
/-- `validateAsset`. Any transaction passes for an asset; only an issue transaction's
sender is compared. -/
def validateAsset (b : Blockchain) (asset : IssuedAsset) (sender : Address) (issuerOnly : Bool) :
    Validation Unit :=
  match b.transactionInfo asset.id with
  | some (_, .issue sitx) =>
    if issuerOnly ∧ sender ≠ sitx.sender.toAddress then
      .fail (.GenericError "Asset was issued by other address")
    else .ok ()
  | none => .fail (.GenericError "Referenced assetId not found")
  | some _ => .ok ()

def processReissue (b : Blockchain) (sender : Address) (blockTime fee : Long)
    (reissue : Reissue) : Validation Diff := do
  let asset : IssuedAsset := ⟨reissue.assetId⟩
  validateAsset b asset sender true
  let oldInfo ← .get "None.get" (b.assetDescription asset)
  let isDataTxActivated := b.isFeatureActivated BlockchainFeatures.DataTransaction
  if oldInfo.reissuable ∨
      blockTime ≤ b.settings.functionalitySettings.allowInvalidReissueInSameBlockUntilTimestamp then
    if (Long.MaxValue - reissue.quantity).toInt < oldInfo.totalVolume ∧ isDataTxActivated then
      .fail (.GenericError "Asset total value overflow")
    else
      .ok { Diff.empty with
        portfolios := .single sender ⟨-fee, LeaseBalance.empty, .single asset reissue.quantity⟩
        issuedAssets := .single asset ⟨reissue.isReissuable, reissue.quantity.toInt⟩ }
  else .fail (.GenericError "Asset is not reissuable")

def processBurn (b : Blockchain) (sender : Address) (fee : Long) (burn : Burn) :
    Validation Diff := do
  let burnAnyTokensEnabled := b.isFeatureActivated BlockchainFeatures.BurnAnyTokens
  let asset : IssuedAsset := ⟨burn.assetId⟩
  validateAsset b asset sender !burnAnyTokensEnabled
  .ok { Diff.empty with
    portfolios := .single sender ⟨-fee, LeaseBalance.empty, .single asset (-burn.quantity)⟩
    issuedAssets := .single asset ⟨true, (-burn.quantity).toInt⟩ }

end DiffsCommon

/-- The portfolio of a sender who only pays a fee in Waves. -/
def feePortfolio (sender : PublicKey) (fee : Long) : Portfolios :=
  .single sender.toAddress (.waves (-fee))

/-! ## 2. Genesis and payment -/

def GenesisTransactionDiff (height : ℕ) (tx : GenesisTransaction) : Validation Diff :=
  if height ≠ 1 then
    .fail (.GenericError s!"GenesisTransaction cannot appear in non-initial block ({height})")
  else
    .ok <| .ofTx (.genesis tx)
      { Diff.empty with portfolios := .single tx.recipient (.waves tx.amount) }

def PaymentTransactionDiff (b : Blockchain) (tx : PaymentTransaction) : Validation Diff :=
  let blockVersion3AfterHeight := b.settings.functionalitySettings.blockVersion3AfterHeight
  if b.height > blockVersion3AfterHeight then
    .fail (.GenericError
      s!"Payment transaction is deprecated after h={blockVersion3AfterHeight}")
  else
    .ok <| .ofTx (.payment tx)
      { Diff.empty with
        portfolios := Portfolios.combine (.single tx.recipient (.waves tx.amount))
          (.single tx.sender.toAddress (.waves (-tx.amount - tx.fee))) }

/-! ## 3. Transfers -/

/-- The fee part of a transfer or a call in a sponsored asset: the issuer takes the
asset and pays the Waves. -/
def sponsorPortfolio (b : Blockchain) (asset : IssuedAsset) (fee : Long) :
    Validation Portfolios :=
  match b.assetDescription asset with
  | some desc =>
    if desc.sponsorship > 0 then do
      let feeInWaves ← Sponsorship.toWaves fee desc.sponsorship
      .ok (.single desc.issuer.toAddress
        ⟨-feeInWaves, LeaseBalance.empty, .single asset fee⟩)
    else .ok ∅
  | none => .ok ∅

namespace TransferTransactionDiff

def validateOverflow (b : Blockchain) (tx : TransferTransaction) : Validation Unit :=
  if b.isFeatureActivated BlockchainFeatures.Ride4DApps then .ok ()
  else
    match Long.addExact tx.fee tx.amount with
    | some _ => .ok ()
    | none => .fail .OverflowError

/-- The fee part of a transfer's portfolios. -/
def feePart (b : Blockchain) (sender : Address) (tx : TransferTransaction) :
    Validation Portfolios :=
  match tx.feeAssetId with
  | .Waves => .ok (.single sender (.waves (-tx.fee)))
  | .issued asset =>
    let senderPf : Portfolios := .single sender (.build (.issued asset) (-tx.fee))
    if b.height ≥ b.sponsoredFeesSwitchHeight then do
      let sponsorPf ← sponsorPortfolio b asset tx.fee
      .ok (senderPf.combine sponsorPf)
    else .ok senderPf

/-- Whether an asset is issued; Waves always are. -/
def issuedOrWaves (b : Blockchain) : Asset → Bool
  | .Waves => true
  | .issued a => (b.assetDescription a).isSome

def apply (b : Blockchain) (blockTime : Long) (tx : TransferTransaction) : Validation Diff := do
  let sender := tx.sender.toAddress
  let isSmartAsset :=
    match tx.feeAssetId with
    | .Waves => false
    | .issued asset => ((b.assetDescription asset).bind AssetDescription.script).isSome
  let recipient ← b.resolveRecipient tx.recipient
  .cond (!isSmartAsset)
    (.GenericError "Smart assets can't participate in TransferTransactions as a fee")
  validateOverflow b tx
  let fee ← feePart b sender tx
  let portfolios :=
    ((Portfolios.combine (.single sender (.build tx.assetId (-tx.amount)))
      (.single recipient (.build tx.assetId tx.amount))).combine fee)
  let fs := b.settings.functionalitySettings
  .cond (blockTime ≤ fs.allowUnissuedAssetsUntil ||
      (issuedOrWaves b tx.assetId && issuedOrWaves b tx.feeAssetId))
    (.GenericError
      s!"Unissued assets are not allowed after allowUnissuedAssetsUntil={fs.allowUnissuedAssetsUntil}")
  .ok <| .ofTx (.transfer tx)
    { Diff.empty with
      portfolios := portfolios
      scriptsRun := DiffsCommon.countScriptRuns b (.transfer tx) }

end TransferTransactionDiff

namespace MassTransferTransactionDiff

/-- `parseTransfer`: one recipient's portfolio and the amount. -/
def parseTransfer (b : Blockchain) (assetId : Asset) (xfer : ParsedTransfer) :
    Validation (Portfolios × Long) := do
  let recipientAddr ← b.resolveRecipient xfer.address
  .ok (.single recipientAddr (.build assetId xfer.amount), xfer.amount)

def apply (b : Blockchain) (tx : MassTransferTransaction) : Validation Diff := do
  let list ← tx.transfers.mapM (parseTransfer b tx.assetId)
  let sender := tx.sender.toAddress
  let (recipientPortfolios, totalAmount) :=
    list.foldl (fun u v => (Portfolios.combine u.1 v.1, u.2 + v.2))
      (.single sender (.waves (-tx.fee)), 0)
  let completePortfolio :=
    Portfolios.combine recipientPortfolios (.single sender (.build tx.assetId (-totalAmount)))
  .cond (TransferTransactionDiff.issuedOrWaves b tx.assetId)
    (.GenericError "Attempt to transfer a nonexistent asset")
  .ok <| .ofTx (.massTransfer tx)
    { Diff.empty with
      portfolios := completePortfolio
      scriptsRun := DiffsCommon.countScriptRuns b (.massTransfer tx) }

end MassTransferTransactionDiff

/-! ## 4. Assets -/

namespace AssetTransactionsDiff

def issue (b : Blockchain) (tx : IssueTransaction) : Validation Diff := do
  let asset : IssuedAsset := ⟨(Transaction.issue tx).id⟩
  let script ← DiffsCommon.countScriptComplexity tx.script b
  .ok <| .ofTx (.issue tx)
    { Diff.empty with
      portfolios := .single tx.sender.toAddress
        ⟨-tx.fee, LeaseBalance.empty, .single asset tx.quantity⟩
      issuedAssets := .single asset ⟨tx.reissuable, tx.quantity.toInt⟩
      assetScripts := .single asset script
      scriptsRun := DiffsCommon.countScriptRuns b (.issue tx) }

def setAssetScript (b : Blockchain) (tx : SetAssetScriptTransaction) : Validation Diff := do
  DiffsCommon.validateAsset b tx.asset tx.sender.toAddress true
  if b.hasAssetScript tx.asset then do
    let script ← DiffsCommon.countScriptComplexity tx.script b
    .ok <| .ofTx (.setAssetScript tx)
      { Diff.empty with
        portfolios := feePortfolio tx.sender tx.fee
        assetScripts := .single tx.asset script
        scriptsRun :=
          -- asset scripts are not counted before Ride4DApps
          if b.isFeatureActivated BlockchainFeatures.Ride4DApps then
            DiffsCommon.countScriptRuns b (.setAssetScript tx)
          else if b.hasScript tx.sender.toAddress then 1 else 0 }
  else .fail (.GenericError "Cannot set script on an asset issued without a script")

def reissue (b : Blockchain) (blockTime : Long) (tx : ReissueTransaction) : Validation Diff := do
  let d ← DiffsCommon.processReissue b tx.sender.toAddress blockTime tx.fee
    ⟨tx.asset.id, tx.reissuable, tx.quantity⟩
  .ok <| (Diff.ofTx (.reissue tx)
    { Diff.empty with scriptsRun := DiffsCommon.countScriptRuns b (.reissue tx) }).combine d

def burn (b : Blockchain) (tx : BurnTransaction) : Validation Diff := do
  let d ← DiffsCommon.processBurn b tx.sender.toAddress tx.fee ⟨tx.asset.id, tx.quantity⟩
  .ok <| (Diff.ofTx (.burn tx)
    { Diff.empty with scriptsRun := DiffsCommon.countScriptRuns b (.burn tx) }).combine d

def sponsor (b : Blockchain) (tx : SponsorFeeTransaction) : Validation Diff := do
  DiffsCommon.validateAsset b tx.asset tx.sender.toAddress true
  .cond (!b.hasAssetScript tx.asset) (.GenericError "Sponsorship smart assets is disabled.")
  .ok <| .ofTx (.sponsorFee tx)
    { Diff.empty with
      portfolios := feePortfolio tx.sender tx.fee
      sponsorship := .single tx.asset (.SponsorshipValue (tx.minSponsoredAssetFee.getD 0))
      scriptsRun := DiffsCommon.countScriptRuns b (.sponsorFee tx) }

end AssetTransactionsDiff

/-! ## 5. Leases -/

namespace LeaseTransactionsDiff

def lease (b : Blockchain) (tx : LeaseTransaction) : Validation Diff := do
  let sender := tx.sender.toAddress
  let recipient ← b.resolveRecipient tx.recipient
  if recipient = sender then .fail (.GenericError "Cannot lease to self")
  else
    let lease := b.leaseBalance sender
    let balance := b.balance sender .Waves
    if balance - lease.out < tx.amount then
      .fail (.GenericError
        s!"Cannot lease more than own: Balance:{balance}, already leased: {lease.out}")
    else
      .ok <| .ofTx (.lease tx)
        { Diff.empty with
          portfolios := .ofList [(sender, ⟨-tx.fee, ⟨0, tx.amount⟩, ∅⟩),
            (recipient, ⟨0, ⟨tx.amount, 0⟩, ∅⟩)]
          leaseState := .single (Transaction.lease tx).id true
          scriptsRun := DiffsCommon.countScriptRuns b (.lease tx) }

def leaseCancel (b : Blockchain) (time : Long) (tx : LeaseCancelTransaction) :
    Validation Diff := do
  let fs := b.settings.functionalitySettings
  let lease ← .ofOption (.GenericError "Related LeaseTransaction not found")
    (b.leaseDetails tx.leaseId)
  let recipient ← b.resolveRecipient lease.recipient
  .cond (lease.isActive || !(time > fs.allowMultipleLeaseCancelTransactionUntilTimestamp))
    (.GenericError "Cannot cancel already cancelled lease")
  let canceller := tx.sender.toAddress
  -- the old timestamps let anyone cancel a lease, at the canceller's own expense
  .cond (tx.sender = lease.sender || time < fs.allowMultipleLeaseCancelTransactionUntilTimestamp)
    (.GenericError
      s!"LeaseTransaction was leased by other sender and time={time} > allowMultipleLeaseCancelTransactionUntilTimestamp={fs.allowMultipleLeaseCancelTransactionUntilTimestamp}")
  .ok <| .ofTx (.leaseCancel tx)
    { Diff.empty with
      portfolios := Portfolios.combine (.single canceller ⟨-tx.fee, ⟨0, -lease.amount⟩, ∅⟩)
        (.single recipient ⟨0, ⟨-lease.amount, 0⟩, ∅⟩)
      leaseState := .single tx.leaseId false
      scriptsRun := DiffsCommon.countScriptRuns b (.leaseCancel tx) }

end LeaseTransactionsDiff

/-! ## 6. Aliases, data and account scripts -/

def CreateAliasTransactionDiff (b : Blockchain) (tx : CreateAliasTransaction) :
    Validation Diff :=
  if b.isFeatureActivated BlockchainFeatures.DataTransaction && !b.canCreateAlias tx.alias then
    .fail (.GenericError "Alias already claimed")
  else
    .ok <| .ofTx (.createAlias tx)
      { Diff.empty with
        portfolios := feePortfolio tx.sender tx.fee
        aliases := .single tx.alias tx.sender.toAddress
        scriptsRun := DiffsCommon.countScriptRuns b (.createAlias tx) }

def DataTransactionDiff (b : Blockchain) (tx : DataTransaction) : Validation Diff :=
  .ok <| .ofTx (.data tx)
    { Diff.empty with
      portfolios := feePortfolio tx.sender tx.fee
      accountData := .single tx.sender.toAddress
        ⟨.ofList (tx.data.map fun item => (item.key, item))⟩
      scriptsRun := DiffsCommon.countScriptRuns b (.data tx) }

def SetScriptTransactionDiff (b : Blockchain) (tx : SetScriptTransaction) : Validation Diff := do
  let script ← DiffsCommon.countScriptComplexity tx.script b
  .ok <| .ofTx (.setScript tx)
    { Diff.empty with
      portfolios := feePortfolio tx.sender tx.fee
      scripts := .single tx.sender.toAddress script
      scriptsRun := DiffsCommon.countScriptRuns b (.setScript tx) }

/-! ## 7. Exchanges -/

namespace ExchangeTransactionDiff

/-- `liftValidationError`: the error's text becomes the text of a generic error. -/
def liftValidationError {α : Type} (x : Validation α) : Validation α :=
  x.leftMap fun e =>
    match e with
    | .GenericError m => .GenericError s!"GenericError({m})"
    | e => e

/-- `isFeeValid` of `enoughVolume`: the whole fee for the third order version, the
part of it that the filled amount deserves for the others. -/
def isFeeValid (feeTotal amountTotal maxfee maxAmount : Long) (order : Order) :
    Validation Bool :=
  if order.version = 3 then .ok (feeTotal.toInt ≤ maxfee.toInt)
  else if maxAmount = 0 then .throwing "BigInteger divide by zero"
  else .ok (feeTotal.toInt ≤ (maxfee.toInt * amountTotal.toInt).tdiv maxAmount.toInt)

def enoughVolume (tx : ExchangeTransaction) (b : Blockchain) : Validation Unit := do
  let filledBuy := b.filledVolumeAndFee tx.buyOrder.id
  let filledSell := b.filledVolumeAndFee tx.sellOrder.id
  let buyTotal := filledBuy.volume + tx.amount
  let sellTotal := filledSell.volume + tx.amount
  .cond (tx.buyOrder.amount ≥ buyTotal) (.OrderValidationError tx.buyOrder
    s!"Too much buy. Already filled volume for the order: {filledBuy.volume}")
  .cond (tx.sellOrder.amount ≥ sellTotal) (.OrderValidationError tx.sellOrder
    s!"Too much sell. Already filled volume for the order: {filledSell.volume}")
  let buyFeeValid ← isFeeValid (filledBuy.fee + tx.buyMatcherFee) buyTotal
    tx.buyOrder.matcherFee tx.buyOrder.amount tx.buyOrder
  .cond buyFeeValid (.OrderValidationError tx.buyOrder "Insufficient buy fee")
  let sellFeeValid ← isFeeValid (filledSell.fee + tx.sellMatcherFee) sellTotal
    tx.sellOrder.matcherFee tx.sellOrder.amount tx.sellOrder
  .cond sellFeeValid (.OrderValidationError tx.sellOrder "Insufficient sell fee")

def getOrderFeePortfolio (order : Order) (fee : Long) : Portfolio :=
  .build order.matcherFeeAssetId fee

/-- The assets of both orders' pairs. -/
def assetIds (tx : ExchangeTransaction) : List IssuedAsset :=
  ([tx.buyOrder.assetPair.amountAsset, tx.buyOrder.assetPair.priceAsset,
    tx.sellOrder.assetPair.amountAsset, tx.sellOrder.assetPair.priceAsset].filterMap
      Asset.issued?).eraseDups

/-- The portfolios of an exchange, the four changes being given. -/
def portfolios (tx : ExchangeTransaction)
    (buyPrice buyAmount sellPrice sellAmount : Long) : Portfolios :=
  let matcher := tx.buyOrder.matcherPublicKey.toAddress
  let buyer := tx.buyOrder.senderPublicKey.toAddress
  let seller := tx.sellOrder.senderPublicKey.toAddress
  let getAssetDiff (asset : Asset) (buyAssetChange sellAssetChange : Long) : Portfolios :=
    Portfolios.combine (.single buyer (.build asset buyAssetChange))
      (.single seller (.build asset sellAssetChange))
  let matcherPortfolio := Portfolio.combineAll
    [getOrderFeePortfolio tx.buyOrder tx.buyMatcherFee,
      getOrderFeePortfolio tx.sellOrder tx.sellMatcherFee, .waves (-tx.fee)]
  let feeDiff :=
    (Portfolios.combine (.single matcher matcherPortfolio)
      (.single buyer (getOrderFeePortfolio tx.buyOrder (-tx.buyMatcherFee)))).combine
      (.single seller (getOrderFeePortfolio tx.sellOrder (-tx.sellMatcherFee)))
  (feeDiff.combine (getAssetDiff tx.buyOrder.assetPair.priceAsset buyPrice sellPrice)).combine
    (getAssetDiff tx.buyOrder.assetPair.amountAsset buyAmount sellAmount)

def apply (b : Blockchain) (tx : ExchangeTransaction) : Validation Diff := do
  let buyer := tx.buyOrder.senderPublicKey.toAddress
  let seller := tx.sellOrder.senderPublicKey.toAddress
  let assets := (assetIds tx).map b.assetDescription
  let smartTradesEnabled := b.isFeatureActivated BlockchainFeatures.SmartAccountTrading
  let smartAssetsEnabled := b.isFeatureActivated BlockchainFeatures.SmartAssets
  .cond (assets.all Option.isSome)
    (.GenericError "Assets should be issued before they can be traded")
  let assetScripted := assets.countP fun d => (d.bind AssetDescription.script).isSome
  .cond (smartAssetsEnabled || assetScripted = 0)
    (.GenericError
      "Smart assets can't participate in ExchangeTransactions (SmartAssetsFeature is disabled)")
  .cond (smartTradesEnabled || !b.hasScript buyer)
    (.GenericError
      s!"Buyer {buyer.stringRepr} can't participate in ExchangeTransaction because it has assigned Script (SmartAccountsTrades is disabled)")
  .cond (smartTradesEnabled || !b.hasScript seller)
    (.GenericError
      s!"Seller {seller.stringRepr} can't participate in ExchangeTransaction because it has assigned Script (SmartAccountsTrades is disabled)")
  enoughVolume tx b
  let buyPriceAssetChange ← liftValidationError (tx.buyOrder.getSpendAmount tx.amount tx.price)
  let buyAmountAssetChange ← liftValidationError (tx.buyOrder.getReceiveAmount tx.amount tx.price)
  let sellPriceAssetChange ← liftValidationError (tx.sellOrder.getReceiveAmount tx.amount tx.price)
  let sellAmountAssetChange ← liftValidationError (tx.sellOrder.getSpendAmount tx.amount tx.price)
  let addressScripted := if b.hasScript tx.sender.toAddress then 1 else 0
  -- orders are not counted before Ride4DApps
  let ordersScripted :=
    if b.isFeatureActivated BlockchainFeatures.Ride4DApps then
      [b.hasScript buyer, b.hasScript seller].countP fun x => x
    else 0
  let assetsComplexity :=
    ((assetIds tx).filterMap b.assetScriptWithComplexity).map Prod.snd
  let accountsComplexity :=
    ([tx.sender.toAddress, buyer, seller].filterMap b.accountScriptWithComplexity).map Prod.snd
  .ok <| .ofTx (.exchange tx)
    { Diff.empty with
      portfolios := portfolios tx (-buyPriceAssetChange) buyAmountAssetChange
        sellPriceAssetChange (-sellAmountAssetChange)
      orderFills := .ofList [(tx.buyOrder.id, ⟨tx.amount, tx.buyMatcherFee⟩),
        (tx.sellOrder.id, ⟨tx.amount, tx.sellMatcherFee⟩)]
      scriptsRun := assetScripted + addressScripted + ordersScripted
      scriptsComplexity := longSum assetsComplexity + longSum accountsComplexity }

end ExchangeTransactionDiff

end WavesNode
