/-
The checks every transaction goes through before its changes are computed:
timestamps, activation of its features, its identifier, and the funds it spends.

Each definition follows `CommonValidation` of that name. A transaction's type is
matched in the order of the source; `versionBarrier` is the first half of
`disallowBeforeActivationTime`, the three cases every versioned type shares.
-/
import WavesNode.Environment

set_option autoImplicit false

namespace WavesNode

namespace CommonValidation

/-! ## 1. Time -/

def disallowTxFromFuture (settings : FunctionalitySettings) (time : Long) (tx : Transaction) :
    Validation Unit :=
  let allowTransactionsFromFutureByTimestamp : Bool :=
    tx.timestamp < settings.allowTransactionsFromFutureUntil
  if !allowTransactionsFromFutureByTimestamp &&
      tx.timestamp - time > settings.maxTransactionTimeForwardOffset then
    .fail (.Mistiming
      s!"Transaction timestamp {tx.timestamp} is more than {settings.maxTransactionTimeForwardOffset}ms in the future relative to block timestamp {time}")
  else .ok ()

def disallowTxFromPast (settings : FunctionalitySettings) (prevBlockTime : Option Long)
    (tx : Transaction) : Validation Unit :=
  match prevBlockTime with
  | some t =>
    if t - tx.timestamp > settings.maxTransactionTimeBackOffset then
      .fail (.Mistiming
        s!"Transaction timestamp {tx.timestamp} is more than {settings.maxTransactionTimeBackOffset}ms in the past relative to previous block timestamp {t}")
    else .ok ()
  | none => .ok ()

/-! ## 2. Activation -/

/-- `activationBarrier`. -/
def activationBarrier (b : Blockchain) (feature : BlockchainFeature) : Validation Unit :=
  .cond (b.isFeatureActivated feature)
    (.ActivationError (feature.description ++ " feature has not been activated yet"))

/-- `scriptActivation`: what the version and the kind of a script need. -/
def scriptActivation (b : Blockchain) (sc : Script) : Validation Unit := do
  match sc.stdLibVersion with
  | .V1 | .V2 =>
    if sc.containsBlockV2 then activationBarrier b BlockchainFeatures.Ride4DApps else .ok ()
  | .V3 => activationBarrier b BlockchainFeatures.Ride4DApps
  | .V4 => activationBarrier b BlockchainFeatures.MultiPaymentInvokeScript
  match sc.expr with
  | .expr => .ok ()
  | .dApp _ => activationBarrier b BlockchainFeatures.Ride4DApps

def generic1or2Barrier (b : Blockchain) (version : TxVersion) (name : String) :
    Validation Unit :=
  if version = 1 then .ok ()
  else if version = 2 then activationBarrier b BlockchainFeatures.SmartAccounts
  else .fail (.GenericError s!"Unknown version of {name} transaction: {version}")

/-- What the type of a transaction below its protobuf version needs. -/
def typeBarrier (b : Blockchain) : Transaction → Validation Unit
  | .payment _ => .ok ()
  | .genesis _ => .ok ()
  | .exchange e =>
    if e.version = 1 then .ok ()
    else do
      activationBarrier b BlockchainFeatures.SmartAccountTrading
      if 3 ≤ e.buyOrder.version ∨ 3 ≤ e.sellOrder.version then
        activationBarrier b BlockchainFeatures.OrderV3
      else .ok ()
  | .massTransfer _ => activationBarrier b BlockchainFeatures.MassTransfer
  | .data _ => activationBarrier b BlockchainFeatures.DataTransaction
  | .setScript sst =>
    match sst.script with
    | none => .ok ()
    | some sc => scriptActivation b sc
  | .issue it =>
    match it.script with
    | none => .ok ()
    | some sc => scriptActivation b sc
  | .setAssetScript sast => do
    activationBarrier b BlockchainFeatures.SmartAssets
    match sast.script with
    | none => .fail (.GenericError "Cannot set empty script")
    | some sc => scriptActivation b sc
  | .transfer t => generic1or2Barrier b t.version "transfer"
  | .createAlias t => generic1or2Barrier b t.version "create alias"
  | .lease t => generic1or2Barrier b t.version "lease"
  | .leaseCancel t => generic1or2Barrier b t.version "lease cancel"
  | .reissue t => generic1or2Barrier b t.version "reissue"
  | .burn t => generic1or2Barrier b t.version "burn"
  | .sponsorFee _ => activationBarrier b BlockchainFeatures.FeeSponsorship
  | .invokeScript _ => activationBarrier b BlockchainFeatures.Ride4DApps

/-- `disallowBeforeActivationTime`. An impossible version throws; a protobuf version
needs only the fifth block version. -/
def disallowBeforeActivationTime (b : Blockchain) (tx : Transaction) : Validation Unit :=
  match tx.version?, tx.protobufVersion? with
  | some version, some lastVersion =>
    if version < 1 then .throwing s!"Invalid tx version: {version}"
    else if version > lastVersion then .throwing s!"Invalid tx version: {version}"
    else if version ≥ lastVersion then activationBarrier b BlockchainFeatures.BlockV5
    else typeBarrier b tx
  | _, _ => typeBarrier b tx

/-! ## 3. Identity -/

variable [Crypto] [PBTransactionSerializer]

/-- `disallowDuplicateIds`; payments are never compared. -/
def disallowDuplicateIds (b : Blockchain) (tx : Transaction) : Validation Unit :=
  match tx with
  | .payment _ => .ok ()
  | _ =>
    if !b.containsTransaction tx then .ok ()
    else
      match b.transactionInfo tx.id with
      | some (h, _) => .fail (.AlreadyInTheState tx.id h)
      | none => .throwing "None.get"

/-! ## 4. Funds -/

/-- `checkTransfer`: the amount and the fee together, first in Waves, then in each
asset they are paid in. -/
def checkTransfer (b : Blockchain) (sender : Address) (assetId : Asset) (amount : Long)
    (feeAssetId : Asset) (feeAmount : Long) : Validation Unit :=
  let spendings := (Portfolio.build assetId (-amount)).combine (.build feeAssetId (-feeAmount))
  let oldWavesBalance := b.balance sender .Waves
  let newWavesBalance := oldWavesBalance + spendings.balance
  if newWavesBalance < 0 then
    .fail (.GenericError
      s!"Attempt to transfer unavailable funds: Transaction application leads to negative waves balance to (at least) temporary negative state, current balance equals {oldWavesBalance}, spends equals {spendings.balance}, result is {newWavesBalance}")
  else
    let unavailable := ([assetId, feeAssetId].filterMap Asset.issued?).find? fun aid =>
      let delta := spendings.balanceOf (.issued aid)
      delta < 0 && b.balance sender (.issued aid) + delta < 0
    match unavailable with
    | some aid =>
      let delta := spendings.balanceOf (.issued aid)
      let availableBalance := b.balance sender (.issued aid)
      .fail (.GenericError
        s!"Attempt to transfer unavailable funds: Transaction application leads to negative asset '{ByteStr.stringRepr aid.id}' balance to (at least) temporary negative state, current balance is {availableBalance}, spends equals {delta}, result is {availableBalance + delta}")
    | none => .ok ()

def disallowSendingGreaterThanBalance (b : Blockchain) (blockTime : Long) (tx : Transaction) :
    Validation Unit :=
  if blockTime ≥ b.settings.functionalitySettings.allowTemporaryNegativeUntil then
    match tx with
    | .payment ptx =>
      let balance := b.balance ptx.sender.toAddress .Waves
      if balance < ptx.amount + ptx.fee then
        .fail (.GenericError
          s!"Attempt to pay unavailable funds: balance {balance} is less than {ptx.amount + ptx.fee}")
      else .ok ()
    | .transfer ttx =>
      checkTransfer b ttx.sender.toAddress ttx.assetId ttx.amount ttx.feeAssetId ttx.fee
    | .massTransfer mtx =>
      checkTransfer b mtx.sender.toAddress mtx.assetId
        (longSum (mtx.transfers.map ParsedTransfer.amount)) .Waves mtx.fee
    | .invokeScript citx =>
      citx.payments.forM fun p =>
        checkTransfer b citx.sender.toAddress p.assetId p.amount citx.feeAssetId citx.fee
    | _ => .ok ()
  else .ok ()

end CommonValidation

/-- `CommonValidation.validateOverflow`: whether the amounts sum without overflow. -/
def validateOverflow (dataList : List Long) (errMsg : String) : Validation Unit :=
  match dataList.foldlM Long.addExact 0 with
  | some _ => .ok ()
  | none => .fail (.GenericError errMsg)

/-- Amounts that are summed without overflow have their exact sum in range. -/
theorem validateOverflow_eq_ok {dataList : List Long} {errMsg : String} {u : Unit}
    (h : validateOverflow dataList errMsg = .ok u) :
    Long.InRange (dataList.map Int64.toInt).sum := by
  have hfold (l : List Long) : ∀ init s : Long, l.foldlM Long.addExact init = some s →
      s.toInt = init.toInt + (l.map Int64.toInt).sum := by
    induction l with
    | nil =>
      intro init s hs
      rw [List.foldlM_nil] at hs
      cases hs
      simp
    | cons x rest ih =>
      intro init s hs
      rw [List.foldlM_cons] at hs
      obtain ⟨z, hz, hs⟩ := Option.bind_eq_some_iff.mp hs
      rw [ih z s hs, (Long.addExact_eq_some.mp hz).2, List.map_cons, List.sum_cons, add_assoc]
  unfold validateOverflow at h
  cases hs : dataList.foldlM Long.addExact 0 with
  | none => simp [hs] at h
  | some s =>
    have hsum := hfold dataList 0 s hs
    rw [Long.toInt_zero, zero_add] at hsum
    rw [← hsum]
    exact Long.inRange_toInt s

end WavesNode
