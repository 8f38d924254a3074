/-
The changes of a call: payments, fee, and the actions the contract returns.

A call runs the contract, checks the list of actions as a whole, and then folds over
it (`foldActions`): each action is turned into a diff against the blockchain *before*
the call, an asset script being shown a pseudo-transaction and the blockchain with
the diff accumulated so far, and the diffs are combined in order. The transaction is
finally recorded with every address whose portfolio or data the call changes.
-/
import WavesNode.TransactionDiffs

set_option autoImplicit false

namespace WavesNode

variable [Crypto] [PBTransactionSerializer] [Ride]

namespace InvokeScriptTransactionDiff

/-! ## 1. The limits -/

def MaxCallableActionsAmount : ℕ := 10
def MaxWriteSetSize : ℕ := 100
def MaxKeySizeInBytes : ℕ := 100
def MaxWriteSetSizeInBytes : ℕ := 5 * 1024

section
omit [Crypto] [PBTransactionSerializer] [Ride]

/-- The length of `DataEntry.toBytes`: the key and the value, each with its header. -/
def dataEntryLength (e : DataEntry) : ℕ :=
  2 + (utf8Bytes e.key).length +
    match e.value with
    | .Integer _ => 1 + 8
    | .Boolean _ => 1 + 1
    | .Binary v => 1 + 2 + v.length
    | .String v => 1 + 2 + (utf8Bytes v).length

/-- The data items of a list of actions, grouped by their class. The source reads the
groups from a map keyed by class, whose order it does not fix. -/
def dataEntriesOf (actions : List CallableAction) : List DataEntry :=
  let items := actions.filterMap CallableAction.dataItem?
  (items.filter fun d => d.value matches .Integer _) ++
    (items.filter fun d => d.value matches .Boolean _) ++
    (items.filter fun d => d.value matches .Binary _) ++
    (items.filter fun d => d.value matches .String _)

/-- The issued assets that a list of actions transfers. -/
def transferAssets (actions : List CallableAction) : List IssuedAsset :=
  (actions.filterMap CallableAction.transfer?).filterMap fun t => t.assetId.map .mk

def checkDataEntries (dataEntries : List DataEntry) : Validation Unit :=
  if dataEntries.length > MaxWriteSetSize then
    .fail (.GenericError s!"WriteSet can't contain more than {MaxWriteSetSize} entries")
  else if dataEntries.any fun e => (utf8Bytes e.key).length > MaxKeySizeInBytes then
    .fail (.GenericError s!"Key size must be less than {MaxKeySizeInBytes}")
  else
    let totalDataBytes := (dataEntries.map dataEntryLength).sum
    if totalDataBytes > MaxWriteSetSizeInBytes then
      .fail (.GenericError
        s!"WriteSet size can't exceed {MaxWriteSetSizeInBytes} bytes, actual: {totalDataBytes} bytes")
    else .ok ()

end

omit [PBTransactionSerializer] [Ride] in
def checkSelfPayments (dAppAddress : Address) (b : Blockchain) (tx : InvokeScriptTransaction)
    (transfers : List AssetTransfer) : Validation Unit :=
  let ifReject := b.disallowSelfPayment &&
    ((!tx.payments.isEmpty && tx.sender.toAddress = dAppAddress) ||
      transfers.any fun t => t.recipient = dAppAddress.bytes)
  .cond (!ifReject) (.GenericError "DApp self-payment is forbidden")

/-! ## 2. Running the contract -/

/-- `scriptResultE`: the actions and the complexity of the called function. -/
def runContract (b : Blockchain) (script : Script) (tx : InvokeScriptTransaction) :
    Except String (List CallableAction × Long) := do
  let _ ← extractPayments tx script.stdLibVersion b.allowsMultiPayment
  let invocationComplexity ← b.invocationComplexity script tx.funcCallOpt
  let payments ← extractPayments tx script.stdLibVersion b.allowsMultiPayment
  let actions ← Ride.invoke b.environment script (.invokeScript tx)
    { funcCall := tx.funcCallOpt
      caller := tx.sender.toAddress
      callerPk := tx.sender
      payments := payments
      dappAddress := tx.dAppAddressOrAlias.bytes
      transactionId := (Transaction.invokeScript tx).id
      fee := tx.fee
      feeAssetId := tx.feeAssetId.compatId }
  return (actions, invocationComplexity)

/-! ## 3. The fee and the payments -/

/-- `feeInfo`: the fee in Waves and the portfolios that pay it. The two entries of a
fee in an asset are one map literal, so for a sender who is the sponsor the second
entry replaces the first. -/
def feeInfo (b : Blockchain) (tx : InvokeScriptTransaction) : Validation (Long × Portfolios) :=
  match tx.feeAssetId with
  | .Waves => .ok (tx.fee, .single tx.sender.toAddress (.waves (-tx.fee)))
  | .issued asset => do
    let assetInfo ← .ofOption
      (.GenericError
        s!"Asset IssuedAsset({ByteStr.stringRepr asset.id}) does not exist, cannot be used to pay fees")
      (b.assetDescription asset)
    .cond (assetInfo.sponsorship > 0)
      (.GenericError
        s!"Asset IssuedAsset({ByteStr.stringRepr asset.id}) is not sponsored, cannot be used to pay fees")
    let wavesFee ← Sponsorship.toWaves tx.fee assetInfo.sponsorship
    .ok (wavesFee, .ofList [
      (tx.sender.toAddress, .build (.issued asset) (-tx.fee)),
      (assetInfo.issuer.toAddress, ⟨-wavesFee, LeaseBalance.empty, .single asset tx.fee⟩)])

omit [PBTransactionSerializer] [Ride] in
/-- The portfolios of the attached payments. -/
def payablePart (tx : InvokeScriptTransaction) (dAppAddress : Address) : Portfolios :=
  (tx.payments.map fun p =>
    Portfolios.combine (.single tx.sender.toAddress (.build p.assetId (-p.amount)))
      (.single dAppAddress (.build p.assetId p.amount))).foldl Portfolios.combine ∅

omit [Ride] in
def paymentsPart (tx : InvokeScriptTransaction) (dAppAddress : Address) (feePart : Portfolios) :
    Diff :=
  .ofTx (.invokeScript tx)
    { Diff.empty with portfolios := feePart.combine (payablePart tx dAppAddress) }

/-! ## 4. The actions -/

/-- `validatePseudoTxWithSmartAssetScript`: the asset's script on the blockchain with
the changes so far. Exceptions are caught. -/
def validatePseudoTxWithSmartAssetScript (b : Blockchain) (tx : InvokeScriptTransaction)
    (totalDiff : Diff) (pseudoTx : PseudoTx) (assetId : ByteStr) (script : Script) :
    Validation Unit :=
  let container := if b.passCorrectAssetId then assetId else tx.dAppAddressOrAlias.bytes
  match ScriptRunner (.pseudoTx pseudoTx) (CompositeBlockchain b (some totalDiff)) script true
      container with
  | .error e => .fail (.ScriptExecutionError e true)
  | .value .FALSE => .fail (.TransactionNotAllowedByScript true)
  | .value .TRUE => .ok ()
  | .value (.other x) =>
    .fail (.ScriptExecutionError s!"Script returned not a boolean result, but {x}" true)
  | .thrown e => .fail (.ScriptExecutionError s!"Uncaught execution error: {e}" true)

/-- Show an action's pseudo-transaction to the asset's script, if it has one. Without
the changes of the actions before, there is nothing to run it on. -/
def validateAction (b : Blockchain) (tx : InvokeScriptTransaction) (diffAcc : Validation Diff)
    (pseudoTx : PseudoTx) (asset : IssuedAsset) : Validation Unit :=
  match b.assetScript asset with
  | none => .ok ()
  | some script => do
    let acc ← diffAcc
    validatePseudoTxWithSmartAssetScript b tx acc pseudoTx asset.id script

/-- `Address.fromBytes(…).explicitGet()`: a recipient that is not an address throws. -/
def transferRecipient (recipient : ByteStr) : Validation Address :=
  match Address.fromBytes recipient with
  | .ok a => .ok a
  | .error _ => .throwing "ValidationError"

def applyTransfer (b : Blockchain) (tx : InvokeScriptTransaction) (dAppAddress : Address)
    (diffAcc : Validation Diff) (t : AssetTransfer) : Validation Diff := do
  let address ← transferRecipient t.recipient
  let asset := Asset.fromCompatId t.assetId
  let nextDiff : Diff := { Diff.empty with
    portfolios := Portfolios.combine (.single address (.build asset t.amount))
      (.single dAppAddress (.build asset (-t.amount))) }
  match asset with
  | .Waves => .ok nextDiff
  | .issued a => do
    validateAction b tx diffAcc
      (.scriptTransfer ⟨t.assetId, tx.dAppAddressOrAlias.bytes, t.recipient, t.amount,
        tx.timestamp, (Transaction.invokeScript tx).id⟩) a
    .ok nextDiff

omit [Crypto] [PBTransactionSerializer] [Ride] in
def applyDataItem (dAppAddress : Address) (item : DataEntry) : Diff :=
  { Diff.empty with accountData := .single dAppAddress ⟨.single item.key item⟩ }

def applyReissue (b : Blockchain) (blockTime : Long) (tx : InvokeScriptTransaction)
    (dAppAddress : Address) (diffAcc : Validation Diff) (r : Reissue) : Validation Diff := do
  let d ← DiffsCommon.processReissue b dAppAddress blockTime 0 r
  validateAction b tx diffAcc
    (.reissue r tx.dAppAddressOrAlias.bytes (Transaction.invokeScript tx).id tx.timestamp)
    ⟨r.assetId⟩
  .ok d

def applyBurn (b : Blockchain) (tx : InvokeScriptTransaction) (dAppAddress : Address)
    (diffAcc : Validation Diff) (r : Burn) : Validation Diff := do
  let d ← DiffsCommon.processBurn b dAppAddress 0 r
  validateAction b tx diffAcc
    (.burn r tx.dAppAddressOrAlias.bytes (Transaction.invokeScript tx).id tx.timestamp)
    ⟨r.assetId⟩
  .ok d

/-- The diff of one action, `diffAcc` being the changes before it. -/
def applyAction (b : Blockchain) (blockTime : Long) (tx : InvokeScriptTransaction)
    (dAppAddress : Address) (diffAcc : Validation Diff) : CallableAction → Validation Diff
  | .transfer t => applyTransfer b tx dAppAddress diffAcc t
  | .dataItem d => .ok (applyDataItem dAppAddress d)
  | .issue => .throwing "NotImplementedError"
  | .reissue r => applyReissue b blockTime tx dAppAddress diffAcc r
  | .burn r => applyBurn b tx dAppAddress diffAcc r

omit [Crypto] [PBTransactionSerializer] [Ride] in
/-- The semigroup of traced results: the first rejection wins, but the actions after a
rejected one are still computed, and an exception of theirs leaves the function. -/
def combineTraced (diffAcc diff : Validation Diff) : Validation Diff :=
  match diffAcc, diff with
  | .error (.thrown m), _ => .throwing m
  | _, .error (.thrown m) => .throwing m
  | .error (.error e), _ => .fail e
  | .ok _, .error (.error e) => .fail e
  | .ok acc, .ok d => .ok (acc.combine d)

/-- `foldActions`. -/
def foldActions (b : Blockchain) (blockTime : Long) (tx : InvokeScriptTransaction)
    (dAppAddress : Address) (actions : List CallableAction) (paymentsDiff : Diff) :
    Validation Diff :=
  actions.foldl
    (fun diffAcc action =>
      combineTraced diffAcc (applyAction b blockTime tx dAppAddress diffAcc action))
    (.ok paymentsDiff)

omit [Crypto] [PBTransactionSerializer] [Ride] in
theorem combineTraced_eq_ok {diffAcc diff : Validation Diff} {d : Diff} :
    combineTraced diffAcc diff = .ok d ↔
      ∃ acc d', diffAcc = .ok acc ∧ diff = .ok d' ∧ d = acc.combine d' := by
  rcases diffAcc with (e | m) | acc <;> rcases diff with (e' | m') | d' <;>
    simp [combineTraced]
  exact eq_comm

omit [Crypto] [PBTransactionSerializer] [Ride] in
private theorem foldl_combineTraced_error {f : Validation Diff → CallableAction → Validation Diff}
    {e : Failure} {d : Diff} (actions : List CallableAction) :
    actions.foldl (fun diffAcc action => combineTraced diffAcc (f diffAcc action))
      (.error e) ≠ .ok d := by
  induction actions generalizing e with
  | nil => simp
  | cons a rest ih =>
    rw [List.foldl_cons]
    cases hc : combineTraced (.error e) (f (.error e) a) with
    | error e' => exact ih
    | ok d' =>
      obtain ⟨acc, -, habs, -⟩ := combineTraced_eq_ok.mp hc
      cases habs

/-- A successful fold applied its first action, and went on from the combined diff. -/
theorem foldActions_cons_eq_ok {b : Blockchain} {blockTime : Long} {tx : InvokeScriptTransaction}
    {dAppAddress : Address} {a : CallableAction} {rest : List CallableAction}
    {paymentsDiff d : Diff}
    (h : foldActions b blockTime tx dAppAddress (a :: rest) paymentsDiff = .ok d) :
    ∃ d', applyAction b blockTime tx dAppAddress (.ok paymentsDiff) a = .ok d' ∧
      foldActions b blockTime tx dAppAddress rest (paymentsDiff.combine d') = .ok d := by
  unfold foldActions at h
  rw [List.foldl_cons] at h
  cases hc : combineTraced (.ok paymentsDiff)
      (applyAction b blockTime tx dAppAddress (.ok paymentsDiff) a) with
  | error e =>
    rw [hc] at h
    exact absurd h (foldl_combineTraced_error rest)
  | ok acc' =>
    rw [hc] at h
    obtain ⟨acc, d', hacc, hd', rfl⟩ := combineTraced_eq_ok.mp hc
    cases hacc
    exact ⟨d', hd', h⟩

theorem foldActions_nil_eq_ok {b : Blockchain} {blockTime : Long} {tx : InvokeScriptTransaction}
    {dAppAddress : Address} {paymentsDiff d : Diff}
    (h : foldActions b blockTime tx dAppAddress [] paymentsDiff = .ok d) : paymentsDiff = d :=
  Except.ok.inj h

/-- **A successful fold** applied every action, each on the changes before it, and combined
their diffs in order. -/
theorem foldActions_eq_ok {b : Blockchain} {blockTime : Long} {tx : InvokeScriptTransaction}
    {dAppAddress : Address} {actions : List CallableAction} {paymentsDiff d : Diff}
    (h : foldActions b blockTime tx dAppAddress actions paymentsDiff = .ok d) :
    ∃ ds, List.Forall₂ (fun action d' =>
        ∃ acc, applyAction b blockTime tx dAppAddress (.ok acc) action = .ok d') actions ds ∧
      d = ds.foldl Diff.combine paymentsDiff := by
  induction actions generalizing paymentsDiff with
  | nil => exact ⟨[], .nil, (foldActions_nil_eq_ok h).symm⟩
  | cons a rest ih =>
    obtain ⟨d', hd', h⟩ := foldActions_cons_eq_ok h
    obtain ⟨ds, hds, hd⟩ := ih h
    exact ⟨d' :: ds, .cons ⟨_, hd'⟩ hds, hd⟩

/-- **The induction rule of a successful fold.** A property of the accumulated diff
that the payments have, and that every applied action keeps, the final diff has. -/
theorem foldActions_induction {b : Blockchain} {blockTime : Long} {tx : InvokeScriptTransaction}
    {dAppAddress : Address} {P : Diff → Prop} {actions : List CallableAction}
    {paymentsDiff d : Diff} (h : foldActions b blockTime tx dAppAddress actions paymentsDiff = .ok d)
    (h0 : P paymentsDiff)
    (hstep : ∀ acc action d', action ∈ actions → P acc →
      applyAction b blockTime tx dAppAddress (.ok acc) action = .ok d' → P (acc.combine d')) :
    P d := by
  induction actions generalizing paymentsDiff with
  | nil => rwa [← foldActions_nil_eq_ok h]
  | cons a rest ih =>
    obtain ⟨d', hd', h⟩ := foldActions_cons_eq_ok h
    refine ih h (hstep _ a d' List.mem_cons_self h0 hd') ?_
    intro acc action d'' hmem
    exact hstep acc action d'' (List.mem_cons_of_mem a hmem)

/-! ## 5. The whole call -/

section
omit [Crypto] [PBTransactionSerializer] [Ride]

/-- `InvokeScriptResult.paymentsFromPortfolio`. -/
def paymentsFromPortfolio (addr : Address) (p : Portfolio) : Multiset InvokePayment :=
  (p.assets.collect (fun assetId amount => some ⟨addr, .issued assetId, amount⟩) +
    {⟨addr, .Waves, p.balance⟩}).filter fun payment => payment.amount ≠ 0

/-- The transfers a call records: what every account but the contract's got, the fee
left out. -/
def recordedTransfers (dAppAddress : Address) (transfers : Portfolios) :
    Multiset InvokePayment :=
  (transfers.filter fun recipient _ => recipient ≠ dAppAddress).dom.val.bind fun addr =>
    paymentsFromPortfolio addr (transfers.of addr)

end

/-- How many scripts a call runs besides the contract, if the fee covers them. -/
def scriptsInvoked (b : Blockchain) (tx : InvokeScriptTransaction)
    (actions : List CallableAction) (wavesFee : Long) : Validation ℕ := do
  let smartAssetInvocations :=
    (Transaction.invokeScript tx).checkedAssets ++
      transferAssets actions ++
      (actions.filterMap CallableAction.reissue?).map (fun r => ⟨r.assetId⟩) ++
      (actions.filterMap CallableAction.burn?).map (fun r => ⟨r.assetId⟩)
  let totalScriptsInvoked :=
    smartAssetInvocations.countP b.hasAssetScript +
      (if b.hasScript tx.sender.toAddress then 1 else 0)
  let minWaves := Int64.ofNat totalScriptsInvoked * FeeValidation.ScriptExtraFee +
    FeeValidation.FeeConstants (.invokeScript tx) * FeeValidation.FeeUnit
  let assetName := FeeValidation.feeAssetName tx.feeAssetId
  .cond (minWaves ≤ wavesFee)
    (.GenericError
      s!"Fee in {assetName} for InvokeScriptTransaction ({tx.fee} in {assetName}) with {totalScriptsInvoked} total scripts invoked does not exceed minimal value of {minWaves} WAVES.")
  .ok totalScriptsInvoked

/-- The checks of the list of actions as a whole, before any of them is applied. -/
def checkActions (b : Blockchain) (tx : InvokeScriptTransaction) (dAppAddress : Address)
    (actions : List CallableAction) : Validation Unit := do
  let transfers := actions.filterMap CallableAction.transfer?
  let dataEntries := dataEntriesOf actions
  checkDataEntries dataEntries
  .cond (actions.length ≤ MaxCallableActionsAmount + dataEntries.length)
    (.GenericError
      s!"Too many script actions: max: {MaxCallableActionsAmount}, actual: {actions.length}")
  checkSelfPayments dAppAddress b tx transfers
  .cond (transfers.all fun t => t.amount ≥ 0) (.NegativeAmount (-42) "")
  validateOverflow (transfers.map AssetTransfer.amount)
    "Attempt to transfer unavailable funds in contract payment"
  .cond ((transferAssets actions).all fun a => (b.assetDescription a).isSome)
    (.GenericError "Unissued assets are not allowed")

/-- The diff of a call, the contract having been found and run. -/
def ofActions (b : Blockchain) (blockTime : Long) (tx : InvokeScriptTransaction)
    (dAppAddress : Address) (actions : List CallableAction) (invocationComplexity : Long) :
    Validation Diff := do
  checkActions b tx dAppAddress actions
  let (wavesFee, feePart) ← feeInfo b tx
  let invoked ← scriptsInvoked b tx actions wavesFee
  let compositeDiff ← foldActions b blockTime tx dAppAddress actions
    (paymentsPart tx dAppAddress feePart)
  let txId := (Transaction.invokeScript tx).id
  let transfers := compositeDiff.portfolios.combine (feePart.mapVal Portfolio.negate)
  let addresses :=
    ((compositeDiff.transactions.get? txId).map Prod.snd).getD ∅ ∪ transfers.dom ∪
      compositeDiff.accountData.dom
  let assetsComplexity :=
    (((Transaction.invokeScript tx).checkedAssets ++
        transferAssets actions).filterMap
      b.assetScriptWithComplexity).map Prod.snd
  let verifierComplexity :=
    (b.accountScriptWithComplexity tx.sender.toAddress).map Prod.snd
  .ok { compositeDiff with
    transactions := compositeDiff.transactions.insert txId (.invokeScript tx, addresses)
    scriptsRun := invoked + 1
    scriptResults := .single txId
      ⟨dataEntriesOf actions, recordedTransfers dAppAddress transfers,
        actions.filterMap CallableAction.reissue?, actions.filterMap CallableAction.burn?⟩
    scriptsComplexity := invocationComplexity + verifierComplexity.getD 0 + longSum assetsComplexity }

/-- `InvokeScriptTransactionDiff.apply`. -/
def apply (b : Blockchain) (blockTime : Long) (tx : InvokeScriptTransaction) :
    Validation Diff := do
  let dAppAddress ← b.resolveRecipient tx.dAppAddressOrAlias
  match b.accountScript dAppAddress with
  | some script =>
    match script.expr with
    | .dApp _ =>
      match runContract b script tx with
      | .error e => .fail (.ScriptExecutionError e false)
      | .ok (actions, invocationComplexity) =>
        ofActions b blockTime tx dAppAddress actions invocationComplexity
    | .expr => .fail (.GenericError s!"No contract at address {tx.dAppAddressOrAlias.stringRepr}")
  | none => .fail (.GenericError s!"No contract at address {tx.dAppAddressOrAlias.stringRepr}")

end InvokeScriptTransactionDiff

end WavesNode
