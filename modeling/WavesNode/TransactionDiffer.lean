/-
The validation of one transaction on a ledger.

`TransactionDiffer.verified` runs the verifier, the common checks and the fee check,
computes the diff of the type, and checks the balances the diff leaves. `unverified`
is the middle part alone, as a node uses it for blocks it trusts.
-/
import WavesNode.Verifier
import WavesNode.InvokeScriptTransactionDiff

set_option autoImplicit false

namespace WavesNode

variable [Crypto] [PBTransactionSerializer] [Ride]

namespace TransactionDiffer

/-- `complexityDiff`: the transaction with the complexity of its scripts. -/
def complexityDiff (b : Blockchain) (tx : Transaction) : Diff :=
  .ofTx tx { Diff.empty with scriptsComplexity := DiffsCommon.getScriptsComplexity b tx }

/-- `unverifiedWithEstimate`, for the types it covers. -/
def unverifiedWithEstimate (currentBlockTimestamp : Long) (b : Blockchain) :
    Transaction → Validation Diff
  | .issue itx => AssetTransactionsDiff.issue b itx
  | .reissue rtx => AssetTransactionsDiff.reissue b currentBlockTimestamp rtx
  | .burn btx => AssetTransactionsDiff.burn b btx
  | .transfer ttx => TransferTransactionDiff.apply b currentBlockTimestamp ttx
  | .massTransfer mtx => MassTransferTransactionDiff.apply b mtx
  | .lease ltx => LeaseTransactionsDiff.lease b ltx
  | .leaseCancel ltx => LeaseTransactionsDiff.leaseCancel b currentBlockTimestamp ltx
  | .createAlias atx => CreateAliasTransactionDiff b atx
  | .data dtx => DataTransactionDiff b dtx
  | .setScript sstx => SetScriptTransactionDiff b sstx
  | .setAssetScript sstx => AssetTransactionsDiff.setAssetScript b sstx
  | .sponsorFee stx => AssetTransactionsDiff.sponsor b stx
  | _ => .fail .UnsupportedTransactionType

def unverified (currentBlockTimestamp : Long) (b : Blockchain) (tx : Transaction) :
    Validation Diff :=
  match tx with
  | .genesis gtx => GenesisTransactionDiff b.height gtx
  | .payment ptx => PaymentTransactionDiff b ptx
  | .invokeScript ci => InvokeScriptTransactionDiff.apply b currentBlockTimestamp ci
  | .exchange etx => ExchangeTransactionDiff.apply b etx
  | otherTx => do
    let d ← unverifiedWithEstimate currentBlockTimestamp b otherTx
    .ok ((complexityDiff b otherTx).combine d)

/-- The chain of common checks of `verified`, in its order. -/
def commonValidation (prevBlockTimestamp : Option Long) (currentBlockTimestamp : Long)
    (b : Blockchain) (tx : Transaction) : Validation Unit := do
  let fs := b.settings.functionalitySettings
  CommonValidation.disallowTxFromFuture fs currentBlockTimestamp tx
  CommonValidation.disallowTxFromPast fs prevBlockTimestamp tx
  CommonValidation.disallowBeforeActivationTime b tx
  CommonValidation.disallowDuplicateIds b tx
  CommonValidation.disallowSendingGreaterThanBalance b currentBlockTimestamp tx
  FeeValidation.apply b tx

def verified (prevBlockTimestamp : Option Long) (currentBlockTimestamp : Long)
    (b : Blockchain) (tx : Transaction) : Validation Diff :=
  Validation.leftMap (fun cause => .TransactionValidationError cause tx) do
    Verifier.apply b tx
    commonValidation prevBlockTimestamp currentBlockTimestamp b tx
    let d ← unverified currentBlockTimestamp b tx
    BalanceDiffValidation.apply b d
    .ok d

/-- `TransactionDiffer.apply`. -/
def apply (prevBlockTimestamp : Option Long) (currentBlockTimestamp : Long) (verify : Bool)
    (b : Blockchain) (tx : Transaction) : Validation Diff :=
  if verify then verified prevBlockTimestamp currentBlockTimestamp b tx
  else unverified currentBlockTimestamp b tx

/-- The links of an accepted transaction. -/
structure Accepted (prevBlockTimestamp : Option Long) (currentBlockTimestamp : Long)
    (b : Blockchain) (tx : Transaction) (d : Diff) : Prop where
  verifier : Verifier.apply b tx = .ok ()
  fromFuture : CommonValidation.disallowTxFromFuture b.settings.functionalitySettings
    currentBlockTimestamp tx = .ok ()
  fromPast : CommonValidation.disallowTxFromPast b.settings.functionalitySettings
    prevBlockTimestamp tx = .ok ()
  activation : CommonValidation.disallowBeforeActivationTime b tx = .ok ()
  duplicateIds : CommonValidation.disallowDuplicateIds b tx = .ok ()
  funds : CommonValidation.disallowSendingGreaterThanBalance b currentBlockTimestamp tx = .ok ()
  fee : FeeValidation.apply b tx = .ok ()
  diff : unverified currentBlockTimestamp b tx = .ok d
  balances : BalanceDiffValidation.apply b d = .ok ()

/-- A transaction is accepted with a diff exactly when every link of the chain
answers. -/
theorem verified_eq_ok {prevBlockTimestamp : Option Long} {currentBlockTimestamp : Long}
    {b : Blockchain} {tx : Transaction} {d : Diff} :
    verified prevBlockTimestamp currentBlockTimestamp b tx = .ok d ↔
      Accepted prevBlockTimestamp currentBlockTimestamp b tx d := by
  unfold verified commonValidation
  rw [Validation.leftMap_eq_ok]
  simp only [Validation.bind_eq_ok]
  constructor
  · rintro ⟨⟨⟩, h1, ⟨⟩, ⟨⟨⟩, h2, ⟨⟩, h3, ⟨⟩, h4, ⟨⟩, h5, ⟨⟩, h6, h7⟩, d', h8, ⟨⟩, h9, h10⟩
    cases h10
    exact ⟨h1, h2, h3, h4, h5, h6, h7, h8, h9⟩
  · rintro ⟨h1, h2, h3, h4, h5, h6, h7, h8, h9⟩
    exact ⟨(), h1, (), ⟨(), h2, (), h3, (), h4, (), h5, (), h6, h7⟩, d, h8, (), h9, rfl⟩

end TransactionDiffer

end WavesNode
