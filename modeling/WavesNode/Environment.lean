/-
Running scripts: what a script can read, and what it can answer.

The interpreter, the complexity estimator and the script reader are the `lang`
part of the repository. The ledger uses them through four questions, the fields of
`Ride`: what a verifier answers on an input, which actions a call returns, and how
complex a script or one of its functions is. Nothing is assumed of the answers
beyond their type.

What a script may read of the ledger is the record `Environment`, the methods of
`WavesEnvironment`. Two ledgers with equal environments run every script alike,
which is why the record holds nothing else.
-/
import WavesNode.CompositeBlockchain

set_option autoImplicit false

namespace WavesNode

/-! ## 1. Inputs and answers -/

structure ScriptTransfer where
  assetId : Option ByteStr
  sender : ByteStr
  recipient : ByteStr
  amount : Long
  timestamp : Long
  id : ByteStr
  deriving DecidableEq

/-- The pseudo-transactions that describe one action of a call to an asset script. -/
inductive PseudoTx where
  | scriptTransfer (t : ScriptTransfer)
  | reissue (r : Reissue) (sender txId : ByteStr) (timestamp : Long)
  | burn (b : Burn) (sender txId : ByteStr) (timestamp : Long)
  deriving DecidableEq

/-- `WavesEnvironment.In`. -/
inductive ScriptInput where
  | tx (t : Transaction)
  | order (o : Order)
  | pseudoTx (p : PseudoTx)
  deriving DecidableEq

/-- A value a script can return. -/
inductive Evaluated where
  | TRUE
  | FALSE
  | other (repr : String)
  deriving DecidableEq

/-- The end of a run: a value, a script error, or an exception of the interpreter. -/
inductive ScriptOutcome where
  | value (v : Evaluated)
  | error (message : String)
  | thrown (message : String)
  deriving DecidableEq

inductive ScriptEstimator where
  | V1
  | V2
  | V3
  deriving DecidableEq

/-- `BlockInfo` of the language: what a script sees of a block. -/
structure ScriptBlockInfo where
  timestamp : Long
  height : ℕ
  baseTarget : Long
  generationSignature : ByteStr
  generator : Address
  generatorPublicKey : PublicKey
  deriving DecidableEq

/-- `WavesEnvironment`: every query of the ledger a script can make. That payments may
be many is declared there too, but no part of the language asks it. -/
@[ext]
structure Environment where
  height : ℕ
  transactionById : ByteStr → Option Transaction
  transferTransactionById : ByteStr → Option TransferTransaction
  data : Address → String → Option DataEntry
  resolveAlias : Alias → Validation Address
  accountBalanceOf : Address → Asset → Long
  transactionHeightById : ByteStr → Option ℕ
  assetInfoById : ByteStr → Option AssetDescription
  lastBlockOpt : Option ScriptBlockInfo
  blockInfoByHeight : ℕ → Option ScriptBlockInfo

/-- `ContractEvaluator.Invocation`. -/
structure Invocation where
  funcCall : Option FunctionCall
  caller : Address
  callerPk : PublicKey
  payments : List Payment
  dappAddress : ByteStr
  transactionId : ByteStr
  fee : Long
  feeAssetId : Option ByteStr
  deriving DecidableEq

/-- The interpreter and the estimator. -/
class Ride where
  /-- Run an expression, or a contract's verifier, on an input. -/
  evaluate : Environment → Script → (isAssetScript : Bool) → (containerAddress : ByteStr) →
    ScriptInput → ScriptOutcome
  /-- Call a function of a contract. -/
  invoke : Environment → Script → Transaction → Invocation → Except String (List CallableAction)
  /-- `Script.estimate`. -/
  estimate : Script → ScriptEstimator → Except String Long
  /-- `Script.verifierComplexity`. -/
  verifierComplexity : Script → ScriptEstimator → Except String Long
  /-- `DiffsCommon.functionComplexity`. -/
  functionComplexity : Script → ScriptEstimator → Option FunctionCall → Except String Long
  /-- `DiffsCommon.limitFreeComplexity`. -/
  limitFreeComplexity : Script → ScriptEstimator → Option FunctionCall → Except String Long

namespace Blockchain

/-- `WavesEnvironment.toBlockInfo`. -/
def toBlockInfo [Crypto] (blockH : BlockHeader) (bHeight : ℕ) : ScriptBlockInfo :=
  ⟨blockH.timestamp, bHeight, blockH.baseTarget, blockH.generationSignature,
    blockH.generator.toAddress, blockH.generator⟩

/-- The environment a ledger offers to scripts. -/
def environment [Crypto] (b : Blockchain) : Environment where
  height := b.height
  transactionById id := (b.transactionInfo id).map Prod.snd
  transferTransactionById id := (b.transferById id).map Prod.snd
  data := b.accountDataEntry
  resolveAlias := b.resolveAlias
  accountBalanceOf := b.balance
  transactionHeightById := b.transactionHeight
  assetInfoById id := b.assetDescription ⟨id⟩
  lastBlockOpt := b.lastBlock.map fun block => toBlockInfo block.header b.height
  blockInfoByHeight h := (b.blockInfo h).map fun info => toBlockInfo info.header h

/-- `EstimatorProvider.estimator`. -/
def estimator (b : Blockchain) : ScriptEstimator :=
  if b.isFeatureActivated BlockchainFeatures.MultiPaymentInvokeScript then .V3
  else if b.isFeatureActivated BlockchainFeatures.BlockReward then .V2
  else .V1

/-- `EstimatorProvider.invocationComplexity`. -/
def invocationComplexity [Ride] (b : Blockchain) (script : Script)
    (call : Option FunctionCall) : Except String Long :=
  if b.isFeatureActivated BlockchainFeatures.MultiPaymentInvokeScript then
    Ride.limitFreeComplexity script b.estimator call
  else Ride.functionComplexity script b.estimator call

end Blockchain

/-! ## 2. The runner -/

variable [Crypto]

/-- `Verifier.verifyAsEllipticCurveSignature`: exactly one proof, and it is a
signature of the body by the sender. -/
def verifyAsEllipticCurveSignature (proofs : Proofs) (bodyBytes : ByteStr) (sender : PublicKey) :
    Except String Unit :=
  match proofs.proofs with
  | [p] =>
    if Crypto.verify p bodyBytes sender then .ok ()
    else .error "Proof doesn't validate as signature"
  | _ => .error "Transactions from non-scripted accounts must have exactly 1 proof"

theorem verifyAsEllipticCurveSignature_eq_ok {proofs : Proofs} {body : ByteStr}
    {sender : PublicKey} {u : Unit} :
    verifyAsEllipticCurveSignature proofs body sender = .ok u ↔
      ∃ p, proofs.proofs = [p] ∧ Crypto.verify p body sender = true := by
  obtain ⟨ps⟩ := proofs
  unfold verifyAsEllipticCurveSignature
  match ps with
  | [] => simp
  | [p] => simp
  | p :: q :: r => simp

variable [PBTransactionSerializer] [Ride]

/-- `ScriptRunner.apply`. A contract without a verifier stands for the signature
check, which only a transaction with a sender or an order can pass. -/
def ScriptRunner (input : ScriptInput) (b : Blockchain) (script : Script)
    (isAssetScript : Bool) (containerAddress : ByteStr) : ScriptOutcome :=
  match script.expr with
  | .expr => Ride.evaluate b.environment script isAssetScript containerAddress input
  | .dApp true => Ride.evaluate b.environment script isAssetScript containerAddress input
  | .dApp false =>
    let answer (r : Except String Unit) : ScriptOutcome :=
      match r with
      | .ok _ => .value .TRUE
      | .error e => .error e
    match input with
    | .tx t =>
      match t.sender? with
      | some sender =>
        answer (verifyAsEllipticCurveSignature t.proofs (TxSerializer.bodyBytes t) sender)
      | none => .thrown "ClassCastException"
    | .order o =>
      answer (verifyAsEllipticCurveSignature o.proofs (TxSerializer.orderBodyBytes o) o.sender)
    | .pseudoTx _ => .thrown "NotImplementedError"

/-- A contract without a verifier answers TRUE on a transaction only for a
transaction that carries one valid signature. -/
theorem ScriptRunner_noVerifier_tx {t : Transaction} {b : Blockchain} {script : Script}
    {isAsset : Bool} {container : ByteStr} (hs : script.expr = .dApp false)
    (h : ScriptRunner (.tx t) b script isAsset container = .value .TRUE) :
    ∃ sender p, t.sender? = some sender ∧ t.proofs.proofs = [p] ∧
      Crypto.verify p (TxSerializer.bodyBytes t) sender = true := by
  unfold ScriptRunner at h
  rw [hs] at h
  cases hsender : t.sender? with
  | none => simp [hsender] at h
  | some sender =>
    simp only [hsender] at h
    cases hv : verifyAsEllipticCurveSignature t.proofs (TxSerializer.bodyBytes t) sender with
    | error e => simp [hv] at h
    | ok u =>
      obtain ⟨p, hp, hver⟩ := verifyAsEllipticCurveSignature_eq_ok.mp hv
      exact ⟨sender, p, rfl, hp, hver⟩

theorem ScriptRunner_noVerifier_order {o : Order} {b : Blockchain} {script : Script}
    {isAsset : Bool} {container : ByteStr} (hs : script.expr = .dApp false)
    (h : ScriptRunner (.order o) b script isAsset container = .value .TRUE) :
    ∃ p, o.proofs.proofs = [p] ∧
      Crypto.verify p (TxSerializer.orderBodyBytes o) o.sender = true := by
  unfold ScriptRunner at h
  rw [hs] at h
  cases hv : verifyAsEllipticCurveSignature o.proofs (TxSerializer.orderBodyBytes o) o.sender with
  | error e => simp [hv] at h
  | ok u => exact verifyAsEllipticCurveSignature_eq_ok.mp hv

/-! ## 3. Attached payments -/

/-- `AttachedPaymentExtractor.extractPayments` for the contract's own call. -/
def extractPayments (tx : InvokeScriptTransaction) (version : StdLibVersion)
    (allowsMultiPayment : Bool) : Except String (List Payment) :=
  if tx.payments.length ≤ 1 then .ok tx.payments
  else if !allowsMultiPayment then .error "Multiple payments isn't allowed now"
  else if !version.supportsMultiPayment then
    .error
      s!"DApp version {version.id} < {StdLibVersion.V4.id} doesn't support multiple payment attachment"
  else if tx.payments.length > 2 then
    .error s!"Script payment amount={tx.payments.length} should not exceed {2}"
  else .ok tx.payments

end WavesNode
