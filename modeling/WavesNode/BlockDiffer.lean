/-
The changes of a block and of a micro-block.

`BlockDiffer.apply` folds the transaction differ over a list of transactions, each
validated on the overlay of the changes so far, and credits the miner. When NG is in
force, two fifths of every fee go to the block's own miner and the rest is carried to
the next one; when fee sponsorship is, fees in assets are counted in Waves at the
sponsor's rate. After the last transaction three one-off patches may add their diff.

`fromBlock` starts from what the miner gets for the block itself: the reward, all
fees of a block before NG, and the part of the previous block's fees. `fromMicroBlock`
starts from nothing.
-/
import WavesNode.TransactionDiffer

set_option autoImplicit false

namespace WavesNode

variable [Crypto] [PBTransactionSerializer]

/-! ## 1. Mining constraints -/

/-- `TxEstimators`. -/
inductive TxEstimator where
  | sizeInBytes
  | one
  | scriptRunNumber
  | scriptsComplexity
  deriving DecidableEq

namespace TxEstimator

def estimate (tx : Transaction) (d : Diff) : TxEstimator → Long
  | sizeInBytes => Int64.ofNat (TxSerializer.bytes tx).length
  | one => 1
  | scriptRunNumber => Int64.ofNat d.scriptsRun
  | scriptsComplexity => d.scriptsComplexity

omit [Crypto] [PBTransactionSerializer] in
def minEstimate : TxEstimator → Long
  | sizeInBytes => 109
  | one => 1
  | scriptRunNumber => 0
  | scriptsComplexity => 0

end TxEstimator

inductive MiningConstraint where
  | Unlimited
  | OneDimensional (rest : Long) (estimator : TxEstimator) (description : String)
  | MultiDimensional (constraints : List MiningConstraint)

namespace MiningConstraint

mutual

def put (tx : Transaction) (d : Diff) : MiningConstraint → MiningConstraint
  | Unlimited => Unlimited
  | OneDimensional rest estimator description =>
    OneDimensional (rest - estimator.estimate tx d) estimator description
  | MultiDimensional constraints => MultiDimensional (putAll tx d constraints)

def putAll (tx : Transaction) (d : Diff) : List MiningConstraint → List MiningConstraint
  | [] => []
  | c :: cs => put tx d c :: putAll tx d cs

end

mutual

def isOverfilled : MiningConstraint → Bool
  | Unlimited => false
  | OneDimensional rest _ _ => rest < 0
  | MultiDimensional constraints => anyOverfilled constraints

def anyOverfilled : List MiningConstraint → Bool
  | [] => false
  | c :: cs => isOverfilled c || anyOverfilled cs

end

end MiningConstraint

/-! ## 2. The patches -/

/-- The map that cancels every lease of a collection. -/
def cancelled (leases : FiniteMap ByteStr LeaseTransaction) : FiniteMap ByteStr Bool :=
  leases.mapVal fun _ => false

def CancelAllLeases (b : Blockchain) : Diff :=
  { Diff.empty with
    portfolios := b.collectLposPortfolios fun _ p =>
      if p.lease ≠ LeaseBalance.empty then some ⟨0, ⟨-p.lease.in_, -p.lease.out⟩, ∅⟩ else none
    leaseState := cancelled b.allActiveLeases }

def CancelLeaseOverflow (b : Blockchain) : Diff :=
  let addressesWithLeaseOverflow := b.collectLposPortfolios fun _ p =>
    if p.balance < p.lease.out then some ⟨0, ⟨0, -p.lease.out⟩, ∅⟩ else none
  { Diff.empty with
    portfolios := addressesWithLeaseOverflow
    leaseState := cancelled (b.collectActiveLeases 1 b.height fun tx =>
      addressesWithLeaseOverflow.contains tx.sender.toAddress) }

omit [Crypto] [PBTransactionSerializer] in
/-- `CancelInvalidLeaseIn`; a lease to an alias that does not resolve throws. -/
def CancelInvalidLeaseIn (b : Blockchain) : Validation Diff :=
  let allActiveLeases := b.allActiveLeases.values
  let recipient (lt : LeaseTransaction) : Option Address := (b.resolveRecipient lt.recipient).toOption
  if 0 < allActiveLeases.countP fun lt => recipient lt = none then .throwing "ValidationError"
  else
    let leaseIn (addr : Address) : Long :=
      ((allActiveLeases.filter fun lt => recipient lt = some addr).map
        LeaseTransaction.amount).fold (· + ·) 0
    .ok { Diff.empty with
      portfolios := b.collectLposPortfolios fun addr p =>
        if p.lease.in_ ≠ leaseIn addr then some ⟨0, ⟨leaseIn addr - p.lease.in_, 0⟩, ∅⟩
        else none }

/-! ## 3. The differ -/

namespace BlockDiffer

variable [Ride] [BlockSerializer]

structure DetailedDiff where
  parentDiff : Diff
  transactionDiffs : List Diff

structure Result where
  diff : Diff
  carry : Long
  totalFee : Long
  constraint : MiningConstraint
  detailedDiff : DetailedDiff

/-- A fee as a portfolio, an asset counted in Waves once sponsorship is in force. -/
def sponsoredFee (b : Blockchain) (hasSponsorship : Bool) (tx : Transaction) :
    Validation Portfolio :=
  if hasSponsorship then
    match tx.assetFee with
    | (.Waves, fee) => .ok (.waves fee)
    | (.issued assetId, assetFee) => do
      let desc ← .get "None.get" (b.assetDescription assetId)
      let fee ← Sponsorship.toWaves assetFee desc.sponsorship
      .ok (.waves fee)
  else .ok tx.feeDiff

/-- `clearSponsorship` of a transaction's fee: the part of the block's own miner and
the part carried on. -/
def clearSponsorship (b : Blockchain) (hasSponsorship hasNg : Bool) (tx : Transaction) :
    Validation (Portfolio × Long) := do
  let spPf ← sponsoredFee b hasSponsorship tx
  if hasNg then
    let curPf := spPf.multiply CurrentBlockFeePart
    let nextPf := spPf.minus curPf
    .ok (curPf, if hasSponsorship then nextPf.balance else 0)
  else .ok (spPf, 0)

/-- One step of the fold over the transactions. -/
def applyTx (b : Blockchain) (prevBlockTimestamp : Option Long) (timestamp : Long)
    (blockGenerator : Address) (hasSponsorship hasNg verify : Bool) (acc : Result)
    (tx : Transaction) : Validation Result := do
  let currBlockchain := CompositeBlockchain b (some acc.diff)
  let newDiff ← TransactionDiffer.apply prevBlockTimestamp timestamp verify currBlockchain tx
  let updatedConstraint := acc.constraint.put tx newDiff
  if updatedConstraint.isOverfilled then
    .fail (.GenericError "Limit of txs was reached")
  else do
    let (curBlockFees, nextBlockFee) ← clearSponsorship currBlockchain hasSponsorship hasNg tx
    let totalWavesFee := acc.totalFee + curBlockFees.balance + nextBlockFee
    let minerDiff : Diff :=
      if hasNg then { Diff.empty with portfolios := .single blockGenerator curBlockFees }
      else Diff.empty
    let resultDiff := if hasNg then newDiff.combine minerDiff else newDiff
    let resultCarryFee := if hasNg then acc.carry + nextBlockFee else 0
    .ok
      { diff := acc.diff.combine resultDiff
        carry := resultCarryFee
        totalFee := totalWavesFee
        constraint := updatedConstraint
        detailedDiff := ⟨acc.detailedDiff.parentDiff.combine minerDiff,
          acc.detailedDiff.transactionDiffs ++ [newDiff]⟩ }

/-- Whether a patch fires at the height of the block. -/
structure Patch where
  predicate : Blockchain → Bool
  patch : Blockchain → Validation Diff

/-- The three patches with the heights they fire at. -/
def patches (b : Blockchain) : List Patch :=
  let fs := b.settings.functionalitySettings
  [⟨fun _ => b.height = fs.resetEffectiveBalancesAtHeight, fun c => .ok (CancelAllLeases c)⟩,
    ⟨fun _ => b.height = fs.blockVersion3AfterHeight, fun c => .ok (CancelLeaseOverflow c)⟩,
    ⟨fun c => c.featureActivationHeight BlockchainFeatures.DataTransaction = some b.height,
      CancelInvalidLeaseIn⟩]

/-- `applyAll`: every patch sees the changes of the ones before it. -/
def applyPatches (b : Blockchain) (result : Result) : Validation Result := do
  let (diffWithPatches, patchDiff) ←
    (patches b).foldlM
      (fun r p => do
        let currentBlockchain := CompositeBlockchain b (some r.1)
        if p.predicate currentBlockchain then do
          let patchDiff ← p.patch currentBlockchain
          .ok (r.1.combine patchDiff, r.2.combine patchDiff)
        else .ok r)
      (result.diff, result.detailedDiff.parentDiff)
  .ok { result with
    diff := diffWithPatches
    detailedDiff := { result.detailedDiff with parentDiff := patchDiff } }

/-- `BlockDiffer.apply`. -/
def apply (b : Blockchain) (initConstraint : MiningConstraint)
    (prevBlockTimestamp : Option Long) (initDiff : Diff) (hasNg : Bool)
    (txs : List Transaction) (verify : Bool) : Validation Result := do
  let timestamp ← .get "None.get" b.lastBlockTimestamp
  let lastBlock ← .get "None.get" b.lastBlock
  let blockGenerator := lastBlock.sender.toAddress
  let hasSponsorship : Bool := b.height ≥ b.sponsoredFeesSwitchHeight
  let result ← txs.foldlM
    (applyTx b prevBlockTimestamp timestamp blockGenerator hasSponsorship hasNg verify)
    ⟨initDiff, 0, 0, initConstraint, ⟨initDiff, []⟩⟩
  applyPatches b result

/-- `ngHeight` of `fromBlockTraced`. -/
def ngHeight (b : Blockchain) : ℕ :=
  (b.featureActivationHeight BlockchainFeatures.NG).getD Int.MaxValue

omit [PBTransactionSerializer] [Ride] [BlockSerializer] in
/-- What the miner gets for the block itself. -/
def minerPortfolio (b : Blockchain) (maybePrevBlock : Option Block) (block : Block) :
    Portfolio :=
  let stateHeight := b.height
  let minerRewardDistr : Portfolio :=
    (b.lastBlockReward.map (Portfolio.build .Waves)).getD Portfolio.empty
  let prevBlockFeeDistr : Portfolio :=
    if stateHeight ≥ b.sponsoredFeesSwitchHeight then .waves b.carryFee
    else if stateHeight > ngHeight b then
      (maybePrevBlock.map Block.prevBlockFeePart).getD Portfolio.empty
    else Portfolio.empty
  let currentBlockFeeDistr : Portfolio :=
    if stateHeight < ngHeight b then block.feesPortfolio else Portfolio.empty
  (minerRewardDistr.combine currentBlockFeeDistr).combine prevBlockFeeDistr

/-- `BlockDiffer.fromBlock`. -/
def fromBlock (b : Blockchain) (maybePrevBlock : Option Block) (block : Block)
    (constraint : MiningConstraint) (verify : Bool := true) : Validation Result := do
  let initDiff : Diff := { Diff.empty with
    portfolios := .single block.sender.toAddress (minerPortfolio b maybePrevBlock block) }
  if verify then block.signaturesValid else .ok ()
  apply (CompositeBlockchain b none (some block)) constraint
    (maybePrevBlock.map fun p => p.header.timestamp) initDiff (b.height ≥ ngHeight b)
    block.transactionData verify

/-- `BlockDiffer.fromMicroBlock`. It asks only whether NG has an activation height. -/
def fromMicroBlock (b : Blockchain) (prevBlockTimestamp : Option Long) (micro : MicroBlock)
    (constraint : MiningConstraint) (verify : Bool := true) : Validation Result := do
  .cond (b.activatedFeatures.contains BlockchainFeatures.NG.id)
    (.ActivationError "MicroBlocks are not yet activated")
  micro.signaturesValid
  apply b constraint prevBlockTimestamp Diff.empty true micro.transactionData verify

end BlockDiffer

end WavesNode
