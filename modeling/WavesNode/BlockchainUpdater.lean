/-
The node's ledger: a persisted chain and a liquid block on top.

`BlockchainUpdaterImpl` takes blocks and micro-blocks. A key block that references the
liquid block (or one of its micro-blocks) makes the liquid block up to there final: its
accumulated diff, with the expired leases cancelled, is appended to the persisted chain,
and the key block becomes the new liquid block. A micro-block extends the liquid block.

The persisted chain is the ledger that reads back what was appended to it (`append`);
how the database keeps it is the subject of other modules. `Reachable` collects what the
node can be in after any run of accepted blocks and micro-blocks.
-/
import WavesNode.NgState

set_option autoImplicit false

namespace WavesNode

variable [Crypto] [PBTransactionSerializer]

/-! ## 1. Votes -/

namespace Blockchain

variable (b : Blockchain)

def activatedFeaturesAt (height : ℕ) (feature : Short) : Bool :=
  (b.activatedFeatures.get? feature).any fun h => height ≥ h

/-- The votes in the window of a height, for each feature that has one. -/
def featureVotes (height : ℕ) : FiniteMap Short ℕ :=
  let votes := (b.settings.functionalitySettings.activationWindow height).flatMap fun h =>
    ((b.blockInfo h).map fun info => info.header.featureVotes).getD []
  .ofFinset votes.toFinset votes.count

def blockRewardVotes (height : ℕ) : List Long :=
  match b.activatedFeatures.get? BlockchainFeatures.BlockReward.id with
  | some activatedAt =>
    if activatedAt ≤ height then
      (b.settings.rewardsSettings.votingWindow activatedAt height).filterMap fun h =>
        (b.blockInfo h).map fun info => info.header.rewardVote
    else []
  | none => []

def lastBlockId : Option BlockId := b.lastBlock.map Block.uniqueId

/-- `unsafeHeightOf`. -/
def unsafeHeightOf (id : BlockId) : Validation ℕ :=
  .get s!"Can't find a block: {ByteStr.stringRepr id}" (b.heightOf id)

/-! ## 2. The persisted chain -/

/-- The chain without blocks, on a network's settings. -/
def initial (settings : BlockchainSettings) : Blockchain :=
  { Blockchain.empty settings with
    activatedFeatures := settings.functionalitySettings.preActivatedFeatures
    resolveAlias := fun a => .fail (.AliasDoesNotExist a)
    invokeScriptResult := fun _ => none }

/-- The features a block at the end of a voting window approves. Only features that had a
vote before it are counted. -/
def newlyApprovedFeatures (block : Block) : FiniteMap Short ℕ :=
  let height := b.height + 1
  let fs := b.settings.functionalitySettings
  if height % fs.activationWindowSize height = 0 then
    (b.featureVotes height).filterMap fun featureId voteCount =>
      if fs.preActivatedFeatures.contains featureId then none
      else if voteCount + (if featureId ∈ block.header.featureVotes then 1 else 0) ≥
          fs.blocksForFeatureActivationAt height then some height
      else none
  else ∅

/-- What a diff leaves of the active leases of a range of heights, and adds to them. -/
def appendActiveLeases (d : Diff) (from_ to_ : ℕ) (filter : LeaseTransaction → Bool) :
    FiniteMap ByteStr LeaseTransaction :=
  let height := b.height + 1
  (b.collectActiveLeases from_ to_ filter).filter (fun id _ => d.leaseState.getOrElse id true) ++
    if from_ ≤ height ∧ height ≤ to_ then
      d.transactions.filterMap fun id entry =>
        match entry.1 with
        | .lease lt => if d.leaseState.getOrElse id false && filter lt then some lt else none
        | _ => none
    else ∅

/-- `append`: the chain with one block more, which reads back the block's diff. -/
def append (d : Diff) (carry : Long) (reward : Option Long) (block : Block) : Blockchain :=
  let next := CompositeBlockchain b (some d) (some block) carry reward
  let approved := b.newlyApprovedFeatures block
  let window := b.settings.functionalitySettings.activationWindowSize next.height
  { next with
    approvedFeatures := approved ++ b.approvedFeatures
    activatedFeatures := approved.mapVal (· + window) ++ b.activatedFeatures
    blockReward := fun h => if h = next.height then reward else b.blockReward h
    lastBlockReward := reward
    collectActiveLeases := b.appendActiveLeases d
    collectLposPortfolios := fun pf =>
      (b.collectLposPortfolios fun a _ => pf a (next.wavesPortfolio a)) ++
        d.portfolios.filterMap fun a _ => pf a (next.wavesPortfolio a) }

end Blockchain

/-! ## 3. Mining constraints -/

namespace MiningConstraints

def MaxScriptRunsInBlock : Long := 100
def MaxScriptsComplexityInBlock : Long := 1000000
def ClassicAmountOfTxsInBlock : Long := 100
def MaxTxsSizeInBytes : Long := 1024 * 1024
def MaxTransactionsPerBlockVer3 : Long := 6000

/-- `MiningConstraints(blockchain, height).total`. -/
def total (b : Blockchain) (height : ℕ) : MiningConstraint :=
  let isEnabled (f : BlockchainFeature) := b.activatedFeaturesAt height f.id
  let total : MiningConstraint :=
    if isEnabled BlockchainFeatures.MassTransfer then
      .OneDimensional MaxTxsSizeInBytes .sizeInBytes "MaxTxsSizeInBytes"
    else
      let maxTxs :=
        if isEnabled BlockchainFeatures.NG then MaxTransactionsPerBlockVer3
        else ClassicAmountOfTxsInBlock
      .OneDimensional maxTxs .one "MaxTxs"
  if isEnabled BlockchainFeatures.Ride4DApps then
    .MultiDimensional [.OneDimensional MaxScriptsComplexityInBlock .scriptsComplexity
      "MaxScriptsComplexityInBlock", total]
  else if isEnabled BlockchainFeatures.SmartAccounts then
    .MultiDimensional [.OneDimensional MaxScriptRunsInBlock .scriptRunNumber
      "MaxScriptRunsInBlock", total]
  else total

end MiningConstraints

/-! ## 4. The updater and what it answers -/

structure BlockchainUpdaterImpl where
  /-- The persisted chain. -/
  blockchain : Blockchain
  ngState : Option NgState
  restTotalConstraint : MiningConstraint
  autoShutdownOnUnsupportedFeature : Bool := true

namespace BlockchainUpdaterImpl

/-- An updater on a chain without a liquid block. -/
def ofBlockchain (b : Blockchain) : BlockchainUpdaterImpl where
  blockchain := b
  ngState := none
  restTotalConstraint := MiningConstraints.total b b.height

def height (u : BlockchainUpdaterImpl) : ℕ := u.blockchain.height + (if u.ngState.isSome then 1 else 0)

/-- `newlyApprovedFeatures`: what the liquid block approves. -/
def newlyApprovedFeatures (u : BlockchainUpdaterImpl) : FiniteMap Short ℕ :=
  match u.ngState with
  | none => ∅
  | some ng => .ofFinset ng.approvedFeatures fun _ => u.height

def activatedFeatures (u : BlockchainUpdaterImpl) : FiniteMap Short ℕ :=
  u.newlyApprovedFeatures.mapVal
      (· + u.blockchain.settings.functionalitySettings.activationWindowSize u.height) ++
    u.blockchain.activatedFeatures

def lastBlockReward (u : BlockchainUpdaterImpl) : Option Long :=
  (u.ngState.bind NgState.reward).or u.blockchain.lastBlockReward

def blockRewardVotes (u : BlockchainUpdaterImpl) (height : ℕ) : List Long :=
  match u.activatedFeatures.get? BlockchainFeatures.BlockReward.id with
  | some activatedAt =>
    if activatedAt ≤ height then
      let innerVotes := u.blockchain.blockRewardVotes height
      match u.ngState with
      | none => innerVotes
      | some ng =>
        if height = u.height ∧
            height ∈ u.blockchain.settings.rewardsSettings.votingWindow activatedAt height then
          innerVotes ++ [ng.base.header.rewardVote]
        else innerVotes
    else []
  | none => []

/-- The reward of the next block. -/
def nextReward (u : BlockchainUpdaterImpl) : Option Long :=
  let settings := u.blockchain.settings.rewardsSettings
  let nextHeight := u.height + 1
  let votesAndReward : Option (List Long × Long) :=
    ((u.blockchain.featureActivationHeight BlockchainFeatures.BlockReward).filter
        (· ≤ nextHeight)).bind fun activatedAt =>
      let timeToVote := nextHeight - activatedAt
      match u.lastBlockReward with
      | some reward =>
        if timeToVote > 0 ∧ timeToVote % settings.term = 0 then
          some ((u.blockRewardVotes u.height).filter (· ≥ 0), reward)
        else none
      | none => some ([], settings.initial)
  let reward := votesAndReward.map fun (votes, currentReward) =>
    let lt := votes.countP (· < currentReward)
    let gt := votes.countP (· > currentReward)
    let threshold := settings.votingInterval / 2 + 1
    if lt ≥ threshold then max (currentReward - settings.minIncrement) 0
    else if gt ≥ threshold then currentReward + settings.minIncrement
    else currentReward
  reward.or u.lastBlockReward

variable [BlockSerializer]

/-- The ledger the updater is: the persisted chain under the liquid block. The source
writes the overlay of the liquid diff out query by query; where it is the composite's,
the composite is used. -/
def ledger (u : BlockchainUpdaterImpl) : Validation Blockchain :=
  match u.ngState with
  | none => .ok u.blockchain
  | some ng => do
    let (bestLiquidDiff, _, _) ← ng.bestLiquidDiffAndFees
    let height := u.blockchain.height + 1
    .ok { CompositeBlockchain u.blockchain (some bestLiquidDiff) (some ng.bestLiquidBlock)
            ng.carryFee ng.reward with
      heightOf := fun id =>
        (u.blockchain.heightOf id).or (if ng.contains id then some height else none)
      approvedFeatures := u.newlyApprovedFeatures ++ u.blockchain.approvedFeatures
      activatedFeatures := u.activatedFeatures
      blockReward := fun h =>
        (u.blockchain.blockReward h).or (if h = height then ng.reward else none) }

/-! ## 5. Leases that expire -/

omit [Crypto] [PBTransactionSerializer] [BlockSerializer] in
def collectLeasesToCancel (b : Blockchain) (newHeight : ℕ) :
    FiniteMap ByteStr LeaseTransaction :=
  if (b.featureActivationHeight BlockchainFeatures.LeaseExpiration).any (· ≤ newHeight) then
    let toHeight := newHeight - b.settings.functionalitySettings.leaseExpiration
    let fromHeight :=
      if b.featureActivationHeight BlockchainFeatures.LeaseExpiration = some newHeight then 1
      else toHeight
    b.collectActiveLeases fromHeight toHeight fun _ => true
  else ∅

omit [PBTransactionSerializer] [BlockSerializer] in
/-- The diff that cancels each lease; one whose recipient does not resolve is left. -/
def cancelLeases (b : Blockchain) (leases : FiniteMap ByteStr LeaseTransaction) :
    FiniteMap ByteStr Diff :=
  leases.filterMap fun id lt =>
    (b.resolveRecipient lt.recipient).toOption.map fun recipient =>
      { Diff.empty with
        portfolios := .ofList [(lt.sender.toAddress, ⟨0, ⟨0, -lt.amount⟩, ∅⟩),
          (recipient, ⟨0, ⟨-lt.amount, 0⟩, ∅⟩)]
        leaseState := .single id false }

/-! ## 6. Key blocks -/

omit [Crypto] [PBTransactionSerializer] [BlockSerializer] in
/-- `featuresApprovedWithBlock`. -/
def featuresApprovedWithBlock (b : Blockchain) (block : Block) : Finset Short :=
  let height := b.height + 1
  let fs := b.settings.functionalitySettings
  if height % fs.activationWindowSize height = 0 then
    ((b.featureVotes height).filter fun feature votes =>
      (if feature ∈ block.header.featureVotes then votes + 1 else votes) ≥
        fs.blocksForFeatureActivationAt height).dom
  else ∅

omit [Crypto] [PBTransactionSerializer] [BlockSerializer] in
def areVersionsOfSameBlock (b1 b2 : Block) : Bool :=
  b1.header.generator = b2.header.generator && b1.header.baseTarget = b2.header.baseTarget &&
    b1.header.reference = b2.header.reference && b1.header.timestamp = b2.header.timestamp

omit [Crypto] [PBTransactionSerializer] [BlockSerializer] in
/-- `blockScore`: throws where the base target does not divide to something positive. -/
def blockScore (block : Block) : Validation ℤ :=
  let score := Int.tdiv 18446744073709551616 block.header.baseTarget.toInt
  if score > 0 then .ok score else .throwing "AssertionError"

/-- What a block that was taken changes: the persisted chain, the differ's result, the
transactions it discards, and its reward. -/
structure TakenBlock where
  blockchain : Blockchain
  result : BlockDiffer.Result
  discarded : List Transaction
  reward : Option Long

variable [Ride]

/-- A block on the persisted chain itself, the liquid block aside. -/
def takeOnPersisted (b : Blockchain) (block : Block) (height : ℕ) (reward : Option Long)
    (discarded : List Transaction) (verify : Bool) : Validation (Option TakenBlock) := do
  let r ← BlockDiffer.fromBlock (CompositeBlockchain b none none b.carryFee reward) b.lastBlock
    block (MiningConstraints.total b height) verify
  .ok (some ⟨b, r, discarded, reward⟩)

/-- A block on a liquid block: the liquid block is appended. -/
def takeOnLiquid (u : BlockchainUpdaterImpl) (ng : NgState) (block : Block) (verify : Bool) :
    Validation (Option TakenBlock) := do
  let b := u.blockchain
  match ng.totalDiffOf block.header.reference with
  | none =>
    .fail (.BlockAppendError "References incorrect or non-existing block" block.signature)
  | some total => do
    let (referencedForgedBlock, referencedLiquidDiff, carry, _, discarded) ← total
    if verify then
      referencedForgedBlock.signaturesValid.leftMap fun _ =>
        .BlockAppendError
          s!"Forged block has invalid signature: base: {ByteStr.stringRepr ng.base.signature}, requested reference: {ByteStr.stringRepr block.header.reference}"
          block.signature
    else .ok ()
    let height := (b.heightOf referencedForgedBlock.header.reference).getD 0
    let reward := u.nextReward
    let liquidDiffWithCancelledLeases := ng.cancelExpiredLeases referencedLiquidDiff
    let r ← BlockDiffer.fromBlock
      (CompositeBlockchain b (some liquidDiffWithCancelledLeases) (some referencedForgedBlock)
        carry reward)
      (some referencedForgedBlock) block (MiningConstraints.total b height) verify
    .ok (some ⟨b.append liquidDiffWithCancelledLeases carry ng.reward referencedForgedBlock, r,
      discarded.flatMap MicroBlock.transactionData, reward⟩)

/-- The first half of `processBlock`: where the block goes. -/
def takeBlock (u : BlockchainUpdaterImpl) (block : Block) (verify : Bool) :
    Validation (Option TakenBlock) :=
  let b := u.blockchain
  match u.ngState with
  | none =>
    match b.lastBlockId with
    | some uniqueId =>
      if uniqueId ≠ block.header.reference then
        let reference := ByteStr.stringRepr block.header.reference
        let what :=
          if (b.heightOf block.header.reference).isSome then "exits, it's not last persisted"
          else "doesn't exist"
        .fail (.BlockAppendError
          s!"References incorrect or non-existing block: The referenced block({reference}) {what}"
          block.signature)
      else do
        let height ← b.unsafeHeightOf uniqueId
        takeOnPersisted b block height u.nextReward [] verify
    | none => takeOnPersisted b block 0 u.nextReward [] verify
  | some ng =>
    if ng.base.header.reference = block.header.reference then do
      let newScore ← blockScore block
      let oldScore ← blockScore ng.base
      if newScore > oldScore then do
        let height ← b.unsafeHeightOf ng.base.header.reference
        takeOnPersisted b block height ng.reward ng.transactions verify
      else if areVersionsOfSameBlock block ng.base then
        if block.transactionData.length ≤ ng.transactions.length then .ok none
        else do
          let height ← b.unsafeHeightOf ng.base.header.reference
          takeOnPersisted b block height ng.reward [] verify
      else
        .fail (.BlockAppendError
          s!"Competitors liquid block {ByteStr.stringRepr block.signature}(score={newScore}) is not better than existing (ng.base {ByteStr.stringRepr ng.base.signature}(score={oldScore}))"
          block.signature)
    else u.takeOnLiquid ng block verify

/-- The state after a block was taken: it is the liquid block now. -/
def withTaken (u : BlockchainUpdaterImpl) (block : Block) (taken : TakenBlock) :
    BlockchainUpdaterImpl :=
  let b := taken.blockchain
  { u with
    blockchain := b
    restTotalConstraint := taken.result.constraint
    ngState := some
      { base := block
        baseBlockDiff := taken.result.diff
        baseBlockCarry := taken.result.carry
        baseBlockTotalFee := taken.result.totalFee
        approvedFeatures := featuresApprovedWithBlock b block
        reward := taken.reward
        leasesToCancel := cancelLeases b (collectLeasesToCancel b (b.height + 1))
        microDiffs := ∅
        microBlocks := [] } }

/-- `processBlock`: the new state, and the transactions discarded if the block was
taken. -/
def processBlock (u : BlockchainUpdaterImpl) (block : Block) (verify : Bool := true) :
    Validation (BlockchainUpdaterImpl × Option (List Transaction)) := do
  let b := u.blockchain
  let unimplemented : Bool := decide (∃ feature ∈ b.activatedFeatures.dom,
    b.activatedFeaturesAt b.height feature ∧ feature ∉ BlockchainFeatures.implemented)
  .cond (!u.autoShutdownOnUnsupportedFeature || !unimplemented)
    (.GenericError "UNIMPLEMENTED FEATURES ACTIVATED ON BLOCKCHAIN, UPDATE THE NODE IMMEDIATELY")
  let taken ← u.takeBlock block verify
  match taken with
  | none => .ok (u, none)
  | some taken => .ok (u.withTaken block taken, some taken.discarded)

/-! ## 7. Micro-blocks -/

/-- `processMicroBlock`. -/
def processMicroBlock (u : BlockchainUpdaterImpl) (microBlock : MicroBlock)
    (verify : Bool := true) : Validation BlockchainUpdaterImpl :=
  match u.ngState with
  | none => .fail (.MicroBlockAppendError "No base block exists" microBlock.totalResBlockSig)
  | some ng =>
    if ng.base.sender.toAddress ≠ microBlock.sender.toAddress then
      .fail (.MicroBlockAppendError "Base block has been generated by another account"
        microBlock.totalResBlockSig)
    else do
      match ng.lastMicroBlock with
      | none =>
        .cond (ng.base.uniqueId = microBlock.prevResBlockSig)
          (.MicroBlockAppendError
            "It's first micro and it doesn't reference base block(which exists)"
            microBlock.totalResBlockSig)
      | some prevMicro =>
        .cond (prevMicro.totalResBlockSig = microBlock.prevResBlockSig)
          (.MicroBlockAppendError "It doesn't reference last known microBlock(which exists)"
            microBlock.totalResBlockSig)
      microBlock.signaturesValid
      let ledger ← u.ledger
      let r ← BlockDiffer.fromMicroBlock ledger u.blockchain.lastBlockTimestamp microBlock
        u.restTotalConstraint verify
      .ok { u with
        restTotalConstraint := r.constraint
        ngState := some (ng.append microBlock r.diff r.carry r.totalFee) }

/-! ## 8. Runs -/

/-- What the node can be in: it starts on the empty chain and takes verified blocks and
micro-blocks, in any order in which it accepts them. -/
inductive Reachable (settings : BlockchainSettings) : BlockchainUpdaterImpl → Prop where
  | initial : Reachable settings (ofBlockchain (Blockchain.initial settings))
  | block {u u' : BlockchainUpdaterImpl} {block : Block} {discarded : Option (List Transaction)} :
    Reachable settings u → u.processBlock block = .ok (u', discarded) → Reachable settings u'
  | microBlock {u u' : BlockchainUpdaterImpl} {microBlock : MicroBlock} :
    Reachable settings u → u.processMicroBlock microBlock = .ok u' → Reachable settings u'

/-- The node after a list of blocks. -/
def processBlocks (u : BlockchainUpdaterImpl) (blocks : List Block) :
    Validation BlockchainUpdaterImpl :=
  blocks.foldlM (fun u block => Prod.fst <$> u.processBlock block) u

theorem Reachable.processBlocks {settings : BlockchainSettings} {u u' : BlockchainUpdaterImpl}
    {blocks : List Block} (hu : Reachable settings u) (h : u.processBlocks blocks = .ok u') :
    Reachable settings u' := by
  unfold BlockchainUpdaterImpl.processBlocks at h
  induction blocks generalizing u with
  | nil =>
    cases h
    exact hu
  | cons block rest ih =>
    rw [List.foldlM_cons] at h
    obtain ⟨v, hv, h⟩ := Validation.bind_eq_ok.mp h
    obtain ⟨⟨w, discarded⟩, hw, rfl⟩ := Validation.map_eq_ok.mp hv
    exact ih (.block hu hw) h

end BlockchainUpdaterImpl

end WavesNode
