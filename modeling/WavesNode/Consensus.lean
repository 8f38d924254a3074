/-
What a key block is checked against.

Before a block is processed, `blockConsensusValidation` checks it against its parent: the
generating balance at the parent, the version, the time, the base target, the generation
signature or VRF proof, and the delay. The last two read a hit source, and they read it at
the height of the node: where a liquid block stands on the parent, that is the height of the
liquid block, which the checked block may compete with.

A hit source is kept for every persisted height, and for the liquid block (`ConsensusNode`).
`consensus_relative` says what follows: everything else is the same whether the liquid block
is there or not, and the verdict is the same exactly where both hit sources give the same.
-/
import WavesNode.GeneratingBalance

set_option autoImplicit false

namespace WavesNode

/-! ## 1. Hit sources -/

def Block.HitSourceLength : ℕ := 32

/-- The updater with the hit sources, which no other validation reads. -/
structure ConsensusNode where
  node : StoredUpdater
  /-- `Keys.hitSource`. A rollback leaves it. -/
  hitSources : ℕ → Option ByteStr
  /-- The one of the liquid block. -/
  hitSource : ByteStr

namespace ConsensusNode

/-- The node as it starts on a database without blocks. -/
def start [Crypto] [PBTransactionSerializer] (settings : BlockchainSettings)
    (dbSettings : DBSettings) (autoShutdown : Bool) : ConsensusNode where
  node := .start (.empty settings dbSettings) autoShutdown
  hitSources _ := none
  hitSource := []

section

variable [Crypto] [PBTransactionSerializer] [BlockSerializer] [Ride]

/-- `processBlock`. Where the block is on the liquid one, the liquid one is persisted with its
hit source. -/
def processBlock (c : ConsensusNode) (block : Block) (hitSource : ByteStr) :
    Validation (ConsensusNode × Option (List Transaction)) := do
  let (node, discarded) ← c.node.processBlock block
  match discarded with
  | none => .ok (c, none)
  | some discarded =>
    let persists := c.node.ngState.any fun ng => ng.base.header.reference ≠ block.header.reference
    .ok ({
      node := node
      hitSource := hitSource
      hitSources :=
        if persists then
          Function.update c.hitSources node.blockchain.height (some c.hitSource)
        else c.hitSources }, some discarded)

/-- What a node can be in, over the runs of the updater. Every block comes with some hit
source. -/
inductive Reachable (Q : StoredUpdater → StoredUpdater.Event → Prop)
    (settings : BlockchainSettings) (dbSettings : DBSettings) : ConsensusNode → Prop where
  | start (autoShutdown : Bool) :
    Reachable Q settings dbSettings (start settings dbSettings autoShutdown)
  | block {c c' : ConsensusNode} {block : Block} {hitSource : ByteStr}
      {discarded : Option (List Transaction)} :
    Reachable Q settings dbSettings c → Q c.node (.processBlock block) →
      c.processBlock block hitSource = .ok (c', discarded) → Reachable Q settings dbSettings c'
  | other {c : ConsensusNode} {node : StoredUpdater} {e : StoredUpdater.Event} :
    Reachable Q settings dbSettings c → (∀ block, e ≠ .processBlock block) → Q c.node e →
      e.Leads c.node node → Reachable Q settings dbSettings { c with node := node }

/-- A run of the node is one of its updater. -/
theorem Reachable.node {Q : StoredUpdater → StoredUpdater.Event → Prop}
    {settings : BlockchainSettings} {dbSettings : DBSettings} {c : ConsensusNode}
    (h : Reachable Q settings dbSettings c) :
    StoredUpdater.Reachable Q settings dbSettings c.node := by
  induction h with
  | start autoShutdown => exact .start autoShutdown
  | block _ hQ hblock ih =>
    unfold ConsensusNode.processBlock at hblock
    obtain ⟨⟨node, discarded⟩, hnode, hblock⟩ := Validation.bind_eq_ok.mp hblock
    rcases discarded with _ | discarded
    · cases hblock
      exact ih
    · cases hblock
      exact ih.step hQ ⟨_, hnode⟩
  | other _ _ hQ hleads ih => exact ih.step hQ hleads

end

/-! ## 2. What the checks read -/

end ConsensusNode

/-- The settings that only the consensus reads. -/
structure ConsensusSettings where
  generationBalanceDepthFrom50To1000AfterHeight : ℕ
  /-- Of the genesis settings, in seconds. -/
  averageBlockDelay : Long

/-- The queries of a ledger that the consensus makes. -/
structure ConsensusReader extends BalanceReader where
  settings : BlockchainSettings
  parentHeader : BlockHeader → (back : ℕ) → Option BlockHeader
  activatedFeatures : FiniteMap Short ℕ
  hitSourceAtHeight : ℕ → Option ByteStr

/-- `parentHeader`. -/
def LevelDBWriter.parentHeader (w : LevelDBWriter) (block : BlockHeader) (back : ℕ) :
    Option BlockHeader := do
  let h ← w.db.heightOf block.reference
  (w.db.blockInfoAt (h + 1 - back)).map BlockInfo.header

/-- `parentHeader`. -/
def StoredUpdater.parentHeader (s : StoredUpdater) (block : BlockHeader) (back : ℕ) :
    Option BlockHeader :=
  match s.ngState with
  | some ng =>
    if ng.contains block.reference then
      if back = 1 then some ng.base.header
      else s.blockchain.parentHeader ng.base.header (back - 1)
    else s.blockchain.parentHeader block back
  | none => s.blockchain.parentHeader block back

namespace ConsensusNode

section

variable [Crypto] [PBTransactionSerializer] (c : ConsensusNode)

def hitSourceAtHeight (height : ℕ) : Option ByteStr :=
  let persisted :=
    (c.hitSources height).filter fun hitSource => hitSource.length = Block.HitSourceLength
  match c.node.ngState with
  | some _ => if c.node.height = height then some c.hitSource else persisted
  | none => persisted

def reader : ConsensusReader where
  toBalanceReader := c.node.balanceReader
  settings := c.node.blockchain.settings
  parentHeader := c.node.parentHeader
  activatedFeatures := c.node.updater.activatedFeatures
  hitSourceAtHeight := c.hitSourceAtHeight

omit [Crypto] [PBTransactionSerializer] in
/-- The node without its liquid block. -/
def withoutLiquid : ConsensusNode := { c with node := { c.node with ngState := none } }

end

end ConsensusNode

/-! ## 3. The checks -/

/-- `PoSCalculator`. What is computed in floating point is a parameter. -/
structure PoSCalculator where
  calculateBaseTarget : (targetBlockDelaySeconds : Long) → (prevHeight : ℕ) →
    (prevBaseTarget parentTimestamp : Long) → (maybeGreatGrandParentTimestamp : Option Long) →
    (timestamp : Long) → Validation Long
  calculateDelay : (hit : ℕ) → (bt balance : Long) → Validation Long

/-- The two calculators, and the VRF of the curve library. -/
class ProofOfStake where
  NxtPoSCalculator : PoSCalculator
  FairPoSCalculator : PoSCalculator
  verifyVRF : (signature message : ByteStr) → PublicKey → Validation ByteStr

namespace PoSCalculator

def HitSize : ℕ := 8
def DigestLength : ℕ := 32

/-- `generationSignature`. Less than a digest is an exception. -/
def generationSignature [Crypto] (signature : ByteStr) (publicKey : PublicKey) :
    Validation ByteStr :=
  if DigestLength ≤ signature.length ∧ DigestLength ≤ publicKey.length then
    .ok (Crypto.fastHash (signature.take DigestLength ++ publicKey.take DigestLength))
  else .throwing "ArrayIndexOutOfBoundsException"

def hit (generatorSignature : ByteStr) : ℕ :=
  BigEndian.read (generatorSignature.take HitSize).reverse

end PoSCalculator

section

variable [Crypto] [ProofOfStake]

namespace ConsensusReader

variable (r : ConsensusReader)

def isFeatureActivatedAt (feature : BlockchainFeature) (height : ℕ) : Bool :=
  (r.activatedFeatures.get? feature.id).any fun h => height ≥ h

def fairPosActivated (height : ℕ) : Bool :=
  r.isFeatureActivatedAt BlockchainFeatures.FairPoS height

def vrfActivated (height : ℕ) : Bool := r.isFeatureActivatedAt BlockchainFeatures.BlockV5 height

end ConsensusReader

namespace PoSSelector

variable (r : ConsensusReader)

omit [Crypto] in
def pos (height : ℕ) : PoSCalculator :=
  if r.fairPosActivated height then ProofOfStake.FairPoSCalculator
  else ProofOfStake.NxtPoSCalculator

omit [ProofOfStake] in
/-- What `getHit` makes a hit of. -/
def hitMessage (height : ℕ) : Option ByteStr :=
  if r.fairPosActivated height ∧ height > 100 then r.hitSourceAtHeight (height - 100)
  else r.hitSourceAtHeight r.height

omit [ProofOfStake] in
/-- `getHit`. -/
def getHit (height : ℕ) (accountPublicKey : PublicKey) (message : Option ByteStr) :
    Validation ℕ := do
  let msg ← .ofOption (.GenericError s!"Couldn't find hit source at height: {height}") message
  let msg ←
    if r.vrfActivated height then .ok msg
    else PoSCalculator.generationSignature msg accountPublicKey
  .ok (PoSCalculator.hit msg)

def getValidBlockDelay (height : ℕ) (accountPublicKey : PublicKey) (refBlockBT balance : Long)
    (message : Option ByteStr) : Validation Long := do
  let hit ← getHit r height accountPublicKey message
  (pos r height).calculateDelay hit refBlockBT balance

/-- `validateBlockDelay`, on the message of the hit. -/
def validateBlockDelay (height : ℕ) (block : Block) (parent : BlockHeader)
    (effectiveBalance : Long) (message : Option ByteStr) : Validation Unit := do
  let delay ← getValidBlockDelay r height block.header.generator parent.baseTarget effectiveBalance
    message
  let mvt := delay + parent.timestamp
  .cond (mvt ≤ block.header.timestamp)
    (.GenericError s!"Block timestamp {block.header.timestamp} less than min valid timestamp {mvt}")

/-- `validateGenerationSignature`: the new hit source. -/
def validateGenerationSignature (block : Block) : Validation ByteStr := do
  let h := r.height
  let genSig := block.header.generationSignature
  let generator := block.header.generator
  let prevHitSource ← .ofOption (.GenericError s!"Couldn't find hit source at height: {h}")
    (r.hitSourceAtHeight h)
  if r.vrfActivated h then ProofOfStake.verifyVRF genSig prevHitSource generator
  else do
    let expectedGenSig ← PoSCalculator.generationSignature prevHitSource generator
    if genSig = expectedGenSig then .ok expectedGenSig
    else
      .fail (.GenericError
        s!"Generation signatures does not match: Expected = {ByteStr.stringRepr expectedGenSig}; Found = {ByteStr.stringRepr genSig}")

omit [Crypto] in
/-- `validateBaseTarget`. The limit on the base target stops the node; it refuses no block. -/
def validateBaseTarget (cs : ConsensusSettings) (height : ℕ) (block : Block)
    (parent : BlockHeader) (grandParent : Option BlockHeader) : Validation Unit := do
  let blockBT := block.header.baseTarget
  let expectedBT ← (pos r height).calculateBaseTarget cs.averageBlockDelay height
    parent.baseTarget parent.timestamp (grandParent.map BlockHeader.timestamp)
    block.header.timestamp
  .cond (expectedBT = blockBT)
    (.GenericError
      s!"declared baseTarget {blockBT} does not match calculated baseTarget {expectedBT}")

end PoSSelector

namespace Appender

/-- In milliseconds. -/
def MaxTimeDrift : Long := 100

/-- Invalid blocks, that are already in blockchain. -/
def exceptions : List (ℕ × BlockId) :=
  [(812608, BigEndian.write 64
    0x3f4482ea46ec5204d6ada52a81cdc6996f18063a82b2035ef71822634d4b3a4b36405f55ef022039e3aa08fbbb0013f984aa87fd6ca42b0e6a053388b2f8458c),
  (813207, BigEndian.write 64
    0xf5660118bd9a1b25134d4089d84252877c162659483d6f106c2024fd368da8505e75e45fe9c771f21f54e1a6b135277be43185163268035877f1dd65c3a79288)]

omit [Crypto] [ProofOfStake] in
def checkExceptions (height : ℕ) (block : Block) : Validation Unit :=
  .cond (exceptions.contains (height, block.uniqueId))
    (.GenericError s!"Block time {block.header.timestamp} less than expected")

omit [Crypto] [ProofOfStake] in
def validateBlockVersion (height : ℕ) (block : Block) (fs : FunctionalitySettings) :
    Validation Unit :=
  let version3Height := fs.blockVersion3AfterHeight
  -- the versions of a genesis and of a plain block
  .cond (height > version3Height || block.header.version = 1 || block.header.version = 2)
    (.GenericError s!"Block Version 3 can only appear at height greater than {version3Height}")

omit [ProofOfStake] in
/-- The generating balance at the parent, if it is enough. -/
def genBalance (r : ConsensusReader) (cs : ConsensusSettings) (block : Block) (height : ℕ)
    (parent : BlockId) : Validation Long := do
  let balance ← GeneratingBalanceProvider.balance
    cs.generationBalanceDepthFrom50To1000AfterHeight r.toBalanceReader block.sender.toAddress parent
  .cond (GeneratingBalanceProvider.isEffectiveBalanceValid r.settings r.activatedFeatures height
      block balance)
    (.GenericError
      s!"generator's effective balance {balance} is less that required for generation")
  .ok balance

/-- The first checks of `blockConsensusValidation`: the height of the parent, its header, and
the generating balance there. -/
def validateOnParent (r : ConsensusReader) (cs : ConsensusSettings) (currentTs : Long)
    (block : Block) : Validation (ℕ × BlockHeader × Long) := do
  let reference := ByteStr.stringRepr block.header.reference
  let height ← .ofOption
    (.GenericError s!"height: history does not contain parent {reference}")
    (r.heightOf block.header.reference)
  let parent ← .ofOption
    (.GenericError s!"parent: history does not contain parent {reference}")
    (r.parentHeader block.header 1)
  let grandParent := r.parentHeader parent 2
  let effectiveBalance ← genBalance r cs block height block.header.reference
  validateBlockVersion height block r.settings.functionalitySettings
  .cond (block.header.timestamp - currentTs < MaxTimeDrift)
    (.BlockFromFuture block.header.timestamp)
  PoSSelector.validateBaseTarget r cs height block parent grandParent
  .ok (height, parent, effectiveBalance)

omit [Crypto] [ProofOfStake] in
/-- `Block.toString`. -/
def text (block : Block) : String :=
  let reference := String.ofList ((ByteStr.stringRepr block.header.reference).toList.take 7) ++ "..."
  let reward :=
    if block.header.rewardVote ≥ 0 then s!", rewardVote={block.header.rewardVote}" else ""
  let features := String.intercalate ", " (block.header.featureVotes.map toString)
  s!"Block({ByteStr.stringRepr block.signature} -> {reference}, txs={block.transactionData.length}, features=List({features}){reward})"

omit [Crypto] [ProofOfStake] in
/-- `Either.orElse`. -/
def orElse (x y : Validation Unit) : Validation Unit := if x.isLeft then y else x

/-- `blockConsensusValidation`: the hit source of a block that passes. -/
def blockConsensusValidation (r : ConsensusReader) (cs : ConsensusSettings) (currentTs : Long)
    (block : Block) : Validation ByteStr :=
  .leftMap
    (fun
      | .GenericError x =>
        .GenericError s!"Block {text block} is invalid: {x}"
      | x => x)
    (do
      let (height, parent, effectiveBalance) ← validateOnParent r cs currentTs block
      let hitSource ← PoSSelector.validateGenerationSignature r block
      let message := PoSSelector.hitMessage r height
      orElse (PoSSelector.validateBlockDelay r height block parent effectiveBalance message)
        (checkExceptions height block)
      .ok hitSource)

end Appender

/-! ## 4. What does not depend on the liquid block -/

/-- Two readers that agree on what is at the parent of a block, which is at height `n`. -/
structure ConsensusReader.AgreeOnParent (r r' : ConsensusReader) (block : Block) (n : ℕ) :
    Prop where
  settings : r.settings = r'.settings
  nonempty : block.header.reference ≠ []
  heightOf : r.heightOf block.header.reference = some n
  heightOf' : r'.heightOf block.header.reference = some n
  parent : r.parentHeader block.header 1 = r'.parentHeader block.header 1
  grandParent : ∀ parent, r'.parentHeader block.header 1 = some parent →
    r.parentHeader parent 2 = r'.parentHeader parent 2
  snapshots : ∀ address from_, r.balanceSnapshots address from_ block.header.reference =
    r'.balanceSnapshots address from_ block.header.reference
  features : ∀ feature height, height ≤ n →
    r.isFeatureActivatedAt feature height = r'.isFeatureActivatedAt feature height

namespace ConsensusReader.AgreeOnParent

variable {r r' : ConsensusReader} {block : Block} {n : ℕ}

omit [ProofOfStake] in
theorem genBalance_eq (h : r.AgreeOnParent r' block n) (cs : ConsensusSettings) :
    Appender.genBalance r cs block n block.header.reference =
      Appender.genBalance r' cs block n block.header.reference := by
  have hbalance : GeneratingBalanceProvider.balance
      cs.generationBalanceDepthFrom50To1000AfterHeight r.toBalanceReader block.sender.toAddress
        block.header.reference =
      GeneratingBalanceProvider.balance
      cs.generationBalanceDepthFrom50To1000AfterHeight r'.toBalanceReader block.sender.toAddress
        block.header.reference := by
    unfold GeneratingBalanceProvider.balance BalanceReader.effectiveBalance
    rw [if_neg h.nonempty, if_neg h.nonempty, h.heightOf, h.heightOf']
    simp only [h.snapshots, Option.getD_some]
  have hvalid : ∀ balance, GeneratingBalanceProvider.isEffectiveBalanceValid r.settings
      r.activatedFeatures n block balance =
      GeneratingBalanceProvider.isEffectiveBalanceValid r'.settings r'.activatedFeatures n block
        balance := by
    intro balance
    have hfeature := h.features BlockchainFeatures.SmallerMinimalGeneratingBalance n
      (Nat.le_refl n)
    unfold ConsensusReader.isFeatureActivatedAt at hfeature
    unfold GeneratingBalanceProvider.isEffectiveBalanceValid
    rw [hfeature, h.settings]
  unfold Appender.genBalance
  rw [hbalance]
  simp only [hvalid]

omit [Crypto] in
theorem pos_eq (h : r.AgreeOnParent r' block n) : PoSSelector.pos r n = PoSSelector.pos r' n := by
  unfold PoSSelector.pos ConsensusReader.fairPosActivated
  rw [h.features _ n (Nat.le_refl n)]

/-- The first checks come out alike. -/
theorem validateOnParent_eq (h : r.AgreeOnParent r' block n) (cs : ConsensusSettings)
    (currentTs : Long) :
    Appender.validateOnParent r cs currentTs block =
      Appender.validateOnParent r' cs currentTs block := by
  unfold Appender.validateOnParent
  rw [h.heightOf, h.heightOf', h.parent, h.settings]
  dsimp only [Validation.ofOption]
  rw [Validation.ok_bind, Validation.ok_bind, h.genBalance_eq cs]
  rcases hparent : r'.parentHeader block.header 1 with _ | parent
  · rfl
  · have hbase : PoSSelector.validateBaseTarget r cs n block parent (r.parentHeader parent 2) =
        PoSSelector.validateBaseTarget r' cs n block parent (r'.parentHeader parent 2) := by
      unfold PoSSelector.validateBaseTarget
      rw [h.pos_eq, h.grandParent parent hparent]
    dsimp only [Validation.ofOption]
    rw [Validation.ok_bind, Validation.ok_bind, hbase]

/-- What is at the parent is at its height. -/
theorem height_of_validateOnParent (h : r.AgreeOnParent r' block n) {cs : ConsensusSettings}
    {currentTs : Long} {v : ℕ × BlockHeader × Long}
    (hv : Appender.validateOnParent r' cs currentTs block = .ok v) : v.1 = n := by
  unfold Appender.validateOnParent at hv
  rw [h.heightOf'] at hv
  obtain ⟨height, hheight, hv⟩ := Validation.bind_eq_ok.mp hv
  obtain ⟨parent, -, hv⟩ := Validation.bind_eq_ok.mp hv
  obtain ⟨balance, -, hv⟩ := Validation.bind_eq_ok.mp hv
  obtain ⟨_, -, hv⟩ := Validation.bind_eq_ok.mp hv
  obtain ⟨_, -, hv⟩ := Validation.bind_eq_ok.mp hv
  obtain ⟨_, -, hv⟩ := Validation.bind_eq_ok.mp hv
  rw [← Except.ok.inj hv, ← Except.ok.inj hheight]

end ConsensusReader.AgreeOnParent

namespace ConsensusNode

section

variable [PBTransactionSerializer] [BlockSerializer] [Ride]
variable {settings : BlockchainSettings} {dbSettings : DBSettings} {c : ConsensusNode}

omit [ProofOfStake] [BlockSerializer] [Ride] in
/-- Up to its height, the liquid block activates nothing. -/
theorem activatedFeatures_any (s : StoredUpdater) (feature : Short) {height : ℕ}
    (hheight : s.ngState.isSome = true → height ≤ s.height) :
    (s.updater.activatedFeatures.get? feature).any (fun h => decide (height ≥ h)) =
      (s.blockchain.activatedFeatures.get? feature).any fun h => decide (height ≥ h) := by
  unfold BlockchainUpdaterImpl.activatedFeatures
  rw [FiniteMap.get?_append, FiniteMap.get?_mapVal]
  change Option.any _ ((s.blockchain.activatedFeatures.get? feature).or _) = _
  rcases s.blockchain.activatedFeatures.get? feature with _ | h
  · rw [Option.none_or, Option.any_none]
    unfold BlockchainUpdaterImpl.newlyApprovedFeatures
    rcases hng : s.ngState with _ | ng
    · have hliquid : s.updater.ngState = none := hng
      rw [hliquid]
      rfl
    · have hliquid : s.updater.ngState = some ng := hng
      rw [hliquid]
      dsimp only
      rw [FiniteMap.get?_ofFinset]
      split
      · -- what the liquid block approves is activated a window later
        have hwindow := s.updater.blockchain.settings.functionalitySettings.activationWindowSize_pos
          s.updater.height
        have hsame : s.updater.height = s.height := rfl
        have hle := hheight (by rw [hng]; rfl)
        rw [Option.map_some, Option.any_some, decide_eq_false_iff_not]
        omega
      · rfl
  · rfl

/-- A node with a liquid block on the persisted block that a block references, in a run
without repeated identifiers. -/
structure Competes (settings : BlockchainSettings) (dbSettings : DBSettings) (c : ConsensusNode)
    (block : Block) : Prop where
  reachable : Reachable StoredUpdater.FreshIds settings dbSettings c
  liquid : c.node.ngState.isSome = true
  reference : c.node.blockchain.lastBlock.map Block.uniqueId = some block.header.reference

namespace Competes

variable {block : Block}

omit [ProofOfStake] in
/-- The parent is the last persisted block, found by its identifier. -/
theorem parent (h : Competes settings dbSettings c block) :
    ∃ info, c.node.blockchain.db.blockInfoAt c.node.blockchain.height = some info ∧
      info.signature = block.header.reference ∧
      c.node.blockchain.db.heightOf block.header.reference = some c.node.blockchain.height ∧
      c.node.blockchain.heightOf block.header.reference = some c.node.blockchain.height := by
  obtain ⟨b, hb, hid⟩ := Option.map_eq_some_iff.mp h.reference
  obtain ⟨info, hinfo, -, hsignature⟩ :=
    (StoredUpdater.threaded_reachable h.reachable.node).last b hb
  have hindex := (StoredUpdater.identified_reachable h.reachable.node).unrepeated _ info hinfo
  rw [hsignature, hid] at hindex
  refine ⟨info, hinfo, by rw [hsignature, hid], hindex, ?_⟩
  rw [← hid]
  exact StoredUpdater.heightOf_lastBlock hb

omit [ProofOfStake] in
/-- An identifier that the database knows is none of the liquid block's. -/
theorem not_contains (h : Competes settings dbSettings c block) {ng : NgState}
    (hng : c.node.ngState = some ng) {id : BlockId} {height : ℕ}
    (hid : c.node.blockchain.db.heightOf id = some height) : ng.contains id = false := by
  by_contra hcontains
  have hfresh := (StoredUpdater.identified_reachable h.reachable.node).apart ng hng id
    (Bool.not_eq_false _ ▸ hcontains)
  rw [hfresh.unknown] at hid
  cases hid

omit [ProofOfStake] in
/-- The headers of the parent and of the block two below are looked up in the database. -/
theorem parentHeader (h : Competes settings dbSettings c block) :
    c.node.parentHeader block.header 1 = c.node.blockchain.parentHeader block.header 1 ∧
      ∀ parent, c.node.blockchain.parentHeader block.header 1 = some parent →
        c.node.parentHeader parent 2 = c.node.blockchain.parentHeader parent 2 := by
  obtain ⟨info, hinfo, -, hindex, -⟩ := h.parent
  obtain ⟨ng, hng⟩ := Option.isSome_iff_exists.mp h.liquid
  have hid := StoredUpdater.identified_reachable h.reachable.node
  have hblocks := h.reachable.node.chained.blocks
  unfold StoredUpdater.parentHeader
  rw [hng]
  dsimp only
  rw [if_neg (by rw [h.not_contains hng hindex]; exact Bool.false_ne_true)]
  refine ⟨rfl, fun parent hparent => ?_⟩
  have hheader : parent = info.header := by
    unfold LevelDBWriter.parentHeader at hparent
    rw [hindex] at hparent
    change Option.map BlockInfo.header (c.node.blockchain.db.blockInfoAt
      (c.node.blockchain.height + 1 - 1)) = some parent at hparent
    rw [Nat.add_sub_cancel, hinfo, Option.map_some] at hparent
    exact (Option.some.inj hparent).symm
  have hbound := (hblocks c.node.blockchain.height).mp (by rw [hinfo]; rfl)
  rw [hheader, if_neg fun hcontains => ?_]
  by_cases hfirst : c.node.blockchain.height = 1
  · -- below the first block there is nothing, and nothing has the name of it
    rw [hfirst] at hinfo
    exact (hid.apart ng hng _ hcontains).unreferenced info hinfo rfl
  · obtain ⟨below, hbelow⟩ := Option.isSome_iff_exists.mp
      ((hblocks (c.node.blockchain.height - 1)).mpr (by omega))
    have hinfo' : c.node.blockchain.db.blockInfoAt (c.node.blockchain.height - 1 + 1) =
        some info := by rw [Nat.sub_add_cancel hbound.1, hinfo]
    have hreference := (StoredUpdater.threaded_reachable h.reachable.node).reference _ below info
      hbelow hinfo'
    rw [hreference, h.not_contains hng (hid.unrepeated _ below hbelow)] at hcontains
    cases hcontains

omit [ProofOfStake] in
/-- The liquid block is no part of what is at the parent. -/
theorem agreeOnParent (h : Competes settings dbSettings c block) :
    c.reader.AgreeOnParent c.withoutLiquid.reader block c.node.blockchain.height := by
  obtain ⟨info, hinfo, hsignature, -, hheight⟩ := h.parent
  obtain ⟨hparent, hgrandParent⟩ := h.parentHeader
  have hpersisted : c.withoutLiquid.reader.parentHeader = c.node.blockchain.parentHeader := rfl
  refine ⟨rfl, ?_, ?_, ?_, ?_, ?_, ?_, ?_⟩
  · rw [← hsignature]
    exact (StoredUpdater.identified_reachable h.reachable.node).nonempty _ info hinfo
  · change (c.node.blockchain.heightOf block.header.reference).or _ = _
    rw [hheight]
    rfl
  · change (c.node.blockchain.heightOf block.header.reference).or _ = _
    rw [hheight]
    rfl
  · rw [hpersisted]
    exact hparent
  · rw [hpersisted]
    exact hgrandParent
  · intro address from_
    change (if (c.node.blockchain.heightOf block.header.reference).isSome || _ then _ else _) =
      if (c.node.blockchain.heightOf block.header.reference).isSome || _ then _ else _
    rw [hheight]
    rfl
  · intro feature height hle
    have hle' := c.node.height_le
    exact (activatedFeatures_any c.node feature.id fun _ => by omega).trans
      (activatedFeatures_any c.withoutLiquid.node feature.id fun _ => hle).symm

end Competes

/-! ## 5. What does -/

section

variable (r : ConsensusReader) (block : Block)

/-- What the generation signature of a block is worth on a hit source: the new hit source. -/
def signedOn (vrf : Bool) (hitSource : Option ByteStr) : Option ByteStr :=
  hitSource.bind fun prevHitSource =>
    let genSig := block.header.generationSignature
    if vrf then
      (ProofOfStake.verifyVRF genSig prevHitSource block.header.generator).toOption
    else
      ((PoSCalculator.generationSignature prevHitSource block.header.generator).toOption).filter
        fun expectedGenSig => genSig = expectedGenSig

/-- Whether a block whose parent is known waited long enough, or is an exception, where the
hit is made of a message. -/
def timelyOn (v : ℕ × BlockHeader × Long) (message : Option ByteStr) : Bool :=
  (Appender.orElse (PoSSelector.validateBlockDelay r v.1 block v.2.1 v.2.2 message)
    (Appender.checkExceptions v.1 block)).toOption.isSome

/-- What a block is worth on the hit source that the node reads at its height. -/
def validOn (vrf : Bool) (hitSource : Option ByteStr) (v : ℕ × BlockHeader × Long) :
    Option ByteStr :=
  (signedOn block vrf hitSource).filter fun _ =>
    timelyOn r block v
      (if r.fairPosActivated v.1 ∧ v.1 > 100 then r.hitSourceAtHeight (v.1 - 100) else hitSource)

omit [PBTransactionSerializer] [BlockSerializer] [Ride] in
theorem validateGenerationSignature_toOption :
    (PoSSelector.validateGenerationSignature r block).toOption =
      signedOn block (r.vrfActivated r.height) (r.hitSourceAtHeight r.height) := by
  unfold PoSSelector.validateGenerationSignature signedOn
  dsimp only
  rcases r.hitSourceAtHeight r.height with _ | prevHitSource
  · rfl
  · dsimp only [Validation.ofOption]
    rw [Validation.ok_bind, Option.bind_some]
    by_cases hvrf : r.vrfActivated r.height = true
    · rw [if_pos hvrf, if_pos hvrf]
    · rw [if_neg hvrf, if_neg hvrf]
      rcases PoSCalculator.generationSignature prevHitSource block.header.generator with
        e | expectedGenSig
      · rfl
      · rw [Validation.ok_bind]
        change (ite _ _ _ : Validation ByteStr).toOption =
          (some expectedGenSig).filter fun expectedGenSig =>
            block.header.generationSignature = expectedGenSig
        by_cases hsame : block.header.generationSignature = expectedGenSig
        · rw [if_pos hsame, Option.filter_some, if_pos (decide_eq_true hsame)]
          rfl
        · rw [if_neg hsame, Option.filter_some, if_neg (by rw [decide_eq_true_eq]; exact hsame)]
          rfl

omit [PBTransactionSerializer] [BlockSerializer] [Ride] in
/-- A verdict: the first checks, then the signature and the delay. -/
theorem verdict_eq (cs : ConsensusSettings) (currentTs : Long) :
    (Appender.blockConsensusValidation r cs currentTs block).toOption =
      (Appender.validateOnParent r cs currentTs block).toOption.bind fun v =>
        (signedOn block (r.vrfActivated r.height) (r.hitSourceAtHeight r.height)).filter fun _ =>
          timelyOn r block v (PoSSelector.hitMessage r v.1) := by
  have hleft : ∀ {α : Type} (f : ValidationError → ValidationError) (x : Validation α),
      (x.leftMap f).toOption = x.toOption := by
    intro α f x
    rcases x with (e | m) | a <;> rfl
  unfold Appender.blockConsensusValidation
  rw [hleft, ← validateGenerationSignature_toOption]
  rcases Appender.validateOnParent r cs currentTs block with e | ⟨height, parent, balance⟩
  · rfl
  · rw [Validation.ok_bind]
    change _ = Option.filter _ _
    dsimp only
    rcases PoSSelector.validateGenerationSignature r block with e | hitSource
    · rfl
    · change _ = (some hitSource).filter _
      rw [Validation.ok_bind, Option.filter_some]
      unfold timelyOn
      dsimp only
      rcases Appender.orElse _ _ with e | _
      · rfl
      · rfl

end

omit [PBTransactionSerializer] [BlockSerializer] [Ride] in
/-- The delay that a message asks for is the same for both readers. -/
theorem timelyOn_eq {r r' : ConsensusReader} {block : Block} {n : ℕ}
    (h : r.AgreeOnParent r' block n) {v : ℕ × BlockHeader × Long} (hv : v.1 = n)
    (message : Option ByteStr) : timelyOn r block v message = timelyOn r' block v message := by
  have hvrf : r.vrfActivated n = r'.vrfActivated n := h.features _ n (Nat.le_refl n)
  unfold timelyOn PoSSelector.validateBlockDelay PoSSelector.getValidBlockDelay PoSSelector.getHit
  rw [hv, h.pos_eq, hvrf]

/-- Where the first checks pass, the block is worth the same on the hit source of the liquid
block and on the one of its parent. -/
def HitSourcesAgree (c : ConsensusNode) (cs : ConsensusSettings) (currentTs : Long)
    (block : Block) : Prop :=
  let r := c.withoutLiquid.reader
  let height := c.node.blockchain.height
  ∀ v, Appender.validateOnParent r cs currentTs block = .ok v →
    validOn r block (r.vrfActivated (height + 1)) (some c.hitSource) v =
      validOn r block (r.vrfActivated height) (r.hitSourceAtHeight height) v

omit [BlockSerializer] [Ride] in
/-- The condition, as it can be computed. -/
theorem hitSourcesAgree_of_all {c : ConsensusNode} {cs : ConsensusSettings} {currentTs : Long}
    {block : Block}
    (h : (Appender.validateOnParent c.withoutLiquid.reader cs currentTs block).toOption.all
      (fun v => decide
        (validOn c.withoutLiquid.reader block
            (c.withoutLiquid.reader.vrfActivated (c.node.blockchain.height + 1))
            (some c.hitSource) v =
          validOn c.withoutLiquid.reader block
            (c.withoutLiquid.reader.vrfActivated c.node.blockchain.height)
            (c.withoutLiquid.reader.hitSourceAtHeight c.node.blockchain.height) v)) = true) :
    HitSourcesAgree c cs currentTs block := by
  intro v hv
  rw [hv] at h
  exact of_decide_eq_true h

end

end ConsensusNode

end

/-! ## 6. Two blocks on one parent

Bob's block and Alice's are both on the genesis block, each with the generation signature that
the hit source of the genesis block gives. Bob's comes first. -/

namespace Devnet

def bobBlock : Block :=
  { emptyBlock with
    header := { emptyBlock.header with
      generationSignature :=
        bytes 32 0x6e389b548785a58676d081ad1ccf0a5ca544ac260911b902e4e42dd3a4ff2464
      generator := bob.publicKey }
    signature := bytes 64
      0xe60f6b35b725a224a5905417905a6ebb8d32a4cab428c7f4267081b65020b55b4fcf1c5b0d87dc91b452e038441ac37dbc7c770e6d0c75c843ebfa2e3784a283 }

def bobBlockBytes : ByteStr :=
  bytes 161 0x030000015d3ef6fbc0813668d47528909acf62aeeba30294f9418c2e97172d3ba7c6b151db7b59017729e5dcdad233de6207ec6c23997c1e53e839c715225de43d375043d5b398e688000000280000000009299ff36e389b548785a58676d081ad1ccf0a5ca544ac260911b902e4e42dd3a4ff2464000000040000000000000000c0b126b5aa134b84e64625256b8de8973787612b1f3839d2c60526d2114e886d

def aliceBlock : Block :=
  { emptyBlock with
    header := { emptyBlock.header with
      generationSignature :=
        bytes 32 0xbbbae7d56330a8ccd33490676f16fb6dee58827aaa2313def792743ece1b058a
      generator := alice.publicKey }
    signature := bytes 64
      0x5e33481dc587b8ad2d4d9e299dc2b962140cc449fb230b8e6fee5f2ffc9e1e38e53f8b0d13230d6c877bc838421e4b2178a880f6dbf5bfa2f8a93a4c02d9f482 }

/-- Alice's block with the generation signature of Bob's. -/
def aliceWrongBlock : Block :=
  { aliceBlock with
    header := { aliceBlock.header with
      generationSignature := bobBlock.header.generationSignature } }

def consensusAnswers : KnownAnswers :=
  firstBlocks.and
    { digests :=
        [(genesisBlock.header.generationSignature ++ alice.publicKey,
            aliceBlock.header.generationSignature),
          (bobBlock.header.generationSignature ++ alice.publicKey,
            bytes 32 0x72053e3c84603476a91d491ce1de68a9a6515f6d07fca69061ba7f32e73a33e5)]
      signatures := [⟨bob.publicKey, bobBlockBytes, bobBlock.signature⟩]
      blocks := [(bobBlock, bobBlockBytes)] }

/-- At an odd height the base target is the parent's; the delay is a quotient rounded up. -/
def oddHeightCalculator : PoSCalculator where
  calculateBaseTarget _ _ prevBaseTarget _ _ _ := .ok prevBaseTarget
  calculateDelay hit bt balance :=
    .ok (1000 * Int64.ofInt (-(-(hit : ℤ) / (bt.toInt * balance.toInt))))

/-- No proof of the VRF is used here. -/
@[reducible] def proofOfStake : ProofOfStake where
  NxtPoSCalculator := oddHeightCalculator
  FairPoSCalculator := oddHeightCalculator
  verifyVRF _ _ _ := .fail (.GenericError "Generation signatures does not match")

def consensusSettings : ConsensusSettings := ⟨0, 60⟩

end Devnet

section
open Devnet

local instance consensusCrypto : Crypto := consensusAnswers.crypto
local instance consensusSerializer : PBTransactionSerializer := pbTransactionSerializer
local instance consensusBlocks : BlockSerializer := consensusAnswers.blockSerializer
local instance consensusRide : Ride := consensusAnswers.ride
local instance consensusProof : ProofOfStake := proofOfStake

namespace Devnet

def consensusStart : ConsensusNode := .start ngSettings dbSettings true

/-- The node after a block whose generation signature is the new hit source. -/
def withBlock (c : ConsensusNode) (block : Block) : Validation ConsensusNode :=
  Prod.fst <$> c.processBlock block block.header.generationSignature

def consensusGenesis : ConsensusNode :=
  (withBlock consensusStart genesisBlock).toOption.getD consensusStart

/-- Bob's block is liquid. -/
def consensusBob : ConsensusNode :=
  (withBlock consensusGenesis bobBlock).toOption.getD consensusStart

/-- What the node makes of a block. -/
def verdictOf (c : ConsensusNode) (block : Block) : Option ByteStr :=
  (Appender.blockConsensusValidation c.reader consensusSettings 1500000000000 block).toOption

end Devnet

/-- What the run shows: both blocks are taken, with fresh identifiers, and what Alice's blocks
are worth with Bob's block and without it. -/
theorem consensus_run :
    ((withBlock consensusStart genesisBlock).toOption.isSome ∧
        (consensusStart.node.persisted genesisBlock).toOption.all
          (fun w => decide (StoredUpdater.Fresh w genesisBlock.uniqueId)) = true ∧
        (withBlock consensusGenesis bobBlock).toOption.isSome ∧
        (consensusGenesis.node.persisted bobBlock).toOption.all
          (fun w => decide (StoredUpdater.Fresh w bobBlock.uniqueId)) = true) ∧
      (consensusBob.node.ngState.isSome ∧
        consensusBob.node.blockchain.lastBlock.map Block.uniqueId =
          some genesisBlock.uniqueId) ∧
      (verdictOf consensusBob aliceBlock = none ∧
        (verdictOf consensusBob.withoutLiquid aliceBlock).isSome) ∧
      (Appender.validateOnParent consensusBob.withoutLiquid.reader consensusSettings
        1500000000000 aliceWrongBlock).toOption.all (fun v => decide
          (ConsensusNode.validOn consensusBob.withoutLiquid.reader aliceWrongBlock
            (consensusBob.withoutLiquid.reader.vrfActivated
              (consensusBob.node.blockchain.height + 1)) (some consensusBob.hitSource) v =
          ConsensusNode.validOn consensusBob.withoutLiquid.reader aliceWrongBlock
            (consensusBob.withoutLiquid.reader.vrfActivated consensusBob.node.blockchain.height)
            (consensusBob.withoutLiquid.reader.hitSourceAtHeight
              consensusBob.node.blockchain.height) v)) = true := by
  decide +kernel

/-- A block on the genesis block competes with Bob's. -/
theorem competes_consensusBob {block : Block}
    (href : block.header.reference = genesisBlock.uniqueId) :
    ConsensusNode.Competes ngSettings dbSettings consensusBob block := by
  obtain ⟨⟨hgenesis, hfreshGenesis, hbob, hfreshBob⟩, ⟨hliquid, hlast⟩, -, -⟩ := consensus_run
  have hstep : ∀ {c c' : ConsensusNode} {block : Block},
      ConsensusNode.Reachable StoredUpdater.FreshIds ngSettings dbSettings c →
      StoredUpdater.FreshIds c.node (.processBlock block) → withBlock c block = .ok c' →
      ConsensusNode.Reachable StoredUpdater.FreshIds ngSettings dbSettings c' := by
    intro c c' block hc hQ hblock
    obtain ⟨⟨next, discarded⟩, hnext, rfl⟩ := Validation.map_eq_ok.mp hblock
    exact hc.block hQ hnext
  have hfirst : ConsensusNode.Reachable StoredUpdater.FreshIds ngSettings dbSettings
      consensusGenesis :=
    hstep (.start true) (StoredUpdater.freshIds_processBlock hfreshGenesis)
      (Validation.eq_ok_getD hgenesis)
  refine ⟨hstep hfirst (StoredUpdater.freshIds_processBlock hfreshBob)
    (Validation.eq_ok_getD hbob), hliquid, ?_⟩
  rw [hlast, href]

end

end WavesNode
