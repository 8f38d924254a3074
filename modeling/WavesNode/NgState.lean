/-
The liquid block: a key block and the micro-blocks on top of it.

`NgState` keeps the diff of the key block and one diff for each micro-block, the
newest micro-block first. The accumulated diff of a micro-block is found by walking
its references back to the key block (`diffFor`), and the block that would have held
all the transactions so far is forged from the key block's header (`forgeBlock`).

The three caches of the source are not modelled: each entry is what the function it
caches would compute again, as long as no two micro-blocks have one signature. A walk
that meets a signature twice does not end; it is an exception here too.
-/
import WavesNode.BlockDiffer

set_option autoImplicit false

namespace WavesNode

variable [BlockSerializer]

namespace Block

/-- `Block.create(base, transactionData, signature)`. -/
def create (base : Block) (transactionData : List Transaction) (signature : ByteStr) : Block where
  header := { base.header with
    transactionsRoot := BlockSerializer.mkTransactionsRoot base.header.version transactionData }
  signature := signature
  transactionData := transactionData

end Block

/-- `CachedMicroDiff`. -/
structure CachedMicroDiff where
  diff : Diff
  carryFee : Long
  totalFee : Long

structure NgState where
  base : Block
  baseBlockDiff : Diff
  baseBlockCarry : Long
  baseBlockTotalFee : Long
  approvedFeatures : Finset Short
  reward : Option Long
  leasesToCancel : FiniteMap ByteStr Diff
  microDiffs : FiniteMap BlockId CachedMicroDiff
  /-- Fresh head. -/
  microBlocks : List MicroBlock

namespace NgState

variable (ng : NgState)

/-! ## 1. Accumulated diffs -/

omit [BlockSerializer] in
/-- The expired leases that are not cancelled yet are cancelled by a diff of their own. -/
def cancelExpiredLeases (diff : Diff) : Diff :=
  ((ng.leasesToCancel.toList.filter fun entry => diff.leaseState.getOrElse entry.1 true).map
    Prod.snd).foldl Diff.combine diff

omit [BlockSerializer] in
/-- The walk of `diffFor`, at most `fuel` micro-blocks long. -/
def diffForWithin : (fuel : ℕ) → BlockId → Validation (Diff × Long × Long)
  | fuel, totalResBlockSig =>
    if totalResBlockSig = ng.base.uniqueId then
      .ok (ng.baseBlockDiff, ng.baseBlockCarry, ng.baseBlockTotalFee)
    else
      match ng.microBlocks.find? fun m => m.totalResBlockSig = totalResBlockSig with
      | none => .ok (Diff.empty, 0, 0)
      | some current =>
        match fuel with
        | 0 => .throwing "StackOverflowError"
        | fuel + 1 => do
          let (prevDiff, prevCarry, prevTotalFee) ← diffForWithin fuel current.prevResBlockSig
          let micro ← .get "NoSuchElementException" (ng.microDiffs.get? totalResBlockSig)
          .ok (prevDiff.combine micro.diff, prevCarry + micro.carryFee,
            prevTotalFee + micro.totalFee)

omit [BlockSerializer] in
/-- `diffFor`: a walk without a loop meets each micro-block at most once. -/
def diffFor (totalResBlockSig : BlockId) : Validation (Diff × Long × Long) :=
  ng.diffForWithin ng.microBlocks.length totalResBlockSig

omit [BlockSerializer] in
def bestLiquidBlockId : BlockId :=
  (ng.microBlocks.head?.map MicroBlock.totalResBlockSig).getD ng.base.uniqueId

omit [BlockSerializer] in
def lastMicroBlock : Option MicroBlock := ng.microBlocks.head?

omit [BlockSerializer] in
def bestLiquidDiffAndFees : Validation (Diff × Long × Long) := ng.diffFor ng.bestLiquidBlockId

omit [BlockSerializer] in
def contains (blockId : BlockId) : Bool :=
  ng.base.uniqueId = blockId || ng.microDiffs.contains blockId

omit [BlockSerializer] in
def carryFee : Long :=
  ng.baseBlockCarry + (ng.microDiffs.values.map CachedMicroDiff.carryFee).fold (fun x y : Long => x + y) 0

omit [BlockSerializer] in
def append (m : MicroBlock) (diff : Diff) (microblockCarry microblockTotalFee : Long) : NgState :=
  { ng with
    microDiffs := ng.microDiffs.insert m.totalResBlockSig
      ⟨diff, microblockCarry, microblockTotalFee⟩
    microBlocks := m :: ng.microBlocks }

/-! ## 2. The forged block -/

omit [BlockSerializer] in
def transactions : List Transaction :=
  ng.base.transactionData ++ (ng.microBlocks.map MicroBlock.transactionData).reverse.flatten

def bestLiquidBlock : Block :=
  match ng.microBlocks with
  | [] => ng.base
  | head :: _ => Block.create ng.base ng.transactions head.totalResBlockSig

omit [BlockSerializer] in
/-- One step of the walk of `forgeBlock` over the micro-blocks: the transactions up to the
one wanted, and, once it is found, the micro-blocks after it. -/
def forgeStep (blockId : BlockId)
    (acc : List Transaction × Option (ByteStr × List MicroBlock)) (micro : MicroBlock) :
    List Transaction × Option (ByteStr × List MicroBlock) :=
  match acc with
  | (accumulated, some (sig, discarded)) => (accumulated, some (sig, micro :: discarded))
  | (accumulated, none) =>
    (accumulated ++ micro.transactionData,
      if micro.totalResBlockSig = blockId then some (micro.totalResBlockSig, []) else none)

/-- `forgeBlock`: the block up to a micro-block, and the micro-blocks it discards. -/
def forgeBlock (blockId : BlockId) : Option (Block × List MicroBlock) :=
  let microBlocksAsc := ng.microBlocks.reverse
  if ng.base.uniqueId = blockId then some (ng.base, microBlocksAsc)
  else if !microBlocksAsc.any fun m => m.totalResBlockSig = blockId then none
  else
    let (accumulatedTxs, maybeFound) := microBlocksAsc.foldl (forgeStep blockId) ([], none)
    maybeFound.map fun found =>
      (Block.create ng.base (ng.base.transactionData ++ accumulatedTxs) found.1, found.2)

/-- `totalDiffOf`: the forged block, its diff, its carry, its fees, and what it discards. -/
def totalDiffOf (id : BlockId) :
    Option (Validation (Block × Diff × Long × Long × List MicroBlock)) :=
  (ng.forgeBlock id).map fun (block, discarded) => do
    let (diff, carry, totalFee) ← ng.diffFor id
    .ok (block, diff, carry, totalFee, discarded)

end NgState

end WavesNode
