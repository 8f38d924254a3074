/-
The generating balance of an account.

What an account may forge with is the least effective balance it had over a range of
heights. The database keeps the heights at which the balance and the leases of an account
changed, in two histories of their own, and puts the snapshots together from both
(`slice`, `merge`); the updater adds one snapshot for the liquid block, up to whichever
micro-block is asked for, and answers as though the leases that expire with it were already
cancelled.
-/
import WavesNode.LiquidChain

set_option autoImplicit false

namespace WavesNode

/-! ## 1. Snapshots -/

structure BalanceSnapshot where
  height : ℕ
  regularBalance : Long
  leaseIn : Long
  leaseOut : Long
  deriving DecidableEq

namespace BalanceSnapshot

def effectiveBalance (s : BalanceSnapshot) : Long := s.regularBalance + s.leaseIn - s.leaseOut

/-- `BalanceSnapshot(height, portfolio)`. -/
def ofPortfolio (height : ℕ) (p : Portfolio) : BalanceSnapshot :=
  ⟨height, p.balance, p.lease.in_, p.lease.out⟩

end BalanceSnapshot

namespace LevelDBWriter

/-- `slice`: the heights of a range, and the one the range begins with. -/
def slice (v : List ℕ) (from_ to_ : ℕ) : List ℕ :=
  let rest := v.dropWhile (to_ < ·)
  rest.filter (from_ < ·) ++ [((rest.filter fun h => ¬ from_ < h).head?).getD 1]

/-- `recMergeFixed`, at most `rounds` steps. Every step but the last takes a height off one
of the lists. -/
def recMergeFixed : (rounds wh : ℕ) → (wt : List ℕ) → (lh : ℕ) → (lt : List ℕ) → List (ℕ × ℕ)
  | 0, wh, _, lh, _ => [(wh, lh)]
  | rounds + 1, wh, wt, lh, lt =>
    (wh, lh) ::
      match wt, lt with
      | [], [] => []
      | [], l :: lt => recMergeFixed rounds wh [] l lt
      | w :: wt, [] => recMergeFixed rounds w wt lh []
      | w :: wt, l :: lt =>
        if wh = lh then recMergeFixed rounds w wt l lt
        else if wh > lh then recMergeFixed rounds w wt lh (l :: lt)
        else recMergeFixed rounds wh (w :: wt) l lt

/-- `merge`. A slice is never empty. -/
def merge : (wbh lbh : List ℕ) → List (ℕ × ℕ)
  | w :: wt, l :: lt => recMergeFixed (wt.length + lt.length) w wt l lt
  | _, _ => []

/-- The snapshot of two heights. -/
def snapshotAt (w : LevelDBWriter) (address : Address) (heights : ℕ × ℕ) : BalanceSnapshot :=
  let wb := ((w.db.wavesBalance address).value heights.1).getD 0
  let lb := ((w.db.leaseBalance address).value heights.2).getD LeaseBalance.empty
  ⟨max heights.1 heights.2, wb, lb.in_, lb.out⟩

/-- `balanceSnapshots`. -/
def balanceSnapshots (w : LevelDBWriter) (address : Address) (from_ : ℕ) (to_ : BlockId) :
    List BalanceSnapshot :=
  if address ∈ w.db.addressId then
    let toHeight := (w.heightOf to_).getD w.height
    let wbh := slice (w.db.wavesBalance address).heights from_ toHeight
    let lbh := slice (w.db.leaseBalance address).heights from_ toHeight
    (merge wbh lbh).map (w.snapshotAt address)
  else [⟨1, 0, 0, 0⟩]

end LevelDBWriter

/-- `balanceDiffAt`: what the liquid block up to a micro-block changes, as though the expired
leases had already been cancelled. -/
def NgState.balanceDiffAt (ng : NgState) (address : Address) (blockId : BlockId) :
    Validation Portfolio := do
  let (diff, _, _) ← ng.diffFor blockId
  .ok ((ng.cancelExpiredLeases diff).portfolios.of address)

namespace StoredUpdater

variable [Crypto] [PBTransactionSerializer] (s : StoredUpdater)

def heightOf (blockId : BlockId) : Option ℕ :=
  (s.blockchain.heightOf blockId).or
    (if s.ngState.any fun ng => ng.contains blockId then some s.height else none)

omit [Crypto] [PBTransactionSerializer] in
def lposPortfolioFromNG (a : Address) (mb : BlockId) : Validation Portfolio := do
  let diffPf ←
    match s.ngState with
    | none => .ok Portfolio.empty
    | some ng => ng.balanceDiffAt a mb
  let lease := s.blockchain.leaseBalance a
  let balance := s.blockchain.balance a .Waves
  .ok ((⟨balance, lease, ∅⟩ : Portfolio).combine diffPf)

/-- `balanceSnapshots`. -/
def balanceSnapshots (address : Address) (from_ : ℕ) (to_ : BlockId) :
    Validation (List BalanceSnapshot) :=
  if (s.blockchain.heightOf to_).isSome || s.ngState.isNone then
    .ok (s.blockchain.balanceSnapshots address from_ to_)
  else do
    let bs := .ofPortfolio s.height (← s.lposPortfolioFromNG address to_)
    if s.blockchain.height > 0 ∧ from_ < s.height then
      .ok (bs :: s.blockchain.balanceSnapshots address from_ to_)
    else .ok [bs]

end StoredUpdater

/-! ## 2. The generating balance -/

/-- The queries of a ledger that a generating balance is made of. -/
structure BalanceReader where
  height : ℕ
  heightOf : BlockId → Option ℕ
  balanceSnapshots : Address → (from_ : ℕ) → (to_ : BlockId) → Validation (List BalanceSnapshot)

def LevelDBWriter.balanceReader (w : LevelDBWriter) : BalanceReader where
  height := w.height
  heightOf := w.heightOf
  balanceSnapshots address from_ to_ := .ok (w.balanceSnapshots address from_ to_)

def StoredUpdater.balanceReader [Crypto] [PBTransactionSerializer] (s : StoredUpdater) :
    BalanceReader where
  height := s.height
  heightOf := s.heightOf
  balanceSnapshots := s.balanceSnapshots

namespace BalanceReader

/-- `effectiveBalance`: the least of the range. -/
def effectiveBalance (b : BalanceReader) (address : Address) (confirmations : ℕ)
    (block : BlockId) : Validation Long := do
  let blockHeight := (b.heightOf block).getD b.height
  let bottomLimit := min (max (blockHeight - confirmations + 1) 1) blockHeight
  let balances ← b.balanceSnapshots address bottomLimit block
  .ok ((balances.map BalanceSnapshot.effectiveBalance).min?.getD 0)

end BalanceReader

namespace GeneratingBalanceProvider

def MinimalEffectiveBalanceForGenerator1 : Long := 1000000000000
def MinimalEffectiveBalanceForGenerator2 : Long := 100000000000
def FirstDepth : ℕ := 50
def SecondDepth : ℕ := 1000

def isEffectiveBalanceValid (settings : BlockchainSettings) (activatedFeatures : FiniteMap Short ℕ)
    (height : ℕ) (block : Block) (effectiveBalance : Long) : Bool :=
  -- `minimalGeneratingBalanceAfter`
  let after := settings.functionalitySettings.lastTimeBasedForkParameter
  block.header.timestamp < after ||
    (block.header.timestamp ≥ after && effectiveBalance ≥ MinimalEffectiveBalanceForGenerator1) ||
    ((activatedFeatures.get? BlockchainFeatures.SmallerMinimalGeneratingBalance.id).any
      fun h => height ≥ h) && effectiveBalance ≥ MinimalEffectiveBalanceForGenerator2

/-- `balance`, with the height from which on the range is the longer one. -/
def balance (generationBalanceDepthFrom50To1000AfterHeight : ℕ) (b : BalanceReader)
    (account : Address) (blockId : BlockId) : Validation Long := do
  let height ←
    if blockId = [] then .ok b.height
    else .get s!"Invalid block ref: {ByteStr.stringRepr blockId}" (b.heightOf blockId)
  let depth :=
    if height ≥ generationBalanceDepthFrom50To1000AfterHeight then SecondDepth else FirstDepth
  b.effectiveBalance account depth blockId

end GeneratingBalanceProvider

end WavesNode
