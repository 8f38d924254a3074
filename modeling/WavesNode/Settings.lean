/-
Network parameters and the features the network votes into force.

The requirements the settings check when they are built (positive periods, a
positive increment, a voting interval inside the term) are fields here, so no
settings value breaks them.
-/
import WavesNode.Diff

set_option autoImplicit false

namespace WavesNode

/-- A signed 16-bit machine word: the type of a feature id. -/
abbrev Short := Int16

/-! ## 1. Features -/

structure BlockchainFeature where
  id : Short
  description : String

namespace BlockchainFeatures

def SmallerMinimalGeneratingBalance : BlockchainFeature :=
  ⟨1, "Minimum Generating Balance of 1000 WAVES"⟩
def NG : BlockchainFeature := ⟨2, "NG Protocol"⟩
def MassTransfer : BlockchainFeature := ⟨3, "Mass Transfer Transaction"⟩
def SmartAccounts : BlockchainFeature := ⟨4, "Smart Accounts"⟩
def DataTransaction : BlockchainFeature := ⟨5, "Data Transaction"⟩
def BurnAnyTokens : BlockchainFeature := ⟨6, "Burn Any Tokens"⟩
def FeeSponsorship : BlockchainFeature := ⟨7, "Fee Sponsorship"⟩
def FairPoS : BlockchainFeature := ⟨8, "Fair PoS"⟩
def SmartAssets : BlockchainFeature := ⟨9, "Smart Assets"⟩
def SmartAccountTrading : BlockchainFeature := ⟨10, "Smart Account Trading"⟩
def Ride4DApps : BlockchainFeature := ⟨11, "RIDE 4 DAPPS"⟩
def OrderV3 : BlockchainFeature := ⟨12, "Order Version 3"⟩
def ReduceNFTFee : BlockchainFeature := ⟨13, "Reduce NFT fee"⟩
def BlockReward : BlockchainFeature :=
  ⟨14, "Block Reward and Community Driven Monetary Policy"⟩
def LeaseExpiration : BlockchainFeature := ⟨15, "Lease Expiration"⟩
def MultiPaymentInvokeScript : BlockchainFeature :=
  ⟨16, "Multiple payment attachment for Invoke Script Transaction"⟩
def BlockV5 : BlockchainFeature := ⟨17, "VRF and Protobuf"⟩

def implemented : List Short :=
  [SmallerMinimalGeneratingBalance, NG, MassTransfer, SmartAccounts, DataTransaction,
    BurnAnyTokens, FeeSponsorship, FairPoS, SmartAssets, SmartAccountTrading, Ride4DApps, OrderV3,
    ReduceNFTFee, BlockReward, LeaseExpiration, MultiPaymentInvokeScript, BlockV5].map
      BlockchainFeature.id

end BlockchainFeatures

/-! ## 2. Settings -/

/-- `Range.inclusive`. -/
def rangeInclusive (start end_ : ℕ) : List ℕ := List.range' start (end_ + 1 - start)

structure RewardsSettings where
  term : ℕ
  initial : Long
  minIncrement : Long
  votingInterval : ℕ
  initial_nonneg : 0 ≤ initial
  minIncrement_pos : 0 < minIncrement
  term_pos : 0 < term
  votingInterval_pos : 0 < votingInterval
  votingInterval_le : votingInterval ≤ term

namespace RewardsSettings

variable (rs : RewardsSettings)

/-- The last height of the term of a height. The source rounds a quotient of doubles up,
which is exact for 32-bit operands. -/
def nearestTermEnd (activatedAt height : ℕ) : ℕ :=
  let diff := height - activatedAt + 1
  let mul := (diff + rs.term - 1) / rs.term
  activatedAt + mul * rs.term - 1

/-- The heights of the term's voting interval up to a height. -/
def votingWindow (activatedAt height : ℕ) : List ℕ :=
  let end_ := rs.nearestTermEnd activatedAt height
  let start := end_ + 1 - rs.votingInterval
  if height ≥ start then rangeInclusive start height else []

end RewardsSettings

structure FunctionalitySettings where
  featureCheckBlocksPeriod : ℕ
  blocksForFeatureActivation : ℕ
  resetEffectiveBalancesAtHeight : ℕ
  blockVersion3AfterHeight : ℕ
  preActivatedFeatures : FiniteMap Short ℕ
  doubleFeaturesPeriodsAfterHeight : ℕ
  /-- In milliseconds, as every use of it is. -/
  maxTransactionTimeBackOffset : Long
  maxTransactionTimeForwardOffset : Long
  lastTimeBasedForkParameter : Long
  leaseExpiration : ℕ
  featureCheckBlocksPeriod_pos : 0 < featureCheckBlocksPeriod
  blocksForFeatureActivation_pos : 0 < blocksForFeatureActivation
  blocksForFeatureActivation_le : blocksForFeatureActivation ≤ featureCheckBlocksPeriod

namespace FunctionalitySettings

variable (fs : FunctionalitySettings)

def allowLeasedBalanceTransferUntilHeight : ℕ := fs.blockVersion3AfterHeight
def allowTemporaryNegativeUntil : Long := fs.lastTimeBasedForkParameter
def allowTransactionsFromFutureUntil : Long := fs.lastTimeBasedForkParameter
def allowUnissuedAssetsUntil : Long := fs.lastTimeBasedForkParameter
def allowInvalidReissueInSameBlockUntilTimestamp : Long := fs.lastTimeBasedForkParameter
def allowMultipleLeaseCancelTransactionUntilTimestamp : Long := fs.lastTimeBasedForkParameter

def activationWindowSize (height : ℕ) : ℕ :=
  fs.featureCheckBlocksPeriod * (if height ≤ fs.doubleFeaturesPeriodsAfterHeight then 1 else 2)

theorem activationWindowSize_pos (height : ℕ) : 1 ≤ fs.activationWindowSize height := by
  have hperiod := fs.featureCheckBlocksPeriod_pos
  unfold activationWindowSize
  split <;> omega

/-- The heights of the voting window of a height. -/
def activationWindow (height : ℕ) : List ℕ :=
  if height < 1 then []
  else
    let ws := fs.activationWindowSize height
    rangeInclusive ((height - 1) / ws * ws + 1) (((height - 1) / ws + 1) * ws)

/-- The votes a feature needs in the window of a height. -/
def blocksForFeatureActivationAt (height : ℕ) : ℕ :=
  fs.blocksForFeatureActivation *
    (if height ≤ fs.doubleFeaturesPeriodsAfterHeight then 1 else 2)

end FunctionalitySettings

structure BlockchainSettings where
  functionalitySettings : FunctionalitySettings
  rewardsSettings : RewardsSettings
  /-- `genesisSettings.initialBalance`. -/
  initialBalance : Long

end WavesNode
