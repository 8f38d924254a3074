/-
The ledger as validation reads it.

`Blockchain` is the trait of that name: a record of queries, one field for each
method that validation, the scripts' environment and the block differ use. A field
is a function, so a persisted store, an empty chain and an overlay of a diff on
another chain are all values of this one type, and two chains that answer every
query alike are the same value.

The extension methods of the source (`isFeatureActivated`, `resolveAlias` of an
address or alias, `wavesPortfolio`, the sponsorship switch height) follow as
functions of the record.
-/
import WavesNode.Block
import Mathlib.Data.Multiset.Fold

set_option autoImplicit false

namespace WavesNode

structure LeaseDetails where
  sender : PublicKey
  recipient : AddressOrAlias
  height : ℕ
  amount : Long
  isActive : Bool
  deriving DecidableEq

structure BlockInfo where
  header : BlockHeader
  transactionCount : ℕ
  signature : ByteStr
  deriving DecidableEq

/-- The queries of a ledger. -/
@[ext]
structure Blockchain where
  settings : BlockchainSettings
  height : ℕ
  blockInfo : ℕ → Option BlockInfo
  lastBlock : Option Block
  carryFee : Long
  heightOf : BlockId → Option ℕ
  approvedFeatures : FiniteMap Short ℕ
  activatedFeatures : FiniteMap Short ℕ
  blockReward : ℕ → Option Long
  lastBlockReward : Option Long
  transferById : ByteStr → Option (ℕ × TransferTransaction)
  transactionInfo : ByteStr → Option (ℕ × Transaction)
  transactionHeight : ByteStr → Option ℕ
  containsTransaction : Transaction → Bool
  assetDescription : IssuedAsset → Option AssetDescription
  resolveAlias : Alias → Validation Address
  leaseDetails : ByteStr → Option LeaseDetails
  filledVolumeAndFee : ByteStr → VolumeAndFee
  accountScriptWithComplexity : Address → Option (Script × Long)
  hasScript : Address → Bool
  assetScriptWithComplexity : IssuedAsset → Option (Script × Long)
  hasAssetScript : IssuedAsset → Bool
  accountData : Address → AccountDataInfo
  accountDataEntry : Address → String → Option DataEntry
  leaseBalance : Address → LeaseBalance
  balance : Address → Asset → Long
  /-- By their ids: the source lists leases, and no lease twice. -/
  collectActiveLeases : ℕ → ℕ → (LeaseTransaction → Bool) → FiniteMap ByteStr LeaseTransaction
  collectLposPortfolios : (Address → Portfolio → Option Portfolio) → Portfolios
  invokeScriptResult : ByteStr → Option InvokeScriptResult

/-- `Int.MaxValue`, which stands for a height that is never reached. -/
def Int.MaxValue : ℕ := 2147483647

namespace Blockchain

variable (b : Blockchain)

def accountScript (a : Address) : Option Script :=
  (b.accountScriptWithComplexity a).map Prod.fst

def assetScript (a : IssuedAsset) : Option Script :=
  (b.assetScriptWithComplexity a).map Prod.fst

/-! ## 1. Features -/

/-- `FeatureProviderExt.isFeatureActivated` at the chain's own height. -/
def isFeatureActivated (feature : BlockchainFeature) : Bool :=
  (b.activatedFeatures.get? feature.id).any fun h => h ≤ b.height

def featureActivationHeight (feature : BlockchainFeature) : Option ℕ :=
  b.activatedFeatures.get? feature.id

/-- Asks only whether the feature has a height, not whether it was reached. -/
def allowsMultiPayment : Bool :=
  b.activatedFeatures.contains BlockchainFeatures.MultiPaymentInvokeScript.id

def disallowSelfPayment : Bool :=
  b.isFeatureActivated BlockchainFeatures.MultiPaymentInvokeScript

def passCorrectAssetId : Bool :=
  b.isFeatureActivated BlockchainFeatures.MultiPaymentInvokeScript

/-- `Sponsorship.sponsoredFeesSwitchHeight`. -/
def sponsoredFeesSwitchHeight : ℕ :=
  ((b.featureActivationHeight BlockchainFeatures.FeeSponsorship).map fun h =>
    h + b.settings.functionalitySettings.activationWindowSize h).getD Int.MaxValue

/-! ## 2. `BlockchainExt` -/

/-- Resolve a recipient: an address is itself. -/
def resolveRecipient : AddressOrAlias → Validation Address
  | .address a => .ok a
  | .alias a => b.resolveAlias a

def canCreateAlias (a : Alias) : Bool :=
  match b.resolveAlias a with
  | .error (.error (.AliasDoesNotExist _)) => true
  | _ => false

def wavesPortfolio (a : Address) : Portfolio := ⟨b.balance a .Waves, b.leaseBalance a, ∅⟩

def lastBlockTimestamp : Option Long := b.lastBlock.map fun block => block.header.timestamp

def allActiveLeases : FiniteMap ByteStr LeaseTransaction :=
  b.collectActiveLeases 1 b.height fun _ => true

/-- `EmptyBlockchain`, on the settings given. -/
def empty (settings : BlockchainSettings) : Blockchain where
  settings := settings
  height := 0
  blockInfo _ := none
  lastBlock := none
  carryFee := 0
  heightOf _ := none
  approvedFeatures := ∅
  activatedFeatures := ∅
  blockReward _ := none
  lastBlockReward := none
  transferById _ := none
  transactionInfo _ := none
  transactionHeight _ := none
  containsTransaction _ := false
  assetDescription _ := none
  resolveAlias _ := .fail (.GenericError "Empty blockchain")
  leaseDetails _ := none
  filledVolumeAndFee _ := ⟨0, 0⟩
  accountScriptWithComplexity _ := none
  hasScript _ := false
  assetScriptWithComplexity _ := none
  hasAssetScript _ := false
  accountData _ := ⟨∅⟩
  accountDataEntry _ _ := none
  leaseBalance _ := LeaseBalance.empty
  balance _ _ := 0
  collectActiveLeases _ _ _ := ∅
  collectLposPortfolios _ := ∅
  invokeScriptResult _ := some InvokeScriptResult.empty

end Blockchain

namespace Sponsorship

/-- One unit of the minimal fee table, in the smallest unit of Waves. -/
def FeeUnit : ℤ := 100000

/-- `Sponsorship.toWaves`: throws where the exact amount leaves the word. -/
def toWaves (assetFee sponsorship : Long) : Validation Long :=
  if sponsorship = 0 then .ok Long.MaxValue
  else
    .get "BigInteger out of long range"
      (Long.longValueExact ((assetFee.toInt * FeeUnit).tdiv sponsorship.toInt))

/-- `Sponsorship.fromWaves`. -/
def fromWaves (wavesFee sponsorship : Long) : Validation Long :=
  if wavesFee = 0 ∨ sponsorship = 0 then .ok 0
  else
    .get "BigInteger out of long range"
      (Long.longValueExact ((wavesFee.toInt * sponsorship.toInt).tdiv FeeUnit))

end Sponsorship

/-! ## 3. Ledgers that answer alike -/

/-- Two ledgers answer alike what validation asks of accounts, assets, leases, orders and
transactions. -/
structure Blockchain.StateAgrees (b b' : Blockchain) : Prop where
  balance : ∀ a asset, b.balance a asset = b'.balance a asset
  leaseBalance : ∀ a, b.leaseBalance a = b'.leaseBalance a
  assetDescription : ∀ asset, b.assetDescription asset = b'.assetDescription asset
  assetScript : ∀ asset, b.assetScriptWithComplexity asset = b'.assetScriptWithComplexity asset
  hasAssetScript : ∀ asset, b.hasAssetScript asset = b'.hasAssetScript asset
  accountScript : ∀ a, b.accountScriptWithComplexity a = b'.accountScriptWithComplexity a
  hasScript : ∀ a, b.hasScript a = b'.hasScript a
  accountData : ∀ a, b.accountData a = b'.accountData a
  accountDataEntry : ∀ a key, b.accountDataEntry a key = b'.accountDataEntry a key
  resolveAlias : ∀ a, b.resolveAlias a = b'.resolveAlias a
  leaseDetails : ∀ id, b.leaseDetails id = b'.leaseDetails id
  filledVolumeAndFee : ∀ id, b.filledVolumeAndFee id = b'.filledVolumeAndFee id
  transactionInfo : ∀ id, b.transactionInfo id = b'.transactionInfo id

variable [Crypto] [PBTransactionSerializer]

/-- Two ledgers answer alike all that validation asks. A transaction is asked for that has
the timestamp of the one its id belongs to, if there is one. -/
structure Blockchain.ViewsAgree (b b' : Blockchain) : Prop extends Blockchain.StateAgrees b b' where
  transactionHeight : ∀ id, b.transactionHeight id = b'.transactionHeight id
  containsTransaction : ∀ tx : Transaction,
    (∀ h tx', b.transactionInfo tx.id = some (h, tx') → tx'.timestamp = tx.timestamp) →
    b.containsTransaction tx = b'.containsTransaction tx
  height : b.height = b'.height
  carryFee : b.carryFee = b'.carryFee
  blockReward : ∀ h, b.blockReward h = b'.blockReward h

end WavesNode
