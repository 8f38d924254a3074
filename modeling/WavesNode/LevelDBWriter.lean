/-
The database of the ledger, and the caches over it.

`Keys` is what is stored: the families of keys of the source, each a function of what its
keys are made of. A value that blocks change is a `History`: its list of heights is one
key, what was written at each height another. Accounts are numbered by the source, each
address once and for good; here the address stands for its number.

`LevelDBWriter` adds what is held in memory. A cache is a partial function: it may hold the
value of a key or not, a value is loaded into it when it is read (`load`), and the cache
may drop any value at any time (`evict`). A reader answers from its cache, and from the
keys only where the cache holds nothing (`blockchain`).

`append` writes the diff of a block, and `rollbackTo` takes blocks off again, one height
after another (`discardBlock`), from the transactions and the index of changed addresses
that the block left behind.
-/
import WavesNode.History
import WavesNode.BlockchainUpdater
import WavesNode.TransactionParsers

set_option autoImplicit false

namespace WavesNode

structure DBSettings where
  maxRollbackDepth : ℕ
  /-- In milliseconds. -/
  rememberBlocks : Long
  storeInvokeScriptResults : Bool

/-! ## 1. Keys -/

structure Keys where
  height : ℕ
  heightOf : BlockId → Option ℕ
  wavesBalance : Address → History Long
  assetList : Address → Finset IssuedAsset
  assetBalance : Address → IssuedAsset → History Long
  assetInfo : IssuedAsset → History AssetInfo
  leaseBalance : Address → History LeaseBalance
  leaseStatus : FiniteMap ByteStr (History Bool)
  filledVolumeAndFee : ByteStr → History VolumeAndFee
  changedAddresses : ℕ → Finset Address
  addressIdOfAlias : Alias → Option Address
  /-- The addresses that have a number. -/
  addressId : Finset Address
  addressScript : Address → History (Script × Long)
  approvedFeatures : FiniteMap Short ℕ
  activatedFeatures : FiniteMap Short ℕ
  /-- All chunks of an account's keys. -/
  dataKeyChunk : Address → Finset String
  data : Address → String → History DataEntry
  sponsorship : IssuedAsset → History Long
  aliasIsDisabled : Finset Alias
  carryFee : ℕ → Option Long
  assetScript : IssuedAsset → History (Script × Long)
  safeRollbackHeight : ℕ
  changedDataKeys : ℕ → Address → Finset String
  blockInfoAt : ℕ → Option BlockInfo
  /-- The transactions of a height with their numbers. -/
  transactionAt : ℕ → List (ℕ × Transaction)
  transactionHNById : ByteStr → Option (ℕ × ℕ)
  invokeScriptResult : ℕ → ℕ → Option InvokeScriptResult
  blockReward : ℕ → Option Long
  wavesAmount : ℕ → Option ℤ

namespace Keys

/-- A database without blocks. -/
def empty : Keys where
  height := 0
  heightOf _ := none
  wavesBalance _ := .empty
  assetList _ := ∅
  assetBalance _ _ := .empty
  assetInfo _ := .empty
  leaseBalance _ := .empty
  leaseStatus := ∅
  filledVolumeAndFee _ := .empty
  changedAddresses _ := ∅
  addressIdOfAlias _ := none
  addressId := ∅
  addressScript _ := .empty
  approvedFeatures := ∅
  activatedFeatures := ∅
  dataKeyChunk _ := ∅
  data _ _ := .empty
  sponsorship _ := .empty
  aliasIsDisabled := ∅
  carryFee _ := none
  assetScript _ := .empty
  safeRollbackHeight := 0
  changedDataKeys _ _ := ∅
  blockInfoAt _ := none
  transactionAt _ := []
  transactionHNById _ := none
  invokeScriptResult _ _ := none
  blockReward _ := none
  wavesAmount _ := none

variable (db : Keys)

/-! ## 2. Loading -/

def transactionsAtHeight (height : ℕ) : List Transaction :=
  (db.transactionAt height).map Prod.snd

/-- The transaction of a height and a number. -/
def nthTransaction (height num : ℕ) : Option Transaction :=
  ((db.transactionAt height).find? fun entry => entry.1 = num).map Prod.snd

def transactionInfo (id : ByteStr) : Option (ℕ × Transaction) := do
  let (height, num) ← db.transactionHNById id
  let tx ← db.nthTransaction height num
  return (height, tx)

def loadBalance (a : Address) : Asset → Long
  | .Waves => (db.wavesBalance a).latest.getD 0
  | .issued asset => (db.assetBalance a asset).latest.getD 0

def loadLeaseBalance (a : Address) : LeaseBalance :=
  (db.leaseBalance a).latest.getD LeaseBalance.empty

def loadScript (a : Address) : Option (Script × Long) := (db.addressScript a).latest

def loadAssetScript (asset : IssuedAsset) : Option (Script × Long) := (db.assetScript asset).latest

def loadAccountData (a : Address) (key : String) : Option DataEntry := (db.data a key).latest

def loadVolumeAndFee (orderId : ByteStr) : VolumeAndFee :=
  (db.filledVolumeAndFee orderId).latest.getD VolumeAndFee.empty

def loadAssetDescription (asset : IssuedAsset) : Option AssetDescription :=
  match db.transactionInfo asset.id with
  | some (_, .issue i) =>
    let ai := (db.assetInfo asset).latest.getD ⟨i.reissuable, i.quantity.toInt⟩
    let sponsorship := (db.sponsorship asset).latest.getD 0
    some ⟨i.sender, i.name, i.description, i.decimals, ai.isReissuable, ai.volume,
      (db.assetScript asset).latest.map Prod.fst, sponsorship⟩
  | _ => none

def leaseStatusOf (leaseId : ByteStr) : History Bool :=
  (db.leaseStatus.get? leaseId).getD .empty

def loadLeaseStatus (leaseId : ByteStr) : Bool := (db.leaseStatusOf leaseId).latest.getD false

def leaseDetails (leaseId : ByteStr) : Option LeaseDetails :=
  match db.transactionInfo leaseId with
  | some (h, .lease lt) =>
    some ⟨lt.sender, lt.recipient, h, lt.amount, db.loadLeaseStatus leaseId⟩
  | _ => none

def resolveAlias (a : Alias) : Validation Address :=
  if a ∈ db.aliasIsDisabled then .fail (.AliasIsDisabled a)
  else .ofOption (.AliasDoesNotExist a) (db.addressIdOfAlias a)

/-- The block of a height. -/
def loadBlock (height : ℕ) : Option Block :=
  (db.blockInfoAt height).map fun info =>
    ⟨info.header, info.signature, (List.range info.transactionCount).filterMap
      (db.nthTransaction height)⟩

/-- The block of a height as it is discarded, with all that stands there. -/
def discardedBlock (height : ℕ) : Option Block :=
  (db.blockInfoAt height).map fun info =>
    ⟨info.header, info.signature, db.transactionsAtHeight height⟩

/-- The votes in the window of a height, for each feature that has one. -/
def featureVotes (settings : BlockchainSettings) (height : ℕ) : FiniteMap Short ℕ :=
  let votes := (settings.functionalitySettings.activationWindow height).flatMap fun h =>
    ((db.blockInfoAt h).map fun info => info.header.featureVotes).getD []
  .ofFinset votes.toFinset votes.count

/-- Whether the last status a lease got within two heights is active. -/
def lastStatusWithin (leaseId : ByteStr) (from_ to_ : ℕ) : Option Bool :=
  ((rangeInclusive from_ to_).filterMap (db.leaseStatusOf leaseId).value).getLast?

/-- `collectActiveLeases`: the statuses of the range are read, and the current one only if
they are not all there are. -/
def collectActiveLeases (currentHeight from_ to_ : ℕ) (filter : LeaseTransaction → Bool) :
    FiniteMap ByteStr LeaseTransaction :=
  db.leaseStatus.filterMap fun leaseId _ =>
    if db.lastStatusWithin leaseId from_ to_ = some true ∧
        (to_ ≥ currentHeight ∨ db.loadLeaseStatus leaseId = true) then
      match db.transactionInfo leaseId with
      | some (_, .lease lt) => if filter lt then some lt else none
      | _ => none
    else none

end Keys

/-! ## 3. The memory over the keys -/

structure LevelDBWriter where
  settings : BlockchainSettings
  dbSettings : DBSettings
  db : Keys
  /-- The height and the last block of `current`. -/
  height : ℕ
  lastBlock : Option Block
  blocksTs : FiniteMap ℕ Long
  oldestStoredBlockTimestamp : Long
  transactionIds : ByteStr → Option ℕ
  leaseBalanceCache : Address → Option LeaseBalance
  balancesCache : Address → Asset → Option Long
  assetDescriptionCache : IssuedAsset → Option (Option AssetDescription)
  volumeAndFeeCache : ByteStr → Option VolumeAndFee
  scriptCache : Address → Option (Option (Script × Long))
  assetScriptCache : IssuedAsset → Option (Option (Script × Long))
  accountDataCache : Address → String → Option (Option DataEntry)
  approvedFeatures : FiniteMap Short ℕ
  activatedFeatures : FiniteMap Short ℕ

namespace LevelDBWriter

/-- The database of a node that starts for the first time. -/
def empty (settings : BlockchainSettings) (dbSettings : DBSettings) : LevelDBWriter where
  settings := settings
  dbSettings := dbSettings
  db := Keys.empty
  height := 0
  lastBlock := none
  blocksTs := ∅
  oldestStoredBlockTimestamp := Long.MaxValue
  transactionIds _ := none
  leaseBalanceCache _ := none
  balancesCache _ _ := none
  assetDescriptionCache _ := none
  volumeAndFeeCache _ := none
  scriptCache _ := none
  assetScriptCache _ := none
  accountDataCache _ _ := none
  approvedFeatures := ∅
  activatedFeatures := settings.functionalitySettings.preActivatedFeatures

variable (w : LevelDBWriter)

/-! ## 4. Readers -/

def leaseBalance (a : Address) : LeaseBalance :=
  (w.leaseBalanceCache a).getD (w.db.loadLeaseBalance a)

def balance (a : Address) (asset : Asset) : Long :=
  (w.balancesCache a asset).getD (w.db.loadBalance a asset)

def assetDescription (asset : IssuedAsset) : Option AssetDescription :=
  (w.assetDescriptionCache asset).getD (w.db.loadAssetDescription asset)

def filledVolumeAndFee (orderId : ByteStr) : VolumeAndFee :=
  (w.volumeAndFeeCache orderId).getD (w.db.loadVolumeAndFee orderId)

def accountScriptWithComplexity (a : Address) : Option (Script × Long) :=
  (w.scriptCache a).getD (w.db.loadScript a)

def assetScriptWithComplexity (asset : IssuedAsset) : Option (Script × Long) :=
  (w.assetScriptCache asset).getD (w.db.loadAssetScript asset)

def accountDataEntry (a : Address) (key : String) : Option DataEntry :=
  (w.accountDataCache a key).getD (w.db.loadAccountData a key)

def accountData (a : Address) : AccountDataInfo :=
  ⟨(FiniteMap.ofFinset (w.db.dataKeyChunk a) (w.accountDataEntry a)).filterMap fun _ v => v⟩

def blockInfo (h : ℕ) : Option BlockInfo :=
  if h = w.height then
    w.lastBlock.map fun b => ⟨b.header, b.transactionData.length, b.signature⟩
  else w.db.blockInfoAt h

def heightOf (id : BlockId) : Option ℕ :=
  if w.lastBlock.any fun b => b.uniqueId = id then some w.height else w.db.heightOf id

/-- Two hours. -/
def TwoHours : Long := 7200000

/-- `UnitsInWave * TotalWaves`. -/
def TotalUnits : ℤ := 10000000000000000

def wavesAmount (h : ℕ) : ℤ := (w.db.wavesAmount h).getD TotalUnits

variable [Crypto] [PBTransactionSerializer]

def containsTransaction (tx : Transaction) : Bool :=
  (w.transactionIds tx.id).isSome ||
    (tx.timestamp - TwoHours ≤ w.oldestStoredBlockTimestamp &&
      (w.db.transactionHNById tx.id).isSome)

/-- The ledger a database is. -/
def blockchain : Blockchain where
  settings := w.settings
  height := w.height
  blockInfo := w.blockInfo
  lastBlock := w.lastBlock
  carryFee := (w.db.carryFee w.height).getD 0
  heightOf := w.heightOf
  approvedFeatures := w.approvedFeatures
  activatedFeatures := w.activatedFeatures
  blockReward := w.db.blockReward
  lastBlockReward := w.db.blockReward w.height
  transferById id :=
    match w.db.transactionInfo id with
    | some (h, .transfer tx) => some (h, tx)
    | _ => none
  transactionInfo := w.db.transactionInfo
  transactionHeight id := (w.db.transactionHNById id).map Prod.fst
  containsTransaction := w.containsTransaction
  assetDescription := w.assetDescription
  resolveAlias := w.db.resolveAlias
  leaseDetails := w.db.leaseDetails
  filledVolumeAndFee := w.filledVolumeAndFee
  accountScriptWithComplexity := w.accountScriptWithComplexity
  hasScript a := ((w.scriptCache a).map Option.isSome).getD (w.db.loadScript a).isSome
  assetScriptWithComplexity := w.assetScriptWithComplexity
  hasAssetScript asset :=
    ((w.assetScriptCache asset).map Option.isSome).getD (w.db.loadAssetScript asset).isSome
  accountData := w.accountData
  accountDataEntry := w.accountDataEntry
  leaseBalance := w.leaseBalance
  balance := w.balance
  collectActiveLeases := w.db.collectActiveLeases w.height
  collectLposPortfolios pf :=
    (FiniteMap.ofFinset w.db.addressId fun a =>
      (⟨w.db.loadBalance a .Waves, w.db.loadLeaseBalance a, ∅⟩ : Portfolio)).filterMap pf
  invokeScriptResult id :=
    if w.dbSettings.storeInvokeScriptResults then
      (w.db.transactionHNById id).bind fun (height, num) => w.db.invokeScriptResult height num
    else none

/-! ## 5. Hijacked aliases -/

/-- A number in groups of seven bits, the least first. -/
def varint : (groups n : ℕ) → ByteStr
  | 0, _ => []
  | groups + 1, n =>
    if n < 128 then [Int8.ofNat n] else Int8.ofNat (128 + n % 128) :: varint groups (n / 128)

/-- A field of bytes in a protobuf message. -/
def bytesField (tag : Byte) (bytes : ByteStr) : ByteStr := tag :: varint 5 bytes.length ++ bytes

omit [Crypto] in
/-- The bytes a transaction is stored as: the protobuf form of its body and its proofs. -/
def transactionBytes (tx : Transaction) : ByteStr :=
  let proofs :=
    match tx with
    | .genesis g => [g.signature]
    | tx => tx.proofs.proofs
  bytesField 10 (PBTransactionSerializer.bodyBytes tx) ++ proofs.flatMap (bytesField 18)

/-- `DisableHijackedAliases`: the aliases that the blocks before the last one created more
than once. It looks for the old encodings among the stored bytes. -/
def hijackedAliases : Finset Alias :=
  let aliases := (List.range' 1 (w.db.height - 1)).flatMap fun h =>
    (w.db.transactionsAtHeight h).filterMap fun tx =>
      (CreateAliasTxSerializer.parseBytes (transactionBytes tx)).toOption.map
        CreateAliasTransaction.alias
  (aliases.filter fun a => 1 < aliases.count a).toFinset

/-! ## 6. Appending a block -/

section
omit [Crypto] [PBTransactionSerializer]

/-- `DiffToStateApplier.portfolios`: the balances a diff changes. -/
def updatedBalance (d : Diff) (a : Address) (asset : Asset) : Option Long :=
  (d.portfolios.get? a).bind fun portfolioDiff =>
    match asset with
    | .Waves =>
      if portfolioDiff.balance ≠ 0 then some (w.balance a .Waves + portfolioDiff.balance) else none
    | .issued x => (portfolioDiff.assets.get? x).map fun delta => w.balance a (.issued x) + delta

/-- `DiffToStateApplier.portfolios`: the lease balances a diff changes. -/
def updatedLeaseBalance (d : Diff) (a : Address) : Option LeaseBalance :=
  (d.portfolios.get? a).bind fun portfolioDiff =>
    if portfolioDiff.lease ≠ LeaseBalance.empty then
      some ((w.leaseBalance a).combine portfolioDiff.lease)
    else none

def newFill (d : Diff) (orderId : ByteStr) : Option VolumeAndFee :=
  (d.orderFills.get? orderId).map (w.filledVolumeAndFee orderId).combine

/-- The addresses with a transaction in a diff. -/
def transactionAddresses (d : Diff) : Finset Address :=
  d.transactions.dom.biUnion fun id => ((d.transactions.get? id).map Prod.snd).getD ∅

/-- The index a rollback starts from: the addresses with a transaction, and those whose
Waves change. -/
def changedAddresses (d : Diff) : Finset Address :=
  transactionAddresses d ∪ d.portfolios.dom.filter fun a => (d.portfolios.of a).balance ≠ 0

end

def numbered (txs : List Transaction) : List (ℕ × Transaction) :=
  txs.zipIdx.map fun entry => (entry.2, entry.1)

/-- The transactions of a block by their ids; the last one of an id stays. -/
def byId (txs : List Transaction) : FiniteMap ByteStr (ℕ × Transaction) :=
  .ofList ((numbered txs).map fun entry => (entry.2.id, entry))

omit [Crypto] [PBTransactionSerializer] in
/-- The features a block at the end of a voting window approves. -/
def newlyApprovedFeatures (block : Block) : FiniteMap Short ℕ :=
  let height := w.height + 1
  let fs := w.settings.functionalitySettings
  if height % fs.activationWindowSize height = 0 then
    (w.db.featureVotes w.settings height).filterMap fun featureId voteCount =>
      if fs.preActivatedFeatures.contains featureId then none
      else if voteCount + (if featureId ∈ block.header.featureVotes then 1 else 0) ≥
          fs.blocksForFeatureActivationAt height then some height
      else none
  else ∅

/-- `doAppend`. -/
def doAppend (d : Diff) (carry : Long) (reward : Option Long) (block : Block) : Keys :=
  let db := w.db
  let height := w.height + 1
  let threshold := height - w.dbSettings.maxRollbackDepth
  let balanceThreshold := height - (w.dbSettings.maxRollbackDepth + 1000)
  let transactions := byId block.transactionData
  let approved := w.newlyApprovedFeatures block
  let window := w.settings.functionalitySettings.activationWindowSize height
  { height := height
    heightOf := fun id => if id = block.uniqueId then some height else db.heightOf id
    wavesBalance := fun a =>
      (db.wavesBalance a).pushSome height balanceThreshold (w.updatedBalance d a .Waves)
    assetList := fun a => db.assetList a ∪ (d.portfolios.of a).assets.dom
    assetBalance := fun a asset =>
      (db.assetBalance a asset).pushSome height threshold (w.updatedBalance d a (.issued asset))
    assetInfo := fun asset =>
      (db.assetInfo asset).pushSome height threshold
        ((d.issuedAssets.get? asset).map fun info =>
          ((db.assetInfo asset).latest.map fun p => p.combine info).getD info)
    leaseBalance := fun a =>
      (db.leaseBalance a).pushSome height balanceThreshold (w.updatedLeaseBalance d a)
    leaseStatus :=
      .ofFinset (db.leaseStatus.dom ∪ d.leaseState.dom) fun id =>
        (db.leaseStatusOf id).pushSome height threshold (d.leaseState.get? id)
    filledVolumeAndFee := fun id =>
      (db.filledVolumeAndFee id).pushSome height threshold (w.newFill d id)
    changedAddresses := fun h => if h = height then changedAddresses d else db.changedAddresses h
    addressIdOfAlias := fun a => (d.aliases.get? a).or (db.addressIdOfAlias a)
    addressId := db.addressId ∪ d.portfolios.dom ∪ transactionAddresses d
    addressScript := fun a =>
      ((d.scripts.get? a).map ((db.addressScript a).push height threshold)).getD (db.addressScript a)
    approvedFeatures := approved ++ db.approvedFeatures
    activatedFeatures := approved.mapVal (· + window) ++ db.activatedFeatures
    dataKeyChunk := fun a =>
      -- only a key without a history is new
      db.dataKeyChunk a ∪ ((d.accountData.get? a).getD AccountDataInfo.empty).data.dom.filter
        fun key => (db.data a key).heights = []
    data := fun a key =>
      (db.data a key).pushSome height threshold
        (((d.accountData.get? a).getD AccountDataInfo.empty).data.get? key)
    sponsorship := fun asset =>
      match d.sponsorship.get? asset with
      | some (.SponsorshipValue minFee) => (db.sponsorship asset).push height threshold (some minFee)
      | _ => db.sponsorship asset
    aliasIsDisabled :=
      if w.activatedFeatures.get? BlockchainFeatures.DataTransaction.id = some height then
        db.aliasIsDisabled ∪ w.hijackedAliases
      else db.aliasIsDisabled
    carryFee := fun h =>
      if h = threshold - 1 then none else if h = height then some carry else db.carryFee h
    assetScript := fun asset =>
      ((d.assetScripts.get? asset).map ((db.assetScript asset).push height threshold)).getD
        (db.assetScript asset)
    safeRollbackHeight := max db.safeRollbackHeight (height - w.dbSettings.maxRollbackDepth)
    changedDataKeys := fun h a =>
      match d.accountData.get? a with
      | some info => if h = height then info.data.dom else db.changedDataKeys h a
      | none => db.changedDataKeys h a
    blockInfoAt := fun h =>
      if h = height then some ⟨block.header, block.transactionData.length, block.signature⟩
      else db.blockInfoAt h
    transactionAt := fun h =>
      if h = height then
        (numbered block.transactionData).filter fun entry =>
          transactions.get? entry.2.id = some entry
      else db.transactionAt h
    transactionHNById := fun id =>
      ((transactions.get? id).map fun entry => (height, entry.1)).or (db.transactionHNById id)
    invokeScriptResult := fun h num =>
      -- every result of the diff is that of a transaction of the block
      if h = height ∧ w.dbSettings.storeInvokeScriptResults then
        (block.transactionData[num]?.bind fun tx => d.scriptResults.get? tx.id).or
          (db.invokeScriptResult h num)
      else db.invokeScriptResult h num
    blockReward := fun h => if h = height then reward.or (db.blockReward h) else db.blockReward h
    wavesAmount := fun h =>
      if h = height then (reward.map fun r => w.wavesAmount w.height + r.toInt).or (db.wavesAmount h)
      else db.wavesAmount h }

/-- `append`. -/
def append (d : Diff) (carry : Long) (reward : Option Long) (block : Block) : LevelDBWriter :=
  let newHeight := w.height + 1
  let db := w.doAppend d carry reward block
  let approved := w.newlyApprovedFeatures block
  -- `forgetBlocks`
  let blocksTs := w.blocksTs.insert newHeight block.header.timestamp
  let oldest := blocksTs.toList.headD (0, Long.MaxValue)
  let bts := block.header.timestamp - w.dbSettings.rememberBlocks
  { w with
    db := db
    height := newHeight
    lastBlock := some block
    blocksTs := blocksTs.filter fun _ ts => !(ts < bts)
    oldestStoredBlockTimestamp := oldest.2
    transactionIds := fun id =>
      (if d.transactions.contains id then some newHeight else w.transactionIds id).filter fun h =>
        oldest.1 ≤ h
    leaseBalanceCache := fun a => (w.updatedLeaseBalance d a).or (w.leaseBalanceCache a)
    balancesCache := fun a asset => (w.updatedBalance d a asset).or (w.balancesCache a asset)
    assetDescriptionCache := fun asset =>
      if d.issuedAssets.contains asset || d.sponsorship.contains asset then none
      else w.assetDescriptionCache asset
    volumeAndFeeCache := fun id => (w.newFill d id).or (w.volumeAndFeeCache id)
    scriptCache := fun a => (d.scripts.get? a).or (w.scriptCache a)
    assetScriptCache := fun asset => (d.assetScripts.get? asset).or (w.assetScriptCache asset)
    accountDataCache := fun a key =>
      ((((d.accountData.get? a).getD AccountDataInfo.empty).data.get? key).map some).or
        (w.accountDataCache a key)
    approvedFeatures := if approved.dom = ∅ then w.approvedFeatures else db.approvedFeatures
    activatedFeatures :=
      if approved.dom = ∅ then w.activatedFeatures
      else db.activatedFeatures ++ w.settings.functionalitySettings.preActivatedFeatures }

/-! ## 7. Taking blocks off -/

/-- The asset whose info is undone with a transaction. -/
def assetInfoUndoneBy : Transaction → Option IssuedAsset
  | .issue tx => some ⟨(Transaction.issue tx).id⟩
  | .reissue tx => some tx.asset
  | .burn tx => some tx.asset
  | _ => none

omit [Crypto] [PBTransactionSerializer] in
/-- The asset whose sponsorship is undone with a transaction. -/
def sponsorshipUndoneBy : Transaction → Option IssuedAsset
  | .sponsorFee tx => some tx.asset
  | _ => none

/-- The lease whose status is undone with a transaction. -/
def leaseStatusUndoneBy : Transaction → Option ByteStr
  | .lease tx => some (Transaction.lease tx).id
  | .leaseCancel tx => some tx.leaseId
  | _ => none

omit [PBTransactionSerializer] in
/-- The account whose script is undone with a transaction. -/
def scriptUndoneBy : Transaction → Option Address
  | .setScript tx => some tx.sender.toAddress
  | _ => none

omit [Crypto] [PBTransactionSerializer] in
/-- The asset whose script is undone with a transaction. -/
def assetScriptUndoneBy : Transaction → Option IssuedAsset
  | .setAssetScript tx => some tx.asset
  | _ => none

omit [Crypto] [PBTransactionSerializer] in
/-- The alias that is deleted with a transaction. -/
def aliasUndoneBy : Transaction → Option Alias
  | .createAlias tx => some tx.alias
  | _ => none

omit [PBTransactionSerializer] in
/-- The orders whose fills are undone with a transaction. -/
def fillsUndoneBy : Transaction → List ByteStr
  | .exchange tx => [tx.buyOrder.id, tx.sellOrder.id]
  | _ => []

omit [Crypto] [PBTransactionSerializer] in
def isGenesis : Transaction → Bool
  | .genesis _ => true
  | _ => false

/-- The keys after the last block is taken off. -/
def discardKeys (currentHeight : ℕ) : Keys :=
  let db := w.db
  let txs := db.transactionsAtHeight currentHeight
  let addresses := db.changedAddresses currentHeight
  { db with
    height := currentHeight - 1
    assetBalance := fun a asset =>
      if a ∈ addresses ∧ asset ∈ db.assetList a then (db.assetBalance a asset).drop currentHeight
      else db.assetBalance a asset
    data := fun a key =>
      if a ∈ addresses ∧ key ∈ db.changedDataKeys currentHeight a then
        (db.data a key).drop currentHeight
      else db.data a key
    wavesBalance := fun a =>
      if a ∈ addresses then (db.wavesBalance a).drop currentHeight else db.wavesBalance a
    leaseBalance := fun a =>
      if a ∈ addresses then (db.leaseBalance a).drop currentHeight else db.leaseBalance a
    assetInfo := fun asset =>
      if txs.any fun tx => assetInfoUndoneBy tx = some asset then
        (db.assetInfo asset).drop currentHeight
      else db.assetInfo asset
    sponsorship := fun asset =>
      if txs.any fun tx => sponsorshipUndoneBy tx = some asset then
        (db.sponsorship asset).drop currentHeight
      else db.sponsorship asset
    leaseStatus :=
      .ofFinset db.leaseStatus.dom fun id =>
        if txs.any fun tx => leaseStatusUndoneBy tx = some id then
          (db.leaseStatusOf id).drop currentHeight
        else db.leaseStatusOf id
    addressScript := fun a =>
      if txs.any fun tx => scriptUndoneBy tx = some a then (db.addressScript a).drop currentHeight
      else db.addressScript a
    assetScript := fun asset =>
      if txs.any fun tx => assetScriptUndoneBy tx = some asset then
        (db.assetScript asset).drop currentHeight
      else db.assetScript asset
    invokeScriptResult := fun h num =>
      if h = currentHeight ∧ (db.nthTransaction h num).any fun tx => tx matches .invokeScript _ then
        none
      else db.invokeScriptResult h num
    addressIdOfAlias := fun a =>
      if txs.any fun tx => aliasUndoneBy tx = some a then none else db.addressIdOfAlias a
    filledVolumeAndFee := fun id =>
      if txs.any fun tx => id ∈ fillsUndoneBy tx then (db.filledVolumeAndFee id).drop currentHeight
      else db.filledVolumeAndFee id
    transactionAt := fun h =>
      if h = currentHeight then (db.transactionAt h).filter fun entry => isGenesis entry.2
      else db.transactionAt h
    transactionHNById := fun id =>
      if txs.any fun tx => !isGenesis tx && tx.id = id then none else db.transactionHNById id
    blockInfoAt := fun h => if h = currentHeight then none else db.blockInfoAt h
    heightOf := fun id =>
      if (db.blockInfoAt currentHeight).any fun info => info.signature = id then none
      else db.heightOf id
    carryFee := fun h => if h = currentHeight then none else db.carryFee h
    blockReward := fun h => if h = currentHeight then none else db.blockReward h
    wavesAmount := fun h => if h = currentHeight then none else db.wavesAmount h
    aliasIsDisabled :=
      if w.activatedFeatures.get? BlockchainFeatures.DataTransaction.id = some currentHeight then ∅
      else db.aliasIsDisabled }

/-- One round of `doRollback`: the keys, and what the caches drop with them. -/
def discardBlock (currentHeight : ℕ) : LevelDBWriter :=
  let db := w.db
  let txs := db.transactionsAtHeight currentHeight
  let addresses := db.changedAddresses currentHeight
  { w with
    db := w.discardKeys currentHeight
    transactionIds := fun id => if txs.any fun tx => tx.id = id then none else w.transactionIds id
    balancesCache := fun a asset =>
      match asset with
      | .Waves => if a ∈ addresses then none else w.balancesCache a .Waves
      | .issued x =>
        if a ∈ addresses ∧ x ∈ db.assetList a then none else w.balancesCache a (.issued x)
    leaseBalanceCache := fun a => if a ∈ addresses then none else w.leaseBalanceCache a
    accountDataCache := fun a key =>
      if a ∈ addresses ∧ key ∈ db.changedDataKeys currentHeight a then none
      else w.accountDataCache a key
    assetDescriptionCache := fun asset =>
      if txs.any fun tx =>
          assetInfoUndoneBy tx = some asset || sponsorshipUndoneBy tx = some asset then none
      else w.assetDescriptionCache asset
    volumeAndFeeCache := fun id =>
      if txs.any fun tx => id ∈ fillsUndoneBy tx then none else w.volumeAndFeeCache id
    scriptCache := fun a =>
      if txs.any fun tx => scriptUndoneBy tx = some a then none else w.scriptCache a
    assetScriptCache := fun asset =>
      if txs.any fun tx => assetScriptUndoneBy tx = some asset then none
      else w.assetScriptCache asset }

/-- Take off `n` blocks, down to a height. -/
def discardBlocks (targetHeight : ℕ) : (n : ℕ) → LevelDBWriter → LevelDBWriter
  | 0, w => w
  | n + 1, w => discardBlocks targetHeight n (w.discardBlock (targetHeight + n + 1))

/-- `doRollback`. -/
def doRollback (targetBlockId : BlockId) : LevelDBWriter :=
  match w.db.heightOf targetBlockId with
  | none => w
  | some targetHeight => discardBlocks targetHeight (w.height - targetHeight) w

/-- `rollbackTo`. -/
def rollbackTo (targetBlockId : BlockId) : Except String LevelDBWriter :=
  match w.heightOf targetBlockId with
  | none =>
    .error s!"No block with signature: {ByteStr.stringRepr targetBlockId} found in blockchain"
  | some height =>
    if height > w.db.safeRollbackHeight then
      let w := w.doRollback targetBlockId
      .ok { w with
        height := w.db.height
        lastBlock := w.db.loadBlock w.db.height
        activatedFeatures :=
          w.db.activatedFeatures ++ w.settings.functionalitySettings.preActivatedFeatures
        approvedFeatures := w.db.approvedFeatures }
    else
      .error s!"Rollback is possible only to the block at a height: {w.db.safeRollbackHeight + 1}"

/-! ## 8. What the caches do by themselves -/

/-- A place of a cache. -/
inductive CacheKey where
  | leaseBalance (a : Address)
  | balance (a : Address) (asset : Asset)
  | assetDescription (asset : IssuedAsset)
  | volumeAndFee (orderId : ByteStr)
  | script (a : Address)
  | assetScript (asset : IssuedAsset)
  | accountData (a : Address) (key : String)
  deriving DecidableEq

section
omit [Crypto] [PBTransactionSerializer]

/-- A read through a cache leaves there what it answers. -/
def load : CacheKey → LevelDBWriter
  | .leaseBalance a =>
    { w with leaseBalanceCache := Function.update w.leaseBalanceCache a (some (w.leaseBalance a)) }
  | .balance a asset =>
    { w with
      balancesCache := Function.update w.balancesCache a
        (Function.update (w.balancesCache a) asset (some (w.balance a asset))) }
  | .assetDescription asset =>
    { w with
      assetDescriptionCache :=
        Function.update w.assetDescriptionCache asset (some (w.assetDescription asset)) }
  | .volumeAndFee id =>
    { w with
      volumeAndFeeCache := Function.update w.volumeAndFeeCache id (some (w.filledVolumeAndFee id)) }
  | .script a =>
    { w with
      scriptCache := Function.update w.scriptCache a (some (w.accountScriptWithComplexity a)) }
  | .assetScript asset =>
    { w with
      assetScriptCache :=
        Function.update w.assetScriptCache asset (some (w.assetScriptWithComplexity asset)) }
  | .accountData a key =>
    { w with
      accountDataCache := Function.update w.accountDataCache a
        (Function.update (w.accountDataCache a) key (some (w.accountDataEntry a key))) }

/-- A cache that is full drops an entry. -/
def evict : CacheKey → LevelDBWriter
  | .leaseBalance a =>
    { w with leaseBalanceCache := Function.update w.leaseBalanceCache a none }
  | .balance a asset =>
    { w with
      balancesCache := Function.update w.balancesCache a
        (Function.update (w.balancesCache a) asset none) }
  | .assetDescription asset =>
    { w with assetDescriptionCache := Function.update w.assetDescriptionCache asset none }
  | .volumeAndFee id =>
    { w with volumeAndFeeCache := Function.update w.volumeAndFeeCache id none }
  | .script a => { w with scriptCache := Function.update w.scriptCache a none }
  | .assetScript asset =>
    { w with assetScriptCache := Function.update w.assetScriptCache asset none }
  | .accountData a key =>
    { w with
      accountDataCache := Function.update w.accountDataCache a
        (Function.update (w.accountDataCache a) key none) }

/-- A start on the keys there are: nothing is in memory yet. -/
def restart : LevelDBWriter :=
  { empty w.settings w.dbSettings with
    db := w.db
    height := w.db.height
    lastBlock := w.db.loadBlock w.db.height
    approvedFeatures := w.db.approvedFeatures
    activatedFeatures :=
      w.db.activatedFeatures ++ w.settings.functionalitySettings.preActivatedFeatures }

end

end LevelDBWriter

/-! ## 9. Runs -/

/-- The blocks that are appended at a height, with the diff and the carry the block differ
computes for them: a key block, then the micro-blocks on top of it, and at last the leases
that expire. Each part is validated on a ledger of the height it has; which one it is does
not matter here. -/
inductive BlockDiffer.Produces [Crypto] [PBTransactionSerializer] [Ride] [BlockSerializer]
    (height : ℕ) : Block → Diff → Long → Prop
  | keyBlock {b : Blockchain} {maybePrevBlock : Option Block} {block : Block}
      {constraint : MiningConstraint} {r : BlockDiffer.Result} :
    b.height + 1 = height →
    BlockDiffer.fromBlock b maybePrevBlock block constraint = .ok r →
    Produces height block r.diff r.carry
  | microBlock {b : Blockchain} {prevBlockTimestamp : Option Long} {block : Block}
      {micro : MicroBlock} {d : Diff} {carry : Long} {constraint : MiningConstraint}
      {r : BlockDiffer.Result} :
    Produces height block d carry →
    b.height = height →
    BlockDiffer.fromMicroBlock b prevBlockTimestamp micro constraint = .ok r →
    Produces height
      (Block.create block (block.transactionData ++ micro.transactionData) micro.totalResBlockSig)
      (d.combine r.diff) (carry + r.carry)
  | expiredLeases {b : Blockchain} {block : Block} {d : Diff} {carry : Long} {ng : NgState} :
    Produces height block d carry →
    ng.leasesToCancel =
      BlockchainUpdaterImpl.cancelLeases b (BlockchainUpdaterImpl.collectLeasesToCancel b height) →
    Produces height block (ng.cancelExpiredLeases d) carry

namespace LevelDBWriter

/-- What happens to a database. -/
inductive Event where
  | append (d : Diff) (carry : Long) (reward : Option Long) (block : Block)
  | rollbackTo (targetBlockId : BlockId)
  | load (key : CacheKey)
  | evict (key : CacheKey)
  | restart

variable [Crypto] [PBTransactionSerializer] [Ride] [BlockSerializer]

/-- The databases an event leads to: one, or none where it is not accepted. -/
def Event.Leads (w : LevelDBWriter) (w' : LevelDBWriter) : Event → Prop
  | .append d carry reward block =>
    BlockDiffer.Produces (w.height + 1) block d carry ∧ w.append d carry reward block = w'
  | .rollbackTo id => w.rollbackTo id = .ok w'
  | .load key => w.load key = w'
  | .evict key => w.evict key = w'
  | .restart => w.restart = w'

/-- The databases that runs lead to whose events all meet a condition on the event and on
the database before it. -/
inductive Reachable (Q : LevelDBWriter → Event → Prop) (settings : BlockchainSettings)
    (dbSettings : DBSettings) : LevelDBWriter → Prop
  | empty : Reachable Q settings dbSettings (.empty settings dbSettings)
  | step {w w' : LevelDBWriter} {e : Event} :
    Reachable Q settings dbSettings w → Q w e → e.Leads w w' → Reachable Q settings dbSettings w'

/-- Runs without a rollback. -/
inductive Grows (Q : LevelDBWriter → Event → Prop) (w : LevelDBWriter) : LevelDBWriter → Prop
  | refl : Grows Q w w
  | step {v v' : LevelDBWriter} {e : Event} :
    Grows Q w v → Q v e → (∀ id, e ≠ .rollbackTo id) → e.Leads v v' → Grows Q w v'

/-- A database grows on as it has grown before. -/
theorem Reachable.grows {Q : LevelDBWriter → Event → Prop} {settings : BlockchainSettings}
    {dbSettings : DBSettings} {w v : LevelDBWriter} (h : Reachable Q settings dbSettings w)
    (hgrows : Grows Q w v) : Reachable Q settings dbSettings v := by
  induction hgrows with
  | refl => exact h
  | step _ hQ _ hleads ih => exact .step ih hQ hleads

/-- A run whose events meet a condition meets every weaker one. -/
theorem Reachable.mono {Q Q' : LevelDBWriter → Event → Prop} (hQ : ∀ w e, Q w e → Q' w e)
    {settings : BlockchainSettings} {dbSettings : DBSettings} {w : LevelDBWriter}
    (h : Reachable Q settings dbSettings w) : Reachable Q' settings dbSettings w := by
  induction h with
  | empty => exact .empty
  | step _ hstep hleads ih => exact .step ih (hQ _ _ hstep) hleads

theorem Grows.mono {Q Q' : LevelDBWriter → Event → Prop} (hQ : ∀ w e, Q w e → Q' w e)
    {w v : LevelDBWriter} (h : Grows Q w v) : Grows Q' w v := by
  induction h with
  | refl => exact .refl
  | step _ hstep hno hleads ih => exact .step ih (hQ _ _ hstep) hno hleads

theorem Grows.trans {Q : LevelDBWriter → Event → Prop} {u v w : LevelDBWriter} (h : Grows Q u v)
    (h' : Grows Q v w) : Grows Q u w := by
  induction h' with
  | refl => exact h
  | step _ hQ hno hleads ih => exact .step ih hQ hno hleads

/-- Blocks that are appended one after another, each validated on the database alone. -/
def appendBlocks (w : LevelDBWriter) (blocks : List Block) : Validation LevelDBWriter :=
  blocks.foldlM
    (fun w block => do
      let r ← BlockDiffer.fromBlock w.blockchain w.lastBlock block .Unlimited
      .ok (w.append r.diff r.carry none block))
    w

/-- The event of a block that is validated on the database alone. -/
def OwnBlock (w : LevelDBWriter) : Event → Prop
  | .append d carry reward block => reward = none ∧
    ∃ r, BlockDiffer.fromBlock w.blockchain w.lastBlock block .Unlimited = .ok r ∧ r.diff = d ∧
      r.carry = carry
  | _ => False

theorem produces_fromBlock {w : LevelDBWriter} {block : Block} {r : BlockDiffer.Result}
    (hr : BlockDiffer.fromBlock w.blockchain w.lastBlock block .Unlimited = .ok r) :
    BlockDiffer.Produces (w.height + 1) block r.diff r.carry :=
  .keyBlock rfl hr

theorem ownBlock_fromBlock {w : LevelDBWriter} {block : Block} {r : BlockDiffer.Result}
    (hr : BlockDiffer.fromBlock w.blockchain w.lastBlock block .Unlimited = .ok r) :
    OwnBlock w (.append r.diff r.carry none block) :=
  ⟨rfl, r, hr, rfl, rfl⟩

/-- One such block, whose event meets a condition. -/
theorem grows_appendBlock {Q : LevelDBWriter → Event → Prop} {w v : LevelDBWriter} {block : Block}
    (h : w.appendBlocks [block] = .ok v)
    (hQ : ∀ r, BlockDiffer.fromBlock w.blockchain w.lastBlock block .Unlimited = .ok r →
      Q w (.append r.diff r.carry none block)) : Grows Q w v := by
  rw [appendBlocks, List.foldlM_cons] at h
  obtain ⟨u, hstep, hu⟩ := Validation.bind_eq_ok.mp h
  obtain ⟨r, hr, hr'⟩ := Validation.bind_eq_ok.mp hstep
  cases hu
  cases hr'
  refine .step .refl (hQ r hr) ?_ ⟨produces_fromBlock hr, rfl⟩
  intro id hid
  cases hid

/-- One such block, as it is. -/
theorem grows_ownBlock {w v : LevelDBWriter} {block : Block}
    (h : w.appendBlocks [block] = .ok v) : Grows OwnBlock w v :=
  grows_appendBlock h fun _ hr => ownBlock_fromBlock hr

end LevelDBWriter

end WavesNode
