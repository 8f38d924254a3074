/-
The overlay of a diff, and possibly of a block, on a ledger.

`CompositeBlockchain inner maybeDiff newBlock carry reward` is the ledger that
validation of the next transaction reads: every query is the inner one corrected by
the diff. Balances are added with a wrapping `+`, leases with the saturating sum,
an asset's script is always the one `assetScript` gives, whatever the inner
description says, and an asset the inner chain lacks is described from the issue
transaction in the diff.

Section 2 states the reading of each query once. Proofs above this file use those
lemmas and never unfold the record.
-/
import WavesNode.Blockchain

set_option autoImplicit false

namespace WavesNode

variable [Crypto] [PBTransactionSerializer]

/-! ## 1. The overlay -/

namespace CompositeBlockchain

/-- `CompositeBlockchain.assetDescription`, the script being given. -/
def assetDescription (inner : Blockchain) (diff : Diff) (asset : IssuedAsset)
    (script : Option Script) : Option AssetDescription :=
  match inner.assetDescription asset with
  | some ad =>
    let ad :=
      match diff.issuedAssets.get? asset with
      | some newAssetInfo =>
        let combination := AssetInfo.combine ⟨ad.reissuable, ad.totalVolume⟩ newAssetInfo
        { ad with
          reissuable := combination.isReissuable
          totalVolume := combination.volume
          script := script }
      | none => { ad with script := script }
    match diff.sponsorship.get? asset with
    | some (.SponsorshipValue sponsorship) => some { ad with sponsorship := sponsorship }
    | _ => some ad
  | none =>
    let sponsorship :=
      match diff.sponsorship.get? asset with
      | some (.SponsorshipValue sp) => sp
      | _ => 0
    match diff.transactions.get? asset.id with
    | some (.issue it, _) =>
      let z : AssetDescription :=
        ⟨it.sender, it.name, it.description, it.decimals, it.reissuable, it.quantity.toInt,
          script, sponsorship⟩
      match diff.issuedAssets.get? asset with
      | some r =>
        some { z with reissuable := r.isReissuable, totalVolume := r.volume, script := script }
      | none => some z
    | _ => none

/-- `CompositeBlockchain.leaseDetails`. The source reads the new lease's state with
a throwing `apply`; every diff that holds a lease transaction holds its state. -/
def leaseDetails (inner : Blockchain) (diff : Diff) (height : ℕ) (leaseId : ByteStr) :
    Option LeaseDetails :=
  match inner.leaseDetails leaseId with
  | some ld => some { ld with isActive := diff.leaseState.getOrElse leaseId ld.isActive }
  | none =>
    match diff.transactions.get? leaseId with
    | some (.lease lt, _) =>
      some ⟨lt.sender, lt.recipient, height, lt.amount,
        diff.leaseState.getOrElse (Transaction.lease lt).id false⟩
    | _ => none

/-- `CompositeBlockchain.resolveAlias`. -/
def resolveAlias (inner : Blockchain) (diff : Diff) (a : Alias) : Validation Address :=
  match inner.resolveAlias a with
  | .ok addr => .ok (diff.aliases.getOrElse a addr)
  | .error (.error (.AliasIsDisabled d)) => .fail (.AliasIsDisabled d)
  | .error (.error _) => .ofOption (.AliasDoesNotExist a) (diff.aliases.get? a)
  | .error (.thrown m) => .throwing m

/-- `CompositeBlockchain.collectActiveLeases`: leases added in the diff are not
filtered. -/
def collectActiveLeases (inner : Blockchain) (maybeDiff : Option Diff) (height from_ to_ : ℕ)
    (filter : LeaseTransaction → Bool) : FiniteMap ByteStr LeaseTransaction :=
  let innerActiveLeases := inner.collectActiveLeases from_ to_ filter
  match maybeDiff with
  | some ng =>
    if to_ = height then
      let cancelled (id : ByteStr) : Bool := ng.leaseState.get? id == some false
      let addedInLiquidBlock := ng.transactions.filterMap fun id entry =>
        match entry.1 with
        | .lease lt => if cancelled id then none else some lt
        | _ => none
      innerActiveLeases.filter (fun _ lt => !cancelled (Transaction.lease lt).id) ++
        addedInLiquidBlock
    else innerActiveLeases
  | none => innerActiveLeases

end CompositeBlockchain

/-- `CompositeBlockchain(inner, maybeDiff, newBlock, carry, reward)`. -/
def CompositeBlockchain (inner : Blockchain) (maybeDiff : Option Diff := none)
    (newBlock : Option Block := none) (carry : Long := 0) (reward : Option Long := none) :
    Blockchain :=
  let diff := maybeDiff.getD Diff.empty
  let height := inner.height + (if newBlock.isSome then 1 else 0)
  let newBlockInfo : Option BlockInfo :=
    newBlock.map fun b => ⟨b.header, b.transactionData.length, b.signature⟩
  let assetScriptWithComplexity (asset : IssuedAsset) :=
    (diff.assetScripts.get? asset).getD (inner.assetScriptWithComplexity asset)
  let balance (a : Address) (asset : Asset) :=
    inner.balance a asset + (diff.portfolios.of a).balanceOf asset
  let leaseBalance (a : Address) := (inner.leaseBalance a).combine (diff.portfolios.of a).lease
  { settings := inner.settings
    height := height
    blockInfo := fun h => if h = height then newBlockInfo.or (inner.blockInfo h) else inner.blockInfo h
    lastBlock := newBlock.or inner.lastBlock
    carryFee := carry
    heightOf := fun id =>
      if newBlock.any fun b => b.uniqueId = id then some height else inner.heightOf id
    approvedFeatures := inner.approvedFeatures
    activatedFeatures := inner.activatedFeatures
    blockReward := fun h => if h = height then reward.or (inner.blockReward h) else inner.blockReward h
    lastBlockReward := reward.or inner.lastBlockReward
    transferById := fun id =>
      match diff.transactions.get? id with
      | some (.transfer tx, _) => some (height, tx)
      | _ => inner.transferById id
    transactionInfo := fun id =>
      ((diff.transactions.get? id).map fun t => (height, t.1)).or (inner.transactionInfo id)
    transactionHeight := fun id =>
      ((diff.transactions.get? id).map fun _ => height).or (inner.transactionHeight id)
    containsTransaction := fun tx =>
      diff.transactions.contains tx.id || inner.containsTransaction tx
    assetDescription := fun asset =>
      CompositeBlockchain.assetDescription inner diff asset
        ((assetScriptWithComplexity asset).map Prod.fst)
    resolveAlias := CompositeBlockchain.resolveAlias inner diff
    leaseDetails := CompositeBlockchain.leaseDetails inner diff height
    filledVolumeAndFee := fun id =>
      ((diff.orderFills.get? id).getD VolumeAndFee.empty).combine (inner.filledVolumeAndFee id)
    accountScriptWithComplexity := fun a =>
      (diff.scripts.get? a).getD (inner.accountScriptWithComplexity a)
    hasScript := fun a =>
      match diff.scripts.get? a with
      | none => inner.hasScript a
      | some s => s.isSome
    assetScriptWithComplexity := assetScriptWithComplexity
    hasAssetScript := fun asset =>
      match diff.assetScripts.get? asset with
      | some s => s.isSome
      | none => inner.hasAssetScript asset
    accountData := fun a =>
      (inner.accountData a).combine ((diff.accountData.get? a).getD AccountDataInfo.empty)
    accountDataEntry := fun a key =>
      (((diff.accountData.get? a).getD AccountDataInfo.empty).data.get? key).or
        (inner.accountDataEntry a key)
    leaseBalance := leaseBalance
    balance := balance
    collectActiveLeases := CompositeBlockchain.collectActiveLeases inner maybeDiff height
    collectLposPortfolios := fun pf =>
      inner.collectLposPortfolios pf ++
        diff.portfolios.filterMap fun a p =>
          if p.lease ≠ LeaseBalance.empty ∨ p.balance ≠ 0 then
            pf a ⟨balance a .Waves, leaseBalance a, ∅⟩
          else none
    invokeScriptResult := fun txId =>
      (diff.scriptResults.get? txId).or (inner.invokeScriptResult txId) }

/-! ## 2. Reading the overlay -/

section
variable (inner : Blockchain) (d : Diff) (newBlock : Option Block) (carry : Long)
  (reward : Option Long)

@[simp] theorem composite_settings (md : Option Diff) :
    (CompositeBlockchain inner md newBlock carry reward).settings = inner.settings := rfl

@[simp] theorem composite_activatedFeatures (md : Option Diff) :
    (CompositeBlockchain inner md newBlock carry reward).activatedFeatures =
      inner.activatedFeatures := rfl

@[simp] theorem composite_height (md : Option Diff) :
    (CompositeBlockchain inner md newBlock carry reward).height =
      inner.height + (if newBlock.isSome then 1 else 0) := rfl

@[simp] theorem composite_balance (a : Address) (asset : Asset) :
    (CompositeBlockchain inner (some d) newBlock carry reward).balance a asset =
      inner.balance a asset + (d.portfolios.of a).balanceOf asset := rfl

@[simp] theorem composite_leaseBalance (a : Address) :
    (CompositeBlockchain inner (some d) newBlock carry reward).leaseBalance a =
      (inner.leaseBalance a).combine (d.portfolios.of a).lease := rfl

@[simp] theorem composite_hasAssetScript (asset : IssuedAsset) :
    (CompositeBlockchain inner (some d) newBlock carry reward).hasAssetScript asset =
      ((d.assetScripts.get? asset).map Option.isSome).getD (inner.hasAssetScript asset) := by
  change (match d.assetScripts.get? asset with
    | some s => s.isSome | none => inner.hasAssetScript asset) = _
  cases d.assetScripts.get? asset <;> rfl

theorem composite_hasScript (a : Address) :
    (CompositeBlockchain inner (some d) newBlock carry reward).hasScript a =
      ((d.scripts.get? a).map Option.isSome).getD (inner.hasScript a) := by
  change (match d.scripts.get? a with
    | none => inner.hasScript a | some s => s.isSome) = _
  cases d.scripts.get? a <;> rfl

@[simp] theorem composite_assetScriptWithComplexity (asset : IssuedAsset) :
    (CompositeBlockchain inner (some d) newBlock carry reward).assetScriptWithComplexity asset =
      (d.assetScripts.get? asset).getD (inner.assetScriptWithComplexity asset) := rfl

@[simp] theorem composite_containsTransaction (tx : Transaction) :
    (CompositeBlockchain inner (some d) newBlock carry reward).containsTransaction tx =
      (d.transactions.contains tx.id || inner.containsTransaction tx) := rfl

theorem composite_transactionInfo (id : ByteStr) :
    (CompositeBlockchain inner (some d) newBlock carry reward).transactionInfo id =
      ((d.transactions.get? id).map fun t =>
        ((CompositeBlockchain inner (some d) newBlock carry reward).height, t.1)).or
          (inner.transactionInfo id) := rfl

/-- What an overlay leaves of the description of an asset below it: the changes of its
volume are added, and its reissuability is kept as long as none of them ends it. -/
theorem composite_assetDescription_of_some {asset : IssuedAsset} {desc : AssetDescription}
    (h : inner.assetDescription asset = some desc) :
    ∃ desc', (CompositeBlockchain inner (some d) newBlock carry reward).assetDescription asset =
        some desc' ∧
      desc'.reissuable =
        (desc.reissuable && ((d.issuedAssets.get? asset).getD ⟨true, 0⟩).isReissuable) ∧
      desc'.totalVolume =
        desc.totalVolume + ((d.issuedAssets.get? asset).getD ⟨true, 0⟩).volume := by
  change ∃ desc', CompositeBlockchain.assetDescription inner d asset _ = some desc' ∧ _
  unfold CompositeBlockchain.assetDescription
  rw [h]
  dsimp only
  cases hinfo : d.issuedAssets.get? asset with
  | none =>
    rw [Option.getD_none, Bool.and_true, add_zero]
    split
    · exact ⟨_, rfl, rfl, rfl⟩
    · exact ⟨_, rfl, rfl, rfl⟩
  | some info =>
    rw [Option.getD_some]
    split
    · exact ⟨_, rfl, rfl, rfl⟩
    · exact ⟨_, rfl, rfl, rfl⟩

omit [Crypto] [PBTransactionSerializer] in
/-- The script of a description is the one the overlay gives. -/
theorem script_assetDescription {asset : IssuedAsset} {script : Option Script}
    {desc : AssetDescription}
    (h : CompositeBlockchain.assetDescription inner d asset script = some desc) :
    desc.script = script := by
  unfold CompositeBlockchain.assetDescription at h
  cases hinner : inner.assetDescription asset with
  | some ad =>
    rw [hinner] at h
    dsimp only at h
    cases hinfo : d.issuedAssets.get? asset <;> rw [hinfo] at h <;> dsimp only at h <;>
      split at h <;> cases h <;> rfl
  | none =>
    rw [hinner] at h
    dsimp only at h
    split at h
    · split at h <;> cases h <;> rfl
    · cases h

/-- An overlay of nothing changes nothing on an overlay but the carry. -/
theorem composite_empty (carry' : Long) :
    CompositeBlockchain (CompositeBlockchain inner (some d) none carry reward) (some Diff.empty)
      none carry' = CompositeBlockchain inner (some d) none carry' reward := by
  ext : 1
  case resolveAlias =>
    funext a
    change (match CompositeBlockchain.resolveAlias inner d a with
      | .ok addr => .ok (Diff.empty.aliases.getOrElse a addr)
      | .error (.error (.AliasIsDisabled x)) => .fail (.AliasIsDisabled x)
      | .error (.error _) => .ofOption (.AliasDoesNotExist a) (Diff.empty.aliases.get? a)
      | .error (.thrown m) => .throwing m : Validation Address) =
        CompositeBlockchain.resolveAlias inner d a
    unfold CompositeBlockchain.resolveAlias
    rcases inner.resolveAlias a with (e | m) | addr
    · cases e <;> first | rfl | (cases d.aliases.get? a <;> rfl)
    · rfl
    · rfl
  case assetDescription =>
    funext asset
    change CompositeBlockchain.assetDescription _ Diff.empty asset _ = _
    unfold CompositeBlockchain.assetDescription
    cases hdesc : (CompositeBlockchain inner (some d) none carry reward).assetDescription asset with
    | none => exact hdesc.symm
    | some desc =>
      have hscript := script_assetDescription inner d hdesc
      exact (congrArg (fun s => some { desc with script := s }) hscript.symm).trans hdesc.symm
  case leaseDetails =>
    funext id
    change CompositeBlockchain.leaseDetails _ Diff.empty inner.height id = _
    unfold CompositeBlockchain.leaseDetails
    cases hlease : (CompositeBlockchain inner (some d) none carry reward).leaseDetails id with
    | none => exact hlease.symm
    | some lease => exact hlease.symm
  case balance =>
    funext a x
    change inner.balance a x + (d.portfolios.of a).balanceOf x + Portfolio.empty.balanceOf x = _
    cases x <;> exact Int64.add_zero _
  case leaseBalance => exact funext fun a => LeaseBalance.combine_empty _
  case filledVolumeAndFee => exact funext fun id => VolumeAndFee.empty_combine _
  case collectActiveLeases =>
    funext from_ to_ filter
    change CompositeBlockchain.collectActiveLeases _ (some Diff.empty) inner.height from_ to_
      filter = _
    unfold CompositeBlockchain.collectActiveLeases
    by_cases hto : to_ = inner.height
    · dsimp only
      rw [if_pos hto]
      ext id : 1
      rw [FiniteMap.get?_append, FiniteMap.get?_filter]
      rw [Diff.empty, FiniteMap.get?_filterMap, FiniteMap.get?_empty, Option.bind_none,
        Option.none_or]
      have hall : ∀ o : Option LeaseTransaction, o.filter (fun _ => true) = o := by
        rintro (_ | lt) <;> rfl
      exact hall _
    · dsimp only
      rw [if_neg hto]
      rfl
  case collectLposPortfolios => exact funext fun pf => FiniteMap.append_empty _
  case blockInfo => exact funext fun h => ite_self _
  case blockReward => exact funext fun h => ite_self _
  case accountData => exact funext fun a => AccountDataInfo.combine_empty _
  all_goals rfl

end

end WavesNode
