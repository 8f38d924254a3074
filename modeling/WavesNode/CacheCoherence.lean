/-
The caches say what the keys say.

Every reader of the database has a loader behind it, which looks at the keys alone. There
are three ways in which a cache follows them. A value that a block writes is cached as it
is written (`Kept.WritesThrough`): balances, leases, data, fills and scripts. The last block
and the score are made anew by a rollback. And a description, which is put together from
several keys, is dropped when its volume or its sponsorship changes, but not when only its
script does; that is the first part of the condition. The others are about what the keys
themselves give back: a block that is stored with all of its transactions, a script that is
taken away where none is left over from an issue that was taken off, and transactions that
are not so far ahead of the blocks that the memory forgets them.
-/
import WavesNode.DuplicateIds

set_option autoImplicit false

/-! ## 1. What is written is read -/

namespace History

/-- A value is read back, and so is that there is none, where nothing is left over. -/
theorem latest_push_of_value {υ : Type} {s : History υ} {threshold height : ℕ} {v : Option υ}
    (ht : threshold < height) (hv : v = none → s.value height = none) :
    (s.push height threshold v).latest = v := by
  rcases v with _ | v
  · rw [latest, push, List.cons_append, List.head?_cons, Option.bind_some]
    dsimp only
    rw [if_pos rfl, hv rfl, Option.none_or, ite_self]
  · exact latest_push_some ht

end History

namespace WavesNode

namespace LevelDBWriter

variable [Crypto] [PBTransactionSerializer]

/-- What is read again is there: blocks may be taken off, and then the last height is above
the threshold; or none may, and then no height is left over. -/
def Readable {υ : Type} (w : LevelDBWriter) (s : History υ) : Prop :=
  0 < w.dbSettings.maxRollbackDepth ∨
    w.height ≤ w.db.safeRollbackHeight ∧ s.UpTo w.height

section
omit [Crypto] [PBTransactionSerializer]

theorem Readable.latest_push {υ : Type} {w : LevelDBWriter} {s : History υ} {v : Option υ}
    {threshold : ℕ} (h : Readable w s)
    (hthreshold : threshold ≤ w.height + 1 - w.dbSettings.maxRollbackDepth)
    (hv : v = none → s.value (w.height + 1) = none) :
    (s.push (w.height + 1) threshold v).latest = v := by
  rcases h with hdepth | ⟨-, hupTo⟩
  · exact History.latest_push_of_value (by omega) hv
  · exact History.latest_push hupTo (Nat.lt_succ_self _)

end

/-- What the operations of the database do to a value that is cached as it is written. Which
of the appended values a rollback finds does not matter here. -/
structure Kept.WritesThrough [Ride] [BlockSerializer] {υ β : Type} (K : Kept υ β)
    (Q : LevelDBWriter → Event → Prop) : Prop where
  history_empty : K.history Keys.empty = .empty
  cache_empty : ∀ (settings : BlockchainSettings) (dbSettings : DBSettings),
    K.cache (.empty settings dbSettings) = none
  append : ∀ (w : LevelDBWriter) (d : Diff) (carry : Long) (reward : Option Long) (block : Block),
    Q w (.append d carry reward block) →
    (K.history (w.doAppend d carry reward block) = K.history w.db ∧
      K.cache (w.append d carry reward block) = K.cache w) ∨
    ∃ v threshold, threshold ≤ w.height + 1 - w.dbSettings.maxRollbackDepth ∧
      (v = none → (K.history w.db).value (w.height + 1) = none) ∧
      K.history (w.doAppend d carry reward block) =
        (K.history w.db).push (w.height + 1) threshold v ∧
      K.cache (w.append d carry reward block) = some (K.read v)
  discard : ∀ (w : LevelDBWriter) (n : ℕ), K.cache (w.discardBlock n) = none ∨
    (K.history (w.discardKeys n) = K.history w.db ∧
      K.cache (w.discardBlock n) = K.cache w)
  load : ∀ (w : LevelDBWriter) (key : CacheKey),
    K.cache (w.load key) = K.cache w ∨ K.cache (w.load key) = some (K.answer w)
  evict : ∀ (w : LevelDBWriter) (key : CacheKey),
    K.cache (w.evict key) = K.cache w ∨ K.cache (w.evict key) = none
  restart : ∀ w : LevelDBWriter, K.cache w.restart = none
  aside : ∀ (w : LevelDBWriter) (height : ℕ) (lastBlock : Option Block)
    (activatedFeatures approvedFeatures : FiniteMap Short ℕ),
    K.cache
      { w with
        height := height
        lastBlock := lastBlock
        activatedFeatures := activatedFeatures
        approvedFeatures := approvedFeatures } = K.cache w

/-- The cache holds the value or nothing, and what is written next is read. -/
structure Kept.Cached {υ β : Type} (K : Kept υ β) (w : LevelDBWriter) : Prop where
  coherent : ∀ v, K.cache w = some v → v = K.read (K.history w.db).latest
  readable : Readable w (K.history w.db)

namespace Kept

variable [Ride] [BlockSerializer] {υ β : Type} {K : Kept υ β}
  {Q : LevelDBWriter → Event → Prop} {w : LevelDBWriter}

omit [Crypto] [PBTransactionSerializer] [Ride] [BlockSerializer] in
theorem Cached.answer_eq (h : K.Cached w) : K.answer w = K.read (K.history w.db).latest := by
  rw [answer]
  rcases hc : K.cache w with _ | v
  · rfl
  · exact h.coherent v hc

/-- **A block** writes the value through the cache, or leaves both. -/
theorem Cached.append {d : Diff} {carry : Long} {reward : Option Long} {block : Block}
    (hK : K.WritesThrough Q) (h : K.Cached w) (hQ : Q w (.append d carry reward block)) :
    K.Cached (w.append d carry reward block) := by
  have hsafe : w.dbSettings.maxRollbackDepth = 0 →
      w.height + 1 ≤ (w.append d carry reward block).db.safeRollbackHeight := by
    intro hdepth
    change w.height + 1 ≤ max w.db.safeRollbackHeight (w.height + 1 - w.dbSettings.maxRollbackDepth)
    omega
  rcases hK.append w d carry reward block hQ with
    ⟨hhistory, hcache⟩ | ⟨v, threshold, hthreshold, hnone, hhistory, hcache⟩
  · refine ⟨?_, ?_⟩
    · intro x hx
      change x = K.read (K.history (w.doAppend d carry reward block)).latest
      rw [hhistory]
      exact h.coherent x (hcache ▸ hx)
    · by_cases hdepth : 0 < w.dbSettings.maxRollbackDepth
      · exact .inl hdepth
      · obtain ⟨-, hupTo⟩ := h.readable.resolve_left hdepth
        refine .inr ⟨hsafe (by omega), ?_⟩
        change (K.history (w.doAppend d carry reward block)).UpTo (w.height + 1)
        rw [hhistory]
        exact hupTo.mono (Nat.le_succ _)
  · refine ⟨?_, ?_⟩
    · intro x hx
      change x = K.read (K.history (w.doAppend d carry reward block)).latest
      rw [hhistory, h.readable.latest_push hthreshold hnone]
      rw [hcache] at hx
      exact (Option.some.inj hx).symm
    · by_cases hdepth : 0 < w.dbSettings.maxRollbackDepth
      · exact .inl hdepth
      · obtain ⟨-, hupTo⟩ := h.readable.resolve_left hdepth
        refine .inr ⟨hsafe (by omega), ?_⟩
        change (K.history (w.doAppend d carry reward block)).UpTo (w.height + 1)
        rw [hhistory]
        exact hupTo.push (Nat.lt_succ_self _)

/-- The rounds of a rollback drop the value from the cache, or leave it where it was. -/
theorem coherent_discardBlocks (hK : K.WritesThrough Q) {targetHeight : ℕ} :
    ∀ {w : LevelDBWriter} (n : ℕ), (∀ v, K.cache w = some v → v = K.read (K.history w.db).latest) →
      ∀ v, K.cache (discardBlocks targetHeight n w) = some v →
        v = K.read (K.history (discardBlocks targetHeight n w).db).latest
  | _, 0, h => h
  | w, n + 1, h => by
    rw [LevelDBWriter.discardBlocks]
    refine coherent_discardBlocks hK n ?_
    intro v hv
    change v = K.read (K.history (w.discardKeys (targetHeight + n + 1))).latest
    rcases hK.discard w (targetHeight + n + 1) with hnone | ⟨hhistory, hcache⟩
    · rw [hnone] at hv
      cases hv
    · rw [hhistory]
      exact h v (hcache ▸ hv)

theorem Cached.rollbackTo {v : LevelDBWriter} {id : BlockId} (hK : K.WritesThrough Q)
    (hw : Sound w) (h : K.Cached w) (hv : w.rollbackTo id = .ok v) : K.Cached v := by
  have hcoherent : ∀ x, K.cache (w.doRollback id) = some x →
      x = K.read (K.history (w.doRollback id).db).latest := by
    rw [LevelDBWriter.doRollback]
    rcases w.db.heightOf id with _ | targetHeight
    · exact h.coherent
    · exact coherent_discardBlocks hK _ h.coherent
  rw [rollbackTo_eq_ok hv]
  refine ⟨?_, ?_⟩
  · intro x hx
    rw [hK.aside] at hx
    exact hcoherent x hx
  · rcases h.readable with hdepth | ⟨hsafe, hupTo⟩
    · left
      change 0 < (w.doRollback id).dbSettings.maxRollbackDepth
      rwa [dbSettings_doRollback]
    · right
      change (w.doRollback id).db.height ≤ (w.doRollback id).db.safeRollbackHeight ∧
        (K.history (w.doRollback id).db).UpTo (w.doRollback id).db.height
      rw [doRollback_eq_self hsafe hv, hw.height]
      exact ⟨hsafe, hupTo⟩

/-- **One event.** -/
theorem Cached.leads {v : LevelDBWriter} {e : Event} (hK : K.WritesThrough Q) (hw : Sound w)
    (h : K.Cached w) (hQ : Q w e) (hleads : e.Leads w v) : K.Cached v := by
  cases e with
  | append d carry reward block =>
    obtain ⟨-, rfl⟩ := hleads
    exact h.append hK hQ
  | rollbackTo id => exact h.rollbackTo hK hw hleads
  | load key =>
    cases hleads
    refine ⟨?_, ?_⟩
    · intro x hx
      rw [db_load]
      rcases hK.load w key with hsame | hnew
      · exact h.coherent x (hsame ▸ hx)
      · rw [hnew, h.answer_eq] at hx
        exact (Option.some.inj hx).symm
    · cases key <;> exact h.readable
  | evict key =>
    cases hleads
    refine ⟨?_, ?_⟩
    · intro x hx
      rw [db_evict]
      rcases hK.evict w key with hsame | hnone
      · exact h.coherent x (hsame ▸ hx)
      · rw [hnone] at hx
        cases hx
    · cases key <;> exact h.readable
  | restart =>
    cases hleads
    refine ⟨?_, ?_⟩
    · intro x hx
      rw [hK.restart] at hx
      cases hx
    · have hreadable := h.readable
      unfold Readable at hreadable ⊢
      rw [← hw.height] at hreadable
      exact hreadable

/-- **In every run** the value is cached as it is. -/
theorem cached_reachable (hK : K.WritesThrough Q) {settings : BlockchainSettings}
    {dbSettings : DBSettings} (h : Reachable Q settings dbSettings w) : K.Cached w := by
  induction h with
  | empty =>
    refine ⟨?_, .inr ⟨Nat.le_refl 0, ?_⟩⟩
    · intro v hv
      rw [hK.cache_empty] at hv
      cases hv
    · change (K.history Keys.empty).UpTo 0
      rw [hK.history_empty]
      exact History.upTo_empty 0
  | step hrun hQ hleads ih => exact ih.leads hK hrun.sound hQ hleads

end Kept

/-! ## 2. The condition -/

section
omit [Crypto] [PBTransactionSerializer]

/-- A transaction of the blocks that a rollback takes off undoes the script of an asset at a
height. -/
def assetScriptUndoneAt (db : Keys) (targetHeight : ℕ) (asset : IssuedAsset) (h : ℕ) : Bool :=
  targetHeight < h && h ≤ db.height &&
    (db.transactionsAtHeight h).any fun tx => assetScriptUndoneBy tx = some asset

/-- The script of an asset that a rollback leaves: the last one that is not undone. -/
def scriptLeft (db : Keys) (targetHeight : ℕ) (asset : IssuedAsset) : Option (Script × Long) :=
  ((db.assetScript asset).heights.find? fun h =>
    !assetScriptUndoneAt db targetHeight asset h).bind (db.assetScript asset).value

end

/-- **The condition.** Of an appended block: no two of its transactions have one id, and none
but an Issue has the id of an issued asset; where it takes the script of an asset away, none
is left over at its height; where only the script of an asset changes, no other script of it
is in the cache; and no transaction is more than two hours ahead of it. Of a rollback: where
only the script of an asset is undone, no other script than the one left is in the cache. -/
def CachesFollowed (w : LevelDBWriter) : Event → Prop
  | .append d _ _ block =>
    (block.transactionData.map Transaction.id).Nodup ∧
      (∀ tx ∈ block.transactionData, (∃ h, IssuedAt w.db ⟨tx.id⟩ h) →
        issuedBy tx = some ⟨tx.id⟩) ∧
      (∀ asset, d.assetScripts.get? asset = some none →
        (w.db.assetScript asset).value (w.height + 1) = none) ∧
      (∀ asset ∈ d.assetScripts.dom, asset ∉ d.issuedAssets.dom → asset ∉ d.sponsorship.dom →
        CachedScript w asset ((d.assetScripts.get? asset).getD none)) ∧
      ∀ tx, HasTransaction w.db block tx → tx.timestamp - TwoHours ≤ block.header.timestamp
  | .rollbackTo id => ∀ targetHeight, w.db.heightOf id = some targetHeight → ∀ asset,
    UndoneAbove w.db targetHeight (fun tx => assetScriptUndoneBy tx = some asset) →
    UndoneAbove w.db targetHeight (fun tx =>
      assetInfoUndoneBy tx = some asset ∨ sponsorshipUndoneBy tx = some asset) ∨
    CachedScript w asset (scriptLeft w.db targetHeight asset)
  | _ => True

/-- Different ids are distinct. -/
theorem idsDistinct_of_nodup {txs : List Transaction} (h : (txs.map Transaction.id).Nodup) :
    IdsDistinct txs := by
  rw [IdsDistinct]
  exact (List.pairwise_map.mp h).imp fun hne heq => absurd heq hne

/-! ## 3. Values that are written through -/

section

variable [Ride] [BlockSerializer] {Q : LevelDBWriter → Event → Prop}

/-- A value that is written where there is one: what else happens to it is known from its
index. -/
theorem Kept.Lawful.writesThrough {υ β : Type} {K : Kept υ β}
    {Q' : LevelDBWriter → Event → Prop} (hK : K.Lawful Q')
    (written : LevelDBWriter → Diff → Option υ)
    (happend : ∀ (w : LevelDBWriter) (d : Diff) (carry : Long) (reward : Option Long)
      (block : Block), ∃ threshold, threshold ≤ w.height + 1 - w.dbSettings.maxRollbackDepth ∧
        K.history (w.doAppend d carry reward block) =
          (K.history w.db).pushSome (w.height + 1) threshold (written w d) ∧
        K.cache (w.append d carry reward block) =
          ((written w d).map fun v => K.read (some v)).or (K.cache w)) :
    K.WritesThrough Q where
  history_empty := hK.history_empty
  cache_empty := hK.cache_empty
  append w d carry reward block _ := by
    obtain ⟨threshold, hthreshold, hhistory, hcache⟩ := happend w d carry reward block
    rcases hv : written w d with _ | v
    · rw [hv] at hhistory hcache
      exact .inl ⟨hhistory, hcache⟩
    · rw [hv] at hhistory hcache
      refine .inr ⟨some v, threshold, hthreshold, ?_, hhistory, hcache⟩
      intro hnone
      cases hnone
  discard w n := by
    rcases hK.discard w n with ⟨-, hnone⟩ | ⟨-, hhistory, hnone | hcache⟩
    · exact .inl hnone
    · exact .inl hnone
    · exact .inr ⟨hhistory, hcache⟩
  load := hK.load
  evict := hK.evict
  restart := hK.restart
  aside := hK.aside

theorem writesThrough_keptBalance (a : Address) (asset : Asset) :
    (keptBalance a asset).WritesThrough Q := by
  refine (lawful_keptBalance a asset).writesThrough (fun w d => w.updatedBalance d a asset) ?_
  intro w d carry reward block
  cases asset with
  | Waves =>
    refine ⟨w.height + 1 - (w.dbSettings.maxRollbackDepth + 1000), by omega, rfl, ?_⟩
    change (w.updatedBalance d a .Waves).or (w.balancesCache a .Waves) = _
    rcases w.updatedBalance d a .Waves with _ | v <;> rfl
  | issued x =>
    refine ⟨w.height + 1 - w.dbSettings.maxRollbackDepth, Nat.le_refl _, rfl, ?_⟩
    change (w.updatedBalance d a (.issued x)).or (w.balancesCache a (.issued x)) = _
    rcases w.updatedBalance d a (.issued x) with _ | v <;> rfl

theorem writesThrough_keptLeaseBalance (a : Address) :
    (keptLeaseBalance a).WritesThrough Q := by
  refine (lawful_keptLeaseBalance a).writesThrough (fun w d => w.updatedLeaseBalance d a) ?_
  intro w d carry reward block
  refine ⟨w.height + 1 - (w.dbSettings.maxRollbackDepth + 1000), by omega, rfl, ?_⟩
  change (w.updatedLeaseBalance d a).or (w.leaseBalanceCache a) = _
  rcases w.updatedLeaseBalance d a with _ | v <;> rfl

theorem writesThrough_keptAccountData (a : Address) (key : String) :
    (keptAccountData a key).WritesThrough Q := by
  refine (lawful_keptAccountData a key).writesThrough
    (fun _ d => ((d.accountData.get? a).getD AccountDataInfo.empty).data.get? key) ?_
  intro w d carry reward block
  exact ⟨w.height + 1 - w.dbSettings.maxRollbackDepth, Nat.le_refl _, rfl, rfl⟩

theorem writesThrough_keptFill (orderId : ByteStr) : (keptFill orderId).WritesThrough Q := by
  refine (lawful_keptFill orderId).writesThrough (fun w d => w.newFill d orderId) ?_
  intro w d carry reward block
  refine ⟨w.height + 1 - w.dbSettings.maxRollbackDepth, Nat.le_refl _, rfl, ?_⟩
  change (w.newFill d orderId).or (w.volumeAndFeeCache orderId) = _
  rcases w.newFill d orderId with _ | v <;> rfl

end

section
omit [Crypto] [PBTransactionSerializer]

def keptAssetScript (asset : IssuedAsset) : Kept (Script × Long) (Option (Script × Long)) where
  history db := db.assetScript asset
  undone db h := ∃ tx ∈ db.transactionsAtHeight h, assetScriptUndoneBy tx = some asset
  cache w := w.assetScriptCache asset
  read v := v

end

/-- The script of an asset may be taken away too, and then nothing may be left over. -/
theorem writesThrough_keptAssetScript [Ride] [BlockSerializer] (asset : IssuedAsset) :
    (keptAssetScript asset).WritesThrough CachesFollowed where
  history_empty := rfl
  cache_empty _ _ := rfl
  append w d carry reward block hQ := by
    have hhistory := assetScript_doAppend w d carry reward block asset
    rcases hscript : d.assetScripts.get? asset with _ | script
    · rw [hscript] at hhistory
      refine .inl ⟨hhistory, ?_⟩
      change (d.assetScripts.get? asset).or (w.assetScriptCache asset) = w.assetScriptCache asset
      rw [hscript, Option.none_or]
    · rw [hscript] at hhistory
      refine .inr ⟨script, _, Nat.le_refl _, ?_, hhistory, ?_⟩
      · intro hnone
        exact hQ.2.2.1 asset (hnone ▸ hscript)
      · change (d.assetScripts.get? asset).or (w.assetScriptCache asset) = some script
        rw [hscript, Option.some_or]
  discard w n := by
    by_cases hany : (w.db.transactionsAtHeight n).any fun tx => assetScriptUndoneBy tx = some asset
    · exact .inl (if_pos hany)
    · exact .inr ⟨if_neg hany, if_neg hany⟩
  load w place := by
    cases place with
    | assetScript asset' =>
      by_cases hkey : asset = asset'
      · subst hkey
        exact .inr (Function.update_self ..)
      · exact .inl (Function.update_of_ne hkey ..)
    | _ => exact .inl rfl
  evict w place := by
    cases place with
    | assetScript asset' =>
      by_cases hkey : asset = asset'
      · subst hkey
        exact .inr (Function.update_self ..)
      · exact .inl (Function.update_of_ne hkey ..)
    | _ => exact .inl rfl
  restart _ := rfl
  aside _ _ _ _ _ := rfl

end LevelDBWriter

/-! ## 4. Scripts of accounts

A script may be taken away, so that something left over would show. Nothing is: a rollback
finds every script that a block set. -/

section

variable [Crypto] [PBTransactionSerializer]

open LevelDBWriter in
/-- The accounts whose scripts a diff changes have a SetScript transaction. -/
def Diff.SetsScripts (d : Diff) (txs : List Transaction) : Prop :=
  ∀ a ∈ d.scripts.dom, ∃ tx ∈ txs, scriptUndoneBy tx = some a

omit [PBTransactionSerializer] in
theorem Diff.setsScripts_of_empty {d : Diff} {txs : List Transaction} (h : d.scripts = ∅) :
    d.SetsScripts txs := by
  intro a ha
  rw [h, FiniteMap.dom_empty] at ha
  exact absurd ha (Finset.notMem_empty a)

namespace TransactionDiffer

variable [Ride]

theorem setsScripts_withEstimate {blockTime : Long} {b : Blockchain} {tx : Transaction} {d : Diff}
    (h : unverifiedWithEstimate blockTime b tx = .ok d) : d.SetsScripts [tx] := by
  rcases tx with t | t | t | t | t | t | t | t | t | t | t | t | t | t | t | t
  case setScript =>
    obtain ⟨script, -, rfl⟩ := SetScriptTransactionDiff_eq_ok h
    intro a ha
    refine ⟨_, List.mem_singleton_self _, ?_⟩
    change a ∈ (FiniteMap.single t.sender.toAddress script).dom at ha
    rw [FiniteMap.dom_single, Finset.mem_singleton] at ha
    exact congrArg some ha.symm
  case issue =>
    obtain ⟨script, -, rfl⟩ := AssetTransactionsDiff.issue_eq_ok h
    exact Diff.setsScripts_of_empty rfl
  case transfer =>
    obtain ⟨recipient, fee, -, -, -, rfl⟩ := TransferTransactionDiff.apply_eq_ok h
    exact Diff.setsScripts_of_empty rfl
  case massTransfer =>
    obtain ⟨list, -, rfl⟩ := MassTransferTransactionDiff.apply_eq_ok h
    exact Diff.setsScripts_of_empty rfl
  case reissue =>
    obtain ⟨d', hd', rfl⟩ := AssetTransactionsDiff.reissue_eq_ok h
    obtain ⟨-, -, rfl⟩ := DiffsCommon.processReissue_eq_ok hd'
    exact Diff.setsScripts_of_empty rfl
  case burn =>
    obtain ⟨d', hd', rfl⟩ := AssetTransactionsDiff.burn_eq_ok h
    obtain ⟨-, rfl⟩ := DiffsCommon.processBurn_eq_ok.mp hd'
    exact Diff.setsScripts_of_empty rfl
  case lease =>
    obtain ⟨recipient, -, -, -, rfl⟩ := LeaseTransactionsDiff.lease_eq_ok h
    exact Diff.setsScripts_of_empty rfl
  case leaseCancel =>
    obtain ⟨lease, recipient, -, -, -, -, rfl⟩ := LeaseTransactionsDiff.leaseCancel_eq_ok h
    exact Diff.setsScripts_of_empty rfl
  case createAlias =>
    obtain ⟨-, rfl⟩ := CreateAliasTransactionDiff_eq_ok h
    exact Diff.setsScripts_of_empty rfl
  case data =>
    cases h
    exact Diff.setsScripts_of_empty rfl
  case setAssetScript =>
    obtain ⟨-, script, runs, -, rfl⟩ := AssetTransactionsDiff.setAssetScript_eq_ok h
    exact Diff.setsScripts_of_empty rfl
  case sponsorFee =>
    obtain ⟨-, rfl⟩ := AssetTransactionsDiff.sponsor_eq_ok h
    exact Diff.setsScripts_of_empty rfl
  all_goals cases h

theorem setsScripts {prevBlockTimestamp : Option Long} {timestamp : Long} {verify : Bool}
    {b : Blockchain} {tx : Transaction} {d : Diff}
    (h : TransactionDiffer.apply prevBlockTimestamp timestamp verify b tx = .ok d) :
    d.SetsScripts [tx] := by
  have hunverified : unverified timestamp b tx = .ok d := by
    unfold TransactionDiffer.apply at h
    split at h
    · exact (TransactionDiffer.verified_eq_ok.mp h).diff
    · exact h
  have hestimate {tx : Transaction}
      (h : (do
        let d ← unverifiedWithEstimate timestamp b tx
        .ok ((complexityDiff b tx).combine d) : Validation Diff) = .ok d) : d.SetsScripts [tx] := by
    obtain ⟨d', hd', h⟩ := Validation.bind_eq_ok.mp h
    cases h
    intro a ha
    change a ∈ (∅ ++ d'.scripts).dom at ha
    rw [FiniteMap.empty_append] at ha
    exact setsScripts_withEstimate hd' a ha
  rcases tx with t | t | t | t | t | t | t | t | t | t | t | t | t | t | t | t
  case genesis =>
    obtain ⟨-, rfl⟩ := GenesisTransactionDiff_eq_ok hunverified
    exact Diff.setsScripts_of_empty rfl
  case payment =>
    obtain ⟨-, rfl⟩ := PaymentTransactionDiff_eq_ok hunverified
    exact Diff.setsScripts_of_empty rfl
  case exchange =>
    obtain ⟨-, _, _, _, _, _, _, -, -, -, -, rfl⟩ := ExchangeTransactionDiff.apply_eq_ok hunverified
    exact Diff.setsScripts_of_empty rfl
  case invokeScript =>
    obtain ⟨dAppAddress, actions, wavesFee, feePart, compositeDiff, happlied⟩ :=
      InvokeScriptTransactionDiff.apply_eq_ok hunverified
    obtain ⟨addresses, -, hcall⟩ := happlied.ofCall
    exact Diff.setsScripts_of_empty hcall.scripts
  all_goals exact hestimate hunverified

end TransactionDiffer

theorem BlockDiffer.Produces.setsScripts [Ride] [BlockSerializer] {height : ℕ} {block : Block}
    {d : Diff} {carry : Long} (h : BlockDiffer.Produces height block d carry) :
    d.SetsScripts block.transactionData := by
  refine h.combined (P := Diff.SetsScripts) ?_ TransactionDiffer.setsScripts ?_
  · rintro d ⟨ps, states, rfl⟩
    exact Diff.setsScripts_of_empty rfl
  · intro d d' txs txs' hd hd' a ha
    change a ∈ (d.scripts ++ d'.scripts).dom at ha
    rw [FiniteMap.dom_append, Finset.mem_union] at ha
    rcases ha with ha | ha
    · obtain ⟨tx, htx, hset⟩ := hd a ha
      exact ⟨tx, List.mem_append_left _ htx, hset⟩
    · obtain ⟨tx, htx, hset⟩ := hd' a ha
      exact ⟨tx, List.mem_append_right _ htx, hset⟩

namespace LevelDBWriter

omit [PBTransactionSerializer] in
def keptScript (a : Address) : Kept (Script × Long) (Option (Script × Long)) where
  history db := db.addressScript a
  undone db h := ∃ tx ∈ db.transactionsAtHeight h, scriptUndoneBy tx = some a
  cache w := w.scriptCache a
  read v := v

theorem lawful_keptScript [Ride] [BlockSerializer] (a : Address) :
    (keptScript a).Lawful CachesFollowed where
  history_empty := rfl
  cache_empty _ _ := rfl
  append w d carry reward block hQ hblock := by
    have hhistory : (w.doAppend d carry reward block).addressScript a =
        ((d.scripts.get? a).map ((w.db.addressScript a).push (w.height + 1)
          (w.height + 1 - w.dbSettings.maxRollbackDepth))).getD (w.db.addressScript a) := rfl
    have hcache : (w.append d carry reward block).scriptCache a =
        (d.scripts.get? a).or (w.scriptCache a) := rfl
    rcases hscript : d.scripts.get? a with _ | script
    · rw [hscript] at hhistory hcache
      exact .inr ⟨hhistory, .inr hcache⟩
    · rw [hscript] at hhistory hcache
      obtain ⟨tx, htx, hset⟩ := hblock.setsScripts a (FiniteMap.mem_dom_of_get? hscript)
      refine .inl ⟨script, _, Nat.le_refl _, hhistory, ?_, .inr hcache⟩
      exact ⟨tx, mem_transactionsAtHeight_doAppend (idsDistinct_of_nodup hQ.1) htx, hset⟩
  undone_append w d carry reward block h hh := by
    rintro ⟨tx, htx, hset⟩
    exact ⟨tx, by rwa [transactionsAtHeight_doAppend hh], hset⟩
  discard w n := by
    by_cases hany : (w.db.transactionsAtHeight n).any fun tx => scriptUndoneBy tx = some a
    · exact .inl ⟨if_pos hany, if_pos hany⟩
    · refine .inr ⟨?_, if_neg hany, .inr (if_neg hany)⟩
      rintro ⟨tx, htx, hset⟩
      exact hany (List.any_eq_true.mpr ⟨tx, htx, decide_eq_true hset⟩)
  undone_discard w n h hh := by
    rintro ⟨tx, htx, hset⟩
    exact ⟨tx, by rwa [transactionsAtHeight_discardKeys hh], hset⟩
  load w place := by
    cases place with
    | script a' =>
      by_cases hkey : a = a'
      · subst hkey
        exact .inr (Function.update_self ..)
      · exact .inl (Function.update_of_ne hkey ..)
    | _ => exact .inl rfl
  evict w place := by
    cases place with
    | script a' =>
      by_cases hkey : a = a'
      · subst hkey
        exact .inr (Function.update_self ..)
      · exact .inl (Function.update_of_ne hkey ..)
    | _ => exact .inl rfl
  restart _ := rfl
  aside _ _ _ _ _ := rfl

/-! ## 5. The last block -/

section

variable {w : LevelDBWriter} {d : Diff} {carry : Long} {reward : Option Long} {block : Block}

omit [Crypto] [PBTransactionSerializer] in
theorem filterMap_range_getElem? {α : Type} (l : List α) :
    ((List.range l.length).filterMap fun i => l[i]?) = l := by
  induction l using List.reverseRecOn with
  | nil => rfl
  | append_singleton xs x ih =>
    have hinit : ((List.range xs.length).filterMap fun i => (xs ++ [x])[i]?) =
        (List.range xs.length).filterMap fun i => xs[i]? := by
      refine List.filterMap_congr fun i hi => ?_
      rw [List.getElem?_append_left (List.mem_range.mp hi)]
    rw [List.length_append, List.length_singleton, List.range_succ, List.filterMap_append, hinit, ih]
    simp

/-- Where the ids are different, each transaction is the last one of its id. -/
theorem byId_of_nodup {txs : List Transaction} (hids : (txs.map Transaction.id).Nodup) {i : ℕ}
    {tx : Transaction} (htx : txs[i]? = some tx) : (byId txs).get? tx.id = some (i, tx) := by
  obtain ⟨entry, hentry⟩ := Option.isSome_iff_exists.mp
    (isSome_byId.mpr ⟨tx, List.mem_of_getElem? htx, rfl⟩)
  obtain ⟨hmem, hid⟩ := mem_of_byId hentry
  have hget := mem_numbered.mp hmem
  have hsame : (txs.map Transaction.id)[entry.1]? = (txs.map Transaction.id)[i]? := by
    rw [List.getElem?_map, List.getElem?_map, hget, htx, Option.map_some, Option.map_some, hid]
  have hi : i < (txs.map Transaction.id).length := by
    rw [List.length_map]
    exact (List.getElem?_eq_some_iff.mp htx).1
  have hindex : entry.1 = i := ((List.getElem?_inj hi hids).mp hsame.symm).symm
  rw [hindex, htx] at hget
  rw [hentry]
  exact congrArg some (Prod.ext hindex (Option.some.inj hget).symm)

/-- **A block is stored with all of its transactions**, where their ids are different. -/
theorem loadBlock_doAppend (hids : (block.transactionData.map Transaction.id).Nodup) :
    (w.doAppend d carry reward block).loadBlock (w.height + 1) = some block := by
  have hinfo : (w.doAppend d carry reward block).blockInfoAt (w.height + 1) =
      some ⟨block.header, block.transactionData.length, block.signature⟩ := if_pos rfl
  have htxs : (List.range block.transactionData.length).filterMap
      ((w.doAppend d carry reward block).nthTransaction (w.height + 1)) =
        block.transactionData := by
    refine Eq.trans (List.filterMap_congr fun i hi => ?_)
      (filterMap_range_getElem? block.transactionData)
    have hlt := List.mem_range.mp hi
    have htx := List.getElem?_eq_getElem hlt
    rw [htx]
    exact nthTransaction_doAppend (byId_of_nodup hids htx)
  rw [Keys.loadBlock, hinfo, Option.map_some]
  dsimp only
  rw [htxs]

end

/-- In every run the last block is the one that is stored. -/
theorem lastBlock_reachable [Ride] [BlockSerializer] {settings : BlockchainSettings}
    {dbSettings : DBSettings} {w : LevelDBWriter}
    (h : Reachable CachesFollowed settings dbSettings w) :
    w.lastBlock = w.db.loadBlock w.db.height := by
  induction h with
  | empty => rfl
  | @step w v e _ hQ hleads ih =>
    cases e with
    | append d carry reward block =>
      obtain ⟨-, rfl⟩ := hleads
      exact (loadBlock_doAppend hQ.1).symm
    | rollbackTo id =>
      rw [rollbackTo_eq_ok hleads]
    | load key =>
      cases hleads
      cases key <;> exact ih
    | evict key =>
      cases hleads
      cases key <;> exact ih
    | restart =>
      cases hleads
      rfl

/-! ## 6. Descriptions

A description that stays in the cache is that of an asset whose Issue stays where it is, and
of which nothing but the script may have changed. -/

/-- The index leads to the last block with an id. -/
def LastIndexed (db : Keys) : Prop :=
  ∀ h ≤ db.height, ∀ tx ∈ db.transactionsAtHeight h, ∀ h' num,
    db.transactionHNById tx.id = some (h', num) → h ≤ h'

theorem lastIndexed [Ride] [BlockSerializer] {Q : LevelDBWriter → Event → Prop} :
    KeysInvariant Q LastIndexed where
  empty h _ tx htx := absurd htx List.not_mem_nil
  append := by
    intro w d carry reward block hheight _ _ h k hle tx htx h' num hhn
    change k ≤ w.height + 1 at hle
    rw [transactionHNById_doAppend] at hhn
    rcases hnew : (byId block.transactionData).get? tx.id with _ | entry
    · rw [hnew, Option.map_none, Option.none_or] at hhn
      rcases mem_or_mem_of_doAppend htx with ⟨-, hmem⟩ | ⟨hold, hmem⟩
      · -- a transaction of the block is listed by its id
        have hlisted := isSome_byId.mpr ⟨tx, hmem, rfl⟩
        rw [hnew] at hlisted
        cases hlisted
      · exact h k (by omega) tx hmem h' num hhn
    · rw [hnew, Option.map_some, Option.some_or] at hhn
      have hlast := (Prod.mk.inj (Option.some.inj hhn)).1
      omega
  discard := by
    intro w n hheight _ h k hle tx htx h' num hhn
    change k ≤ n at hle
    change (if _ then none else w.db.transactionHNById tx.id) = some (h', num) at hhn
    split at hhn
    · cases hhn
    · exact h k (by omega) tx (mem_of_discardKeys hle htx) h' num hhn

section

variable {w : LevelDBWriter} {asset : IssuedAsset}

/-- Where a block does not change the volume of an issued asset, its Issue stays. -/
theorem issuedInfo_doAppend {d : Diff} {carry : Long} {reward : Option Long} {block : Block}
    (hheight : w.db.height = w.height) (hfound : TransactionsFound w.db)
    (hrecords : d.Records block.transactionData)
    (hids : ∀ tx ∈ block.transactionData, (∃ h, IssuedAt w.db ⟨tx.id⟩ h) →
      issuedBy tx = some ⟨tx.id⟩)
    (hkept : asset ∉ d.issuedAssets.dom) (k : ℕ) (itx : IssueTransaction) :
    w.db.transactionInfo asset.id = some (k, .issue itx) ↔
      (w.doAppend d carry reward block).transactionInfo asset.id = some (k, .issue itx) := by
  rw [hfound.transactionInfo_doAppend hheight]
  rcases hnew : (byId block.transactionData).get? asset.id with _ | entry
  · rw [Option.map_none, Option.none_or]
  · obtain ⟨hmem, hid⟩ := mem_of_byId hnew
    have htx := List.mem_of_getElem? (mem_numbered.mp hmem)
    have hnot : issuedBy entry.2 ≠ some asset := fun hissued =>
      hkept (hrecords.issues entry.2 htx asset hissued).1
    rw [Option.map_some, Option.some_or]
    constructor
    · intro hold
      have hissued := hids entry.2 htx ⟨k, itx, by rw [hid]; exact hold⟩
      rw [hid] at hissued
      exact absurd hissued hnot
    · intro hsame
      have htxIssue := (Prod.mk.inj (Option.some.inj hsame)).2
      rw [htxIssue] at hnot hid
      exact absurd (congrArg (fun id => some (IssuedAsset.mk id)) hid) hnot

/-- What the index has after the rounds of a rollback it had before. -/
theorem transactionHNById_of_discardBlocks {targetHeight : ℕ} {id : ByteStr} {hn : ℕ × ℕ} :
    ∀ {w : LevelDBWriter} (n : ℕ),
      (discardBlocks targetHeight n w).db.transactionHNById id = some hn →
        w.db.transactionHNById id = some hn
  | _, 0, h => h
  | w, n + 1, h => by
    have hround := transactionHNById_of_discardBlocks n h
    change (if _ then none else w.db.transactionHNById id) = some hn at hround
    split at hround
    · cases hround
    · exact hround

/-- An entry that no transaction of the rounds has the id of stays. -/
theorem transactionHNById_discardBlocks {targetHeight : ℕ} {id : ByteStr} :
    ∀ {w : LevelDBWriter} (n : ℕ), w.db.height = targetHeight + n →
      (∀ h, targetHeight < h → h ≤ w.db.height → ∀ tx ∈ w.db.transactionsAtHeight h, tx.id ≠ id) →
      (discardBlocks targetHeight n w).db.transactionHNById id = w.db.transactionHNById id
  | _, 0, _, _ => rfl
  | w, n + 1, hheight, hno => by
    rw [discardBlocks, transactionHNById_discardBlocks n rfl]
    · refine if_neg fun hany => ?_
      obtain ⟨tx, htx, hcond⟩ := List.any_eq_true.mp hany
      exact hno (targetHeight + n + 1) (by omega) (by omega) tx htx
        (of_decide_eq_true (Bool.and_eq_true_iff.mp hcond).2)
    · intro h hlt hle tx htx
      change h ≤ targetHeight + n at hle
      exact hno h hlt (by omega) tx (mem_of_discardKeys (by omega) htx)

omit [Crypto] [PBTransactionSerializer] in
theorem nthTransaction_congr {db db' : Keys} {h : ℕ} (hat : db.transactionAt h = db'.transactionAt h)
    (num : ℕ) : db.nthTransaction h num = db'.nthTransaction h num := by
  rw [Keys.nthTransaction, Keys.nthTransaction, hat]

theorem transactionAt_discardBlocks {targetHeight h : ℕ} (hh : h ≤ targetHeight) :
    ∀ (w : LevelDBWriter) (n : ℕ),
      (discardBlocks targetHeight n w).db.transactionAt h = w.db.transactionAt h
  | _, 0 => rfl
  | w, n + 1 => by
    rw [discardBlocks, transactionAt_discardBlocks hh]
    exact if_neg (by omega)

/-- An Issue stays where no transaction of the rounds changes the volume of its asset. -/
theorem issuedInfo_discardBlocks {targetHeight n : ℕ} (hheight : w.db.height = targetHeight + n)
    (hfound : TransactionsFound w.db)
    (hfoundEnd : TransactionsFound (discardBlocks targetHeight n w).db) (hlast : LastIndexed w.db)
    (hno : ¬ UndoneAbove w.db targetHeight fun tx => assetInfoUndoneBy tx = some asset) (k : ℕ)
    (itx : IssueTransaction) :
    w.db.transactionInfo asset.id = some (k, .issue itx) ↔
      (discardBlocks targetHeight n w).db.transactionInfo asset.id = some (k, .issue itx) := by
  constructor
  · intro hinfo
    obtain ⟨hle, hmem, hid⟩ := hfound.mem_of_transactionInfo hinfo
    have hkt : k ≤ targetHeight := by
      by_contra habove
      refine hno ⟨k, by omega, hle, .issue itx, hmem, ?_⟩
      exact congrArg (fun id => some (IssuedAsset.mk id)) hid
    obtain ⟨⟨h', num⟩, hhn, hrest⟩ := Option.bind_eq_some_iff.mp hinfo
    obtain ⟨tx', hnth, heq⟩ := Option.bind_eq_some_iff.mp hrest
    obtain ⟨rfl, rfl⟩ := Prod.mk.inj (Option.some.inj heq)
    have hstays : (discardBlocks targetHeight n w).db.transactionHNById asset.id =
        w.db.transactionHNById asset.id := by
      refine transactionHNById_discardBlocks n hheight ?_
      intro h hlt hle' tx htx hsame
      -- a later block with this id would be where the index leads
      have := hlast h hle' tx htx h' num (by rw [hsame]; exact hhn)
      omega
    rw [Keys.transactionInfo, hstays, hhn]
    dsimp only [Option.bind_eq_bind, Option.bind_some]
    rw [nthTransaction_congr (transactionAt_discardBlocks hkt w n), hnth]
    rfl
  · intro hinfo
    obtain ⟨hle, -, -⟩ := hfoundEnd.mem_of_transactionInfo hinfo
    rw [height_discardBlocks targetHeight w n hheight] at hle
    obtain ⟨⟨h', num⟩, hhn, hrest⟩ := Option.bind_eq_some_iff.mp hinfo
    obtain ⟨tx', hnth, heq⟩ := Option.bind_eq_some_iff.mp hrest
    obtain ⟨rfl, rfl⟩ := Prod.mk.inj (Option.some.inj heq)
    rw [Keys.transactionInfo, transactionHNById_of_discardBlocks n hhn]
    dsimp only [Option.bind_eq_bind, Option.bind_some]
    rw [← nthTransaction_congr (transactionAt_discardBlocks hle w n), hnth]
    rfl

/-- **A block** drops the descriptions it changes, but for the scripts. -/
theorem DescriptionsCached.append_of_followed [Ride] [BlockSerializer] {d : Diff} {carry : Long}
    {reward : Option Long} {block : Block} (h : DescriptionsCached w)
    (hheight : w.db.height = w.height) (hfound : TransactionsFound w.db)
    (hscripts : ∀ asset, (keptAssetScript asset).Cached w)
    (hQ : CachesFollowed w (.append d carry reward block))
    (hrecords : d.Records block.transactionData) :
    DescriptionsCached (w.append d carry reward block) := by
  intro asset v hv
  change (if d.issuedAssets.contains asset || d.sponsorship.contains asset then none
    else w.assetDescriptionCache asset) = some v at hv
  by_cases hdropped : (d.issuedAssets.contains asset || d.sponsorship.contains asset) = true
  · rw [if_pos hdropped] at hv
    cases hv
  · rw [if_neg hdropped] at hv
    rw [Bool.or_eq_true, not_or, FiniteMap.contains_iff_mem_dom, FiniteMap.contains_iff_mem_dom]
      at hdropped
    obtain ⟨hinfoNew, hsponsorNew⟩ := hdropped
    rw [h asset v hv]
    change w.db.loadAssetDescription asset =
      (w.doAppend d carry reward block).loadAssetDescription asset
    refine loadAssetDescription_congr ?_ ?_ ?_ ?_
    · exact issuedInfo_doAppend hheight hfound hrecords hQ.2.1 hinfoNew
    · change _ = ((w.db.assetInfo asset).pushSome _ _ ((d.issuedAssets.get? asset).map _)).latest
      rw [(d.issuedAssets.get?_eq_none_iff asset).mpr hinfoNew]
      rfl
    · rw [sponsorship_doAppend, newSponsorship,
        (d.sponsorship.get?_eq_none_iff asset).mpr hsponsorNew]
      rfl
    · intro k hissued
      have hhistory := assetScript_doAppend w d carry reward block asset
      rcases hscript : d.assetScripts.get? asset with _ | script
      · rw [hscript] at hhistory
        rw [show (w.doAppend d carry reward block).assetScript asset = w.db.assetScript asset
          from hhistory]
      · rw [hscript] at hhistory
        have hlatest : ((w.doAppend d carry reward block).assetScript asset).latest = script := by
          rw [show (w.doAppend d carry reward block).assetScript asset = _ from hhistory]
          refine (hscripts asset).readable.latest_push (Nat.le_refl _) ?_
          intro hnone
          exact hQ.2.2.1 asset (hnone ▸ hscript)
        obtain ⟨desc, hload, hdesc⟩ := loadAssetDescription_of_issued hissued
        have hcached : w.assetDescriptionCache asset = some (some desc) := by
          rw [hv, h asset v hv, hload]
        have hsame := hQ.2.2.2.1 asset (FiniteMap.mem_dom_of_get? hscript) hinfoNew hsponsorNew
          desc hcached
        rw [hscript, Option.getD_some] at hsame
        rw [← hdesc, hsame, hlatest]

/-- What the rounds of a rollback leave of a script. -/
theorem loadAssetScript_discardBlocks {targetHeight : ℕ} (asset : IssuedAsset) :
    ∀ (w : LevelDBWriter) (n : ℕ), w.db.height = targetHeight + n →
      (discardBlocks targetHeight n w).db.loadAssetScript asset = scriptLeft w.db targetHeight asset
  | w, 0, hheight => by
    have hnone : ∀ h, (!assetScriptUndoneAt w.db targetHeight asset h) = true := by
      intro h
      by_cases hlt : targetHeight < h
      · have hnot : ¬ h ≤ w.db.height := by omega
        simp [assetScriptUndoneAt, hnot]
      · simp [assetScriptUndoneAt, hlt]
    rw [discardBlocks, scriptLeft, Keys.loadAssetScript, History.latest]
    rcases (w.db.assetScript asset).heights with _ | ⟨h, rest⟩
    · rfl
    · rw [List.find?_cons, hnone h, List.head?_cons]
  | w, n + 1, hheight => by
    rw [discardBlocks, loadAssetScript_discardBlocks asset _ n rfl, scriptLeft, scriptLeft]
    -- the heights below have the transactions they had
    have hbelow : ∀ h, h ≠ targetHeight + n + 1 →
        assetScriptUndoneAt (w.discardKeys (targetHeight + n + 1)) targetHeight asset h =
          assetScriptUndoneAt w.db targetHeight asset h := by
      intro h hne
      change (decide (targetHeight < h) && decide (h ≤ targetHeight + n) &&
        ((w.discardKeys (targetHeight + n + 1)).transactionsAtHeight h).any _) = _
      rw [assetScriptUndoneAt]
      by_cases hle : h ≤ targetHeight + n
      · rw [transactionsAtHeight_discardKeys (by omega), decide_eq_true hle,
          decide_eq_true (show h ≤ w.db.height by omega)]
      · rw [decide_eq_false hle, decide_eq_false (show ¬ h ≤ w.db.height by omega),
          Bool.and_false, Bool.false_and, Bool.false_and]
    have hnew : assetScriptUndoneAt (w.discardKeys (targetHeight + n + 1)) targetHeight asset
        (targetHeight + n + 1) = false := by
      change (decide (targetHeight < targetHeight + n + 1) &&
        decide (targetHeight + n + 1 ≤ targetHeight + n) && _) = _
      rw [decide_eq_false (show ¬ targetHeight + n + 1 ≤ targetHeight + n by omega),
        Bool.and_false, Bool.false_and]
    have hold : assetScriptUndoneAt w.db targetHeight asset (targetHeight + n + 1) =
        (w.db.transactionsAtHeight (targetHeight + n + 1)).any fun tx =>
          assetScriptUndoneBy tx = some asset := by
      rw [assetScriptUndoneAt, decide_eq_true (show targetHeight < targetHeight + n + 1 by omega),
        decide_eq_true (show targetHeight + n + 1 ≤ w.db.height by omega)]
      rfl
    by_cases hany : ((w.db.transactionsAtHeight (targetHeight + n + 1)).any
        fun tx => assetScriptUndoneBy tx = some asset) = true
    · have hdrop : (w.discardKeys (targetHeight + n + 1)).assetScript asset =
          (w.db.assetScript asset).drop (targetHeight + n + 1) := if_pos hany
      -- the height that is dropped is the one that is undone now
      have hkept : (fun h => decide (decide (h ≠ targetHeight + n + 1) = true ∧
          (!assetScriptUndoneAt (w.discardKeys (targetHeight + n + 1)) targetHeight asset h) = true)) =
          fun h => !assetScriptUndoneAt w.db targetHeight asset h := by
        funext h
        by_cases hne : h = targetHeight + n + 1
        · rw [hne, hold, hany]
          simp
        · rw [hbelow h hne]
          simp [hne]
      have hfind : ((w.db.assetScript asset).drop (targetHeight + n + 1)).heights.find?
          (fun h => !assetScriptUndoneAt (w.discardKeys (targetHeight + n + 1)) targetHeight asset h) =
          (w.db.assetScript asset).heights.find? fun h =>
            !assetScriptUndoneAt w.db targetHeight asset h := by
        rw [History.drop, List.find?_filter, hkept]
      rw [show (discardBlock w (targetHeight + n + 1)).db.assetScript asset = _ from hdrop]
      refine (congrArg (fun o => Option.bind o _) hfind).trans ?_
      rcases hx : (w.db.assetScript asset).heights.find? fun h =>
          !assetScriptUndoneAt w.db targetHeight asset h with _ | h
      · rfl
      · have hne : h ≠ targetHeight + n + 1 := by
          rintro rfl
          have hstays := List.find?_some hx
          rw [hold, hany] at hstays
          cases hstays
        rw [Option.bind_some, Option.bind_some]
        exact if_neg hne
    · have hsame : (w.discardKeys (targetHeight + n + 1)).assetScript asset =
          w.db.assetScript asset := if_neg hany
      have hkept : (fun h =>
          !assetScriptUndoneAt (w.discardKeys (targetHeight + n + 1)) targetHeight asset h) =
          fun h => !assetScriptUndoneAt w.db targetHeight asset h := by
        funext h
        by_cases hne : h = targetHeight + n + 1
        · rw [hne, hnew, hold, Bool.eq_false_iff.mpr hany]
        · rw [hbelow h hne]
      rw [show (discardBlock w (targetHeight + n + 1)).db.assetScript asset = _ from hsame]
      exact congrArg (fun p => Option.bind (List.find? p _) _) hkept

/-- **A rollback** drops the descriptions it changes, but for the scripts. -/
theorem DescriptionsCached.doRollback_of_followed [Ride] [BlockSerializer] {id : BlockId}
    (h : DescriptionsCached w) (hw : Sound w) (hfound : TransactionsFound w.db)
    (hlast : LastIndexed w.db) (hQ : CachesFollowed w (.rollbackTo id)) :
    DescriptionsCached (w.doRollback id) := by
  have hfoundEnd : TransactionsFound (w.doRollback id).db :=
    (transactionsFound (Q := CachesFollowed)).doRollback hw id hfound
  rw [LevelDBWriter.doRollback] at hfoundEnd ⊢
  rcases hid : w.db.heightOf id with _ | targetHeight
  · exact h
  · rw [hid] at hfoundEnd
    dsimp only at hfoundEnd ⊢
    have hheight := hw.height
    by_cases ht : targetHeight ≤ w.height
    · have hsum : w.db.height = targetHeight + (w.height - targetHeight) := by omega
      intro asset v hv
      obtain ⟨hold, hno⟩ := cache_discardBlocks targetHeight _ w hsum hv
      rw [h asset v hold]
      have hnoInfo : ¬ UndoneAbove w.db targetHeight fun tx =>
          assetInfoUndoneBy tx = some asset := by
        rintro ⟨k, hlt, hle, tx, htx, hkind⟩
        exact hno ⟨k, hlt, hle, tx, htx, .inl hkind⟩
      have hnoSponsorship : ¬ UndoneAbove w.db targetHeight fun tx =>
          sponsorshipUndoneBy tx = some asset := by
        rintro ⟨k, hlt, hle, tx, htx, hkind⟩
        exact hno ⟨k, hlt, hle, tx, htx, .inr hkind⟩
      refine loadAssetDescription_congr ?_ ?_ ?_ ?_
      · exact issuedInfo_discardBlocks hsum hfound hfoundEnd hlast hnoInfo
      · rw [history_discardBlocks (fun db => db.assetInfo asset)
          (fun tx => assetInfoUndoneBy tx = some asset) (fun _ _ => rfl) targetHeight _ w hsum
          hnoInfo]
      · rw [history_discardBlocks (fun db => db.sponsorship asset)
          (fun tx => sponsorshipUndoneBy tx = some asset) (fun _ _ => rfl) targetHeight _ w hsum
          hnoSponsorship]
      · intro k hissued
        by_cases hundone : UndoneAbove w.db targetHeight fun tx =>
            assetScriptUndoneBy tx = some asset
        · have hcond := (hQ targetHeight hid asset hundone).resolve_left hno
          obtain ⟨desc, hload, hdesc⟩ := loadAssetDescription_of_issued hissued
          have hcached : w.assetDescriptionCache asset = some (some desc) := by
            rw [hold, h asset v hold, hload]
          rw [← hdesc, hcond desc hcached]
          exact congrArg (Option.map Prod.fst)
            (loadAssetScript_discardBlocks asset w _ hsum).symm
        · rw [history_discardBlocks (fun db => db.assetScript asset)
            (fun tx => assetScriptUndoneBy tx = some asset) (fun _ _ => rfl) targetHeight _ w hsum
            hundone]
    · have hzero : w.height - targetHeight = 0 := by omega
      rw [hzero]
      exact h

end

/-! ## 7. Runs -/

/-- What is known of a database in a run that meets the condition, besides the values that are
written through. -/
structure Remembers (w : LevelDBWriter) : Prop where
  descriptions : DescriptionsCached w
  remembered : Remembered w
  found : TransactionsFound w.db
  last : LastIndexed w.db

section

variable [Ride] [BlockSerializer] {w : LevelDBWriter}

theorem Remembers.leads {v : LevelDBWriter} {e : Event} (h : Remembers w) (hw : Sound w)
    (hscripts : ∀ asset, (keptAssetScript asset).Cached w) (hQ : CachesFollowed w e)
    (hleads : e.Leads w v) : Remembers v := by
  have hfound := (transactionsFound (Q := CachesFollowed)).leads hw hQ h.found hleads
  have hlast := (lastIndexed (Q := CachesFollowed)).leads hw hQ h.last hleads
  cases e with
  | append d carry reward block =>
    obtain ⟨hblock, rfl⟩ := hleads
    have hrecords := hblock.records (idsDistinct_of_nodup hQ.1)
    exact ⟨h.descriptions.append_of_followed hw.height h.found hscripts hQ hrecords,
      h.remembered.append hw.height h.found hblock.lists hQ.2.2.2.2, hfound, hlast⟩
  | rollbackTo id =>
    have hdescriptions := h.descriptions.doRollback_of_followed hw h.found h.last hQ
    have hremembered := h.remembered.doRollback hw h.found id
    rw [rollbackTo_eq_ok hleads] at hfound hlast ⊢
    exact ⟨hdescriptions, ⟨hremembered.stored, hremembered.kept⟩, hfound, hlast⟩
  | load key =>
    cases hleads
    refine ⟨?_, by cases key <;> exact ⟨h.remembered.stored, h.remembered.kept⟩, hfound, hlast⟩
    cases key with
    | assetDescription asset' =>
      intro asset desc hdesc
      change Function.update w.assetDescriptionCache asset' (some (w.assetDescription asset'))
        asset = some desc at hdesc
      by_cases hkey : asset = asset'
      · rw [← hkey, Function.update_self] at hdesc
        rw [← Option.some.inj hdesc]
        exact h.descriptions.assetDescription_eq asset
      · rw [Function.update_of_ne hkey] at hdesc
        exact h.descriptions asset desc hdesc
    | _ => exact h.descriptions
  | evict key =>
    cases hleads
    refine ⟨?_, by cases key <;> exact ⟨h.remembered.stored, h.remembered.kept⟩, hfound, hlast⟩
    cases key with
    | assetDescription asset' =>
      intro asset desc hdesc
      change Function.update w.assetDescriptionCache asset' none asset = some desc at hdesc
      by_cases hkey : asset = asset'
      · rw [← hkey, Function.update_self] at hdesc
        cases hdesc
      · rw [Function.update_of_ne hkey] at hdesc
        exact h.descriptions asset desc hdesc
    | _ => exact h.descriptions
  | restart =>
    cases hleads
    refine ⟨?_, .restart, hfound, hlast⟩
    intro asset desc hdesc
    cases hdesc

theorem remembers_reachable {settings : BlockchainSettings} {dbSettings : DBSettings}
    (h : Reachable CachesFollowed settings dbSettings w) : Remembers w := by
  induction h with
  | empty =>
    refine ⟨?_, ⟨?_, ?_⟩, (transactionsFound (Q := CachesFollowed)).empty,
      (lastIndexed (Q := CachesFollowed)).empty⟩
    · intro asset desc hdesc
      cases hdesc
    · intro id hid
      cases hid
    · intro id height tx hinfo
      cases hinfo
  | step hrun hQ hleads ih =>
    exact ih.leads hrun.sound
      (fun asset => Kept.cached_reachable (writesThrough_keptAssetScript asset) hrun) hQ hleads

end

end LevelDBWriter

/-! ## 8. The score

The score of the chain stands among the keys for each height, and in memory beside the
height and the last block. A rollback leaves the keys of the heights it takes off; the next
block of such a height writes over them. -/

/-- A database with the scores of its heights, and the score of `current`. -/
structure ScoredWriter where
  writer : LevelDBWriter
  scoreAt : ℕ → ℤ
  score : ℤ

namespace ScoredWriter

def empty (settings : BlockchainSettings) (dbSettings : DBSettings) : ScoredWriter where
  writer := .empty settings dbSettings
  scoreAt _ := 0
  score := 0

def loadScore (w : ScoredWriter) : ℤ := w.scoreAt w.writer.db.height

variable [Ride] [BlockSerializer]

open LevelDBWriter

/-- What an event does to a database and its score. -/
def Leads (w w' : ScoredWriter) (e : Event) : Prop :=
  e.Leads w.writer w'.writer ∧
    match e with
    | .append _ _ _ block => ∃ blockScore, BlockchainUpdaterImpl.blockScore block = .ok blockScore ∧
      w'.scoreAt = Function.update w.scoreAt (w.writer.height + 1)
        (w.scoreAt w.writer.height + blockScore) ∧
      w'.score = w.score + blockScore
    | .rollbackTo _ | .restart => w'.scoreAt = w.scoreAt ∧ w'.score = w'.loadScore
    | .load _ | .evict _ => w'.scoreAt = w.scoreAt ∧ w'.score = w.score

/-- The databases that runs lead to whose events all meet a condition. -/
inductive Reachable (Q : LevelDBWriter → Event → Prop) (settings : BlockchainSettings)
    (dbSettings : DBSettings) : ScoredWriter → Prop
  | empty : Reachable Q settings dbSettings (.empty settings dbSettings)
  | step {w w' : ScoredWriter} {e : Event} :
    Reachable Q settings dbSettings w → Q w.writer e → w.Leads w' e →
    Reachable Q settings dbSettings w'

variable {Q : LevelDBWriter → Event → Prop} {settings : BlockchainSettings}
  {dbSettings : DBSettings} {w : ScoredWriter}

theorem Reachable.mono {Q' : LevelDBWriter → Event → Prop} (hQ : ∀ w e, Q w e → Q' w e)
    (h : Reachable Q settings dbSettings w) : Reachable Q' settings dbSettings w := by
  induction h with
  | empty => exact .empty
  | step _ hstep hleads ih => exact .step ih (hQ _ _ hstep) hleads

theorem Reachable.writer (h : Reachable Q settings dbSettings w) :
    LevelDBWriter.Reachable Q settings dbSettings w.writer := by
  induction h with
  | empty => exact .empty
  | step _ hQ hleads ih => exact .step ih hQ hleads.1

/-- The score in memory is that of the height. -/
theorem Reachable.score_eq (h : Reachable Q settings dbSettings w) : w.score = w.loadScore := by
  induction h with
  | empty => rfl
  | @step w v e hrun _ hleads ih =>
    have hheight := hrun.writer.sound.height
    obtain ⟨hleads, hscore⟩ := hleads
    cases e with
    | append d carry reward block =>
      obtain ⟨blockScore, -, hat, hscore⟩ := hscore
      obtain ⟨-, hwriter⟩ := hleads
      rw [hscore, ih, loadScore, loadScore, hat, ← hwriter, hheight]
      exact (Function.update_self (w.writer.height + 1) _ w.scoreAt).symm
    | rollbackTo id => exact hscore.2
    | load key =>
      have hwriter : w.writer.load key = v.writer := hleads
      rw [hscore.2, ih, loadScore, loadScore, hscore.1, ← hwriter, db_load]
    | evict key =>
      have hwriter : w.writer.evict key = v.writer := hleads
      rw [hscore.2, ih, loadScore, loadScore, hscore.1, ← hwriter, db_evict]
    | restart => exact hscore.2

/-! ## 9. Coherence -/

/-- **The caches are coherent**: every reader answers what its loader loads from the keys. A
transaction is looked for by its id, but the memory also asks for its timestamp. -/
structure Coherent (w : ScoredWriter) : Prop where
  height : w.writer.height = w.writer.db.height
  score : w.score = w.loadScore
  lastBlock : w.writer.lastBlock = w.writer.db.loadBlock w.writer.db.height
  balance : ∀ a asset, w.writer.balance a asset = w.writer.db.loadBalance a asset
  leaseBalance : ∀ a, w.writer.leaseBalance a = w.writer.db.loadLeaseBalance a
  assetDescription : ∀ asset,
    w.writer.assetDescription asset = w.writer.db.loadAssetDescription asset
  accountScript : ∀ a, w.writer.accountScriptWithComplexity a = w.writer.db.loadScript a
  hasScript : ∀ a, w.writer.blockchain.hasScript a = (w.writer.db.loadScript a).isSome
  assetScript : ∀ asset,
    w.writer.assetScriptWithComplexity asset = w.writer.db.loadAssetScript asset
  hasAssetScript : ∀ asset,
    w.writer.blockchain.hasAssetScript asset = (w.writer.db.loadAssetScript asset).isSome
  filledVolumeAndFee : ∀ orderId,
    w.writer.filledVolumeAndFee orderId = w.writer.db.loadVolumeAndFee orderId
  accountDataEntry : ∀ a key, w.writer.accountDataEntry a key = w.writer.db.loadAccountData a key
  resolveAlias : ∀ a, w.writer.blockchain.resolveAlias a = w.writer.db.resolveAlias a
  containsTransaction : ∀ tx,
    (∀ height tx', w.writer.db.transactionInfo tx.id = some (height, tx') →
      tx'.timestamp = tx.timestamp) →
    w.writer.containsTransaction tx = (w.writer.db.transactionHNById tx.id).isSome

/-- Every run of the database whose blocks have a score is one with its score. -/
theorem exists_scored {v : LevelDBWriter} (h : LevelDBWriter.Reachable Q settings dbSettings v)
    (hscore : ∀ w d carry reward block, Q w (.append d carry reward block) →
      ∃ blockScore, BlockchainUpdaterImpl.blockScore block = .ok blockScore) :
    ∃ w : ScoredWriter, w.writer = v ∧ Reachable Q settings dbSettings w := by
  induction h with
  | empty => exact ⟨_, rfl, .empty⟩
  | @step v v' e _ hQ hleads ih =>
    obtain ⟨w, rfl, hw⟩ := ih
    cases e with
    | append d carry reward block =>
      obtain ⟨blockScore, hblock⟩ := hscore _ _ _ _ _ hQ
      exact ⟨⟨v', _, _⟩, rfl, .step hw hQ ⟨hleads, blockScore, hblock, rfl, rfl⟩⟩
    | rollbackTo id =>
      exact ⟨⟨v', w.scoreAt, w.scoreAt v'.db.height⟩, rfl, .step hw hQ ⟨hleads, rfl, rfl⟩⟩
    | load key => exact ⟨⟨v', _, _⟩, rfl, .step hw hQ ⟨hleads, rfl, rfl⟩⟩
    | evict key => exact ⟨⟨v', _, _⟩, rfl, .step hw hQ ⟨hleads, rfl, rfl⟩⟩
    | restart =>
      exact ⟨⟨v', w.scoreAt, w.scoreAt v'.db.height⟩, rfl, .step hw hQ ⟨hleads, rfl, rfl⟩⟩

end ScoredWriter

end

/-! ## 10. The description of a smart token

Alice's token is described from the cache after she set another script. -/

section
open Devnet LevelDBWriter

local instance coherenceCrypto : Crypto := smartAnswers.crypto
local instance coherenceSerializer : PBTransactionSerializer := pbTransactionSerializer
local instance coherenceBlocks : BlockSerializer := smartAnswers.blockSerializer
local instance coherenceRide : Ride := smartAnswers.ride

namespace Devnet

/-- A block that is validated on the database alone, and has a score, or a read. -/
def OwnScored (w : LevelDBWriter) (e : Event) : Prop :=
  match e with
  | .append _ _ _ block => OwnBlock w e ∧
    ∃ blockScore, BlockchainUpdaterImpl.blockScore block = .ok blockScore
  | .load _ => True
  | _ => False

/-- The block of an event has a score. -/
def BlockScored : Event → Prop
  | .append _ _ _ block => ∃ blockScore, BlockchainUpdaterImpl.blockScore block = .ok blockScore
  | _ => True

/-- Whether a block, which takes no script away, meets the condition of coherent caches. -/
def cachesFollowed (w : LevelDBWriter) (block : Block) : Bool :=
  (BlockDiffer.fromBlock w.blockchain w.lastBlock block .Unlimited).toOption.any fun r =>
    decide ((block.transactionData.map Transaction.id).Nodup ∧
      (∀ tx ∈ block.transactionData, w.db.transactionInfo tx.id = none) ∧
      (∀ asset ∈ r.diff.assetScripts.dom,
        (w.db.assetScript asset).heights = [] ∧ asset ∈ r.diff.issuedAssets.dom ∧
          r.diff.assetScripts.get? asset ≠ some none) ∧
      (∀ tx ∈ block.transactionData, tx.timestamp - TwoHours ≤ block.header.timestamp) ∧
      ∀ h ≤ w.db.height, ∀ tx ∈ w.db.transactionsAtHeight h,
        tx.timestamp - TwoHours ≤ block.header.timestamp)

theorem cachesFollowed_of {w : LevelDBWriter} {block : Block} {r : BlockDiffer.Result}
    (h : cachesFollowed w block = true)
    (hr : BlockDiffer.fromBlock w.blockchain w.lastBlock block .Unlimited = .ok r) :
    CachesFollowed w (.append r.diff r.carry none block) := by
  rw [cachesFollowed, hr] at h
  obtain ⟨hids, hnew, hscripts, htime, htimes⟩ := of_decide_eq_true h
  refine ⟨hids, ?_, ?_, ?_, ?_⟩
  · rintro tx htx ⟨height, it, hinfo⟩
    rw [hnew tx htx] at hinfo
    cases hinfo
  · intro asset hnone
    exact absurd hnone (hscripts asset (FiniteMap.mem_dom_of_get? hnone)).2.2
  · intro asset hasset hnot
    exact absurd (hscripts asset hasset).2.1 hnot
  · rintro tx (htx | ⟨height, hle, htx⟩)
    · exact htime tx htx
    · exact htimes height hle tx htx

end Devnet

/-- The runs, and what the keys and the cache say of the token's script after the block that
sets it. -/
theorem coherence_run :
    (cachesFollowed noSmart genesisBlock ∧ cachesFollowed withoutSmart smartTokenBlock) ∧
      ((BlockchainUpdaterImpl.blockScore genesisBlock).toOption.isSome ∧
        (BlockchainUpdaterImpl.blockScore smartTokenBlock).toOption.isSome ∧
        (BlockchainUpdaterImpl.blockScore newScriptBlock).toOption.isSome) ∧
      (BlockDiffer.fromBlock readSmart.blockchain readSmart.lastBlock newScriptBlock
          .Unlimited).toOption.any fun r =>
        (((readSmart.append r.diff r.carry none newScriptBlock).db.loadAssetDescription
            ⟨smartTokenId⟩).map AssetDescription.script == some newScript.script) &&
          ((readSmart.append r.diff r.carry none newScriptBlock).assetDescription
            ⟨smartTokenId⟩).map AssetDescription.script == some smartToken.script := by
  decide +kernel

theorem exists_blockScore {block : Block}
    (h : (BlockchainUpdaterImpl.blockScore block).toOption.isSome) :
    ∃ blockScore, BlockchainUpdaterImpl.blockScore block = .ok blockScore := by
  rcases hb : BlockchainUpdaterImpl.blockScore block with e | blockScore
  · rw [hb] at h
    cases h
  · exact ⟨blockScore, rfl⟩

end

end WavesNode
