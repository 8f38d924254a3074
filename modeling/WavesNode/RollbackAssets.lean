/-
What a rollback restores of asset descriptions.

A description is put together from the transaction that issued the asset and three
histories: volume and reissuability, the fee sponsorship, and the script. Each is undone
with the transactions of the type it is for, and the description in the cache is dropped
with the first two. So there are four ways in which a rollback may go wrong, and
`AssetsIndexed` rules out each of them: a contract's reissue or burn, which no transaction
of those types undoes; a description that is still in the cache when only the script
changes, forward or backward; and the script of an asset that is issued a second time, after
its first issue was taken off, since the first one's entry was left there.

The script's history is right only while the asset is issued, so it is not a kept value;
`ScriptsKept` is its invariant.
-/
import WavesNode.StoredTransactions

set_option autoImplicit false

namespace WavesNode

namespace LevelDBWriter

variable [Crypto] [PBTransactionSerializer]

/-! ## 1. Volumes and sponsorships -/

def keptAssetInfo (asset : IssuedAsset) : Kept AssetInfo (Option AssetInfo) where
  history db := db.assetInfo asset
  undone db h := ∃ tx ∈ db.transactionsAtHeight h, assetInfoUndoneBy tx = some asset
  cache _ := none
  read v := v

section
omit [Crypto] [PBTransactionSerializer]

def keptSponsorship (asset : IssuedAsset) : Kept Long (Option Long) where
  history db := db.sponsorship asset
  undone db h := ∃ tx ∈ db.transactionsAtHeight h, sponsorshipUndoneBy tx = some asset
  cache _ := none
  read v := v

/-- The asset is issued, at a height. -/
def IssuedAt (db : Keys) (asset : IssuedAsset) (h : ℕ) : Prop :=
  ∃ tx, db.transactionInfo asset.id = some (h, .issue tx)

/-- The heights that a rollback takes off hold a transaction of a kind. -/
def UndoneAbove (db : Keys) (targetHeight : ℕ) (p : Transaction → Prop) : Prop :=
  ∃ h, targetHeight < h ∧ h ≤ db.height ∧ ∃ tx ∈ db.transactionsAtHeight h, p tx

/-- A description in the cache has the script given. -/
def CachedScript (w : LevelDBWriter) (asset : IssuedAsset) (script : Option (Script × Long)) :
    Prop :=
  ∀ desc, w.assetDescriptionCache asset = some (some desc) → desc.script = script.map Prod.fst

end

/-- Where what is known of scripts follows the chain. Of an appended block: its ids are new;
an asset that is not issued yet has no script entry from above this height; and where only
the script of an asset changes, no other script of it is in the cache. Of a rollback: where
only the script of an asset is undone, no other script of it is in the cache. -/
def ScriptsFollowed (w : LevelDBWriter) : Event → Prop
  | .append d _ _ block =>
    (IdsDistinct block.transactionData ∧ IdsFresh w.db block) ∧
      (∀ asset ∈ d.assetScripts.dom, (∃ h, IssuedAt w.db asset h) ∨
        ∀ h ∈ (w.db.assetScript asset).heights, h ≤ w.height) ∧
      ∀ asset ∈ d.assetScripts.dom, asset ∉ d.issuedAssets.dom → asset ∉ d.sponsorship.dom →
        CachedScript w asset ((d.assetScripts.get? asset).getD none)
  | .rollbackTo id => ∀ targetHeight, w.db.heightOf id = some targetHeight → ∀ asset,
    UndoneAbove w.db targetHeight (fun tx => assetScriptUndoneBy tx = some asset) →
    UndoneAbove w.db targetHeight (fun tx =>
      assetInfoUndoneBy tx = some asset ∨ sponsorshipUndoneBy tx = some asset) ∨
    CachedScript w asset ((w.db.assetScript asset).asOf targetHeight)
  | _ => True

/-- **The condition.** Besides, every asset whose volume or reissuability an appended block
changes is that of an Issue, Reissue or Burn transaction of the block. -/
def AssetsIndexed (w : LevelDBWriter) (e : Event) : Prop :=
  ScriptsFollowed w e ∧
    match e with
    | .append d _ _ block => ∀ asset ∈ d.issuedAssets.dom, ∃ tx ∈ block.transactionData,
      assetInfoUndoneBy tx = some asset
    | _ => True

/-- The minimal fee a diff gives an asset. -/
def newSponsorship (d : Diff) (asset : IssuedAsset) : Option Long :=
  (d.sponsorship.get? asset).bind fun value =>
    match value with
    | .SponsorshipValue minFee => some minFee
    | .SponsorshipNoInfo => none

theorem sponsorship_doAppend (w : LevelDBWriter) (d : Diff) (carry : Long) (reward : Option Long)
    (block : Block) (asset : IssuedAsset) :
    (w.doAppend d carry reward block).sponsorship asset =
      (w.db.sponsorship asset).pushSome (w.height + 1)
        (w.height + 1 - w.dbSettings.maxRollbackDepth) (newSponsorship d asset) := by
  unfold doAppend newSponsorship
  dsimp only
  rcases d.sponsorship.get? asset with _ | (minFee | _) <;> rfl

variable [Ride] [BlockSerializer]

theorem lawful_keptAssetInfo (asset : IssuedAsset) : (keptAssetInfo asset).Lawful AssetsIndexed := by
  refine Kept.lawful_of_transactions (fun tx => assetInfoUndoneBy tx = some asset)
    (fun w d => (d.issuedAssets.get? asset).map fun info =>
      ((w.db.assetInfo asset).latest.map fun p => p.combine info).getD info)
    rfl (fun _ => rfl) (fun _ _ => Iff.rfl) (fun _ _ _ _ _ => rfl) ?_ (fun _ _ => rfl)
  intro w d carry reward block hQ
  refine ⟨hQ.1.1.1, ?_⟩
  intro v _ hv
  obtain ⟨info, hinfo, -⟩ := Option.map_eq_some_iff.mp hv
  exact hQ.2 asset (FiniteMap.mem_dom_of_get? hinfo)

theorem lawful_keptSponsorship (asset : IssuedAsset) :
    (keptSponsorship asset).Lawful AssetsIndexed := by
  refine Kept.lawful_of_transactions (fun tx => sponsorshipUndoneBy tx = some asset)
    (fun _ d => newSponsorship d asset) rfl (fun _ => rfl) (fun _ _ => Iff.rfl) ?_ ?_ (fun _ _ => rfl)
  · intro w d carry reward block
    exact sponsorship_doAppend w d carry reward block asset
  · intro w d carry reward block hQ
    refine ⟨hQ.1.1.1, ?_⟩
    intro v hrecords hv
    obtain ⟨value, hvalue, hv⟩ := Option.bind_eq_some_iff.mp hv
    cases value with
    | SponsorshipValue minFee => exact hrecords.sponsorship asset minFee hvalue
    | _ => cases hv

/-! ## 2. Asset scripts

An Issue writes the script's history too, and nothing undoes it. So the history of an asset
that is not issued is what an issue before left, and only that it descends is known of it. -/

structure ScriptKept (db : Keys) (asset : IssuedAsset) : Prop where
  descends : ∃ m, (db.assetScript asset).UpTo m
  issued : ∀ i, IssuedAt db asset i → (db.assetScript asset).UpTo db.height ∧
    ∀ h ∈ (db.assetScript asset).heights, i < h →
      ∃ tx ∈ db.transactionsAtHeight h, assetScriptUndoneBy tx = some asset

section
omit [Ride] [BlockSerializer]

theorem TransactionsStored.issuedAt_iff {db : Keys} (h : TransactionsStored db)
    {asset : IssuedAsset} {i : ℕ} :
    IssuedAt db asset i ↔ i ≤ db.height ∧
      ∃ tx ∈ db.transactionsAtHeight i, issuedBy tx = some asset := by
  constructor
  · rintro ⟨itx, hinfo⟩
    obtain ⟨hle, hmem, hid⟩ := h.transactionsFound.mem_of_transactionInfo hinfo
    exact ⟨hle, .issue itx, hmem, congrArg (fun id => some (IssuedAsset.mk id)) hid⟩
  · rintro ⟨hle, tx, hmem, hissued⟩
    cases tx with
    | issue itx =>
      have hid : (Transaction.issue itx).id = asset.id :=
        congrArg IssuedAsset.id (Option.some.inj hissued)
      exact ⟨itx, (h.transactionInfo_eq_some rfl).mpr ⟨hle, hmem, hid⟩⟩
    | _ => cases hissued

/-- An asset that is issued is not issued by a block with new ids. -/
theorem not_issuedBy_of_fresh {w : LevelDBWriter} {block : Block} {asset : IssuedAsset} {i : ℕ}
    (hfresh : IdsFresh w.db block) (hstored : TransactionsStored w.db)
    (hissued : IssuedAt w.db asset i) {tx : Transaction} (htx : tx ∈ block.transactionData) :
    issuedBy tx ≠ some asset := by
  intro hnew
  obtain ⟨hle, tx', hmem, hold⟩ := hstored.issuedAt_iff.mp hissued
  have hid : tx'.id = tx.id := by
    have hids : ∀ {t : Transaction}, issuedBy t = some asset → t.id = asset.id := by
      intro t ht
      cases t with
      | issue itx => exact congrArg IssuedAsset.id (Option.some.inj ht)
      | _ => cases ht
    rw [hids hold, hids hnew]
  have hpayment := (hfresh tx htx i hle tx' hmem hid).2
  cases tx with
  | payment t => cases hnew
  | _ => cases hpayment

end

section

variable {w : LevelDBWriter} {d : Diff} {carry : Long} {reward : Option Long} {block : Block}
  {asset : IssuedAsset}

omit [Ride] [BlockSerializer] in
/-- Where an asset is issued after a block: before it, or in it. -/
theorem issuedAt_doAppend (hheight : w.db.height = w.height) (hstored : TransactionsStored w.db)
    (hstored' : TransactionsStored (w.doAppend d carry reward block)) {i : ℕ}
    (h : IssuedAt (w.doAppend d carry reward block) asset i) :
    (i ≤ w.height ∧ IssuedAt w.db asset i) ∨
      (i = w.height + 1 ∧ ∃ tx ∈ block.transactionData, issuedBy tx = some asset) := by
  obtain ⟨hle, tx, hmem, hissued⟩ := hstored'.issuedAt_iff.mp h
  change i ≤ w.height + 1 at hle
  by_cases hi : i = w.height + 1
  · rw [hi] at hmem
    exact .inr ⟨hi, tx, (mem_block_of_doAppend hmem).1, hissued⟩
  · rw [transactionsAtHeight_doAppend (by omega)] at hmem
    exact .inl ⟨by omega, hstored.issuedAt_iff.mpr ⟨by omega, tx, hmem, hissued⟩⟩

omit [Ride] [BlockSerializer] in
variable (w d carry reward block asset) in
theorem assetScript_doAppend :
    (w.doAppend d carry reward block).assetScript asset =
      match d.assetScripts.get? asset with
      | none => w.db.assetScript asset
      | some script => (w.db.assetScript asset).push (w.height + 1)
          (w.height + 1 - w.dbSettings.maxRollbackDepth) script := by
  change ((d.assetScripts.get? asset).map _).getD _ = _
  rcases d.assetScripts.get? asset with _ | script <;> rfl

omit [Crypto] [PBTransactionSerializer] [Ride] [BlockSerializer] in
/-- What is written of a script ends at the height before. -/
theorem ScriptKept.upTo (h : ScriptKept w.db asset) (hheight : w.db.height = w.height)
    (hbelow : (∃ i, IssuedAt w.db asset i) ∨
      ∀ k ∈ (w.db.assetScript asset).heights, k ≤ w.height) :
    (w.db.assetScript asset).UpTo w.height := by
  rcases hbelow with ⟨i, hissued⟩ | hbelow
  · rw [← hheight]
    exact (h.issued i hissued).1
  · obtain ⟨m, hm⟩ := h.descends
    exact ⟨hm.sorted, hbelow, hm.written⟩

omit [Ride] [BlockSerializer] in
theorem ScriptKept.append (h : ScriptKept w.db asset) (hheight : w.db.height = w.height)
    (hstored : TransactionsStored w.db)
    (hstored' : TransactionsStored (w.doAppend d carry reward block))
    (hQ : ScriptsFollowed w (.append d carry reward block))
    (hrecords : d.Records block.transactionData) :
    ScriptKept (w.doAppend d carry reward block) asset := by
  have hhistory := assetScript_doAppend w d carry reward block asset
  have hwhere : ∀ {i}, IssuedAt (w.doAppend d carry reward block) asset i →
      (i ≤ w.height ∧ IssuedAt w.db asset i) ∨
        (i = w.height + 1 ∧ ∃ tx ∈ block.transactionData, issuedBy tx = some asset) :=
    fun hi => issuedAt_doAppend hheight hstored hstored' hi
  rcases hscript : d.assetScripts.get? asset with _ | script
  · rw [hscript] at hhistory
    have hsame : (w.doAppend d carry reward block).assetScript asset = w.db.assetScript asset :=
      hhistory
    refine ⟨by rw [hsame]; exact h.descends, ?_⟩
    intro i hi
    rw [hsame]
    rcases hwhere hi with ⟨hle, hold⟩ | ⟨-, tx, htx, hissued⟩
    · obtain ⟨hupTo, hindexed⟩ := h.issued i hold
      refine ⟨hupTo.mono (by rw [hheight]; exact Nat.le_succ _), ?_⟩
      intro k hk hik
      have hkle := hupTo.le k hk
      obtain ⟨tx, htx, hundone⟩ := hindexed k hk hik
      exact ⟨tx, by rwa [transactionsAtHeight_doAppend (by omega)], hundone⟩
    · -- an Issue writes the script
      have hmem := (hrecords.issues tx htx asset hissued).2
      exact absurd ((d.assetScripts.get?_eq_none_iff asset).mp hscript) (not_not.mpr hmem)
  · rw [hscript] at hhistory
    have hpushed : (w.doAppend d carry reward block).assetScript asset =
        (w.db.assetScript asset).push (w.height + 1)
          (w.height + 1 - w.dbSettings.maxRollbackDepth) script := hhistory
    have hmem : asset ∈ d.assetScripts.dom := FiniteMap.mem_dom_of_get? hscript
    have hupTo := h.upTo hheight (hQ.2.1 asset hmem)
    have hnew : ((w.db.assetScript asset).push (w.height + 1)
        (w.height + 1 - w.dbSettings.maxRollbackDepth) script).UpTo (w.height + 1) :=
      hupTo.push (Nat.lt_succ_self _)
    refine ⟨⟨w.height + 1, by rw [hpushed]; exact hnew⟩, ?_⟩
    intro i hi
    rw [hpushed]
    refine ⟨hnew, ?_⟩
    intro k hk hik
    rcases History.heights_push_subset hk with rfl | hold
    · rcases hwhere hi with ⟨hle, hissuedAt⟩ | ⟨heq, -⟩
      · obtain ⟨tx, htx, hundone | hissued⟩ := hrecords.assetScripts asset hmem
        · exact ⟨tx, mem_transactionsAtHeight_doAppend hQ.1.1 htx, hundone⟩
        · exact absurd hissued (not_issuedBy_of_fresh hQ.1.2 hstored hissuedAt htx)
      · omega
    · have hkle := hupTo.le k hold
      rcases hwhere hi with ⟨hle, hissuedAt⟩ | ⟨heq, -⟩
      · obtain ⟨tx, htx, hundone⟩ := (h.issued i hissuedAt).2 k hold hik
        exact ⟨tx, by rwa [transactionsAtHeight_doAppend hkle], hundone⟩
      · omega

omit [Ride] [BlockSerializer] in
theorem issuedAt_discardKeys {n : ℕ} (hheight : w.db.height = n + 1)
    (hstored : TransactionsStored w.db)
    (hstored' : TransactionsStored (w.discardKeys (n + 1))) {i : ℕ} :
    IssuedAt (w.discardKeys (n + 1)) asset i ↔ i ≤ n ∧ IssuedAt w.db asset i := by
  rw [hstored.issuedAt_iff, hstored'.issuedAt_iff]
  constructor
  · rintro ⟨hle, tx, hmem, hissued⟩
    change i ≤ n at hle
    rw [transactionsAtHeight_discardKeys (by omega)] at hmem
    exact ⟨hle, by omega, tx, hmem, hissued⟩
  · rintro ⟨hle, -, tx, hmem, hissued⟩
    refine ⟨hle, tx, ?_, hissued⟩
    rwa [transactionsAtHeight_discardKeys (by omega)]

omit [Ride] [BlockSerializer] in
theorem ScriptKept.discard {n : ℕ} (h : ScriptKept w.db asset) (hheight : w.db.height = n + 1)
    (hstored : TransactionsStored w.db)
    (hstored' : TransactionsStored (w.discardKeys (n + 1))) :
    ScriptKept (w.discardKeys (n + 1)) asset := by
  obtain ⟨m, hm⟩ := h.descends
  have hlast : ∀ {i}, IssuedAt (w.discardKeys (n + 1)) asset i →
      i ≤ n ∧ (w.db.assetScript asset).UpTo (n + 1) ∧
        ∀ k ∈ (w.db.assetScript asset).heights, i < k →
          ∃ tx ∈ w.db.transactionsAtHeight k, assetScriptUndoneBy tx = some asset := by
    intro i hi
    obtain ⟨hle, hold⟩ := (issuedAt_discardKeys hheight hstored hstored').mp hi
    rw [← hheight]
    exact ⟨hle, h.issued i hold⟩
  have hkeep : ∀ {k tx}, k ≤ n → tx ∈ w.db.transactionsAtHeight k →
      tx ∈ (w.discardKeys (n + 1)).transactionsAtHeight k := by
    intro k tx hk htx
    rwa [transactionsAtHeight_discardKeys (by omega)]
  by_cases hany : (w.db.transactionsAtHeight (n + 1)).any fun tx =>
      assetScriptUndoneBy tx = some asset
  · have hdrop : (w.discardKeys (n + 1)).assetScript asset =
        (w.db.assetScript asset).drop (n + 1) := if_pos hany
    refine ⟨⟨m, by rw [hdrop]; exact hm.drop⟩, ?_⟩
    intro i hi
    obtain ⟨hle, hupTo, hindexed⟩ := hlast hi
    rw [hdrop]
    refine ⟨hupTo.drop_last, ?_⟩
    intro k hk hik
    have hkn := hupTo.drop_last.le k hk
    obtain ⟨tx, htx, hundone⟩ := hindexed k (List.mem_filter.mp hk).1 hik
    exact ⟨tx, hkeep hkn htx, hundone⟩
  · have hsame : (w.discardKeys (n + 1)).assetScript asset = w.db.assetScript asset := if_neg hany
    refine ⟨⟨m, by rw [hsame]; exact hm⟩, ?_⟩
    intro i hi
    obtain ⟨hle, hupTo, hindexed⟩ := hlast hi
    -- nothing was written at the last height
    have hpred : (w.db.assetScript asset).UpTo n := by
      refine hupTo.pred fun hmem => ?_
      obtain ⟨tx, htx, hundone⟩ := hindexed (n + 1) hmem (by omega)
      exact hany (List.any_eq_true.mpr ⟨tx, htx, decide_eq_true hundone⟩)
    rw [hsame]
    refine ⟨hpred, ?_⟩
    intro k hk hik
    obtain ⟨tx, htx, hundone⟩ := hindexed k hk hik
    exact ⟨tx, hkeep (hpred.le k hk) htx, hundone⟩

end

/-- **In every run** the scripts of the assets that are issued are kept. -/
theorem scriptsKept :
    KeysInvariant ScriptsFollowed fun db => TransactionsStored db ∧ ∀ asset, ScriptKept db asset := by
  have hstored : KeysInvariant ScriptsFollowed TransactionsStored :=
    transactionsStored fun _ _ _ _ _ hQ => hQ.1
  refine ⟨⟨hstored.empty, ?_⟩, ?_, ?_⟩
  · intro asset
    exact ⟨⟨0, History.upTo_empty 0⟩, fun i ⟨tx, hinfo⟩ => by cases hinfo⟩
  · intro w d carry reward block hheight hQ hblock h
    have hstored' : TransactionsStored (w.doAppend d carry reward block) :=
      hstored.append hheight hQ hblock h.1
    exact ⟨hstored', fun asset =>
      (h.2 asset).append hheight h.1 hstored' hQ (hblock.records hQ.1.1)⟩
  · intro w n hheight hn h
    have hstored' := hstored.discard hheight hn h.1
    exact ⟨hstored', fun asset => (h.2 asset).discard hheight h.1 hstored'⟩

/-! ## 3. Descriptions in the cache -/

/-- What the cache holds is what the keys say. -/
def DescriptionsCached (w : LevelDBWriter) : Prop :=
  ∀ asset v, w.assetDescriptionCache asset = some v → v = w.db.loadAssetDescription asset

section
omit [Crypto] [PBTransactionSerializer] [Ride] [BlockSerializer]

theorem loadAssetDescription_of_issued {db : Keys} {asset : IssuedAsset} {h : ℕ}
    (hissued : IssuedAt db asset h) :
    ∃ desc, db.loadAssetDescription asset = some desc ∧
      desc.script = (db.assetScript asset).latest.map Prod.fst := by
  obtain ⟨itx, hinfo⟩ := hissued
  rw [Keys.loadAssetDescription, hinfo]
  exact ⟨_, rfl, rfl⟩

theorem loadAssetDescription_of_not_issued {db : Keys} {asset : IssuedAsset}
    (hno : ∀ h, ¬ IssuedAt db asset h) : db.loadAssetDescription asset = none := by
  unfold Keys.loadAssetDescription
  split
  · rename_i h itx hinfo
    exact absurd ⟨itx, hinfo⟩ (hno h)
  · rfl

/-- A description is made of the transaction of the issue and three values. -/
theorem loadAssetDescription_congr {db db' : Keys} {asset : IssuedAsset}
    (hinfo : ∀ h itx, db.transactionInfo asset.id = some (h, .issue itx) ↔
      db'.transactionInfo asset.id = some (h, .issue itx))
    (hassetInfo : (db.assetInfo asset).latest = (db'.assetInfo asset).latest)
    (hsponsorship : (db.sponsorship asset).latest = (db'.sponsorship asset).latest)
    (hscript : ∀ h, IssuedAt db asset h →
      (db.assetScript asset).latest.map Prod.fst = (db'.assetScript asset).latest.map Prod.fst) :
    db.loadAssetDescription asset = db'.loadAssetDescription asset := by
  by_cases hissued : ∃ h, IssuedAt db asset h
  · obtain ⟨h, hat⟩ := hissued
    have hsame := hscript h hat
    obtain ⟨itx, heq⟩ := hat
    rw [Keys.loadAssetDescription, Keys.loadAssetDescription, heq, (hinfo h itx).mp heq]
    dsimp only
    rw [hassetInfo, hsponsorship, hsame]
  · rw [not_exists] at hissued
    rw [loadAssetDescription_of_not_issued hissued,
      loadAssetDescription_of_not_issued fun h ⟨itx, heq⟩ => hissued h ⟨itx, (hinfo h itx).mpr heq⟩]

theorem DescriptionsCached.assetDescription_eq {w : LevelDBWriter} (h : DescriptionsCached w)
    (asset : IssuedAsset) : w.assetDescription asset = w.db.loadAssetDescription asset := by
  rw [assetDescription]
  rcases hc : w.assetDescriptionCache asset with _ | v
  · rfl
  · exact h asset v hc

end

section

variable {w : LevelDBWriter} {asset : IssuedAsset}

omit [Ride] [BlockSerializer] in
theorem DescriptionsCached.append {d : Diff} {carry : Long} {reward : Option Long} {block : Block}
    (h : DescriptionsCached w) (hheight : w.db.height = w.height)
    (hstored : TransactionsStored w.db)
    (hstored' : TransactionsStored (w.doAppend d carry reward block))
    (hscripts : ∀ asset, ScriptKept w.db asset)
    (hQ : ScriptsFollowed w (.append d carry reward block))
    (hrecords : d.Records block.transactionData) :
    DescriptionsCached (w.append d carry reward block) := by
  intro asset v hv
  change (if d.issuedAssets.contains asset || d.sponsorship.contains asset then none
    else w.assetDescriptionCache asset) = some v at hv
  by_cases hdropped : (d.issuedAssets.contains asset || d.sponsorship.contains asset) = true
  · rw [if_pos hdropped] at hv
    cases hv
  · rw [if_neg hdropped] at hv
    rw [Bool.or_eq_true, not_or, FiniteMap.contains_iff_mem_dom, FiniteMap.contains_iff_mem_dom]
      at hdropped
    obtain ⟨hinfoNew, hsponsorNew⟩ := hdropped
    rw [h asset v hv]
    change w.db.loadAssetDescription asset =
      (w.doAppend d carry reward block).loadAssetDescription asset
    refine loadAssetDescription_congr ?_ ?_ ?_ ?_
    · intro k itx
      rw [hstored.transactionInfo_eq_some rfl, hstored'.transactionInfo_eq_some rfl]
      constructor
      · rintro ⟨hle, hmem, hid⟩
        refine ⟨by rw [hheight] at hle; exact Nat.le_succ_of_le hle, ?_, hid⟩
        rwa [transactionsAtHeight_doAppend (by omega)]
      · rintro ⟨hle, hmem, hid⟩
        change k ≤ w.height + 1 at hle
        by_cases hk : k = w.height + 1
        · -- the block would change the volume
          rw [hk] at hmem
          refine absurd (hrecords.issues _ (mem_block_of_doAppend hmem).1 asset ?_).1 hinfoNew
          exact congrArg (fun id => some (IssuedAsset.mk id)) hid
        · rw [transactionsAtHeight_doAppend (by omega)] at hmem
          exact ⟨by omega, hmem, hid⟩
    · change _ = ((w.db.assetInfo asset).pushSome _ _ ((d.issuedAssets.get? asset).map _)).latest
      rw [(d.issuedAssets.get?_eq_none_iff asset).mpr hinfoNew]
      rfl
    · rw [sponsorship_doAppend, newSponsorship,
        (d.sponsorship.get?_eq_none_iff asset).mpr hsponsorNew]
      rfl
    · intro k hissued
      have hhistory := assetScript_doAppend w d carry reward block asset
      rcases hscript : d.assetScripts.get? asset with _ | script
      · rw [hscript] at hhistory
        rw [show (w.doAppend d carry reward block).assetScript asset = w.db.assetScript asset
          from hhistory]
      · rw [hscript] at hhistory
        have hmem : asset ∈ d.assetScripts.dom := FiniteMap.mem_dom_of_get? hscript
        have hupTo := (hscripts asset).upTo hheight (.inl ⟨k, hissued⟩)
        have hlatest : ((w.doAppend d carry reward block).assetScript asset).latest = script := by
          rw [show (w.doAppend d carry reward block).assetScript asset = _ from hhistory]
          exact History.latest_push hupTo (Nat.lt_succ_self _)
        obtain ⟨desc, hload, hdesc⟩ := loadAssetDescription_of_issued hissued
        have hcached : w.assetDescriptionCache asset = some (some desc) := by
          rw [hv, h asset v hv, hload]
        have hsame := hQ.2.2 asset hmem hinfoNew hsponsorNew desc hcached
        rw [hscript, Option.getD_some] at hsame
        rw [← hdesc, hsame, hlatest]

omit [Ride] [BlockSerializer] in
/-- The rounds of a rollback leave a history that no transaction of theirs undoes. -/
theorem history_discardBlocks {υ : Type} (history : Keys → History υ)
    (undoneBy : Transaction → Prop) [DecidablePred undoneBy]
    (hdiscard : ∀ (w : LevelDBWriter) (n : ℕ), history (w.discardKeys n) =
      if (w.db.transactionsAtHeight n).any fun tx => undoneBy tx then (history w.db).drop n
      else history w.db) (targetHeight : ℕ) :
    ∀ (n : ℕ) (w : LevelDBWriter), w.db.height = targetHeight + n →
      ¬ UndoneAbove w.db targetHeight undoneBy →
      history (discardBlocks targetHeight n w).db = history w.db
  | 0, _, _, _ => rfl
  | n + 1, w, hheight, hno => by
    rw [discardBlocks, history_discardBlocks history undoneBy hdiscard targetHeight n _ rfl]
    · change history (w.discardKeys (targetHeight + n + 1)) = _
      rw [hdiscard, if_neg]
      intro hany
      obtain ⟨tx, htx, hkind⟩ := List.any_eq_true.mp hany
      exact hno ⟨targetHeight + n + 1, by omega, by omega, tx, htx, of_decide_eq_true hkind⟩
    · rintro ⟨h, hlt, hle, tx, htx, hkind⟩
      change h ≤ targetHeight + n at hle
      change tx ∈ (w.discardKeys (targetHeight + n + 1)).transactionsAtHeight h at htx
      rw [transactionsAtHeight_discardKeys (by omega)] at htx
      exact hno ⟨h, hlt, by omega, tx, htx, hkind⟩

omit [Ride] [BlockSerializer] in
/-- A description that is still in the cache after a rollback was there before, and no
transaction of the blocks changed its volume or sponsorship. -/
theorem cache_discardBlocks (targetHeight : ℕ) {v : Option AssetDescription} :
    ∀ (n : ℕ) (w : LevelDBWriter), w.db.height = targetHeight + n →
      (discardBlocks targetHeight n w).assetDescriptionCache asset = some v →
      w.assetDescriptionCache asset = some v ∧ ¬ UndoneAbove w.db targetHeight fun tx =>
        assetInfoUndoneBy tx = some asset ∨ sponsorshipUndoneBy tx = some asset
  | 0, w, hheight, hv => by
    refine ⟨hv, ?_⟩
    rintro ⟨h, hlt, hle, -⟩
    omega
  | n + 1, w, hheight, hv => by
    rw [discardBlocks] at hv
    obtain ⟨hround, hno⟩ := cache_discardBlocks targetHeight n _ rfl hv
    change (if _ then none else w.assetDescriptionCache asset) = some v at hround
    split at hround
    · cases hround
    · rename_i hany
      refine ⟨hround, ?_⟩
      rintro ⟨h, hlt, hle, tx, htx, hkind⟩
      by_cases hlast : h = targetHeight + n + 1
      · rw [hlast] at htx
        refine hany (List.any_eq_true.mpr ⟨tx, htx, ?_⟩)
        rw [Bool.or_eq_true, decide_eq_true_eq, decide_eq_true_eq]
        exact hkind
      · refine hno ⟨h, hlt, ?_, tx, ?_, hkind⟩
        · change h ≤ targetHeight + n
          omega
        · change tx ∈ (w.discardKeys (targetHeight + n + 1)).transactionsAtHeight h
          rwa [transactionsAtHeight_discardKeys (by omega)]

omit [Ride] [BlockSerializer] in
theorem asOf_assetScript_discardBlocks {targetHeight k : ℕ} (hk : k ≤ targetHeight) :
    ∀ (w : LevelDBWriter) (n : ℕ),
      ((discardBlocks targetHeight n w).db.assetScript asset).asOf k =
        (w.db.assetScript asset).asOf k
  | _, 0 => rfl
  | w, n + 1 => by
    rw [discardBlocks, asOf_assetScript_discardBlocks hk]
    change (if _ then (w.db.assetScript asset).drop _ else w.db.assetScript asset).asOf k = _
    split
    · exact History.asOf_drop (by omega)
    · rfl

theorem DescriptionsCached.doRollback {id : BlockId} (h : DescriptionsCached w) (hw : Sound w)
    (hkept : TransactionsStored w.db ∧ ∀ asset, ScriptKept w.db asset)
    (hQ : ScriptsFollowed w (.rollbackTo id)) : DescriptionsCached (w.doRollback id) := by
  have hkeptEnd := scriptsKept.doRollback hw id hkept
  rw [LevelDBWriter.doRollback] at hkeptEnd ⊢
  rcases hid : w.db.heightOf id with _ | targetHeight
  · exact h
  · rw [hid] at hkeptEnd
    dsimp only at hkeptEnd ⊢
    have hheight := hw.height
    by_cases ht : targetHeight ≤ w.height
    · have hsum : w.db.height = targetHeight + (w.height - targetHeight) := by omega
      have hend := height_discardBlocks targetHeight w _ hsum
      intro asset v hv
      obtain ⟨hold, hno⟩ := cache_discardBlocks targetHeight _ w hsum hv
      rw [h asset v hold]
      refine loadAssetDescription_congr ?_ ?_ ?_ ?_
      · intro k itx
        rw [hkept.1.transactionInfo_eq_some rfl, hkeptEnd.1.transactionInfo_eq_some rfl, hend]
        constructor
        · rintro ⟨hle, hmem, hissue⟩
          have hkt : k ≤ targetHeight := by
            by_contra habove
            refine hno ⟨k, by omega, hle, .issue itx, hmem, .inl ?_⟩
            exact congrArg (fun id => some (IssuedAsset.mk id)) hissue
          exact ⟨hkt, by rwa [transactionsAtHeight_discardBlocks hkt], hissue⟩
        · rintro ⟨hkt, hmem, hissue⟩
          rw [transactionsAtHeight_discardBlocks hkt] at hmem
          exact ⟨by omega, hmem, hissue⟩
      · rw [history_discardBlocks (fun db => db.assetInfo asset)
          (fun tx => assetInfoUndoneBy tx = some asset) (fun _ _ => rfl) targetHeight _ w hsum]
        rintro ⟨k, hlt, hle, tx, htx, hkind⟩
        exact hno ⟨k, hlt, hle, tx, htx, .inl hkind⟩
      · rw [history_discardBlocks (fun db => db.sponsorship asset)
          (fun tx => sponsorshipUndoneBy tx = some asset) (fun _ _ => rfl) targetHeight _ w hsum]
        rintro ⟨k, hlt, hle, tx, htx, hkind⟩
        exact hno ⟨k, hlt, hle, tx, htx, .inr hkind⟩
      · intro k hissued
        by_cases hundone : UndoneAbove w.db targetHeight fun tx =>
            assetScriptUndoneBy tx = some asset
        · have hcond := (hQ targetHeight hid asset hundone).resolve_left hno
          obtain ⟨desc, hload, hdesc⟩ := loadAssetDescription_of_issued hissued
          have hcached : w.assetDescriptionCache asset = some (some desc) := by
            rw [hold, h asset v hold, hload]
          -- the asset is still issued: its issue would have been undone with the volume
          have hstill : IssuedAt (discardBlocks targetHeight (w.height - targetHeight) w).db asset
              k := by
            obtain ⟨hle, tx, htx, hby⟩ := hkept.1.issuedAt_iff.mp hissued
            have hkt : k ≤ targetHeight := by
              by_contra habove
              refine hno ⟨k, by omega, hle, tx, htx, .inl ?_⟩
              cases tx with
              | issue itx => exact hby
              | _ => cases hby
            refine hkeptEnd.1.issuedAt_iff.mpr ⟨by rw [hend]; exact hkt, tx, ?_, hby⟩
            rwa [transactionsAtHeight_discardBlocks hkt]
          have hupTo := ((hkeptEnd.2 asset).issued k hstill).1
          rw [hend] at hupTo
          rw [hupTo.latest_eq_asOf, asOf_assetScript_discardBlocks (Nat.le_refl _), ← hdesc,
            hcond desc hcached]
        · rw [history_discardBlocks (fun db => db.assetScript asset)
            (fun tx => assetScriptUndoneBy tx = some asset) (fun _ _ => rfl) targetHeight _ w hsum
            hundone]
    · have hzero : w.height - targetHeight = 0 := by omega
      rw [hzero]
      exact h

/-- What is known of a database in a run that meets the condition. -/
structure AssetsKept (w : LevelDBWriter) : Prop where
  stored : TransactionsStored w.db
  scripts : ∀ asset, ScriptKept w.db asset
  cached : DescriptionsCached w

theorem AssetsKept.leads {v : LevelDBWriter} {e : Event} (h : AssetsKept w) (hw : Sound w)
    (hQ : ScriptsFollowed w e) (hleads : e.Leads w v) : AssetsKept v := by
  have hkept := scriptsKept.leads hw hQ ⟨h.stored, h.scripts⟩ hleads
  refine ⟨hkept.1, hkept.2, ?_⟩
  cases e with
  | append d carry reward block =>
    obtain ⟨hblock, rfl⟩ := hleads
    exact h.cached.append hw.height h.stored hkept.1 h.scripts hQ (hblock.records hQ.1.1)
  | rollbackTo id =>
    have hcached := h.cached.doRollback hw ⟨h.stored, h.scripts⟩ hQ
    rw [rollbackTo_eq_ok hleads]
    exact fun asset desc hdesc => hcached asset desc hdesc
  | load key =>
    cases hleads
    cases key with
    | assetDescription asset' =>
      intro asset desc hdesc
      change Function.update w.assetDescriptionCache asset' (some (w.assetDescription asset'))
        asset = some desc at hdesc
      by_cases hkey : asset = asset'
      · rw [← hkey, Function.update_self] at hdesc
        rw [← Option.some.inj hdesc]
        exact h.cached.assetDescription_eq asset
      · rw [Function.update_of_ne hkey] at hdesc
        exact h.cached asset desc hdesc
    | _ => exact h.cached
  | evict key =>
    cases hleads
    cases key with
    | assetDescription asset' =>
      intro asset desc hdesc
      change Function.update w.assetDescriptionCache asset' none asset = some desc at hdesc
      by_cases hkey : asset = asset'
      · rw [← hkey, Function.update_self] at hdesc
        cases hdesc
      · rw [Function.update_of_ne hkey] at hdesc
        exact h.cached asset desc hdesc
    | _ => exact h.cached
  | restart =>
    cases hleads
    intro asset desc hdesc
    cases hdesc

theorem assetsKept_reachable {settings : BlockchainSettings} {dbSettings : DBSettings}
    (h : Reachable ScriptsFollowed settings dbSettings w) : AssetsKept w := by
  induction h with
  | empty =>
    refine ⟨scriptsKept.empty.1, scriptsKept.empty.2, ?_⟩
    intro asset desc hdesc
    cases hdesc
  | step hrun hQ hleads ih => exact ih.leads hrun.sound hQ hleads

theorem assetsKept_grows {v : LevelDBWriter} (hw : Sound w) (h : AssetsKept w)
    (hgrows : Grows ScriptsFollowed w v) : AssetsKept v := by
  induction hgrows with
  | refl => exact h
  | step hrun hQ _ hleads ih => exact ih.leads (hrun.sound hw) hQ hleads

/-! ## 4. The description after a rollback -/

/-- Blocks on top of an issued asset leave it issued, and leave the script it had. -/
theorem asOf_assetScript_grows {v : LevelDBWriter} (hw : Sound w) (h : AssetsKept w)
    (hgrows : Grows ScriptsFollowed w v) {i : ℕ} (hissued : IssuedAt w.db asset i) :
    IssuedAt v.db asset i ∧ (v.db.safeRollbackHeight ≤ w.height →
      (v.db.assetScript asset).asOf w.height = (w.db.assetScript asset).asOf w.height) := by
  induction hgrows with
  | refl => exact ⟨hissued, fun _ => rfl⟩
  | @step v v' e hrun hQ hno hleads ih =>
    have hv := hrun.sound hw
    have hkept := assetsKept_grows hw h hrun
    have hkept' := hkept.leads hv hQ hleads
    have hle := height_grows hw hrun
    obtain ⟨hstill, hasOf⟩ := ih
    cases e with
    | append d carry reward block =>
      obtain ⟨-, rfl⟩ := hleads
      refine ⟨?_, ?_⟩
      · obtain ⟨hi, tx, htx, hby⟩ := hkept.stored.issuedAt_iff.mp hstill
        rw [hv.height] at hi
        refine hkept'.stored.issuedAt_iff.mpr ⟨Nat.le_succ_of_le hi, tx, ?_, hby⟩
        change tx ∈ (v.doAppend d carry reward block).transactionsAtHeight i
        rwa [transactionsAtHeight_doAppend hi]
      · intro hsafe
        change max v.db.safeRollbackHeight (v.height + 1 - v.dbSettings.maxRollbackDepth) ≤
          w.height at hsafe
        rw [← hasOf (by omega)]
        change ((v.doAppend d carry reward block).assetScript asset).asOf w.height = _
        rw [assetScript_doAppend]
        rcases d.assetScripts.get? asset with _ | script
        · rfl
        · have hupTo := (hkept.scripts asset).upTo hv.height (.inl ⟨i, hstill⟩)
          exact History.asOf_push hupTo (Nat.lt_succ_self _) (by omega) (by omega)
    | rollbackTo id => exact absurd rfl (hno id)
    | load key =>
      cases hleads
      rw [db_load]
      exact ⟨hstill, hasOf⟩
    | evict key =>
      cases hleads
      rw [db_evict]
      exact ⟨hstill, hasOf⟩
    | restart =>
      cases hleads
      exact ⟨hstill, hasOf⟩

/-- **A rollback undoes the appended blocks** for the descriptions of assets, where every
change of an asset is found by the transactions and the cache of descriptions is dropped
with it. -/
theorem doRollback_assets {settings : BlockchainSettings} {dbSettings : DBSettings}
    {v : LevelDBWriter} {id : BlockId} (h : Reachable AssetsIndexed settings dbSettings w)
    (hgrows : Grows AssetsIndexed w v) (htarget : v.db.heightOf id = some w.height)
    (hsafe : v.db.safeRollbackHeight ≤ w.height) (hQ : AssetsIndexed v (.rollbackTo id)) :
    ∀ asset, (v.doRollback id).assetDescription asset = w.assetDescription asset := by
  intro asset
  have hw := h.sound
  have hv := hgrows.sound hw
  have hfollowed : Grows ScriptsFollowed w v := hgrows.mono fun _ _ hQ => hQ.1
  have hkept := assetsKept_reachable (h.mono fun _ _ hQ => hQ.1)
  have hkeptV := assetsKept_grows hw hkept hfollowed
  have hend := scriptsKept.doRollback hv id ⟨hkeptV.stored, hkeptV.scripts⟩
  have hcached := hkeptV.cached.doRollback hv ⟨hkeptV.stored, hkeptV.scripts⟩ hQ.1
  have hstored : KeysInvariant AssetsIndexed TransactionsStored :=
    transactionsStored fun _ _ _ _ _ hQ => hQ.1.1
  have hinfo : ∀ h' itx, (v.doRollback id).db.transactionInfo asset.id = some (h', .issue itx) ↔
      w.db.transactionInfo asset.id = some (h', .issue itx) :=
    fun h' itx => transactionInfo_doRollback hstored h hgrows htarget rfl
  have hroll : v.doRollback id = discardBlocks w.height (v.height - w.height) v := by
    rw [LevelDBWriter.doRollback, htarget]
  have hheight : (v.doRollback id).db.height = w.height := by
    have hle := height_grows hw hgrows
    have hvheight := hv.height
    rw [hroll]
    exact height_discardBlocks _ _ _ (by omega)
  rw [hcached.assetDescription_eq, hkept.cached.assetDescription_eq]
  refine loadAssetDescription_congr hinfo ?_ ?_ ?_
  · exact (lawful_keptAssetInfo asset).doRollback_answer h hgrows htarget hsafe
  · exact (lawful_keptSponsorship asset).doRollback_answer h hgrows htarget hsafe
  · rintro i ⟨itx, hissuedEnd⟩
    have hissued : IssuedAt w.db asset i := ⟨itx, (hinfo i itx).mp hissuedEnd⟩
    have hupToEnd := ((hend.2 asset).issued i ⟨itx, hissuedEnd⟩).1
    have hupTo := ((hkept.scripts asset).issued i hissued).1
    rw [hheight] at hupToEnd
    rw [hw.height] at hupTo
    rw [hupToEnd.latest_eq_asOf, hupTo.latest_eq_asOf, hroll,
      asOf_assetScript_discardBlocks (Nat.le_refl _),
      (asOf_assetScript_grows hw hkept hfollowed hissued).2 hsafe]

end

end LevelDBWriter

/-! ## 5. A reissue that is not undone

Bob calls a contract that reissues the token: the transaction is an invocation, and the
token's volume is not among what an invocation undoes. -/

namespace Devnet

def callBlock : Block where
  header :=
    { emptyBlock.header with
      timestamp := 1500000020000
      reference := contractBlock.signature
      generationSignature :=
        bytes 32 0xfaa1c63cbeee360372abcb14ffbdcb21d7fc5037a4b833c914fbafc77919e07b }
  signature := bytes 64
    0xb239c4529cf336fe512444a665e34c44b83c10ca4dbb652a47c4b80f48bd4742efa1813291b348a348739c18512f857d26d9ea912cab32ef0d4984f13325f18d
  transactionData := [.invokeScript contractCall]

def callBlockBytes : ByteStr :=
  bytes 316 0x030000015d3ef7e6208369c03c7998c1e0c07955710fdb4b73bf0c2d614977397be1e7672600c5b50c987a2207805594a6dc6bd99ea03619953ae9eb85d646ab9704b0d645372a3c8f000000280000000009299ff3faa1c63cbeee360372abcb14ffbdcb21d7fc5037a4b833c914fbafc77919e07b0000009f000000010000009700100154c0b126b5aa134b84e64625256b8de8973787612b1f3839d2c60526d2114e886d0154ea58e2539eb41410f8873ff020608b0c8325427feaaacd73000000000000000007a120000000015d3ef798000100010040ed3192c2f706569876d9cf91f404c72e53b45c48c3b88a110da68b9c9676fb696340749f8bb5de397f21d7a35b09e1f3efc1878825f73a7eddd0e4b924249e87000000001885844ed84c86501cd2221627f1d16cd4c60530e5415e1bf6cab037b054f150

/-- The platform on which the contract reissues half as much of the token again. -/
def reissueAnswers : KnownAnswers :=
  (contractBlocks [.reissue ⟨tokenId, true, 500⟩]).and
    { signatures := [⟨miner.publicKey, callBlockBytes, callBlock.signature⟩]
      blocks := [(callBlock, callBlockBytes)] }

end Devnet

section
open Devnet LevelDBWriter

local instance reissueCrypto : Crypto := reissueAnswers.crypto
local instance reissueSerializer : PBTransactionSerializer := pbTransactionSerializer
local instance reissueBlocks : BlockSerializer := reissueAnswers.blockSerializer
local instance reissueRide : Ride := reissueAnswers.ride

namespace Devnet

def noAssets : LevelDBWriter := .empty contractSettings dbSettings

def beforeAssets : Validation LevelDBWriter := noAssets.appendBlocks [genesisBlock]

def withoutAssets : LevelDBWriter := beforeAssets.toOption.getD noAssets

def afterContract : Validation LevelDBWriter := withoutAssets.appendBlocks [contractBlock]

def withContract : LevelDBWriter := afterContract.toOption.getD noAssets

def afterReissue : Validation LevelDBWriter := withContract.appendBlocks [callBlock]

def atReissue : LevelDBWriter := afterReissue.toOption.getD noAssets

/-- Whether the volumes a block changes are those of its transactions, and no script of an
asset is. -/
def assetsIndexed (w : LevelDBWriter) (block : Block) : Bool :=
  (BlockDiffer.fromBlock w.blockchain w.lastBlock block .Unlimited).toOption.any fun r =>
    decide ((∀ asset ∈ r.diff.issuedAssets.dom, ∃ tx ∈ block.transactionData,
        assetInfoUndoneBy tx = some asset) ∧
      ∀ asset ∈ r.diff.assetScripts.dom,
        (w.db.assetScript asset).heights = [] ∧ asset ∈ r.diff.issuedAssets.dom)

end Devnet

/-- The run, and the volume of the token before the call and after the rollback. -/
theorem reissue_run :
    (beforeAssets.toOption.isSome ∧ afterContract.toOption.isSome ∧
        afterReissue.toOption.isSome) ∧
      (assetsIndexed noAssets genesisBlock ∧ assetsIndexed withoutAssets contractBlock) ∧
      (withContract.db.heightOf genesisBlock.signature = some withoutAssets.height ∧
        withContract.db.safeRollbackHeight ≤ withoutAssets.height) ∧
      (withoutAssets.height = 1 ∧ withContract.db.height = 2 ∧
        ∀ tx ∈ withContract.db.transactionsAtHeight 2, assetScriptUndoneBy tx = none) ∧
      (atReissue.db.heightOf contractBlock.signature = some withContract.height ∧
        atReissue.db.safeRollbackHeight ≤ withContract.height) ∧
      ((withContract.assetDescription tokenAsset).map AssetDescription.totalVolume = some 1000 ∧
        ((atReissue.doRollback contractBlock.signature).assetDescription tokenAsset).map
          AssetDescription.totalVolume = some 1500) ∧
      IdsDistinct genesisBlock.transactionData ∧ IdsDistinct contractBlock.transactionData ∧
      IdsFresh withoutAssets.db contractBlock := by
  decide +kernel

theorem beforeAssets_eq : beforeAssets = .ok withoutAssets := Validation.eq_ok_getD reissue_run.1.1

theorem afterContract_eq : afterContract = .ok withContract :=
  Validation.eq_ok_getD reissue_run.1.2.1

theorem afterReissue_eq : afterReissue = .ok atReissue := Validation.eq_ok_getD reissue_run.1.2.2

theorem assetsIndexed_of_indexed {w : LevelDBWriter} {block : Block} {r : BlockDiffer.Result}
    (hids : IdsDistinct block.transactionData ∧ IdsFresh w.db block)
    (h : assetsIndexed w block = true)
    (hr : BlockDiffer.fromBlock w.blockchain w.lastBlock block .Unlimited = .ok r) :
    AssetsIndexed w (.append r.diff r.carry none block) := by
  rw [assetsIndexed, hr] at h
  obtain ⟨hvolumes, hscripts⟩ := of_decide_eq_true h
  refine ⟨⟨hids, ?_, ?_⟩, hvolumes⟩
  · intro asset hasset
    refine .inr fun k hk => ?_
    rw [(hscripts asset hasset).1] at hk
    cases hk
  · intro asset hasset hnot
    exact absurd (hscripts asset hasset).2 hnot

theorem doRollback_assets_genesis :
    (withContract.doRollback genesisBlock.signature).assetDescription tokenAsset =
      withoutAssets.assetDescription tokenAsset := by
  obtain ⟨hgenesis, hcontract, hfreshContract⟩ := reissue_run.2.2.2.2.2.2
  have hfresh : IdsFresh noAssets.db genesisBlock :=
    fun _ _ _ _ _ htx' => absurd htx' List.not_mem_nil
  have hreachable : Reachable AssetsIndexed contractSettings dbSettings withoutAssets :=
    Reachable.empty.grows (grows_appendBlock beforeAssets_eq fun r hr =>
      assetsIndexed_of_indexed ⟨hgenesis, hfresh⟩ reissue_run.2.1.1 hr)
  have hgrows : Grows AssetsIndexed withoutAssets withContract :=
    grows_appendBlock afterContract_eq fun r hr =>
      assetsIndexed_of_indexed ⟨hcontract, hfreshContract⟩ reissue_run.2.1.2 hr
  obtain ⟨htarget, hsafe⟩ := reissue_run.2.2.1
  obtain ⟨hone, htwo, hnone⟩ := reissue_run.2.2.2.1
  refine doRollback_assets hreachable hgrows htarget hsafe ⟨?_, trivial⟩ tokenAsset
  -- no transaction that is taken off is for the script of an asset
  rintro targetHeight ht asset ⟨h, hlt, hle, tx, htx, hundone⟩
  rw [htarget, Option.some.injEq] at ht
  have hh : h = 2 := by omega
  rw [hh] at htx
  rw [hnone tx htx] at hundone
  cases hundone

/-- The rollback to the contract's block leaves the token's volume as the call made it. -/
theorem doRollback_reissued :
    ¬∀ (settings : BlockchainSettings) (dbSettings : DBSettings) (w v : LevelDBWriter)
      (id : BlockId), Reachable OwnBlock settings dbSettings w → Grows OwnBlock w v →
      v.db.heightOf id = some w.height → v.db.safeRollbackHeight ≤ w.height →
      ∀ asset, (v.doRollback id).assetDescription asset = w.assetDescription asset := by
  intro hclaim
  have hreachable : Reachable OwnBlock contractSettings dbSettings withContract :=
    (Reachable.empty.grows (grows_ownBlock beforeAssets_eq)).grows (grows_ownBlock afterContract_eq)
  have hsame := hclaim contractSettings dbSettings withContract atReissue contractBlock.signature
    hreachable (grows_ownBlock afterReissue_eq) reissue_run.2.2.2.2.1.1 reissue_run.2.2.2.2.1.2
    tokenAsset
  have hvolume := congrArg (Option.map AssetDescription.totalVolume) hsame
  rw [reissue_run.2.2.2.2.2.1.1, reissue_run.2.2.2.2.2.1.2] at hvolume
  exact absurd hvolume (by decide)

end

end WavesNode
