/-
The liquid view and the persisted one.

While a block is still liquid, validation reads the ledger through `CompositeBlockchain`:
the database below, and the block's diff on top. Once the block is appended, the database
answers for itself. The two have rules of their own for every query, and `ViewsAgree` says
that for the queries of validation the rules come to the same.

Most queries agree whatever the database holds: what the composite adds up is what
`append` writes, and a cache is overwritten with it. Three need more. A description comes
from the cache of descriptions, which is not dropped when only the script of an asset
changes; an alias may be disabled by the block that is appended; and a transaction is
looked for in memory first, which forgets old blocks. `ViewsFollowed` is what has to hold
of the run.
-/
import WavesNode.RollbackAssets
import WavesNode.RollbackLeases

set_option autoImplicit false

namespace WavesNode

namespace LevelDBWriter

variable [Crypto] [PBTransactionSerializer]

/-! ## 1. The condition -/

section
omit [Crypto] [PBTransactionSerializer]

/-- Nothing of an asset is in the database but, perhaps, a script. -/
def NeverIssued (db : Keys) (asset : IssuedAsset) : Prop :=
  (db.assetInfo asset).heights = [] ∧ (db.sponsorship asset).heights = []

/-- The transactions of a database and a block. -/
def HasTransaction (db : Keys) (block : Block) (tx : Transaction) : Prop :=
  tx ∈ block.transactionData ∨ ∃ h ≤ db.height, tx ∈ db.transactionsAtHeight h

end

/-- **The condition.** Besides what descriptions need: nothing is left in the database of an
asset that the block issues, and its volume is there of an issued one that the block
changes; at the height that disables hijacked aliases none is left to disable; and no
transaction is more than two hours ahead of the block. -/
def ViewsFollowed (w : LevelDBWriter) (e : Event) : Prop :=
  ScriptsFollowed w e ∧
    match e with
    | .append d _ _ block =>
      (∀ tx ∈ block.transactionData, ∀ asset, issuedBy tx = some asset → NeverIssued w.db asset) ∧
        (∀ asset ∈ d.issuedAssets.dom, (∃ h, IssuedAt w.db asset h) →
          (w.db.assetInfo asset).latest.isSome) ∧
        (w.activatedFeatures.get? BlockchainFeatures.DataTransaction.id = some (w.height + 1) →
          w.hijackedAliases ⊆ w.db.aliasIsDisabled) ∧
        ∀ tx, HasTransaction w.db block tx → tx.timestamp - TwoHours ≤ block.header.timestamp
    | _ => True

/-! ## 2. Transactions in memory -/

section
omit [Crypto] [PBTransactionSerializer]

/-- How the memory knows a transaction of an id and a timestamp: by its height, and then it
is not later than two hours after that block; or it is that early for every block in
memory. -/
def RememberedAs (w : LevelDBWriter) (id : ByteStr) (timestamp : Long) : Prop :=
  (∃ h ts, w.transactionIds id = some h ∧ w.blocksTs.get? h = some ts ∧
    timestamp - TwoHours ≤ ts) ∨
  ((w.transactionIds id).isSome ∨ timestamp - TwoHours ≤ w.oldestStoredBlockTimestamp) ∧
    ∀ h ts, w.blocksTs.get? h = some ts → timestamp - TwoHours ≤ ts

/-- Every transaction of the database is known, and every id in memory is in the database. -/
structure Remembered (w : LevelDBWriter) : Prop where
  stored : ∀ id, (w.transactionIds id).isSome → (w.db.transactionHNById id).isSome
  kept : ∀ id h tx, w.db.transactionInfo id = some (h, tx) → RememberedAs w id tx.timestamp

theorem RememberedAs.found {w : LevelDBWriter} {id : ByteStr} {timestamp : Long}
    (h : RememberedAs w id timestamp) :
    (w.transactionIds id).isSome ∨ timestamp - TwoHours ≤ w.oldestStoredBlockTimestamp := by
  rcases h with ⟨h, ts, hid, -, -⟩ | ⟨hfound, -⟩
  · exact .inl (by rw [hid]; rfl)
  · exact hfound

end

theorem TransactionsFound.isSome_transactionInfo {db : Keys} (h : TransactionsFound db)
    {id : ByteStr} (hid : (db.transactionHNById id).isSome) :
    ∃ height tx, db.transactionInfo id = some (height, tx) := by
  obtain ⟨⟨height, num⟩, hhn⟩ := Option.isSome_iff_exists.mp hid
  obtain ⟨-, tx, hnth, -⟩ := h.found id height num hhn
  refine ⟨height, tx, ?_⟩
  rw [Keys.transactionInfo, hhn]
  dsimp only [Option.bind_eq_bind, Option.bind_some]
  rw [hnth]
  rfl

/-- **The memory gives the right answer**: a transaction is there exactly if its id is. -/
theorem Remembered.containsTransaction_eq {w : LevelDBWriter} (h : Remembered w)
    (hstored : TransactionsFound w.db) {tx : Transaction}
    (htx : ∀ height tx', w.db.transactionInfo tx.id = some (height, tx') →
      tx'.timestamp = tx.timestamp) :
    w.containsTransaction tx = (w.db.transactionHNById tx.id).isSome := by
  rcases hid : (w.db.transactionHNById tx.id).isSome with _ | _
  · rw [containsTransaction, hid, Bool.and_false, Bool.or_false]
    rcases hmem : (w.transactionIds tx.id).isSome with _ | _
    · rfl
    · exact absurd (h.stored tx.id hmem) (by rw [hid]; exact Bool.false_ne_true)
  · obtain ⟨height, tx', hinfo⟩ := hstored.isSome_transactionInfo hid
    have hfound := (h.kept tx.id height tx' hinfo).found
    rw [htx height tx' hinfo] at hfound
    rw [containsTransaction, hid, Bool.and_true, Bool.or_eq_true, decide_eq_true_eq]
    exact hfound

section

variable {w : LevelDBWriter} {d : Diff} {carry : Long} {reward : Option Long} {block : Block}

/-- What a block makes the memory forget, it makes it find on disk. -/
theorem RememberedAs.append {id : ByteStr} {timestamp : Long}
    (hnew : timestamp - TwoHours ≤ block.header.timestamp)
    (h : id ∈ d.transactions.dom ∨ RememberedAs w id timestamp) :
    RememberedAs (w.append d carry reward block) id timestamp := by
  obtain ⟨oldest, holdest⟩ : ∃ oldest,
      (w.blocksTs.insert (w.height + 1) block.header.timestamp).toList.head? = some oldest := by
    have hmem : (w.height + 1, block.header.timestamp) ∈
        (w.blocksTs.insert (w.height + 1) block.header.timestamp).toList := by
      rw [FiniteMap.mem_toList, FiniteMap.get?_insert, if_pos rfl]
    rcases hl : (w.blocksTs.insert (w.height + 1) block.header.timestamp).toList with _ | ⟨e, rest⟩
    · rw [hl] at hmem
      cases hmem
    · exact ⟨e, rfl⟩
  obtain ⟨hget, hleast⟩ := FiniteMap.head?_toList holdest
  have holdestTs : (w.append d carry reward block).oldestStoredBlockTimestamp = oldest.2 := by
    change ((w.blocksTs.insert (w.height + 1) block.header.timestamp).toList.headD _).2 = _
    rw [List.headD_eq_head?_getD, holdest]
    rfl
  have hids : (w.append d carry reward block).transactionIds id =
      (if d.transactions.contains id then some (w.height + 1) else w.transactionIds id).filter
        fun h => oldest.1 ≤ h := by
    change Option.filter (fun h => decide (((w.blocksTs.insert (w.height + 1)
      block.header.timestamp).toList.headD (0, Long.MaxValue)).1 ≤ h)) _ = _
    rw [List.headD_eq_head?_getD, holdest]
    rfl
  have hts : (w.append d carry reward block).blocksTs =
      (w.blocksTs.insert (w.height + 1) block.header.timestamp).filter fun _ ts =>
        !(ts < block.header.timestamp - w.dbSettings.rememberBlocks) := rfl
  -- a height that the transaction is known by stays, or all that stay are later
  have hbyHeight : ∀ k ts, (w.blocksTs.insert (w.height + 1) block.header.timestamp).get? k =
      some ts → timestamp - TwoHours ≤ ts →
      (if d.transactions.contains id then some (w.height + 1) else w.transactionIds id) = some k →
      RememberedAs (w.append d carry reward block) id timestamp := by
    intro k ts hk hle hid
    have hknown : (w.append d carry reward block).transactionIds id = some k := by
      rw [hids, hid, Option.filter_some, if_pos (decide_eq_true (hleast k ts hk))]
    by_cases hforgotten : ts < block.header.timestamp - w.dbSettings.rememberBlocks
    · refine .inr ⟨.inl (by rw [hknown]; rfl), ?_⟩
      intro k' ts' hk'
      rw [hts, FiniteMap.get?_filter, Option.filter_eq_some_iff] at hk'
      have hstays : ¬ ts' < block.header.timestamp - w.dbSettings.rememberBlocks := by
        simpa using hk'.2
      exact Int64.le_trans hle (Int64.le_trans (Int64.le_of_lt hforgotten) (Int64.not_lt.mp hstays))
    · refine .inl ⟨k, ts, hknown, ?_, hle⟩
      rw [hts, FiniteMap.get?_filter, hk, Option.filter_some, if_pos]
      simpa using hforgotten
  rcases hcontained : d.transactions.contains id with _ | _
  · rw [hcontained] at hbyHeight
    have hnot : id ∉ d.transactions.dom := by
      rw [← FiniteMap.contains_iff_mem_dom, hcontained]
      exact Bool.false_ne_true
    rcases h.resolve_left hnot with ⟨k, ts, hid, hk, hle⟩ | ⟨-, hall⟩
    · by_cases hsame : k = w.height + 1
      · refine hbyHeight k block.header.timestamp ?_ hnew hid
        rw [FiniteMap.get?_insert, if_pos hsame]
      · refine hbyHeight k ts ?_ hle hid
        rwa [FiniteMap.get?_insert, if_neg hsame]
    · have hall' : ∀ k ts, (w.blocksTs.insert (w.height + 1) block.header.timestamp).get? k =
          some ts → timestamp - TwoHours ≤ ts := by
        intro k ts hk
        rw [FiniteMap.get?_insert] at hk
        split at hk
        · rw [← Option.some.inj hk]
          exact hnew
        · exact hall k ts hk
      refine .inr ⟨.inr ?_, ?_⟩
      · rw [holdestTs]
        exact hall' oldest.1 oldest.2 hget
      · intro k ts hk
        rw [hts, FiniteMap.get?_filter, Option.filter_eq_some_iff] at hk
        exact hall' k ts hk.1
  · rw [hcontained] at hbyHeight
    refine hbyHeight (w.height + 1) block.header.timestamp ?_ hnew rfl
    rw [FiniteMap.get?_insert, if_pos rfl]

/-- **A block** that is not two hours behind its transactions leaves all of them known. -/
theorem Remembered.append (h : Remembered w) (hheight : w.db.height = w.height)
    (hstored : TransactionsFound w.db) (hlists : d.Lists block.transactionData)
    (htime : ∀ tx, HasTransaction w.db block tx →
      tx.timestamp - TwoHours ≤ block.header.timestamp) :
    Remembered (w.append d carry reward block) where
  stored id hid := by
    change (((((byId block.transactionData).get? id).map fun entry =>
      (w.height + 1, entry.1)).or (w.db.transactionHNById id))).isSome
    have hknown : d.transactions.contains id = true ∨ (w.transactionIds id).isSome := by
      change (Option.filter _
        (if d.transactions.contains id then some (w.height + 1) else w.transactionIds id)).isSome
          at hid
      have hbefore := Option.isSome_of_isSome_filter _ _ hid
      split at hbefore
      · rename_i hcontained
        exact .inl hcontained
      · exact .inr hbefore
    rw [Option.isSome_or, Option.isSome_map, Bool.or_eq_true, isSome_byId]
    rcases hknown with hcontained | hmem
    · exact .inl ((hlists id).mp hcontained)
    · exact .inr (h.stored id hmem)
  kept id height tx hinfo := by
    change (w.doAppend d carry reward block).transactionInfo id = some (height, tx) at hinfo
    rw [hstored.transactionInfo_doAppend hheight] at hinfo
    rcases hnew : (byId block.transactionData).get? id with _ | entry
    · rw [hnew, Option.map_none, Option.none_or] at hinfo
      obtain ⟨hle, hmem, -⟩ := hstored.mem_of_transactionInfo hinfo
      exact RememberedAs.append (htime tx (.inr ⟨height, hle, hmem⟩)) (.inr (h.kept id height tx hinfo))
    · rw [hnew] at hinfo
      cases hinfo
      obtain ⟨hmem, hid⟩ := mem_of_byId hnew
      have htx := List.mem_of_getElem? (mem_numbered.mp hmem)
      refine RememberedAs.append (htime _ (.inl htx)) (.inl ?_)
      rw [← hid]
      exact (FiniteMap.contains_iff_mem_dom _ _).mp ((hlists _).mpr ⟨_, htx, rfl⟩)

/-- A block that is taken off takes its transactions out of the memory and the keys. -/
theorem Remembered.discardBlock {n : ℕ} (h : Remembered w) (hheight : w.db.height = n + 1)
    (hn : 1 ≤ n) (hstored : TransactionsFound w.db) : Remembered (w.discardBlock (n + 1)) where
  stored id hid := by
    change (if (w.db.transactionsAtHeight (n + 1)).any fun tx => !isGenesis tx && tx.id = id then
      none else w.db.transactionHNById id).isSome
    change (if (w.db.transactionsAtHeight (n + 1)).any fun tx => tx.id = id then
      none else w.transactionIds id).isSome at hid
    split at hid
    · cases hid
    · rename_i hany
      rw [if_neg]
      · exact h.stored id hid
      · intro hgone
        obtain ⟨tx, htx, hcond⟩ := List.any_eq_true.mp hgone
        exact hany (List.any_eq_true.mpr ⟨tx, htx, (Bool.and_eq_true_iff.mp hcond).2⟩)
  kept id height tx hinfo := by
    have hstored' := hstored.discard hheight hn
    obtain ⟨hle, -, -⟩ := hstored'.mem_of_transactionInfo hinfo
    change height ≤ n at hle
    obtain ⟨⟨height', num⟩, hhn, hrest⟩ := Option.bind_eq_some_iff.mp hinfo
    change (if (w.db.transactionsAtHeight (n + 1)).any fun tx => !isGenesis tx && tx.id = id then
      none else w.db.transactionHNById id) = some (height', num) at hhn
    split at hhn
    · cases hhn
    · rename_i hany
      obtain ⟨tx', hnth, heq⟩ := Option.bind_eq_some_iff.mp hrest
      cases heq
      have hsame : (w.discardKeys (n + 1)).nthTransaction height num =
          w.db.nthTransaction height num :=
        congrArg (fun l => (List.find? (fun e : ℕ × Transaction => e.1 = num) l).map Prod.snd)
          (if_neg (show height ≠ n + 1 by omega))
      have hbefore : w.db.transactionInfo id = some (height, tx) := by
        rw [Keys.transactionInfo, hhn]
        dsimp only [Option.bind_eq_bind, Option.bind_some]
        rw [← hsame, show (w.discardKeys (n + 1)).nthTransaction height num = some tx from hnth]
        rfl
      -- no transaction of the block has this id, so the memory keeps it
      have hids : (w.discardBlock (n + 1)).transactionIds id = w.transactionIds id := by
        refine if_neg fun hgone => ?_
        obtain ⟨tx', htx', hid⟩ := List.any_eq_true.mp hgone
        have hgenesis := hstored.notGenesis (n + 1) (by omega) (by omega) tx' htx'
        refine hany (List.any_eq_true.mpr ⟨tx', htx', ?_⟩)
        rw [hgenesis, hid]
        rfl
      have hold := h.kept id height tx hbefore
      unfold RememberedAs at hold ⊢
      rw [hids]
      exact hold

theorem Remembered.discardBlocks {targetHeight : ℕ} (ht : 1 ≤ targetHeight) :
    ∀ {w : LevelDBWriter} (n : ℕ), w.db.height = targetHeight + n → TransactionsFound w.db →
      Remembered w → Remembered (discardBlocks targetHeight n w)
  | _, 0, _, _, h => h
  | w, n + 1, hheight, hstored, h => by
    rw [LevelDBWriter.discardBlocks]
    refine Remembered.discardBlocks ht n rfl (hstored.discard hheight (by omega)) ?_
    exact h.discardBlock hheight (by omega) hstored

theorem Remembered.doRollback (h : Remembered w) (hw : Sound w) (hstored : TransactionsFound w.db)
    (id : BlockId) : Remembered (w.doRollback id) := by
  rw [LevelDBWriter.doRollback]
  rcases hid : w.db.heightOf id with _ | targetHeight
  · exact h
  · dsimp only
    have hheight := hw.height
    by_cases ht : targetHeight ≤ w.height
    · exact h.discardBlocks (hw.heightOf_pos id _ hid) _ (by omega) hstored
    · have hzero : w.height - targetHeight = 0 := by omega
      rw [hzero]
      exact h

omit [Crypto] [PBTransactionSerializer] in
/-- After a start nothing is in memory, and everything is looked for on disk. -/
theorem Remembered.restart : Remembered w.restart where
  stored _ hid := by cases hid
  kept _ _ _ _ := .inr ⟨.inr (Int64.le_maxValue _), fun _ _ hts => by cases hts⟩

end

/-! ## 3. Scripts in memory -/

/-- What the cache of asset scripts holds is what the keys say. -/
def AssetScriptsCached (w : LevelDBWriter) : Prop :=
  ∀ asset v, w.assetScriptCache asset = some v → v = w.db.loadAssetScript asset

section

variable {w : LevelDBWriter} {d : Diff} {carry : Long} {reward : Option Long} {block : Block}

omit [Crypto] [PBTransactionSerializer] in
theorem AssetScriptsCached.assetScript_eq (h : AssetScriptsCached w) (asset : IssuedAsset) :
    w.assetScriptWithComplexity asset = w.db.loadAssetScript asset := by
  rw [assetScriptWithComplexity]
  rcases hc : w.assetScriptCache asset with _ | v
  · rfl
  · exact h asset v hc

theorem latest_assetScript_doAppend (hheight : w.db.height = w.height)
    (hscripts : ∀ asset, ScriptKept w.db asset)
    (hQ : ScriptsFollowed w (.append d carry reward block)) (asset : IssuedAsset) :
    (w.doAppend d carry reward block).loadAssetScript asset =
      (d.assetScripts.get? asset).getD (w.db.loadAssetScript asset) := by
  rw [Keys.loadAssetScript, assetScript_doAppend]
  rcases hscript : d.assetScripts.get? asset with _ | script
  · rfl
  · have hupTo := (hscripts asset).upTo hheight (hQ.2.1 asset (FiniteMap.mem_dom_of_get? hscript))
    exact History.latest_push hupTo (Nat.lt_succ_self _)

theorem AssetScriptsCached.append (h : AssetScriptsCached w) (hheight : w.db.height = w.height)
    (hscripts : ∀ asset, ScriptKept w.db asset)
    (hQ : ScriptsFollowed w (.append d carry reward block)) :
    AssetScriptsCached (w.append d carry reward block) := by
  intro asset v hv
  change (d.assetScripts.get? asset).or (w.assetScriptCache asset) = some v at hv
  change v = (w.doAppend d carry reward block).loadAssetScript asset
  rw [latest_assetScript_doAppend hheight hscripts hQ]
  rcases hscript : d.assetScripts.get? asset with _ | script
  · rw [hscript, Option.none_or] at hv
    exact h asset v hv
  · rw [hscript] at hv
    exact (Option.some.inj hv).symm

theorem AssetScriptsCached.discardBlocks {targetHeight : ℕ} :
    ∀ {w : LevelDBWriter} (n : ℕ), AssetScriptsCached w →
      AssetScriptsCached (discardBlocks targetHeight n w)
  | _, 0, h => h
  | w, n + 1, h => by
    rw [LevelDBWriter.discardBlocks]
    refine AssetScriptsCached.discardBlocks n ?_
    intro asset v hv
    change (if _ then none else w.assetScriptCache asset) = some v at hv
    change v = History.latest (if _ then _ else w.db.assetScript asset)
    split at hv
    · cases hv
    · rename_i hany
      rw [if_neg hany]
      exact h asset v hv

end

/-! ## 4. What was written last is read -/

/-- A history gives back what is written to it: blocks may be taken off, and then the last
height is above the threshold; or none may, and then no height is left over. -/
def PushesRead (w : LevelDBWriter) : Prop :=
  0 < w.dbSettings.maxRollbackDepth ∨ w.height ≤ w.db.safeRollbackHeight ∧
    (∀ asset, (w.db.assetInfo asset).UpTo w.height) ∧
    (∀ asset, (w.db.sponsorship asset).UpTo w.height) ∧
    ∀ leaseId, (w.db.leaseStatusOf leaseId).UpTo w.height

section

variable {w : LevelDBWriter} {d : Diff} {carry : Long} {reward : Option Long} {block : Block}

omit [Crypto] [PBTransactionSerializer] in
theorem latest_pushSome_append {υ : Type} {s : History υ}
    (hs : 0 < w.dbSettings.maxRollbackDepth ∨ s.UpTo w.height) (o : Option υ) :
    (s.pushSome (w.height + 1) (w.height + 1 - w.dbSettings.maxRollbackDepth) o).latest =
      o.or s.latest := by
  rcases o with _ | v
  · rfl
  · rcases hs with hdepth | hupTo
    · exact History.latest_push_some (by omega)
    · exact History.latest_push hupTo (Nat.lt_succ_self _)

theorem PushesRead.append (h : PushesRead w) : PushesRead (w.append d carry reward block) := by
  by_cases hdepth : 0 < w.dbSettings.maxRollbackDepth
  · exact .inl hdepth
  · obtain ⟨-, hinfo, hsponsorship, hlease⟩ := h.resolve_left hdepth
    have hpush : ∀ {υ : Type} {s : History υ} (o : Option υ), s.UpTo w.height →
        (s.pushSome (w.height + 1) (w.height + 1 - w.dbSettings.maxRollbackDepth) o).UpTo
          (w.height + 1) := by
      intro υ s o hs
      rcases o with _ | v
      · exact hs.mono (Nat.le_succ _)
      · exact hs.push (Nat.lt_succ_self _)
    refine .inr ⟨?_, fun asset => hpush _ (hinfo asset), ?_, ?_⟩
    · change w.height + 1 ≤ max w.db.safeRollbackHeight (w.height + 1 - w.dbSettings.maxRollbackDepth)
      omega
    · intro asset
      change ((w.doAppend d carry reward block).sponsorship asset).UpTo (w.height + 1)
      rw [sponsorship_doAppend]
      exact hpush _ (hsponsorship asset)
    · intro leaseId
      change ((w.doAppend d carry reward block).leaseStatusOf leaseId).UpTo (w.height + 1)
      rw [leaseStatusOf_doAppend]
      exact hpush _ (hlease leaseId)

theorem dbSettings_doRollback (id : BlockId) : (w.doRollback id).dbSettings = w.dbSettings := by
  have hrounds : ∀ (targetHeight n : ℕ) (w : LevelDBWriter),
      (discardBlocks targetHeight n w).dbSettings = w.dbSettings := by
    intro targetHeight n
    induction n with
    | zero => exact fun _ => rfl
    | succ n ih =>
      intro w
      rw [discardBlocks, ih]
      rfl
  rw [doRollback]
  rcases w.db.heightOf id with _ | targetHeight
  · rfl
  · exact hrounds _ _ w

/-- Where the height is safe no block is taken off. -/
theorem doRollback_eq_self {v : LevelDBWriter} {id : BlockId}
    (hsafe : w.height ≤ w.db.safeRollbackHeight) (hv : w.rollbackTo id = .ok v) :
    w.doRollback id = w := by
  unfold LevelDBWriter.rollbackTo LevelDBWriter.heightOf at hv
  by_cases hlast : w.lastBlock.any fun b => b.uniqueId = id
  · rw [if_pos hlast] at hv
    dsimp only at hv
    rw [if_neg (by omega)] at hv
    cases hv
  · rw [if_neg hlast] at hv
    rw [doRollback]
    rcases hid : w.db.heightOf id with _ | targetHeight
    · rfl
    · rw [hid] at hv
      dsimp only at hv ⊢
      split at hv
      · rename_i habove
        have hzero : w.height - targetHeight = 0 := by omega
        rw [hzero]
        rfl
      · cases hv

theorem PushesRead.rollbackTo {v : LevelDBWriter} {id : BlockId} (h : PushesRead w)
    (hheight : w.db.height = w.height) (hv : w.rollbackTo id = .ok v) : PushesRead v := by
  by_cases hdepth : 0 < w.dbSettings.maxRollbackDepth
  · left
    rw [rollbackTo_eq_ok hv]
    change 0 < (w.doRollback id).dbSettings.maxRollbackDepth
    rwa [dbSettings_doRollback]
  · obtain ⟨hsafe, hrest⟩ := h.resolve_left hdepth
    have hsame := doRollback_eq_self hsafe hv
    rw [rollbackTo_eq_ok hv, hsame]
    right
    change w.db.height ≤ w.db.safeRollbackHeight ∧
      (∀ asset, (w.db.assetInfo asset).UpTo w.db.height) ∧
      (∀ asset, (w.db.sponsorship asset).UpTo w.db.height) ∧
      ∀ leaseId, (w.db.leaseStatusOf leaseId).UpTo w.db.height
    rw [hheight]
    exact ⟨hsafe, hrest⟩

end

/-! ## 5. Runs -/

variable [Ride] [BlockSerializer]

/-- What is known of a database in a run that meets the condition. -/
structure Followed (w : LevelDBWriter) : Prop where
  assets : AssetsKept w
  scriptsCached : AssetScriptsCached w
  pushes : PushesRead w
  remembered : Remembered w
  chunks : ChunksComplete w.db

theorem Followed.leads {w v : LevelDBWriter} {e : Event} (h : Followed w) (hw : Sound w)
    (hQ : ViewsFollowed w e) (hleads : e.Leads w v) : Followed v := by
  have hassets := h.assets.leads hw hQ.1 hleads
  have hchunks : ChunksComplete v.db :=
    (chunksComplete (Q := ViewsFollowed)).leads hw hQ h.chunks hleads
  cases e with
  | append d carry reward block =>
    obtain ⟨hblock, rfl⟩ := hleads
    exact ⟨hassets, h.scriptsCached.append hw.height h.assets.scripts hQ.1, h.pushes.append,
      h.remembered.append hw.height h.assets.stored.transactionsFound hblock.lists hQ.2.2.2.2,
      hchunks⟩
  | rollbackTo id =>
    have hremembered := h.remembered.doRollback hw h.assets.stored.transactionsFound id
    have hpushes := h.pushes.rollbackTo hw.height hleads
    have hscripts : AssetScriptsCached (w.doRollback id) := by
      rw [doRollback]
      rcases w.db.heightOf id with _ | targetHeight
      · exact h.scriptsCached
      · exact h.scriptsCached.discardBlocks _
    rw [rollbackTo_eq_ok hleads] at hassets hpushes hchunks ⊢
    exact ⟨hassets, hscripts, hpushes, ⟨hremembered.stored, hremembered.kept⟩, hchunks⟩
  | load key =>
    cases hleads
    refine ⟨hassets, ?_, by cases key <;> exact h.pushes,
      by cases key <;> exact ⟨h.remembered.stored, h.remembered.kept⟩, hchunks⟩
    cases key with
    | assetScript asset' =>
      intro asset v hv
      change Function.update w.assetScriptCache asset' (some (w.assetScriptWithComplexity asset'))
        asset = some v at hv
      by_cases hkey : asset = asset'
      · rw [← hkey, Function.update_self] at hv
        rw [← Option.some.inj hv]
        exact h.scriptsCached.assetScript_eq asset
      · rw [Function.update_of_ne hkey] at hv
        exact h.scriptsCached asset v hv
    | _ => exact h.scriptsCached
  | evict key =>
    cases hleads
    refine ⟨hassets, ?_, by cases key <;> exact h.pushes,
      by cases key <;> exact ⟨h.remembered.stored, h.remembered.kept⟩, hchunks⟩
    cases key with
    | assetScript asset' =>
      intro asset v hv
      change Function.update w.assetScriptCache asset' none asset = some v at hv
      by_cases hkey : asset = asset'
      · rw [← hkey, Function.update_self] at hv
        cases hv
      · rw [Function.update_of_ne hkey] at hv
        exact h.scriptsCached asset v hv
    | _ => exact h.scriptsCached
  | restart =>
    cases hleads
    refine ⟨hassets, ?_, ?_, .restart, hchunks⟩
    · intro asset v hv
      cases hv
    · have hpushes := h.pushes
      unfold PushesRead at hpushes ⊢
      rw [← hw.height] at hpushes
      exact hpushes

/-- **In every run** that meets the condition. -/
theorem followed_reachable {settings : BlockchainSettings} {dbSettings : DBSettings}
    {w : LevelDBWriter} (h : Reachable ViewsFollowed settings dbSettings w) : Followed w := by
  induction h with
  | empty =>
    refine ⟨assetsKept_reachable .empty, ?_, ?_, ⟨?_, ?_⟩, chunksComplete (Q := ViewsFollowed).empty⟩
    · intro asset v hv
      cases hv
    · exact .inr ⟨Nat.le_refl 0, fun _ => History.upTo_empty 0, fun _ => History.upTo_empty 0,
        fun _ => History.upTo_empty 0⟩
    · intro id hid
      cases hid
    · intro id height tx hinfo
      cases hinfo
  | step hrun hQ hleads ih => exact ih.leads hrun.sound hQ hleads

/-! ## 6. Query by query -/

section

variable {w : LevelDBWriter} {d : Diff} {carry : Long} {reward : Option Long} {block : Block}

omit [Crypto] [PBTransactionSerializer] [Ride] [BlockSerializer] in
theorem updatedBalance_eq (a : Address) (asset : Asset) :
    (w.updatedBalance d a asset).getD (w.balance a asset) =
      w.balance a asset + (d.portfolios.of a).balanceOf asset := by
  rw [updatedBalance, Portfolios.of, FiniteMap.getOrElse]
  rcases d.portfolios.get? a with _ | p
  · cases asset <;> exact (Int64.add_zero _).symm
  · rw [Option.bind_some, Option.getD_some]
    cases asset with
    | Waves =>
      dsimp only [Portfolio.balanceOf]
      by_cases hzero : p.balance ≠ 0
      · rw [if_pos hzero, Option.getD_some]
      · rw [if_neg hzero, Option.getD_none, not_not.mp hzero, Int64.add_zero]
    | issued x =>
      dsimp only [Portfolio.balanceOf, FiniteMap.getOrElse]
      rcases p.assets.get? x with _ | delta
      · exact (Int64.add_zero _).symm
      · rfl

omit [Ride] [BlockSerializer] in
theorem balance_append (a : Address) (asset : Asset) :
    (w.append d carry reward block).balance a asset =
      w.balance a asset + (d.portfolios.of a).balanceOf asset := by
  rw [← updatedBalance_eq]
  change ((w.updatedBalance d a asset).or (w.balancesCache a asset)).getD
    ((w.doAppend d carry reward block).loadBalance a asset) = _
  rcases hv : w.updatedBalance d a asset with _ | v
  · rw [Option.none_or, Option.getD_none, balance]
    -- nothing is written where nothing is added
    have hsame : (w.doAppend d carry reward block).loadBalance a asset = w.db.loadBalance a asset := by
      cases asset with
      | Waves =>
        change ((w.db.wavesBalance a).pushSome _ _ (w.updatedBalance d a .Waves)).latest.getD 0 = _
        rw [hv]
        rfl
      | issued x =>
        change ((w.db.assetBalance a x).pushSome _ _ (w.updatedBalance d a (.issued x))).latest.getD
          0 = _
        rw [hv]
        rfl
    rw [hsame]
  · rfl

omit [Ride] [BlockSerializer] in
theorem leaseBalance_append (a : Address) :
    (w.append d carry reward block).leaseBalance a =
      (w.leaseBalance a).combine (d.portfolios.of a).lease := by
  change ((w.updatedLeaseBalance d a).or (w.leaseBalanceCache a)).getD
    (((w.db.leaseBalance a).pushSome _ _ (w.updatedLeaseBalance d a)).latest.getD _) = _
  rw [updatedLeaseBalance, Portfolios.of, FiniteMap.getOrElse]
  rcases d.portfolios.get? a with _ | p
  · rw [Option.getD_none]
    exact (LeaseBalance.combine_empty _).symm
  · rw [Option.bind_some, Option.getD_some]
    by_cases hempty : p.lease ≠ LeaseBalance.empty
    · rw [if_pos hempty]
      rfl
    · rw [if_neg hempty, not_not.mp hempty, LeaseBalance.combine_empty]
      rfl

omit [Ride] [BlockSerializer] in
theorem filledVolumeAndFee_append (orderId : ByteStr) :
    (w.append d carry reward block).filledVolumeAndFee orderId =
      ((d.orderFills.get? orderId).getD VolumeAndFee.empty).combine
        (w.filledVolumeAndFee orderId) := by
  change ((w.newFill d orderId).or (w.volumeAndFeeCache orderId)).getD
    (((w.db.filledVolumeAndFee orderId).pushSome _ _ (w.newFill d orderId)).latest.getD _) = _
  rw [newFill]
  rcases d.orderFills.get? orderId with _ | fill
  · exact (VolumeAndFee.empty_combine _).symm
  · exact VolumeAndFee.combine_comm _ _

omit [Ride] [BlockSerializer] in
theorem accountDataEntry_append (a : Address) (key : String) :
    (w.append d carry reward block).accountDataEntry a key =
      (((d.accountData.get? a).getD AccountDataInfo.empty).data.get? key).or
        (w.accountDataEntry a key) := by
  change (((((d.accountData.get? a).getD AccountDataInfo.empty).data.get? key).map some).or
    (w.accountDataCache a key)).getD ((w.db.data a key).pushSome _ _
      (((d.accountData.get? a).getD AccountDataInfo.empty).data.get? key)).latest = _
  rcases ((d.accountData.get? a).getD AccountDataInfo.empty).data.get? key with _ | v <;> rfl

omit [Ride] [BlockSerializer] in
/-- The keys of an account are complete, so its data is that of its keys, and the new ones. -/
theorem accountData_append (hchunks : ChunksComplete w.db) (a : Address) :
    (w.append d carry reward block).accountData a =
      (w.accountData a).combine ((d.accountData.get? a).getD AccountDataInfo.empty) := by
  refine congrArg AccountDataInfo.mk (FiniteMap.ext fun key => ?_)
  rw [FiniteMap.get?_append, accountData, FiniteMap.get?_filterMap, FiniteMap.get?_filterMap,
    FiniteMap.get?_ofFinset, FiniteMap.get?_ofFinset, accountDataEntry_append]
  have hchunk : key ∈ (w.append d carry reward block).db.dataKeyChunk a ↔
      key ∈ w.db.dataKeyChunk a ∨
        key ∈ ((d.accountData.get? a).getD AccountDataInfo.empty).data.dom ∧
          (w.db.data a key).heights = [] := by
    change key ∈ w.db.dataKeyChunk a ∪ Finset.filter _ _ ↔ _
    rw [Finset.mem_union, Finset.mem_filter]
  rcases hv : ((d.accountData.get? a).getD AccountDataInfo.empty).data.get? key with _ | v
  · have hnot := (FiniteMap.get?_eq_none_iff _ key).mp hv
    rw [Option.none_or, Option.none_or]
    by_cases hold : key ∈ w.db.dataKeyChunk a
    · rw [if_pos (hchunk.mpr (.inl hold)), if_pos hold]
    · rw [if_neg fun hnew => (hchunk.mp hnew).elim hold fun hin => hnot hin.1, if_neg hold]
  · rw [Option.some_or, Option.some_or]
    have hin : key ∈ (w.append d carry reward block).db.dataKeyChunk a := by
      refine hchunk.mpr ?_
      by_cases hwritten : (w.db.data a key).heights = []
      · exact .inr ⟨FiniteMap.mem_dom_of_get? hv, hwritten⟩
      · exact .inl (hchunks a key hwritten)
    rw [if_pos hin, Option.bind_some]

omit [Ride] [BlockSerializer] in
/-- The transactions a diff lists are those of the block. -/
theorem map_fst_transactions (hids : IdsDistinct block.transactionData)
    (hrecords : d.Records block.transactionData) (id : ByteStr) :
    (d.transactions.get? id).map Prod.fst =
      ((byId block.transactionData).get? id).map Prod.snd := by
  rcases hentry : (byId block.transactionData).get? id with _ | entry
  · rw [Option.map_none, Option.map_eq_none_iff]
    rcases hlisted : d.transactions.get? id with _ | listed
    · rfl
    · obtain ⟨htx, hid⟩ := hrecords.listed id listed hlisted
      have hsome := isSome_byId.mpr ⟨listed.1, htx, hid⟩
      rw [hentry] at hsome
      cases hsome
  · obtain ⟨hmem, hid⟩ := mem_of_byId hentry
    have htx := List.mem_of_getElem? (mem_numbered.mp hmem)
    have hdom := hrecords.lists entry.2 htx
    rw [hid, FiniteMap.mem_dom] at hdom
    obtain ⟨listed, hlisted⟩ := Option.isSome_iff_exists.mp hdom
    obtain ⟨htx', hid'⟩ := hrecords.listed id listed hlisted
    rw [hlisted, Option.map_some, Option.map_some,
      hids.eq_of_id htx' htx (hid'.trans hid.symm)]

omit [Ride] [BlockSerializer] in
theorem transactionInfo_append (hheight : w.db.height = w.height)
    (hstored : TransactionsStored w.db) (hids : IdsDistinct block.transactionData)
    (hrecords : d.Records block.transactionData) (id : ByteStr) :
    (w.doAppend d carry reward block).transactionInfo id =
      ((d.transactions.get? id).map fun t => (w.height + 1, t.1)).or (w.db.transactionInfo id) := by
  have hsame := congrArg (Option.map fun tx => (w.height + 1, tx))
    (map_fst_transactions hids hrecords id)
  rw [Option.map_map, Option.map_map] at hsame
  exact (hstored.transactionsFound.transactionInfo_doAppend hheight id).trans
    (congrArg (fun o => Option.or o (w.db.transactionInfo id)) hsame.symm)

omit [Ride] [BlockSerializer] in
theorem transactionHeight_append (hids : IdsDistinct block.transactionData)
    (hrecords : d.Records block.transactionData) (id : ByteStr) :
    ((w.doAppend d carry reward block).transactionHNById id).map Prod.fst =
      ((d.transactions.get? id).map fun _ => w.height + 1).or
        ((w.db.transactionHNById id).map Prod.fst) := by
  have hsame := map_fst_transactions hids hrecords id
  rw [transactionHNById_doAppend]
  rcases hlisted : d.transactions.get? id with _ | listed <;>
    rcases hentry : (byId block.transactionData).get? id with _ | entry <;>
    rw [hlisted, hentry] at hsame
  · rfl
  · cases hsame
  · cases hsame
  · rfl

omit [Ride] [BlockSerializer] in
/-- A transaction that is stored and no payment is in no block with new ids. -/
theorem not_listed_of_stored (hstored : TransactionsStored w.db) (hfresh : IdsFresh w.db block)
    (hrecords : d.Records block.transactionData) {id : ByteStr} {h : ℕ} {tx : Transaction}
    (hinfo : w.db.transactionInfo id = some (h, tx)) (hpayment : isPayment tx = false) :
    d.transactions.get? id = none := by
  rcases hlisted : d.transactions.get? id with _ | entry
  · rfl
  · obtain ⟨htx, hid⟩ := hrecords.listed id entry hlisted
    obtain ⟨hle, hmem, hid'⟩ := hstored.transactionsFound.mem_of_transactionInfo hinfo
    have hsame := hfresh entry.1 htx h hle tx hmem (hid'.trans hid.symm)
    rw [hsame.1, hsame.2] at hpayment
    cases hpayment

omit [Ride] [BlockSerializer] in
theorem leaseDetails_append (hheight : w.db.height = w.height) (hpushes : PushesRead w)
    (hstored : TransactionsStored w.db) (hids : IdsDistinct block.transactionData)
    (hfresh : IdsFresh w.db block) (hrecords : d.Records block.transactionData)
    (leaseId : ByteStr) :
    (w.doAppend d carry reward block).leaseDetails leaseId =
      CompositeBlockchain.leaseDetails w.blockchain d (w.height + 1) leaseId := by
  have hstatus : (w.doAppend d carry reward block).loadLeaseStatus leaseId =
      d.leaseState.getOrElse leaseId (w.db.loadLeaseStatus leaseId) := by
    rw [Keys.loadLeaseStatus, leaseStatusOf_doAppend,
      latest_pushSome_append (hpushes.imp id fun h => h.2.2.2 leaseId), FiniteMap.getOrElse]
    rcases d.leaseState.get? leaseId with _ | active <;> rfl
  have hinner : w.blockchain.leaseDetails leaseId = w.db.leaseDetails leaseId := rfl
  rw [Keys.leaseDetails, transactionInfo_append hheight hstored hids hrecords, hstatus,
    CompositeBlockchain.leaseDetails, hinner, Keys.leaseDetails]
  rcases hinfo : w.db.transactionInfo leaseId with _ | ⟨h, tx⟩
  · -- the lease is of the block, or there is none
    rcases hlisted : d.transactions.get? leaseId with _ | ⟨tx, addresses⟩
    · rfl
    · cases tx with
      | lease lt =>
        obtain ⟨htx, hid⟩ := hrecords.listed leaseId _ hlisted
        have hstate := hrecords.leases lt htx
        rw [hid, FiniteMap.mem_dom] at hstate
        obtain ⟨active, hactive⟩ := Option.isSome_iff_exists.mp hstate
        have hsame : (Transaction.lease lt).id = leaseId := hid
        dsimp only [Option.map_some, Option.some_or]
        rw [hsame, FiniteMap.getOrElse, FiniteMap.getOrElse, hactive]
        rfl
      | _ => rfl
  · cases tx with
    | lease lt =>
      rw [not_listed_of_stored hstored hfresh hrecords hinfo rfl]
      rfl
    | _ =>
      rcases hlisted : d.transactions.get? leaseId with _ | ⟨tx, addresses⟩
      · rfl
      · cases tx with
        | lease lt =>
          -- a new lease has a new id
          obtain ⟨htx, hid⟩ := hrecords.listed leaseId _ hlisted
          obtain ⟨hle, hmem, hid'⟩ := hstored.transactionsFound.mem_of_transactionInfo hinfo
          have hsame := hfresh _ htx h hle _ hmem (hid'.trans hid.symm)
          cases hsame.2
        | _ => rfl

omit [Ride] [BlockSerializer] in
theorem resolveAlias_append
    (hhijacked : w.activatedFeatures.get? BlockchainFeatures.DataTransaction.id =
      some (w.height + 1) → w.hijackedAliases ⊆ w.db.aliasIsDisabled) (a : Alias) :
    (w.doAppend d carry reward block).resolveAlias a =
      CompositeBlockchain.resolveAlias w.blockchain d a := by
  have hdisabled : (w.doAppend d carry reward block).aliasIsDisabled = w.db.aliasIsDisabled := by
    change (if _ then w.db.aliasIsDisabled ∪ w.hijackedAliases else w.db.aliasIsDisabled) = _
    split
    · rename_i hnow
      exact Finset.union_eq_left.mpr (hhijacked hnow)
    · rfl
  have halias : (w.doAppend d carry reward block).addressIdOfAlias a =
      (d.aliases.get? a).or (w.db.addressIdOfAlias a) := rfl
  have hinner : w.blockchain.resolveAlias a = w.db.resolveAlias a := rfl
  rw [Keys.resolveAlias, hdisabled, halias, CompositeBlockchain.resolveAlias, hinner,
    Keys.resolveAlias]
  by_cases hmem : a ∈ w.db.aliasIsDisabled
  · rw [if_pos hmem, if_pos hmem]
    rfl
  · rw [if_neg hmem, if_neg hmem]
    rcases w.db.addressIdOfAlias a with _ | address
    · rw [Option.or_none]
      rfl
    · change _ = (.ok ((d.aliases.get? a).getD address) : Validation Address)
      rcases d.aliases.get? a with _ | address' <;> rfl

omit [Ride] [BlockSerializer] in
/-- A description is put together from the keys as it is from the description below and
the diff. -/
theorem loadAssetDescription_append (hheight : w.db.height = w.height) (h : Followed w)
    (hQ : ViewsFollowed w (.append d carry reward block))
    (hrecords : d.Records block.transactionData) (asset : IssuedAsset) :
    (w.doAppend d carry reward block).loadAssetDescription asset =
      CompositeBlockchain.assetDescription w.blockchain d asset
        (((d.assetScripts.get? asset).getD (w.assetScriptWithComplexity asset)).map Prod.fst) := by
  obtain ⟨⟨⟨hids, hfresh⟩, hscripts⟩, hnew, hvolume, -, -⟩ := hQ
  have hscript : ((w.doAppend d carry reward block).assetScript asset).latest =
      (d.assetScripts.get? asset).getD (w.assetScriptWithComplexity asset) := by
    rw [h.scriptsCached.assetScript_eq]
    exact latest_assetScript_doAppend hheight h.assets.scripts ⟨⟨hids, hfresh⟩, hscripts⟩ asset
  have hinfo : ((w.doAppend d carry reward block).assetInfo asset).latest =
      ((d.issuedAssets.get? asset).map fun info =>
        ((w.db.assetInfo asset).latest.map fun p => p.combine info).getD info).or
          (w.db.assetInfo asset).latest :=
    latest_pushSome_append (h.pushes.imp id fun h => h.2.1 asset) _
  have hsponsorship : ((w.doAppend d carry reward block).sponsorship asset).latest =
      (newSponsorship d asset).or (w.db.sponsorship asset).latest := by
    rw [sponsorship_doAppend]
    exact latest_pushSome_append (h.pushes.imp id fun h => h.2.2.1 asset) _
  have hinner : w.blockchain.assetDescription asset = w.db.loadAssetDescription asset :=
    h.assets.cached.assetDescription_eq asset
  rw [Keys.loadAssetDescription, transactionInfo_append hheight h.assets.stored hids hrecords,
    hscript, hinfo, hsponsorship, CompositeBlockchain.assetDescription, hinner,
    Keys.loadAssetDescription]
  rcases hold : w.db.transactionInfo asset.id with _ | ⟨height, tx⟩
  · -- the asset is issued by the block, or not at all
    rcases hlisted : d.transactions.get? asset.id with _ | ⟨tx, addresses⟩
    · rfl
    · cases tx with
      | issue it =>
        obtain ⟨htx, hid⟩ := hrecords.listed asset.id _ hlisted
        have hissued : issuedBy (.issue it) = some asset :=
          congrArg (fun id => some (IssuedAsset.mk id)) hid
        obtain ⟨hnoInfo, hnoSponsorship⟩ := hnew _ htx asset hissued
        have hnoLatest : ∀ {υ : Type} {s : History υ}, s.heights = [] → s.latest = none := by
          intro υ s hs
          rw [History.latest, hs]
          rfl
        obtain ⟨info, hget⟩ := Option.isSome_iff_exists.mp
          ((d.issuedAssets.mem_dom asset).mp (hrecords.issues _ htx asset hissued).1)
        rw [hnoLatest hnoInfo, hnoLatest hnoSponsorship, hget, newSponsorship]
        rcases d.sponsorship.get? asset with _ | (minFee | _) <;> rfl
      | _ => rfl
  · cases tx with
    | issue it =>
      rw [not_listed_of_stored h.assets.stored hfresh hrecords hold rfl, newSponsorship]
      dsimp only [Option.map_none, Option.none_or]
      rcases hget : d.issuedAssets.get? asset with _ | info
      · rcases d.sponsorship.get? asset with _ | (minFee | _) <;> rfl
      · obtain ⟨p, hp⟩ := Option.isSome_iff_exists.mp
          (hvolume asset (FiniteMap.mem_dom_of_get? hget) ⟨height, it, hold⟩)
        rw [hp]
        rcases d.sponsorship.get? asset with _ | (minFee | _) <;> rfl
    | _ =>
      rcases hlisted : d.transactions.get? asset.id with _ | ⟨tx, addresses⟩
      · rfl
      · cases tx with
        | issue it =>
          -- a new asset has a new id
          obtain ⟨htx, hid⟩ := hrecords.listed asset.id _ hlisted
          obtain ⟨hle, hmem, hid'⟩ := h.assets.stored.transactionsFound.mem_of_transactionInfo hold
          have hsame := hfresh _ htx height hle _ hmem (hid'.trans hid.symm)
          cases hsame.2
        | _ => rfl

end

/-! ## 7. Both views -/

end LevelDBWriter

/-! ## 8. A description that stays

Alice issues a token with a script. Its description is read, and stays in memory when she
sets another script. -/

namespace Devnet

def smartToken : IssueTransaction where
  version := 2
  sender := alice.publicKey
  name := [83, 109, 97, 114, 116]
  description := []
  quantity := 1000
  decimals := 0
  reissuable := true
  script := some ⟨.V1, .expr, false, [1, 6, -73, 111, -53, 71]⟩
  fee := 100000000
  timestamp := 1499999960000
  proofs := ⟨[bytes 64
    0x06809d71672b1485c694b0efad7ab02f56fac1d38e138ea3aef203b8f67822f4443ffb091b6d96d89d5b38786be7eace5ae96139e91bd51d79bf1fee3bdd6288]⟩

def smartTokenBody : ByteStr :=
  bytes 79 0x0302542e8b2883c27b391359d7d0c15d00815a6693290a38dd8eba341cc07ddaa8ed4d0005536d617274000000000000000003e800010000000005f5e1000000015d3ef6fbc00100060106b76fcb47

def smartTokenId : ByteStr :=
  bytes 32 0x0d47acf6a7d88a431f89eee07d1c640b99e6c273f181625050baf62142646a97

def smartTokenBlock : Block :=
  { emptyBlock with
    signature := bytes 64
      0x0e99f65d2154c81a3b495110eed3b302b52f8ee8bb076b2fb80a80076270c8dd95af163710a68c2717a52f28cae14a43244ebbd2ed7a6442e23a43d2d8230989
    transactionData := [.issue smartToken] }

def smartTokenBlockBytes : ByteStr :=
  bytes 314 0x030000015d3ef6fbc0813668d47528909acf62aeeba30294f9418c2e97172d3ba7c6b151db7b59017729e5dcdad233de6207ec6c23997c1e53e839c715225de43d375043d5b398e688000000280000000009299ff340328d507794ee8ca0f9169b6e221a1409677d18dc99c0d1674574ccf69aceb90000009d0000000100000095000302542e8b2883c27b391359d7d0c15d00815a6693290a38dd8eba341cc07ddaa8ed4d0005536d617274000000000000000003e800010000000005f5e1000000015d3ef6fbc00100060106b76fcb47010001004006809d71672b1485c694b0efad7ab02f56fac1d38e138ea3aef203b8f67822f4443ffb091b6d96d89d5b38786be7eace5ae96139e91bd51d79bf1fee3bdd6288000000001885844ed84c86501cd2221627f1d16cd4c60530e5415e1bf6cab037b054f150

def newScript : SetAssetScriptTransaction where
  version := 1
  sender := alice.publicKey
  asset := ⟨smartTokenId⟩
  script := some ⟨.V3, .expr, false, [3, 6, 93, -47, -58, 31]⟩
  fee := 100400000
  timestamp := 1500000020000
  proofs := ⟨[bytes 64
    0xea505b7c935385e9b9fc9fc33d98ad37e7bd87eba6e61a40a83e6aacb6e0643d585d6b3453b57dfdb2b1be447101b3e4462c382ace3d904411ab8565a881d388]⟩

def newScriptBody : ByteStr :=
  bytes 92 0x0f01542e8b2883c27b391359d7d0c15d00815a6693290a38dd8eba341cc07ddaa8ed4d0d47acf6a7d88a431f89eee07d1c640b99e6c273f181625050baf62142646a970000000005fbfb800000015d3ef7e62001000603065dd1c61f

def newScriptBlock : Block where
  header :=
    { emptyBlock.header with
      timestamp := 1500000020000
      reference := smartTokenBlock.signature
      generationSignature :=
        bytes 32 0xfaa1c63cbeee360372abcb14ffbdcb21d7fc5037a4b833c914fbafc77919e07b }
  signature := bytes 64
    0xb46fa2f267706d05b6178cd5dd8790fb7afb802473548fb6d116d8a94e53aced1bec67913909d3a27c4f62696fca659393097a39c511ea264b52c3acf92b758d
  transactionData := [.setAssetScript newScript]

def newScriptBlockBytes : ByteStr :=
  bytes 327 0x030000015d3ef7e6200e99f65d2154c81a3b495110eed3b302b52f8ee8bb076b2fb80a80076270c8dd95af163710a68c2717a52f28cae14a43244ebbd2ed7a6442e23a43d2d8230989000000280000000009299ff3faa1c63cbeee360372abcb14ffbdcb21d7fc5037a4b833c914fbafc77919e07b000000aa00000001000000a2000f01542e8b2883c27b391359d7d0c15d00815a6693290a38dd8eba341cc07ddaa8ed4d0d47acf6a7d88a431f89eee07d1c640b99e6c273f181625050baf62142646a970000000005fbfb800000015d3ef7e62001000603065dd1c61f0100010040ea505b7c935385e9b9fc9fc33d98ad37e7bd87eba6e61a40a83e6aacb6e0643d585d6b3453b57dfdb2b1be447101b3e4462c382ace3d904411ab8565a881d388000000001885844ed84c86501cd2221627f1d16cd4c60530e5415e1bf6cab037b054f150

/-- The platform that knows the token with a script and the block of the new one. -/
def smartAnswers : KnownAnswers :=
  firstBlocks.and
    { digests :=
        [(smartTokenBody, smartTokenId),
          (newScriptBody,
            bytes 32 0xcc9cdad4dbddfd4f77dbef260279a981a7d6f15aec715676f9da3cdb3f573638)]
      signatures :=
        [⟨alice.publicKey, smartTokenBody, smartToken.proofs.proofs.headD []⟩,
          ⟨alice.publicKey, newScriptBody, newScript.proofs.proofs.headD []⟩,
          ⟨miner.publicKey, smartTokenBlockBytes, smartTokenBlock.signature⟩,
          ⟨miner.publicKey, newScriptBlockBytes, newScriptBlock.signature⟩]
      blocks :=
        [(smartTokenBlock, smartTokenBlockBytes), (newScriptBlock, newScriptBlockBytes)] }

/-- Scripts of assets are in force from the start. -/
def smartSettings : BlockchainSettings :=
  settings [(BlockchainFeatures.NG, 0), (BlockchainFeatures.SmartAccounts, 0),
    (BlockchainFeatures.SmartAssets, 0), (BlockchainFeatures.DataTransaction, 0),
    (BlockchainFeatures.Ride4DApps, 0)]

end Devnet

section
open Devnet LevelDBWriter

local instance smartCrypto : Crypto := smartAnswers.crypto
local instance smartSerializer : PBTransactionSerializer := pbTransactionSerializer
local instance smartBlocks : BlockSerializer := smartAnswers.blockSerializer
local instance smartRide : Ride := smartAnswers.ride

namespace Devnet

def noSmart : LevelDBWriter := .empty smartSettings dbSettings

def beforeSmart : Validation LevelDBWriter := noSmart.appendBlocks [genesisBlock]

def withoutSmart : LevelDBWriter := beforeSmart.toOption.getD noSmart

def afterSmart : Validation LevelDBWriter := withoutSmart.appendBlocks [smartTokenBlock]

def withSmart : LevelDBWriter := afterSmart.toOption.getD noSmart

/-- The description of the token was read. -/
def readSmart : LevelDBWriter := withSmart.load (.assetDescription ⟨smartTokenId⟩)

/-- Whether both views have all they need for a block. -/
def viewsFollowed (w : LevelDBWriter) (block : Block) : Bool :=
  (BlockDiffer.fromBlock w.blockchain w.lastBlock block .Unlimited).toOption.any fun r =>
    decide ((∀ asset ∈ r.diff.assetScripts.dom,
        (w.db.assetScript asset).heights = [] ∧ asset ∈ r.diff.issuedAssets.dom) ∧
      (∀ tx ∈ block.transactionData, (issuedBy tx).all fun asset =>
        (w.db.assetInfo asset).heights = [] ∧ (w.db.sponsorship asset).heights = []) ∧
      (∀ asset ∈ r.diff.issuedAssets.dom, w.db.transactionInfo asset.id = none) ∧
      w.activatedFeatures.get? BlockchainFeatures.DataTransaction.id ≠ some (w.height + 1) ∧
      (∀ tx ∈ block.transactionData, tx.timestamp - TwoHours ≤ block.header.timestamp) ∧
      ∀ h ≤ w.db.height, ∀ tx ∈ w.db.transactionsAtHeight h,
        tx.timestamp - TwoHours ≤ block.header.timestamp)

/-- A block that is validated on the database alone, or a read. -/
def OwnRun (w : LevelDBWriter) (e : Event) : Prop := OwnBlock w e ∨ ∃ key, e = .load key

end Devnet

/-- The run, and what both views say of the token's script after the block that sets it. -/
theorem smart_run :
    (beforeSmart.toOption.isSome ∧ afterSmart.toOption.isSome) ∧
      (viewsFollowed noSmart genesisBlock ∧ viewsFollowed withoutSmart smartTokenBlock) ∧
      (IdsDistinct genesisBlock.transactionData ∧ IdsFresh withoutSmart.db smartTokenBlock) ∧
      (BlockDiffer.fromBlock readSmart.blockchain readSmart.lastBlock newScriptBlock
          .Unlimited).toOption.any fun r =>
        ((CompositeBlockchain readSmart.blockchain (some r.diff) (some newScriptBlock)
            r.carry).assetDescription ⟨smartTokenId⟩).map AssetDescription.script ==
              some newScript.script &&
          ((readSmart.append r.diff r.carry none newScriptBlock).assetDescription
            ⟨smartTokenId⟩).map AssetDescription.script == some smartToken.script := by
  decide +kernel

theorem beforeSmart_eq : beforeSmart = .ok withoutSmart := Validation.eq_ok_getD smart_run.1.1

theorem afterSmart_eq : afterSmart = .ok withSmart := Validation.eq_ok_getD smart_run.1.2

theorem viewsFollowed_of_followed {w : LevelDBWriter} {block : Block} {r : BlockDiffer.Result}
    (hids : IdsDistinct block.transactionData ∧ IdsFresh w.db block)
    (h : viewsFollowed w block = true)
    (hr : BlockDiffer.fromBlock w.blockchain w.lastBlock block .Unlimited = .ok r) :
    ViewsFollowed w (.append r.diff r.carry none block) := by
  rw [viewsFollowed, hr] at h
  obtain ⟨hscripts, hnew, hvolumes, halias, htime, htimes⟩ := of_decide_eq_true h
  refine ⟨⟨hids, ?_, ?_⟩, ?_, ?_, fun hnow => absurd hnow halias, ?_⟩
  · intro asset hasset
    refine .inr fun k hk => ?_
    rw [(hscripts asset hasset).1] at hk
    cases hk
  · intro asset hasset hnot
    exact absurd (hscripts asset hasset).2 hnot
  · intro tx htx asset hasset
    have hall := hnew tx htx
    rw [hasset] at hall
    have hnothing : (w.db.assetInfo asset).heights = [] ∧ (w.db.sponsorship asset).heights = [] :=
      of_decide_eq_true hall
    exact hnothing
  · rintro asset hasset ⟨height, it, hinfo⟩
    rw [hvolumes asset hasset] at hinfo
    cases hinfo
  · rintro tx (htx | ⟨height, hle, htx⟩)
    · exact htime tx htx
    · exact htimes height hle tx htx

end

end WavesNode
