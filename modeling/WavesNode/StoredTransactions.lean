/-
The transactions of the database.

`transactionHNById` leads from an id to a height and a number, and `transactionAt` from
these to the transaction. In every run an entry of the index leads to a transaction of its
id (`TransactionsFound`). `TransactionsStored` says that the two agree: besides, every
transaction of the chain is found, a repeated payment aside. It is kept by every block
whose ids are new (`IdsFresh`), which is what validation asks of them, and by every
discarded block; so in any run a transaction that is not a payment is found exactly where
it stands (`TransactionsStored.transactionInfo_eq_some`), and a rollback finds the ones that
were there before (`transactionInfo_doRollback`).
-/
import WavesNode.Rollback

set_option autoImplicit false

namespace WavesNode

namespace LevelDBWriter

variable [Crypto] [PBTransactionSerializer]

/-! ## 1. The index of transactions -/

/-- Every transaction of a block is new, but for a payment that is repeated. -/
def IdsFresh (db : Keys) (block : Block) : Prop :=
  ∀ tx ∈ block.transactionData, ∀ h ≤ db.height, ∀ tx' ∈ db.transactionsAtHeight h,
    tx'.id = tx.id → tx' = tx ∧ isPayment tx = true

instance (db : Keys) (block : Block) : Decidable (IdsFresh db block) :=
  inferInstanceAs (Decidable (∀ tx ∈ block.transactionData, ∀ h ≤ db.height,
    ∀ tx' ∈ db.transactionsAtHeight h, tx'.id = tx.id → tx' = tx ∧ isPayment tx = true))

/-- What the index says is so, whatever the ids of the blocks are. -/
structure TransactionsFound (db : Keys) : Prop where
  found : ∀ id h num, db.transactionHNById id = some (h, num) →
    h ≤ db.height ∧ ∃ tx, db.nthTransaction h num = some tx ∧ tx.id = id
  notGenesis : ∀ h, 2 ≤ h → h ≤ db.height → ∀ tx ∈ db.transactionsAtHeight h,
    isGenesis tx = false

structure TransactionsStored (db : Keys) : Prop where
  found : ∀ id h num, db.transactionHNById id = some (h, num) →
    h ≤ db.height ∧ ∃ tx, db.nthTransaction h num = some tx ∧ tx.id = id
  indexed : ∀ h ≤ db.height, ∀ tx ∈ db.transactionsAtHeight h, isPayment tx = false →
    ∃ num, db.transactionHNById tx.id = some (h, num)
  unique : ∀ h ≤ db.height, ∀ tx ∈ db.transactionsAtHeight h, ∀ h' ≤ db.height,
    ∀ tx' ∈ db.transactionsAtHeight h', tx.id = tx'.id → isPayment tx = false →
    tx = tx' ∧ h = h'
  notGenesis : ∀ h, 2 ≤ h → h ≤ db.height → ∀ tx ∈ db.transactionsAtHeight h,
    isGenesis tx = false

section
omit [Crypto] [PBTransactionSerializer]

theorem mem_of_nthTransaction {db : Keys} {h num : ℕ} {tx : Transaction}
    (hnth : db.nthTransaction h num = some tx) : tx ∈ db.transactionsAtHeight h := by
  obtain ⟨entry, hentry, rfl⟩ := Option.map_eq_some_iff.mp hnth
  exact List.mem_map_of_mem (List.mem_of_find?_eq_some hentry)

theorem mem_numbered {txs : List Transaction} {entry : ℕ × Transaction} :
    entry ∈ numbered txs ↔ txs[entry.1]? = some entry.2 := by
  rw [numbered, List.mem_map]
  constructor
  · rintro ⟨⟨tx, i⟩, hp, rfl⟩
    exact List.mk_mem_zipIdx_iff_getElem?.mp hp
  · intro hget
    exact ⟨(entry.2, entry.1), List.mk_mem_zipIdx_iff_getElem?.mpr hget, rfl⟩

end

theorem TransactionsStored.transactionsFound {db : Keys} (h : TransactionsStored db) :
    TransactionsFound db :=
  ⟨h.found, h.notGenesis⟩

theorem TransactionsFound.mem_of_transactionInfo {db : Keys} (h : TransactionsFound db)
    {id : ByteStr} {height : ℕ} {tx : Transaction}
    (hinfo : db.transactionInfo id = some (height, tx)) :
    height ≤ db.height ∧ tx ∈ db.transactionsAtHeight height ∧ tx.id = id := by
  obtain ⟨⟨h', num⟩, hhn, hinfo⟩ := Option.bind_eq_some_iff.mp hinfo
  obtain ⟨tx', hnth, hinfo⟩ := Option.bind_eq_some_iff.mp hinfo
  cases hinfo
  obtain ⟨hle, tx', hnth', hid⟩ := h.found id height num hhn
  rw [hnth] at hnth'
  cases hnth'
  exact ⟨hle, mem_of_nthTransaction hnth, hid⟩

/-- **A transaction is found where it stands**, unless it is a payment. -/
theorem TransactionsStored.transactionInfo_eq_some {db : Keys} (h : TransactionsStored db)
    {id : ByteStr} {height : ℕ} {tx : Transaction} (hpayment : isPayment tx = false) :
    db.transactionInfo id = some (height, tx) ↔
      height ≤ db.height ∧ tx ∈ db.transactionsAtHeight height ∧ tx.id = id := by
  constructor
  · exact h.transactionsFound.mem_of_transactionInfo
  · rintro ⟨hle, hmem, rfl⟩
    obtain ⟨num, hhn⟩ := h.indexed height hle tx hmem hpayment
    obtain ⟨-, tx', hnth, hid⟩ := h.found tx.id height num hhn
    have hsame := h.unique height hle tx hmem height hle tx' (mem_of_nthTransaction hnth) hid.symm
      hpayment
    rw [Keys.transactionInfo, hhn]
    dsimp only [Option.bind_eq_bind, Option.bind_some]
    rw [hnth, hsame.1]
    rfl

/-! ## 2. Appended blocks -/

theorem mem_of_byId {txs : List Transaction} {id : ByteStr} {entry : ℕ × Transaction}
    (h : (byId txs).get? id = some entry) : entry ∈ numbered txs ∧ entry.2.id = id := by
  obtain ⟨e, he, heq⟩ := List.mem_map.mp (FiniteMap.mem_of_get?_ofList h)
  obtain ⟨hid, rfl⟩ := Prod.mk.inj heq
  exact ⟨he, hid⟩

section

variable {w : LevelDBWriter} {d : Diff} {carry : Long} {reward : Option Long} {block : Block}

theorem transactionAt_doAppend :
    (w.doAppend d carry reward block).transactionAt (w.height + 1) =
      (numbered block.transactionData).filter fun entry =>
        (byId block.transactionData).get? entry.2.id = some entry :=
  if_pos rfl

theorem mem_block_of_doAppend {tx : Transaction}
    (h : tx ∈ (w.doAppend d carry reward block).transactionsAtHeight (w.height + 1)) :
    tx ∈ block.transactionData ∧
      ∃ num, (byId block.transactionData).get? tx.id = some (num, tx) := by
  rw [Keys.transactionsAtHeight, transactionAt_doAppend, List.mem_map] at h
  obtain ⟨⟨num, tx⟩, hentry, rfl⟩ := h
  rw [List.mem_filter, decide_eq_true_eq] at hentry
  exact ⟨List.mem_of_getElem? (mem_numbered.mp hentry.1), num, hentry.2⟩

theorem nthTransaction_doAppend {id : ByteStr} {entry : ℕ × Transaction}
    (h : (byId block.transactionData).get? id = some entry) :
    (w.doAppend d carry reward block).nthTransaction (w.height + 1) entry.1 = some entry.2 := by
  obtain ⟨hmem, hid⟩ := mem_of_byId h
  have hfind : ((w.doAppend d carry reward block).transactionAt (w.height + 1)).find?
      (fun e => e.1 = entry.1) = some entry := by
    rw [transactionAt_doAppend]
    have hin : entry ∈ (numbered block.transactionData).filter fun e =>
        (byId block.transactionData).get? e.2.id = some e := by
      rw [List.mem_filter, decide_eq_true_eq, hid]
      exact ⟨hmem, h⟩
    rcases hf : ((numbered block.transactionData).filter fun e =>
        (byId block.transactionData).get? e.2.id = some e).find? (fun e => e.1 = entry.1) with _ | e
    · have hnone := List.find?_eq_none.mp hf entry hin
      exact absurd (decide_eq_true rfl) hnone
    · have hnum : e.1 = entry.1 := by simpa using List.find?_some hf
      have he := mem_numbered.mp (List.mem_filter.mp (List.mem_of_find?_eq_some hf)).1
      have hentry := mem_numbered.mp hmem
      rw [hnum, hentry] at he
      exact hf.trans (congrArg some (Prod.ext hnum (Option.some.inj he).symm))
  rw [Keys.nthTransaction, hfind]
  rfl

theorem transactionHNById_doAppend (id : ByteStr) :
    (w.doAppend d carry reward block).transactionHNById id =
      (((byId block.transactionData).get? id).map fun entry => (w.height + 1, entry.1)).or
        (w.db.transactionHNById id) := rfl

theorem isSome_byId {txs : List Transaction} {id : ByteStr} :
    ((byId txs).get? id).isSome ↔ ∃ tx ∈ txs, tx.id = id := by
  constructor
  · intro h
    obtain ⟨entry, hentry⟩ := Option.isSome_iff_exists.mp h
    obtain ⟨hmem, hid⟩ := mem_of_byId hentry
    exact ⟨entry.2, List.mem_of_getElem? (mem_numbered.mp hmem), hid⟩
  · rintro ⟨tx, htx, rfl⟩
    obtain ⟨i, hi⟩ := List.mem_iff_getElem?.mp htx
    have hkey : tx.id ∈
        ((numbered txs).map fun entry => (entry.2.id, entry)).map Prod.fst := by
      rw [List.map_map]
      exact List.mem_map.mpr ⟨(i, tx), mem_numbered.mpr hi, rfl⟩
    obtain ⟨entry, -, hentry⟩ := FiniteMap.exists_get?_ofList hkey
    exact Option.isSome_iff_exists.mpr ⟨entry, hentry⟩

/-- **Where a transaction is found after a block**: in the block, or where it was. -/
theorem TransactionsFound.transactionInfo_doAppend (h : TransactionsFound w.db)
    (hheight : w.db.height = w.height) (id : ByteStr) :
    (w.doAppend d carry reward block).transactionInfo id =
      (((byId block.transactionData).get? id).map fun entry => (w.height + 1, entry.2)).or
        (w.db.transactionInfo id) := by
  rw [Keys.transactionInfo, transactionHNById_doAppend]
  rcases hnew : (byId block.transactionData).get? id with _ | entry
  · rw [Option.map_none, Option.map_none, Option.none_or, Option.none_or, Keys.transactionInfo]
    rcases hhn : w.db.transactionHNById id with _ | ⟨height, num⟩
    · rfl
    · have hne : height ≠ w.height + 1 := by
        have hle := (h.found id height num hhn).1
        omega
      have hsame : (w.doAppend d carry reward block).nthTransaction height num =
          w.db.nthTransaction height num :=
        congrArg (fun l => (List.find? (fun e : ℕ × Transaction => e.1 = num) l).map Prod.snd)
          (if_neg hne)
      dsimp only [Option.bind_eq_bind, Option.bind_some]
      rw [hsame]
  · rw [Option.map_some, Option.map_some, Option.some_or, Option.some_or]
    dsimp only [Option.bind_eq_bind, Option.bind_some]
    rw [nthTransaction_doAppend hnew]
    rfl

end

variable [Ride] [BlockSerializer]

omit [BlockSerializer] in
/-- No block after the first one has a genesis transaction. -/
theorem notGenesis_of_apply {b : Blockchain} {constraint : MiningConstraint}
    {prevBlockTimestamp : Option Long} {initDiff : Diff} {hasNg : Bool} {txs : List Transaction}
    {verify : Bool} {r : BlockDiffer.Result}
    (h : BlockDiffer.apply b constraint prevBlockTimestamp initDiff hasNg txs verify = .ok r)
    (hheight : b.height ≠ 1) : ∀ tx ∈ txs, isGenesis tx = false := by
  refine BlockDiffer.apply_induction (P := fun _ done => ∀ tx ∈ done, isGenesis tx = false) h
    (fun tx htx => absurd htx List.not_mem_nil) ?_ (fun _ _ _ hall => hall)
  intro timestamp acc done tx newDiff _ _ _ hdone hdiff tx' htx'
  rcases List.mem_append.mp htx' with htx' | htx'
  · exact hdone tx' htx'
  · rw [List.mem_singleton.mp htx']
    have hunverified : TransactionDiffer.unverified timestamp
        (CompositeBlockchain b (some acc)) tx = .ok newDiff := by
      unfold TransactionDiffer.apply at hdiff
      split at hdiff
      · exact (TransactionDiffer.verified_eq_ok.mp hdiff).diff
      · exact hdiff
    rcases tx with t | t | t | t | t | t | t | t | t | t | t | t | t | t | t | t
    case genesis =>
      obtain ⟨hone, -⟩ := GenesisTransactionDiff_eq_ok hunverified
      exact absurd hone hheight
    all_goals rfl

theorem notGenesis_of_produces {height : ℕ} {block : Block} {d : Diff} {carry : Long}
    (h : BlockDiffer.Produces height block d carry) (hheight : height ≠ 1) :
    ∀ tx ∈ block.transactionData, isGenesis tx = false := by
  induction h with
  | keyBlock hb h =>
    obtain ⟨⟨⟩, -, h⟩ := Validation.bind_eq_ok.mp h
    exact notGenesis_of_apply h fun hone => hheight (hb ▸ hone)
  | microBlock hblock hb h ih =>
    obtain ⟨⟨⟩, -, h⟩ := Validation.bind_eq_ok.mp h
    obtain ⟨⟨⟩, -, h⟩ := Validation.bind_eq_ok.mp h
    intro tx htx
    rcases List.mem_append.mp htx with htx | htx
    · exact ih tx htx
    · exact notGenesis_of_apply h (fun hone => hheight (hb ▸ hone)) tx htx
  | expiredLeases _ _ ih => exact ih

theorem TransactionsFound.append {w : LevelDBWriter} {d : Diff} {carry : Long}
    {reward : Option Long} {block : Block} (h : TransactionsFound w.db)
    (hheight : w.db.height = w.height) (hblock : BlockDiffer.Produces (w.height + 1) block d carry) :
    TransactionsFound (w.doAppend d carry reward block) where
  found id height num hhn := by
    change height ≤ w.height + 1 ∧ _
    rw [transactionHNById_doAppend] at hhn
    rcases hnew : (byId block.transactionData).get? id with _ | entry
    · rw [hnew, Option.map_none, Option.none_or] at hhn
      obtain ⟨hle, tx, hnth, hid⟩ := h.found id height num hhn
      have hne : height ≠ w.height + 1 := by omega
      refine ⟨by omega, tx, ?_, hid⟩
      rw [← hnth]
      exact congrArg (fun l => (List.find? (fun e : ℕ × Transaction => e.1 = num) l).map Prod.snd)
        (if_neg hne)
    · rw [hnew, Option.map_some, Option.some_or] at hhn
      cases hhn
      exact ⟨Nat.le_refl _, entry.2, nthTransaction_doAppend hnew, (mem_of_byId hnew).2⟩
  notGenesis height htwo hle tx htx := by
    change height ≤ w.height + 1 at hle
    by_cases hnew : height = w.height + 1
    · rw [hnew] at htx
      exact notGenesis_of_produces hblock (by omega) tx (mem_block_of_doAppend htx).1
    · rw [transactionsAtHeight_doAppend (by omega)] at htx
      exact h.notGenesis height htwo (by omega) tx htx

/-- **An appended block** with new ids is stored. -/
theorem TransactionsStored.append {w : LevelDBWriter} {d : Diff} {carry : Long}
    {reward : Option Long} {block : Block} (h : TransactionsStored w.db)
    (hheight : w.db.height = w.height) (hids : IdsDistinct block.transactionData)
    (hfresh : IdsFresh w.db block) (hblock : BlockDiffer.Produces (w.height + 1) block d carry) :
    TransactionsStored (w.doAppend d carry reward block) where
  found := (h.transactionsFound.append hheight hblock).found
  indexed height hle tx htx hpayment := by
    change height ≤ w.height + 1 at hle
    rw [transactionHNById_doAppend]
    by_cases hnew : height = w.height + 1
    · rw [hnew] at htx ⊢
      obtain ⟨-, num, hget⟩ := mem_block_of_doAppend htx
      exact ⟨num, by rw [hget]; rfl⟩
    · rw [transactionsAtHeight_doAppend (by omega)] at htx
      obtain ⟨num, hhn⟩ := h.indexed height (by omega) tx htx hpayment
      refine ⟨num, ?_⟩
      rcases hget : (byId block.transactionData).get? tx.id with _ | entry
      · exact hhn
      · -- the block would have this id again
        obtain ⟨hmem, hid⟩ := mem_of_byId hget
        have hsame := hfresh entry.2 (List.mem_of_getElem? (mem_numbered.mp hmem)) height
          (by omega) tx htx hid.symm
        rw [hsame.1, hsame.2] at hpayment
        cases hpayment
  unique height hle tx htx height' hle' tx' htx' hid hpayment := by
    change height ≤ w.height + 1 at hle
    change height' ≤ w.height + 1 at hle'
    by_cases hnew : height = w.height + 1
    · rw [hnew] at htx
      have hblockTx := (mem_block_of_doAppend htx).1
      by_cases hnew' : height' = w.height + 1
      · rw [hnew'] at htx'
        exact ⟨hids.eq_of_id hblockTx (mem_block_of_doAppend htx').1 hid, hnew.trans hnew'.symm⟩
      · rw [transactionsAtHeight_doAppend (by omega)] at htx'
        have hsame := hfresh tx hblockTx height' (by omega) tx' htx' hid.symm
        rw [hsame.2] at hpayment
        cases hpayment
    · rw [transactionsAtHeight_doAppend (by omega)] at htx
      by_cases hnew' : height' = w.height + 1
      · rw [hnew'] at htx'
        have hsame := hfresh tx' (mem_block_of_doAppend htx').1 height (by omega) tx htx hid
        rw [hsame.1, hsame.2] at hpayment
        cases hpayment
      · rw [transactionsAtHeight_doAppend (by omega)] at htx'
        exact h.unique height (by omega) tx htx height' (by omega) tx' htx' hid hpayment
  notGenesis := (h.transactionsFound.append hheight hblock).notGenesis

/-! ## 3. Discarded blocks -/

omit [Ride] [BlockSerializer] in
theorem TransactionsFound.discard {w : LevelDBWriter} {n : ℕ} (h : TransactionsFound w.db)
    (hheight : w.db.height = n + 1) (hn : 1 ≤ n) : TransactionsFound (w.discardKeys (n + 1)) where
  found id height num hhn := by
    change height ≤ n ∧ _
    change (if (w.db.transactionsAtHeight (n + 1)).any fun tx => !isGenesis tx && tx.id = id then
      none else w.db.transactionHNById id) = some (height, num) at hhn
    split at hhn
    · cases hhn
    · rename_i hany
      obtain ⟨hle, tx, hnth, hid⟩ := h.found id height num hhn
      by_cases hlast : height = n + 1
      · -- it would have stood in the block that is discarded
        rw [hlast] at hnth
        have hmem := mem_of_nthTransaction hnth
        have hgenesis := h.notGenesis (n + 1) (by omega) (by omega) tx hmem
        refine absurd (List.any_eq_true.mpr ⟨tx, hmem, ?_⟩) hany
        rw [hgenesis, hid]
        simp
      · refine ⟨by omega, tx, ?_, hid⟩
        rw [← hnth]
        exact congrArg (fun l => (List.find? (fun e : ℕ × Transaction => e.1 = num) l).map Prod.snd)
          (if_neg hlast)
  notGenesis height htwo hle tx htx := by
    change height ≤ n at hle
    rw [transactionsAtHeight_discardKeys (by omega)] at htx
    exact h.notGenesis height htwo (by omega) tx htx

omit [Ride] [BlockSerializer] in
theorem TransactionsStored.discard {w : LevelDBWriter} {n : ℕ} (h : TransactionsStored w.db)
    (hheight : w.db.height = n + 1) (hn : 1 ≤ n) :
    TransactionsStored (w.discardKeys (n + 1)) where
  found := (h.transactionsFound.discard hheight hn).found
  indexed height hle tx htx hpayment := by
    change height ≤ n at hle
    rw [transactionsAtHeight_discardKeys (by omega)] at htx
    obtain ⟨num, hhn⟩ := h.indexed height (by omega) tx htx hpayment
    refine ⟨num, ?_⟩
    change (if (w.db.transactionsAtHeight (n + 1)).any fun t => !isGenesis t && t.id = tx.id then
      none else w.db.transactionHNById tx.id) = some (height, num)
    rw [if_neg, hhn]
    intro hany
    obtain ⟨tx', hmem, hcond⟩ := List.any_eq_true.mp hany
    have hid : tx'.id = tx.id := by simpa using (Bool.and_eq_true_iff.mp hcond).2
    have hsame := h.unique height (by omega) tx htx (n + 1) (by omega) tx' hmem hid.symm hpayment
    omega
  unique height hle tx htx height' hle' tx' htx' hid hpayment := by
    change height ≤ n at hle
    change height' ≤ n at hle'
    rw [transactionsAtHeight_discardKeys (by omega)] at htx htx'
    exact h.unique height (by omega) tx htx height' (by omega) tx' htx' hid hpayment
  notGenesis := (h.transactionsFound.discard hheight hn).notGenesis

/-! ## 4. Runs -/

/-- **In every run** the index leads to the transactions it says. -/
theorem transactionsFound {Q : LevelDBWriter → Event → Prop} : KeysInvariant Q TransactionsFound where
  empty :=
    { found := fun id height num hhn => by cases hhn
      notGenesis := fun height _ _ tx htx => absurd htx List.not_mem_nil }
  append hheight _ hblock h := h.append hheight hblock
  discard hheight hn h := h.discard hheight hn

/-- **In every run** whose appended blocks have new ids the transactions are stored. -/
theorem transactionsStored {Q : LevelDBWriter → Event → Prop}
    (hQ : ∀ w d carry reward block, Q w (.append d carry reward block) →
      IdsDistinct block.transactionData ∧ IdsFresh w.db block) :
    KeysInvariant Q TransactionsStored where
  empty :=
    { found := fun id height num hhn => by cases hhn
      indexed := fun height _ tx htx => absurd htx List.not_mem_nil
      unique := fun height _ tx htx => absurd htx List.not_mem_nil
      notGenesis := fun height _ _ tx htx => absurd htx List.not_mem_nil }
  append := by
    intro w d carry reward block hheight hevent hblock h
    obtain ⟨hids, hfresh⟩ := hQ w d carry reward block hevent
    exact h.append hheight hids hfresh hblock
  discard hheight hn h := h.discard hheight hn

theorem height_grows {Q : LevelDBWriter → Event → Prop} {w v : LevelDBWriter} (hw : Sound w)
    (hgrows : Grows Q w v) : w.height ≤ v.height := by
  induction hgrows with
  | refl => exact Nat.le_refl _
  | @step v v' e hrun _ hno hleads ih =>
    cases e with
    | append d carry reward block =>
      obtain ⟨-, rfl⟩ := hleads
      exact Nat.le_succ_of_le ih
    | rollbackTo id => exact absurd rfl (hno id)
    | load key =>
      cases hleads
      rwa [height_load]
    | evict key =>
      cases hleads
      rwa [height_evict]
    | restart =>
      cases hleads
      exact Nat.le_trans ih (Nat.le_of_eq (hrun.sound hw).height.symm)

/-- Blocks on top leave the transactions below. -/
theorem transactionsAtHeight_grows {Q : LevelDBWriter → Event → Prop} {w v : LevelDBWriter}
    (hw : Sound w) (hgrows : Grows Q w v) {h : ℕ} (hh : h ≤ w.height) :
    v.db.transactionsAtHeight h = w.db.transactionsAtHeight h := by
  induction hgrows with
  | refl => rfl
  | @step v v' e hrun _ hno hleads ih =>
    cases e with
    | append d carry reward block =>
      obtain ⟨-, rfl⟩ := hleads
      have hle := height_grows hw hrun
      exact (transactionsAtHeight_doAppend (by omega)).trans ih
    | rollbackTo id => exact absurd rfl (hno id)
    | load key =>
      cases hleads
      rwa [db_load]
    | evict key =>
      cases hleads
      rwa [db_evict]
    | restart =>
      cases hleads
      exact ih

omit [Ride] [BlockSerializer] in
theorem transactionsAtHeight_discardBlocks {targetHeight h : ℕ} (hh : h ≤ targetHeight) :
    ∀ (w : LevelDBWriter) (n : ℕ),
      (discardBlocks targetHeight n w).db.transactionsAtHeight h = w.db.transactionsAtHeight h
  | _, 0 => rfl
  | w, n + 1 => by
    rw [discardBlocks, transactionsAtHeight_discardBlocks hh]
    exact transactionsAtHeight_discardKeys (by omega)

/-- **After a rollback** a transaction that is not a payment is found as it was before the
blocks that were taken off. -/
theorem transactionInfo_doRollback {Q : LevelDBWriter → Event → Prop}
    (hQ : KeysInvariant Q TransactionsStored) {settings : BlockchainSettings}
    {dbSettings : DBSettings} {w v : LevelDBWriter} {id : BlockId}
    (h : Reachable Q settings dbSettings w) (hgrows : Grows Q w v)
    (htarget : v.db.heightOf id = some w.height) {txId : ByteStr} {height : ℕ} {tx : Transaction}
    (hpayment : isPayment tx = false) :
    (v.doRollback id).db.transactionInfo txId = some (height, tx) ↔
      w.db.transactionInfo txId = some (height, tx) := by
  have hw := h.sound
  have hv := hgrows.sound hw
  have hle := height_grows hw hgrows
  have hstored := hQ.reachable h
  have hstoredEnd := hQ.doRollback hv id (hQ.grows hw hstored hgrows)
  have hroll : v.doRollback id = discardBlocks w.height (v.height - w.height) v := by
    rw [doRollback, htarget]
  have hend : (v.doRollback id).db.height = w.height := by
    rw [hroll]
    have hvheight := hv.height
    exact height_discardBlocks _ _ _ (by omega)
  rw [hstoredEnd.transactionInfo_eq_some hpayment, hstored.transactionInfo_eq_some hpayment, hend,
    hw.height]
  have hsame : height ≤ w.height → (v.doRollback id).db.transactionsAtHeight height =
      w.db.transactionsAtHeight height := by
    intro hheight
    rw [hroll, transactionsAtHeight_discardBlocks hheight, transactionsAtHeight_grows hw hgrows hheight]
  constructor
  · rintro ⟨hheight, hmem, hid⟩
    exact ⟨hheight, hsame hheight ▸ hmem, hid⟩
  · rintro ⟨hheight, hmem, hid⟩
    exact ⟨hheight, (hsame hheight).symm ▸ hmem, hid⟩

/-! ## 5. Values that are undone with transactions -/

/-- A value without a cache that a rollback finds by the transactions of a kind. -/
theorem Kept.lawful_of_transactions {υ β : Type} {K : Kept υ β}
    {Q : LevelDBWriter → Event → Prop} (undoneBy : Transaction → Prop) [DecidablePred undoneBy]
    (written : LevelDBWriter → Diff → Option υ) (hempty : K.history Keys.empty = .empty)
    (hcache : ∀ w, K.cache w = none)
    (hundone : ∀ db h, K.undone db h ↔ ∃ tx ∈ db.transactionsAtHeight h, undoneBy tx)
    (happend : ∀ (w : LevelDBWriter) (d : Diff) (carry : Long) (reward : Option Long)
      (block : Block), K.history (w.doAppend d carry reward block) =
        (K.history w.db).pushSome (w.height + 1)
          (w.height + 1 - w.dbSettings.maxRollbackDepth) (written w d))
    (hQ : ∀ (w : LevelDBWriter) (d : Diff) (carry : Long) (reward : Option Long) (block : Block),
      Q w (.append d carry reward block) → IdsDistinct block.transactionData ∧
        ∀ v, d.Records block.transactionData → written w d = some v →
          ∃ tx ∈ block.transactionData, undoneBy tx)
    (hdiscard : ∀ (w : LevelDBWriter) (n : ℕ), K.history (w.discardKeys n) =
      if (w.db.transactionsAtHeight n).any fun tx => undoneBy tx then (K.history w.db).drop n
      else K.history w.db) : K.Lawful Q where
  history_empty := hempty
  cache_empty _ _ := hcache _
  append := by
    intro w d carry reward block hevent hblock
    obtain ⟨hids, hwritten⟩ := hQ w d carry reward block hevent
    have hhistory := happend w d carry reward block
    rcases hv : written w d with _ | v
    · rw [hv] at hhistory
      exact .inr ⟨hhistory, .inl (hcache _)⟩
    · rw [hv] at hhistory
      obtain ⟨tx, htx, hkind⟩ := hwritten v (hblock.records hids) hv
      exact .inl ⟨some v, _, Nat.le_refl _, hhistory, (hundone _ _).mpr
        ⟨tx, mem_transactionsAtHeight_doAppend hids htx, hkind⟩, .inl (hcache _)⟩
  undone_append w d carry reward block h hh := by
    rw [hundone, hundone, transactionsAtHeight_doAppend hh]
    exact fun hold => hold
  discard w n := by
    have hhistory := hdiscard w n
    by_cases hany : (w.db.transactionsAtHeight n).any fun tx => undoneBy tx
    · rw [if_pos hany] at hhistory
      exact .inl ⟨hhistory, hcache _⟩
    · rw [if_neg hany] at hhistory
      refine .inr ⟨?_, hhistory, .inl (hcache _)⟩
      rw [hundone]
      rintro ⟨tx, htx, hkind⟩
      exact hany (List.any_eq_true.mpr ⟨tx, htx, decide_eq_true hkind⟩)
  undone_discard w n h hh := by
    rw [hundone, hundone, transactionsAtHeight_discardKeys hh]
    exact fun hold => hold
  load w key := .inl ((hcache _).trans (hcache _).symm)
  evict w key := .inl ((hcache _).trans (hcache _).symm)
  restart w := hcache _
  aside _ _ _ _ _ := (hcache _).trans (hcache _).symm

end LevelDBWriter

end WavesNode
