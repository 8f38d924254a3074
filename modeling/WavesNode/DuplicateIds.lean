/-
Duplicates are found.

A transaction is looked for in two places. The ids of the last blocks are in memory, with
the height they came with; an older one is looked for on disk, and only if the transaction
is not later than two hours after the oldest block in memory. `Detects` says that the two
together find exactly the ids of the chain, and that is kept by blocks that follow each
other in time, by a start with an empty memory, and by every rollback but one: a payment is
never compared with the chain, so it may stand in two blocks, and when the later of them is
taken off its id is forgotten, though the payment is still in the earlier one.
-/
import WavesNode.LiquidView

set_option autoImplicit false

namespace WavesNode

namespace LevelDBWriter

variable [Crypto] [PBTransactionSerializer]

/-! ## 1. The chain, and the condition -/

/-- A transaction of this id is in a block of the chain, up to a height. -/
def InChain (db : Keys) (height : ℕ) (id : ByteStr) : Prop :=
  ∃ h ≤ height, ∃ tx ∈ db.transactionsAtHeight h, tx.id = id

/-- An id of the chain belongs to transactions of one timestamp. -/
def SameTime (db : Keys) (tx : Transaction) : Prop :=
  ∀ h ≤ db.height, ∀ tx' ∈ db.transactionsAtHeight h, tx'.id = tx.id →
    tx'.timestamp = tx.timestamp

/-- A block that may follow: it is not earlier than the last one, none of its transactions is
more than two hours ahead of it, and none that is compared with the chain is found there. -/
structure Follows (w : LevelDBWriter) (block : Block) : Prop where
  ordered : ∀ info, w.db.blockInfoAt w.db.height = some info →
    info.header.timestamp ≤ block.header.timestamp
  ahead : ∀ tx ∈ block.transactionData, tx.timestamp - TwoHours ≤ block.header.timestamp
  sameTime : ∀ tx ∈ block.transactionData, SameTime w.db tx
  compared : ∀ tx ∈ block.transactionData, isPayment tx = false → w.containsTransaction tx = false

/-- No payment of the blocks above a height has the id of a transaction below. -/
def PaymentsOnce (db : Keys) (target : ℕ) : Prop :=
  ∀ h ≤ target, ∀ tx ∈ db.transactionsAtHeight h, ∀ h', target < h' → h' ≤ db.height →
    ∀ tx' ∈ db.transactionsAtHeight h', isPayment tx' = true → tx.id ≠ tx'.id

/-- **The condition.** Blocks follow each other, and a rollback takes off no payment that also
stands in a block that stays. -/
def NoPaymentTorn (w : LevelDBWriter) : Event → Prop
  | .append _ _ _ block => w.Follows block
  | .rollbackTo id => ∀ target, w.db.heightOf id = some target → PaymentsOnce w.db target
  | _ => True

/-! ## 2. What a run keeps -/

/-- The ids that are found, while blocks are taken off down to a target: nothing but what is
in the chain, and everything of the blocks that stay. -/
structure Finds (w : LevelDBWriter) (target : ℕ) : Prop where
  found : ∀ id, (w.db.transactionHNById id).isSome → InChain w.db w.db.height id
  memory : ∀ id, (w.transactionIds id).isSome → (w.db.transactionHNById id).isSome
  indexed : ∀ h ≤ target, ∀ tx ∈ w.db.transactionsAtHeight h,
    (w.db.transactionHNById tx.id).isSome
  remembered : ∀ h ≤ target, ∀ tx ∈ w.db.transactionsAtHeight h, RememberedAs w tx.id tx.timestamp

/-- No transaction is more than two hours ahead of its block or of a later one, and only a
payment has an id that was there before. -/
structure Ordered (db : Keys) : Prop where
  ahead : ∀ h, ∀ tx ∈ db.transactionsAtHeight h, ∀ h', h ≤ h' → h' ≤ db.height →
    ∃ info, db.blockInfoAt h' = some info ∧ tx.timestamp - TwoHours ≤ info.header.timestamp
  once : ∀ h' ≤ db.height, ∀ tx' ∈ db.transactionsAtHeight h', isPayment tx' = false →
    ∀ h < h', ∀ tx ∈ db.transactionsAtHeight h, tx.id ≠ tx'.id
  notGenesis : ∀ h, 2 ≤ h → h ≤ db.height → ∀ tx ∈ db.transactionsAtHeight h,
    isGenesis tx = false

/-- **A database finds its duplicates.** -/
structure Detects (w : LevelDBWriter) : Prop where
  finds : Finds w w.db.height
  ordered : Ordered w.db

/-- What is found is what the chain has. -/
theorem Detects.containsTransaction_iff {w : LevelDBWriter} (h : Detects w) {tx : Transaction}
    (htx : SameTime w.db tx) :
    w.containsTransaction tx = true ↔ InChain w.db w.db.height tx.id := by
  rw [containsTransaction, Bool.or_eq_true, Bool.and_eq_true, decide_eq_true_eq]
  constructor
  · rintro (hmem | ⟨-, hstored⟩)
    · exact h.finds.found _ (h.finds.memory _ hmem)
    · exact h.finds.found _ hstored
  · rintro ⟨height, hle, tx', htx', hid⟩
    have hstored := h.finds.indexed height hle tx' htx'
    have hfound := (h.finds.remembered height hle tx' htx').found
    rw [htx height hle tx' htx' hid] at hfound
    rw [hid] at hstored hfound
    exact hfound.imp id fun hearly => ⟨hearly, hstored⟩

/-! ## 3. Appended blocks -/

section

variable {w : LevelDBWriter} {d : Diff} {carry : Long} {reward : Option Long} {block : Block}

/-- A transaction that is there after a block comes with it or was there before. -/
theorem mem_or_mem_of_doAppend {h : ℕ} {tx : Transaction}
    (htx : tx ∈ (w.doAppend d carry reward block).transactionsAtHeight h) :
    (h = w.height + 1 ∧ tx ∈ block.transactionData) ∨
      (h ≠ w.height + 1 ∧ tx ∈ w.db.transactionsAtHeight h) := by
  by_cases hnew : h = w.height + 1
  · rw [hnew] at htx
    exact .inl ⟨hnew, (mem_block_of_doAppend htx).1⟩
  · have hsame : (w.doAppend d carry reward block).transactionsAtHeight h =
        w.db.transactionsAtHeight h :=
      congrArg (List.map Prod.snd) (if_neg hnew)
    rw [hsame] at htx
    exact .inr ⟨hnew, htx⟩

/-- The chain after a block: its ids besides the ones before. -/
theorem inChain_doAppend {id : ByteStr} :
    InChain (w.doAppend d carry reward block) (w.height + 1) id ↔
      (∃ tx ∈ block.transactionData, tx.id = id) ∨ InChain w.db w.height id := by
  constructor
  · rintro ⟨h, hle, tx, htx, hid⟩
    rcases mem_or_mem_of_doAppend htx with ⟨-, hmem⟩ | ⟨hold, hmem⟩
    · exact .inl ⟨tx, hmem, hid⟩
    · exact .inr ⟨h, by omega, tx, hmem, hid⟩
  · rintro (hlisted | ⟨h, hle, tx, htx, hid⟩)
    · obtain ⟨entry, hentry⟩ := Option.isSome_iff_exists.mp (isSome_byId.mpr hlisted)
      exact ⟨w.height + 1, Nat.le_refl _, entry.2,
        mem_of_nthTransaction (nthTransaction_doAppend hentry), (mem_of_byId hentry).2⟩
    · refine ⟨h, by omega, tx, ?_, hid⟩
      rwa [transactionsAtHeight_doAppend hle]

theorem isSome_transactionHNById_doAppend {id : ByteStr} :
    ((w.doAppend d carry reward block).transactionHNById id).isSome ↔
      (∃ tx ∈ block.transactionData, tx.id = id) ∨ (w.db.transactionHNById id).isSome := by
  rw [transactionHNById_doAppend, Option.isSome_or, Option.isSome_map, Bool.or_eq_true, isSome_byId]

/-- **A block that follows** is found, and what was found before still is. -/
theorem Detects.append (h : Detects w) (hheight : w.db.height = w.height)
    (hlists : d.Lists block.transactionData) (hblock : w.Follows block)
    (hgenesis : w.height + 1 ≠ 1 → ∀ tx ∈ block.transactionData, isGenesis tx = false) :
    Detects (w.append d carry reward block) := by
  -- every transaction of the old chain is early enough for the block
  have hearly : ∀ h ≤ w.height, ∀ tx ∈ w.db.transactionsAtHeight h,
      tx.timestamp - TwoHours ≤ block.header.timestamp := by
    intro k hle tx htx
    obtain ⟨info, hinfo, hahead⟩ := h.ordered.ahead k tx htx w.db.height (by omega) (Nat.le_refl _)
    exact Int64.le_trans hahead (hblock.ordered info hinfo)
  have hfinds : Finds (w.append d carry reward block) (w.height + 1) := by
    refine ⟨?_, ?_, ?_, ?_⟩
    · intro id hid
      refine inChain_doAppend.mpr ?_
      rcases isSome_transactionHNById_doAppend.mp hid with hnew | hold
      · exact .inl hnew
      · have hfound := h.finds.found id hold
        rw [hheight] at hfound
        exact .inr hfound
    · intro id hid
      refine isSome_transactionHNById_doAppend.mpr ?_
      change (Option.filter _
        (if d.transactions.contains id then some (w.height + 1) else w.transactionIds id)).isSome
          at hid
      have hbefore := Option.isSome_of_isSome_filter _ _ hid
      split at hbefore
      · rename_i hcontained
        exact .inl ((hlists id).mp hcontained)
      · exact .inr (h.finds.memory id hbefore)
    · intro k hle tx htx
      refine isSome_transactionHNById_doAppend.mpr ?_
      rcases mem_or_mem_of_doAppend htx with ⟨-, hmem⟩ | ⟨hold, hmem⟩
      · exact .inl ⟨tx, hmem, rfl⟩
      · exact .inr (h.finds.indexed k (by omega) tx hmem)
    · intro k hle tx htx
      rcases mem_or_mem_of_doAppend htx with ⟨-, hmem⟩ | ⟨hold, hmem⟩
      · refine RememberedAs.append (hblock.ahead tx hmem) (.inl ?_)
        exact (FiniteMap.contains_iff_mem_dom _ _).mp ((hlists tx.id).mpr ⟨tx, hmem, rfl⟩)
      · exact RememberedAs.append (hearly k (by omega) tx hmem)
          (.inr (h.finds.remembered k (by omega) tx hmem))
  have hordered : Ordered (w.doAppend d carry reward block) := by
    refine ⟨?_, ?_, ?_⟩
    · intro k tx htx k' hle hle'
      change k' ≤ w.height + 1 at hle'
      change ∃ info, (if k' = w.height + 1 then
        some (⟨block.header, block.transactionData.length, block.signature⟩ : BlockInfo)
        else w.db.blockInfoAt k') = some info ∧ _
      by_cases hlast : k' = w.height + 1
      · rw [if_pos hlast]
        refine ⟨_, rfl, ?_⟩
        rcases mem_or_mem_of_doAppend htx with ⟨-, hmem⟩ | ⟨hold, hmem⟩
        · exact hblock.ahead tx hmem
        · exact hearly k (by omega) tx hmem
      · rw [if_neg hlast]
        rcases mem_or_mem_of_doAppend htx with ⟨hnew, -⟩ | ⟨-, hmem⟩
        · omega
        · exact h.ordered.ahead k tx hmem k' hle (by omega)
    · intro k' hle' tx' htx' hpayment k hlt tx htx hid
      change k' ≤ w.height + 1 at hle'
      rcases mem_or_mem_of_doAppend htx with ⟨hnew, -⟩ | ⟨-, hmem⟩
      · omega
      · rcases mem_or_mem_of_doAppend htx' with ⟨-, hmem'⟩ | ⟨hold', hmem'⟩
        · -- what was compared with the chain was not there
          have hchecked := hblock.compared tx' hmem' hpayment
          have hcontained := (h.containsTransaction_iff (hblock.sameTime tx' hmem')).mpr
            ⟨k, by omega, tx, hmem, hid⟩
          rw [hchecked] at hcontained
          cases hcontained
        · exact h.ordered.once k' (by omega) tx' hmem' hpayment k hlt tx hmem hid
    · intro k htwo hle tx htx
      change k ≤ w.height + 1 at hle
      rcases mem_or_mem_of_doAppend htx with ⟨hnew, hmem⟩ | ⟨hold, hmem⟩
      · exact hgenesis (by omega) tx hmem
      · exact h.ordered.notGenesis k htwo (by omega) tx hmem
  exact ⟨hfinds, hordered⟩

end

/-! ## 4. Discarded blocks -/

section

variable {w : LevelDBWriter} {n target : ℕ}

/-- A transaction that is there after a block is taken off was there before. -/
theorem mem_of_discardKeys {h : ℕ} {tx : Transaction} (hh : h ≤ n)
    (htx : tx ∈ (w.discardKeys (n + 1)).transactionsAtHeight h) :
    tx ∈ w.db.transactionsAtHeight h := by
  rwa [transactionsAtHeight_discardKeys (by omega)] at htx

theorem Ordered.discard (h : Ordered w.db) (hheight : w.db.height = n + 1) :
    Ordered (w.discardKeys (n + 1)) where
  ahead k tx htx k' hle hle' := by
    change k' ≤ n at hle'
    obtain ⟨info, hinfo, hahead⟩ :=
      h.ahead k tx (mem_of_discardKeys (by omega) htx) k' hle (by omega)
    refine ⟨info, ?_, hahead⟩
    rw [← hinfo]
    exact if_neg (by omega)
  once k' hle' tx' htx' hpayment k hlt tx htx := by
    change k' ≤ n at hle'
    exact h.once k' (by omega) tx' (mem_of_discardKeys hle' htx') hpayment k hlt tx
      (mem_of_discardKeys (by omega) htx)
  notGenesis k htwo hle tx htx := by
    change k ≤ n at hle
    exact h.notGenesis k htwo (by omega) tx (mem_of_discardKeys hle htx)

/-- **One block less**: its ids go, and none of them belongs to a block that stays. -/
theorem Finds.discard (h : Finds w target) (hordered : Ordered w.db)
    (hheight : w.db.height = n + 1) (hn : 1 ≤ n) (htarget : target ≤ n)
    (honce : PaymentsOnce w.db target) : Finds (w.discardBlock (n + 1)) target := by
  -- a transaction of a block that stays has none of the ids
  have hstays : ∀ k ≤ target, ∀ tx ∈ w.db.transactionsAtHeight k,
      ∀ tx' ∈ w.db.transactionsAtHeight (n + 1), tx'.id ≠ tx.id := by
    intro k hle tx htx tx' htx' hid
    rcases hpayment : isPayment tx' with _ | _
    · exact hordered.once (n + 1) (by omega) tx' htx' hpayment k (by omega) tx htx hid.symm
    · exact honce k hle tx htx (n + 1) (by omega) (by omega) tx' htx' hpayment hid.symm
  refine ⟨?_, ?_, ?_, ?_⟩
  · intro id hid
    change (if (w.db.transactionsAtHeight (n + 1)).any fun tx => !isGenesis tx && tx.id = id then
      none else w.db.transactionHNById id).isSome at hid
    split at hid
    · cases hid
    · rename_i hany
      obtain ⟨k, hle, tx, htx, rfl⟩ := h.found id hid
      have hne : k ≠ n + 1 := by
        rintro rfl
        refine hany (List.any_eq_true.mpr ⟨tx, htx, ?_⟩)
        rw [hordered.notGenesis (n + 1) (by omega) (by omega) tx htx, decide_eq_true rfl]
        rfl
      refine ⟨k, ?_, tx, ?_, rfl⟩
      · change k ≤ n
        omega
      · change tx ∈ (w.discardKeys (n + 1)).transactionsAtHeight k
        rwa [transactionsAtHeight_discardKeys (by omega)]
  · intro id hid
    change (if (w.db.transactionsAtHeight (n + 1)).any fun tx => !isGenesis tx && tx.id = id then
      none else w.db.transactionHNById id).isSome
    change (if (w.db.transactionsAtHeight (n + 1)).any fun tx => tx.id = id then
      none else w.transactionIds id).isSome at hid
    split at hid
    · cases hid
    · rename_i hany
      rw [if_neg]
      · exact h.memory id hid
      · intro hgone
        obtain ⟨tx, htx, hcond⟩ := List.any_eq_true.mp hgone
        exact hany (List.any_eq_true.mpr ⟨tx, htx, (Bool.and_eq_true_iff.mp hcond).2⟩)
  · intro k hle tx htx
    have hold := mem_of_discardKeys (by omega) htx
    change (if (w.db.transactionsAtHeight (n + 1)).any fun tx' => !isGenesis tx' && tx'.id = tx.id
      then none else w.db.transactionHNById tx.id).isSome
    rw [if_neg]
    · exact h.indexed k hle tx hold
    · intro hgone
      obtain ⟨tx', htx', hcond⟩ := List.any_eq_true.mp hgone
      exact hstays k hle tx hold tx' htx' (of_decide_eq_true (Bool.and_eq_true_iff.mp hcond).2)
  · intro k hle tx htx
    have hold := mem_of_discardKeys (by omega) htx
    have hids : (w.discardBlock (n + 1)).transactionIds tx.id = w.transactionIds tx.id := by
      refine if_neg fun hgone => ?_
      obtain ⟨tx', htx', hid⟩ := List.any_eq_true.mp hgone
      exact hstays k hle tx hold tx' htx' (of_decide_eq_true hid)
    have hremembered := h.remembered k hle tx hold
    unfold RememberedAs at hremembered ⊢
    rw [hids]
    exact hremembered

theorem PaymentsOnce.discard (h : PaymentsOnce w.db target) (hheight : w.db.height = n + 1)
    (htarget : target ≤ n) : PaymentsOnce (w.discardKeys (n + 1)) target := by
  intro k hle tx htx k' hlt hle' tx' htx'
  change k' ≤ n at hle'
  exact h k hle tx (mem_of_discardKeys (by omega) htx) k' hlt (by omega) tx'
    (mem_of_discardKeys hle' htx')

/-- The rounds of a rollback: what the target's blocks need is kept by each of them. -/
theorem Finds.discardBlocks (ht : 1 ≤ target) :
    ∀ {w : LevelDBWriter} (n : ℕ), w.db.height = target + n → Ordered w.db →
      PaymentsOnce w.db target → Finds w target →
      Finds (discardBlocks target n w) target ∧ Ordered (discardBlocks target n w).db ∧
        (discardBlocks target n w).db.height = target
  | _, 0, hheight, hordered, _, h => ⟨h, hordered, hheight⟩
  | w, n + 1, hheight, hordered, honce, h => by
    rw [LevelDBWriter.discardBlocks]
    exact Finds.discardBlocks ht n rfl (hordered.discard hheight)
      (honce.discard hheight (by omega))
      (h.discard hordered hheight (by omega) (by omega) honce)

theorem Finds.mono {target' : ℕ} (h : Finds w target) (hle : target' ≤ target) :
    Finds w target' where
  found := h.found
  memory := h.memory
  indexed k hk := h.indexed k (by omega)
  remembered k hk := h.remembered k (by omega)

/-- **A rollback** that tears no payment. -/
theorem Detects.doRollback (h : Detects w) (hw : Sound w) {id : BlockId}
    (honce : ∀ target, w.db.heightOf id = some target → PaymentsOnce w.db target) :
    Detects (w.doRollback id) := by
  rw [LevelDBWriter.doRollback]
  rcases hid : w.db.heightOf id with _ | target
  · exact h
  · dsimp only
    have hheight := hw.height
    by_cases ht : target ≤ w.height
    · obtain ⟨hfinds, hordered, hend⟩ := Finds.discardBlocks (hw.heightOf_pos id _ hid)
        (w.height - target) (by omega) h.ordered (honce target hid) (h.finds.mono (by omega))
      refine ⟨?_, hordered⟩
      rwa [hend]
    · have hzero : w.height - target = 0 := by omega
      rw [hzero]
      exact h

end

/-! ## 5. Runs -/

variable [Ride] [BlockSerializer]

theorem Detects.leads {w v : LevelDBWriter} {e : Event} (h : Detects w) (hw : Sound w)
    (hQ : NoPaymentTorn w e) (hleads : e.Leads w v) : Detects v := by
  cases e with
  | append d carry reward block =>
    obtain ⟨hblock, rfl⟩ := hleads
    exact h.append hw.height hblock.lists hQ (notGenesis_of_produces hblock)
  | rollbackTo id =>
    have hback := h.doRollback hw hQ
    rw [rollbackTo_eq_ok hleads]
    exact ⟨⟨hback.finds.found, hback.finds.memory, hback.finds.indexed, hback.finds.remembered⟩,
      hback.ordered⟩
  | load key =>
    cases hleads
    cases key <;>
      exact ⟨⟨h.finds.found, h.finds.memory, h.finds.indexed, h.finds.remembered⟩, h.ordered⟩
  | evict key =>
    cases hleads
    cases key <;>
      exact ⟨⟨h.finds.found, h.finds.memory, h.finds.indexed, h.finds.remembered⟩, h.ordered⟩
  | restart =>
    cases hleads
    refine ⟨⟨h.finds.found, ?_, h.finds.indexed, ?_⟩, h.ordered⟩
    · intro id hid
      cases hid
    · -- nothing is in memory, and everything is looked for on disk
      intro k hle tx htx
      exact .inr ⟨.inr (Int64.le_maxValue _), fun _ _ hts => by cases hts⟩

theorem detects_reachable {settings : BlockchainSettings} {dbSettings : DBSettings}
    {w : LevelDBWriter} (h : Reachable NoPaymentTorn settings dbSettings w) : Detects w := by
  induction h with
  | empty =>
    refine ⟨⟨?_, ?_, ?_, ?_⟩, ⟨?_, ?_, ?_⟩⟩
    · intro id hid
      cases hid
    · intro id hid
      cases hid
    · intro k _ tx htx
      cases htx
    · intro k _ tx htx
      cases htx
    · intro k tx htx
      cases htx
    · intro k _ tx htx
      cases htx
    · intro k _ _ tx htx
      cases htx
  | step hrun hQ hleads ih => exact ih.leads hrun.sound hQ hleads

end LevelDBWriter

/-! ## 6. A payment in two blocks

Alice's payment is in the second block and again in the third, which is then taken off. -/

namespace Devnet

def payment : PaymentTransaction where
  sender := alice.publicKey
  recipient := bob.address
  amount := 100000000
  fee := 1
  timestamp := 1499999960000
  signature := bytes 64
    0xe52c0a065a53999ea358ce78550dd6e2ced49a7f2b4fb923c1fd7be1bca16a988361f4b7bff38f3586583b18e1a4d25bf9fba359a31bb3ecd6a633477a53b28b

def paymentBody : ByteStr :=
  bytes 86 0x000000020000015d3ef6fbc02e8b2883c27b391359d7d0c15d00815a6693290a38dd8eba341cc07ddaa8ed4d0154aa259a33e350952c45254e402badc9b74c47e88d2cdd1ded0000000005f5e1000000000000000001

def paymentBlock : Block where
  header := { emptyBlock.header with version := 2 }
  signature := bytes 64
    0x3432fce3c1f16ccaef4d874e53b1eb4c3a1c5eac8b847219992722e93714b7af0cebcaa213ca97cde97ad7a432b8cf67da4a2171f9ebbab163386ed711dccd81
  transactionData := [.payment payment]

def paymentBlockBytes : ByteStr :=
  bytes 305 0x020000015d3ef6fbc0813668d47528909acf62aeeba30294f9418c2e97172d3ba7c6b151db7b59017729e5dcdad233de6207ec6c23997c1e53e839c715225de43d375043d5b398e688000000280000000009299ff340328d507794ee8ca0f9169b6e221a1409677d18dc99c0d1674574ccf69aceb9000000980100000093020000015d3ef6fbc02e8b2883c27b391359d7d0c15d00815a6693290a38dd8eba341cc07ddaa8ed4d0154aa259a33e350952c45254e402badc9b74c47e88d2cdd1ded0000000005f5e1000000000000000001e52c0a065a53999ea358ce78550dd6e2ced49a7f2b4fb923c1fd7be1bca16a988361f4b7bff38f3586583b18e1a4d25bf9fba359a31bb3ecd6a633477a53b28b1885844ed84c86501cd2221627f1d16cd4c60530e5415e1bf6cab037b054f150

def repeatedBlock : Block where
  header :=
    { paymentBlock.header with
      timestamp := 1500000020000
      reference := paymentBlock.signature
      generationSignature :=
        bytes 32 0xfaa1c63cbeee360372abcb14ffbdcb21d7fc5037a4b833c914fbafc77919e07b }
  signature := bytes 64
    0xf0d0881299daf1dac01c4811ff3e5072359765dd8cd98c2a399c41fa6c9a28db9fb034843e563e1363f205426604046633617fb3689e68cf80c51d17cbddf78d
  transactionData := [.payment payment]

def repeatedBlockBytes : ByteStr :=
  bytes 305 0x020000015d3ef7e6203432fce3c1f16ccaef4d874e53b1eb4c3a1c5eac8b847219992722e93714b7af0cebcaa213ca97cde97ad7a432b8cf67da4a2171f9ebbab163386ed711dccd81000000280000000009299ff3faa1c63cbeee360372abcb14ffbdcb21d7fc5037a4b833c914fbafc77919e07b000000980100000093020000015d3ef6fbc02e8b2883c27b391359d7d0c15d00815a6693290a38dd8eba341cc07ddaa8ed4d0154aa259a33e350952c45254e402badc9b74c47e88d2cdd1ded0000000005f5e1000000000000000001e52c0a065a53999ea358ce78550dd6e2ced49a7f2b4fb923c1fd7be1bca16a988361f4b7bff38f3586583b18e1a4d25bf9fba359a31bb3ecd6a633477a53b28b1885844ed84c86501cd2221627f1d16cd4c60530e5415e1bf6cab037b054f150

/-- The platform that knows both blocks of the payment. -/
def paymentAnswers : KnownAnswers :=
  firstBlocks.and
    { signatures :=
        [⟨alice.publicKey, paymentBody, payment.signature⟩,
          ⟨miner.publicKey, paymentBlockBytes, paymentBlock.signature⟩,
          ⟨miner.publicKey, repeatedBlockBytes, repeatedBlock.signature⟩]
      blocks := [(paymentBlock, paymentBlockBytes), (repeatedBlock, repeatedBlockBytes)] }

/-- Payments are still allowed. -/
def paymentSettings : BlockchainSettings :=
  { settings [] with
    functionalitySettings := { functionalitySettings [] with blockVersion3AfterHeight := 100 } }

end Devnet

section
open Devnet LevelDBWriter

local instance paymentCrypto : Crypto := paymentAnswers.crypto
local instance paymentSerializer : PBTransactionSerializer := pbTransactionSerializer
local instance paymentBlocks : BlockSerializer := paymentAnswers.blockSerializer
local instance paymentRide : Ride := paymentAnswers.ride

namespace Devnet

def noPayment : LevelDBWriter := .empty paymentSettings dbSettings

def beforePayment : Validation LevelDBWriter := noPayment.appendBlocks [genesisBlock]

def withoutPayment : LevelDBWriter := beforePayment.toOption.getD noPayment

def afterPayment : Validation LevelDBWriter := withoutPayment.appendBlocks [paymentBlock]

def withPayment : LevelDBWriter := afterPayment.toOption.getD noPayment

def afterRepeated : Validation LevelDBWriter := withPayment.appendBlocks [repeatedBlock]

def withRepeated : LevelDBWriter := afterRepeated.toOption.getD noPayment

/-- The third block is taken off. -/
def afterTorn : Except String LevelDBWriter := withRepeated.rollbackTo paymentBlock.uniqueId

def tornPayment : LevelDBWriter := afterTorn.toOption.getD noPayment

/-- A block that follows, validated on the database alone, or anything else. -/
def OwnFollowing (w : LevelDBWriter) (e : Event) : Prop :=
  match e with
  | .append _ _ _ block => OwnBlock w e ∧ w.Follows block
  | _ => True

/-- Whether a block follows. -/
def follows (w : LevelDBWriter) (block : Block) : Bool :=
  (w.db.blockInfoAt w.db.height).all (fun info => info.header.timestamp ≤ block.header.timestamp) &&
    decide (∀ tx ∈ block.transactionData, tx.timestamp - TwoHours ≤ block.header.timestamp ∧
      (∀ h ≤ w.db.height, ∀ tx' ∈ w.db.transactionsAtHeight h, tx'.id = tx.id →
        tx'.timestamp = tx.timestamp) ∧
      (isPayment tx = false → w.containsTransaction tx = false))

theorem follows_of {w : LevelDBWriter} {block : Block} (h : follows w block = true) :
    w.Follows block := by
  obtain ⟨hinfo, htxs⟩ := Bool.and_eq_true_iff.mp h
  have hall := of_decide_eq_true htxs
  refine ⟨?_, fun tx htx => (hall tx htx).1, fun tx htx => (hall tx htx).2.1,
    fun tx htx => (hall tx htx).2.2⟩
  intro info hsome
  rw [hsome] at hinfo
  exact of_decide_eq_true hinfo

end Devnet

/-- The run: the payment is found after its block, and not after the later one is taken off. -/
theorem payment_run :
    (beforePayment.toOption.isSome ∧ afterPayment.toOption.isSome ∧
        afterRepeated.toOption.isSome ∧
        afterTorn.toOption.isSome) ∧
      (follows noPayment genesisBlock ∧ follows withoutPayment paymentBlock ∧
        follows withPayment repeatedBlock) ∧
      (∀ h ≤ withPayment.db.height, ∀ tx ∈ withPayment.db.transactionsAtHeight h,
        tx.id = (Transaction.payment payment).id → tx.timestamp = payment.timestamp) ∧
      (∀ h ≤ tornPayment.db.height, ∀ tx ∈ tornPayment.db.transactionsAtHeight h,
        tx.id = (Transaction.payment payment).id → tx.timestamp = payment.timestamp) ∧
      (∃ h ≤ tornPayment.db.height, ∃ tx ∈ tornPayment.db.transactionsAtHeight h,
        tx.id = (Transaction.payment payment).id) ∧
      tornPayment.containsTransaction (.payment payment) = false := by
  decide +kernel

theorem beforePayment_eq : beforePayment = .ok withoutPayment :=
  Validation.eq_ok_getD payment_run.1.1

theorem afterPayment_eq : afterPayment = .ok withPayment :=
  Validation.eq_ok_getD payment_run.1.2.1

theorem afterRepeated_eq : afterRepeated = .ok withRepeated :=
  Validation.eq_ok_getD payment_run.1.2.2.1

theorem tornPayment_eq : withRepeated.rollbackTo paymentBlock.uniqueId = .ok tornPayment := by
  have hsome := payment_run.1.2.2.2
  unfold tornPayment
  change afterTorn = _
  generalize afterTorn = x at hsome ⊢
  rcases x with e | v
  · cases hsome
  · rfl

end

end WavesNode
