/-
What a rollback restores of leases.

A lease has two records: its status, and what it adds to the lease balances of two
accounts. The status is undone with the Lease and LeaseCancel transactions of a discarded
block, the balances through the index of addresses. A transaction of either type changes
both where both undo paths find them. A lease that is cancelled at a height, when it
expires or by one of the one-off patches, belongs to no transaction and its accounts are
in no index: that is the condition of `doRollback_leases`, and `doRollback_resetLease` is a
block without it.
-/
import WavesNode.StoredTransactions

set_option autoImplicit false

namespace WavesNode

namespace LevelDBWriter

variable [Crypto] [PBTransactionSerializer]

/-! ## 1. Lease balances and statuses -/

section
omit [Crypto] [PBTransactionSerializer]

def keptLeaseBalance (a : Address) : Kept LeaseBalance LeaseBalance where
  history db := db.leaseBalance a
  undone db h := a ∈ db.changedAddresses h
  cache w := w.leaseBalanceCache a
  read v := v.getD LeaseBalance.empty

end

def keptLeaseStatus (leaseId : ByteStr) : Kept Bool Bool where
  history db := db.leaseStatusOf leaseId
  undone db h := ∃ tx ∈ db.transactionsAtHeight h, leaseStatusUndoneBy tx = some leaseId
  cache _ := none
  read v := v.getD false

/-- **The condition**: the ids of a block are new, every account whose lease balance its
diff changes is in the index, and every lease whose status it changes is that of a Lease
or LeaseCancel transaction of the block. -/
def LeasesIndexed (w : LevelDBWriter) : Event → Prop
  | .append d _ _ block =>
    (IdsDistinct block.transactionData ∧ IdsFresh w.db block) ∧
      (∀ a ∈ d.portfolios.dom, (d.portfolios.of a).lease ≠ LeaseBalance.empty →
        a ∈ changedAddresses d) ∧
      ∀ leaseId ∈ d.leaseState.dom, ∃ tx ∈ block.transactionData,
        leaseStatusUndoneBy tx = some leaseId
  | _ => True

section
omit [Crypto] [PBTransactionSerializer]

theorem updatedLeaseBalance_eq_some {w : LevelDBWriter} {d : Diff} {a : Address}
    {v : LeaseBalance} (h : w.updatedLeaseBalance d a = some v) :
    a ∈ d.portfolios.dom ∧ (d.portfolios.of a).lease ≠ LeaseBalance.empty := by
  unfold updatedLeaseBalance at h
  rcases hp : d.portfolios.get? a with _ | p
  · rw [hp] at h
    cases h
  · rw [hp, Option.bind_some] at h
    by_cases hlease : p.lease ≠ LeaseBalance.empty
    · refine ⟨FiniteMap.mem_dom_of_get? hp, ?_⟩
      rw [Portfolios.of, FiniteMap.getOrElse, hp]
      exact hlease
    · rw [if_neg hlease] at h
      cases h

end

variable [Ride] [BlockSerializer]

theorem lawful_keptLeaseBalance (a : Address) : (keptLeaseBalance a).Lawful LeasesIndexed where
  history_empty := rfl
  cache_empty _ _ := rfl
  append := by
    intro w d carry reward block hQ _
    refine Kept.appended_pushSome (v := w.updatedLeaseBalance d a) (by omega) rfl ?_ ?_ ?_
    · intro v hv
      obtain ⟨ha, hlease⟩ := updatedLeaseBalance_eq_some hv
      change a ∈ if w.height + 1 = w.height + 1 then _ else _
      rw [if_pos rfl]
      exact hQ.2.1 a ha hlease
    · intro hv
      exact Option.or_eq_right_of_none hv
    · intro v hv
      exact Option.or_eq_some_iff.mpr (.inl hv)
  undone_append w d carry reward block h hh hundone := by
    change a ∈ if h = w.height + 1 then _ else w.db.changedAddresses h
    rw [if_neg (by omega)]
    exact hundone
  discard w n := by
    by_cases ha : a ∈ w.db.changedAddresses n
    · exact .inl ⟨if_pos ha, if_pos ha⟩
    · exact .inr ⟨ha, if_neg ha, .inr (if_neg ha)⟩
  undone_discard _ _ _ _ hundone := hundone
  load w place := by
    cases place with
    | leaseBalance a' =>
      by_cases hkey : a = a'
      · subst hkey
        exact .inr (Function.update_self ..)
      · exact .inl (Function.update_of_ne hkey ..)
    | _ => exact .inl rfl
  evict w place := by
    cases place with
    | leaseBalance a' =>
      by_cases hkey : a = a'
      · subst hkey
        exact .inr (Function.update_self ..)
      · exact .inl (Function.update_of_ne hkey ..)
    | _ => exact .inl rfl
  restart _ := rfl
  aside _ _ _ _ _ := rfl

omit [Ride] [BlockSerializer] in
theorem leaseStatusOf_doAppend {w : LevelDBWriter} {d : Diff} {carry : Long}
    {reward : Option Long} {block : Block} (leaseId : ByteStr) :
    (w.doAppend d carry reward block).leaseStatusOf leaseId =
      (w.db.leaseStatusOf leaseId).pushSome (w.height + 1)
        (w.height + 1 - w.dbSettings.maxRollbackDepth) (d.leaseState.get? leaseId) := by
  change (if leaseId ∈ w.db.leaseStatus.dom ∪ d.leaseState.dom then _ else none).getD _ = _
  by_cases hmem : leaseId ∈ w.db.leaseStatus.dom ∪ d.leaseState.dom
  · rw [if_pos hmem]
    rfl
  · rw [Finset.mem_union, not_or] at hmem
    rw [if_neg (by rw [Finset.mem_union, not_or]; exact hmem),
      (d.leaseState.get?_eq_none_iff leaseId).mpr hmem.2, Keys.leaseStatusOf,
      (w.db.leaseStatus.get?_eq_none_iff leaseId).mpr hmem.1]
    rfl

omit [Ride] [BlockSerializer] in
theorem leaseStatusOf_discardKeys {w : LevelDBWriter} {n : ℕ} (leaseId : ByteStr) :
    (w.discardKeys n).leaseStatusOf leaseId =
      if (w.db.transactionsAtHeight n).any fun tx => leaseStatusUndoneBy tx = some leaseId then
        (w.db.leaseStatusOf leaseId).drop n
      else w.db.leaseStatusOf leaseId := by
  change (if leaseId ∈ w.db.leaseStatus.dom then some (if _ then _ else _) else none).getD _ = _
  by_cases hmem : leaseId ∈ w.db.leaseStatus.dom
  · rw [if_pos hmem]
    rfl
  · have hempty : w.db.leaseStatusOf leaseId = .empty := by
      rw [Keys.leaseStatusOf, (w.db.leaseStatus.get?_eq_none_iff leaseId).mpr hmem]
      rfl
    have hdrop : (History.empty : History Bool).drop n = .empty := by
      rw [History.drop, History.empty, History.mk.injEq]
      exact ⟨rfl, funext fun k => ite_self _⟩
    rw [if_neg hmem, hempty, hdrop, ite_self]
    rfl

theorem lawful_keptLeaseStatus (leaseId : ByteStr) :
    (keptLeaseStatus leaseId).Lawful LeasesIndexed := by
  refine Kept.lawful_of_transactions (fun tx => leaseStatusUndoneBy tx = some leaseId)
    (fun _ d => d.leaseState.get? leaseId) rfl (fun _ => rfl) (fun _ _ => Iff.rfl)
    (fun _ _ _ _ _ => leaseStatusOf_doAppend leaseId) ?_
    (fun _ _ => leaseStatusOf_discardKeys leaseId)
  intro w d carry reward block hQ
  refine ⟨hQ.1.1, ?_⟩
  intro v _ hv
  exact hQ.2.2 leaseId (FiniteMap.mem_dom_of_get? hv)

/-! ## 2. The rollback -/

omit [Crypto] [PBTransactionSerializer] [Ride] [BlockSerializer] in
/-- A lease is described by its transaction and its status. -/
theorem leaseDetails_congr {db db' : Keys} {leaseId : ByteStr}
    (hinfo : ∀ h lt, db.transactionInfo leaseId = some (h, .lease lt) ↔
      db'.transactionInfo leaseId = some (h, .lease lt))
    (hstatus : db.loadLeaseStatus leaseId = db'.loadLeaseStatus leaseId) :
    db.leaseDetails leaseId = db'.leaseDetails leaseId := by
  have hnone : ∀ {db : Keys}, (∀ h lt, db.transactionInfo leaseId ≠ some (h, .lease lt)) →
      db.leaseDetails leaseId = none := by
    intro db hno
    unfold Keys.leaseDetails
    split
    · rename_i h lt heq
      exact absurd heq (hno h lt)
    · rfl
  by_cases hlease : ∃ h lt, db.transactionInfo leaseId = some (h, .lease lt)
  · obtain ⟨h, lt, heq⟩ := hlease
    rw [Keys.leaseDetails, Keys.leaseDetails, heq, (hinfo h lt).mp heq]
    dsimp only
    rw [hstatus]
  · rw [not_exists] at hlease
    rw [hnone fun h lt heq => hlease h ⟨lt, heq⟩,
      hnone fun h lt heq => hlease h ⟨lt, (hinfo h lt).mpr heq⟩]

/-- **A rollback undoes the appended blocks** for leasing, where both undo paths reach
what the blocks change. -/
theorem doRollback_leases {settings : BlockchainSettings} {dbSettings : DBSettings}
    {w v : LevelDBWriter} {id : BlockId} (h : Reachable LeasesIndexed settings dbSettings w)
    (hgrows : Grows LeasesIndexed w v) (htarget : v.db.heightOf id = some w.height)
    (hsafe : v.db.safeRollbackHeight ≤ w.height) :
    (∀ a, (v.doRollback id).leaseBalance a = w.leaseBalance a) ∧
      ∀ leaseId, (v.doRollback id).db.leaseDetails leaseId = w.db.leaseDetails leaseId := by
  refine ⟨?_, ?_⟩
  · exact fun a => (lawful_keptLeaseBalance a).doRollback_answer h hgrows htarget hsafe
  · intro leaseId
    have hstored : KeysInvariant LeasesIndexed TransactionsStored :=
      transactionsStored fun _ _ _ _ _ hQ => hQ.1
    refine leaseDetails_congr ?_ ?_
    · exact fun h' lt => transactionInfo_doRollback hstored h hgrows htarget rfl
    · exact (lawful_keptLeaseStatus leaseId).doRollback_answer h hgrows htarget hsafe

end LevelDBWriter

/-! ## 3. Leases that are reset

At one height the ledger cancels all leases. No transaction does it, and the accounts are
in no index. -/

namespace Devnet

def lease : LeaseTransaction where
  version := 1
  sender := alice.publicKey
  recipient := .address bob.address
  amount := 100000000
  fee := 100000
  timestamp := 1499999960000
  proofs := ⟨[bytes 64
    0x7d16efb49b5e3fc430d57a79fd98c20a373904f018368882affa1a878f82147198cf8d63cfc5f70a1f3b9fd65de9c735a1640d01186c3167ba99106f1c1bed88]⟩

def leaseBody : ByteStr :=
  bytes 83 0x082e8b2883c27b391359d7d0c15d00815a6693290a38dd8eba341cc07ddaa8ed4d0154aa259a33e350952c45254e402badc9b74c47e88d2cdd1ded0000000005f5e10000000000000186a00000015d3ef6fbc0

def leaseId : ByteStr :=
  bytes 32 0xba126bd7b54c8fd2328a1e1742db5a63cc0d5b56111eebf86ef4283e6afd0f43

def leaseBlock : Block :=
  { emptyBlock with
    signature := bytes 64
      0xd742471da39e0dd55729acaeb7df845b0d68a4c033b6d1b8af6200a5b72f0ee64edef0b743cb71d02a685703f7d91066ae725409b2b44e0089cc4cf8805a248b
    transactionData := [.lease lease] }

def leaseBlockBytes : ByteStr :=
  bytes 312 0x030000015d3ef6fbc0813668d47528909acf62aeeba30294f9418c2e97172d3ba7c6b151db7b59017729e5dcdad233de6207ec6c23997c1e53e839c715225de43d375043d5b398e688000000280000000009299ff340328d507794ee8ca0f9169b6e221a1409677d18dc99c0d1674574ccf69aceb90000009b0000000100000093082e8b2883c27b391359d7d0c15d00815a6693290a38dd8eba341cc07ddaa8ed4d0154aa259a33e350952c45254e402badc9b74c47e88d2cdd1ded0000000005f5e10000000000000186a00000015d3ef6fbc07d16efb49b5e3fc430d57a79fd98c20a373904f018368882affa1a878f82147198cf8d63cfc5f70a1f3b9fd65de9c735a1640d01186c3167ba99106f1c1bed88000000001885844ed84c86501cd2221627f1d16cd4c60530e5415e1bf6cab037b054f150

/-- An empty block, at the height of the reset. -/
def resetBlock : Block where
  header :=
    { emptyBlock.header with
      timestamp := 1500000020000
      reference := leaseBlock.signature
      generationSignature :=
        bytes 32 0xfaa1c63cbeee360372abcb14ffbdcb21d7fc5037a4b833c914fbafc77919e07b }
  signature := bytes 64
    0xfaa2af260d60fdd8672b7731147d5952ccff1f9918edee94c28716c7f79db609a6f9999ed8f5066dfb94715ad31948e4e85c2717f8dbab5ca0853122f2d1a28e
  transactionData := []

def resetBlockBytes : ByteStr :=
  bytes 161 0x030000015d3ef7e620d742471da39e0dd55729acaeb7df845b0d68a4c033b6d1b8af6200a5b72f0ee64edef0b743cb71d02a685703f7d91066ae725409b2b44e0089cc4cf8805a248b000000280000000009299ff3faa1c63cbeee360372abcb14ffbdcb21d7fc5037a4b833c914fbafc77919e07b0000000400000000000000001885844ed84c86501cd2221627f1d16cd4c60530e5415e1bf6cab037b054f150

/-- The platform that knows the block of the lease and the one after it. -/
def leaseAnswers : KnownAnswers :=
  firstBlocks.and
    { digests := [(leaseBody, leaseId)]
      signatures :=
        [⟨alice.publicKey, leaseBody, lease.proofs.proofs.headD []⟩,
          ⟨miner.publicKey, leaseBlockBytes, leaseBlock.signature⟩,
          ⟨miner.publicKey, resetBlockBytes, resetBlock.signature⟩]
      blocks := [(leaseBlock, leaseBlockBytes), (resetBlock, resetBlockBytes)] }

/-- No feature is in force, and all leases are cancelled at the third block. -/
def resetSettings : BlockchainSettings :=
  { settings [] with
    functionalitySettings :=
      { functionalitySettings [] with resetEffectiveBalancesAtHeight := 3 } }

end Devnet

section
open Devnet LevelDBWriter

local instance leaseCrypto : Crypto := leaseAnswers.crypto
local instance leaseSerializer : PBTransactionSerializer := pbTransactionSerializer
local instance leaseBlocks : BlockSerializer := leaseAnswers.blockSerializer
local instance leaseRide : Ride := leaseAnswers.ride

namespace Devnet

def noLeases : LevelDBWriter := .empty resetSettings dbSettings

def beforeLease : Validation LevelDBWriter := noLeases.appendBlocks [genesisBlock]

def withoutLease : LevelDBWriter := beforeLease.toOption.getD noLeases

def afterLease : Validation LevelDBWriter := withoutLease.appendBlocks [leaseBlock]

def withLease : LevelDBWriter := afterLease.toOption.getD noLeases

def afterReset : Validation LevelDBWriter := withLease.appendBlocks [resetBlock]

def atReset : LevelDBWriter := afterReset.toOption.getD noLeases

/-- Whether both undo paths reach what a block changes. -/
def leasesIndexed (w : LevelDBWriter) (block : Block) : Bool :=
  (BlockDiffer.fromBlock w.blockchain w.lastBlock block .Unlimited).toOption.any fun r =>
    decide ((∀ a ∈ r.diff.portfolios.dom, (r.diff.portfolios.of a).lease ≠ LeaseBalance.empty →
        a ∈ changedAddresses r.diff) ∧
      ∀ id ∈ r.diff.leaseState.dom, ∃ tx ∈ block.transactionData, leaseStatusUndoneBy tx = some id)

end Devnet

/-- The run, and what is known of the lease before the reset and after the rollback. -/
theorem reset_run :
    (beforeLease.toOption.isSome ∧ afterLease.toOption.isSome ∧ afterReset.toOption.isSome) ∧
      (leasesIndexed noLeases genesisBlock ∧ leasesIndexed withoutLease leaseBlock) ∧
      (withLease.db.heightOf genesisBlock.signature = some withoutLease.height ∧
        withLease.db.safeRollbackHeight ≤ withoutLease.height) ∧
      (atReset.db.heightOf leaseBlock.signature = some withLease.height ∧
        atReset.db.safeRollbackHeight ≤ withLease.height) ∧
      (withLease.leaseBalance bob.address = ⟨100000000, 0⟩ ∧
        (atReset.doRollback leaseBlock.signature).leaseBalance bob.address = ⟨0, 0⟩) ∧
      IdsDistinct genesisBlock.transactionData ∧ IdsFresh withoutLease.db leaseBlock := by
  decide +kernel

theorem beforeLease_eq : beforeLease = .ok withoutLease := Validation.eq_ok_getD reset_run.1.1

theorem afterLease_eq : afterLease = .ok withLease := Validation.eq_ok_getD reset_run.1.2.1

theorem afterReset_eq : afterReset = .ok atReset := Validation.eq_ok_getD reset_run.1.2.2

theorem leasesIndexed_of_indexed {w : LevelDBWriter} {block : Block} {r : BlockDiffer.Result}
    (hids : IdsDistinct block.transactionData ∧ IdsFresh w.db block)
    (h : leasesIndexed w block = true)
    (hr : BlockDiffer.fromBlock w.blockchain w.lastBlock block .Unlimited = .ok r) :
    LeasesIndexed w (.append r.diff r.carry none block) := by
  rw [leasesIndexed, hr] at h
  have hboth := of_decide_eq_true h
  exact ⟨hids, hboth.1, hboth.2⟩

theorem doRollback_leases_genesis :
    (∀ a, (withLease.doRollback genesisBlock.signature).leaseBalance a =
        withoutLease.leaseBalance a) ∧
      ∀ leaseId, (withLease.doRollback genesisBlock.signature).db.leaseDetails leaseId =
        withoutLease.db.leaseDetails leaseId := by
  obtain ⟨hgenesis, hfreshLease⟩ := reset_run.2.2.2.2.2
  have hlease : IdsDistinct leaseBlock.transactionData := List.pairwise_singleton _ _
  have hfresh : IdsFresh noLeases.db genesisBlock :=
    fun _ _ _ _ _ htx' => absurd htx' List.not_mem_nil
  have hreachable : Reachable LeasesIndexed resetSettings dbSettings withoutLease :=
    Reachable.empty.grows (grows_appendBlock beforeLease_eq fun r hr =>
      leasesIndexed_of_indexed ⟨hgenesis, hfresh⟩ reset_run.2.1.1 hr)
  have hgrows : Grows LeasesIndexed withoutLease withLease :=
    grows_appendBlock afterLease_eq fun r hr =>
      leasesIndexed_of_indexed ⟨hlease, hfreshLease⟩ reset_run.2.1.2 hr
  exact doRollback_leases hreachable hgrows reset_run.2.2.1.1 reset_run.2.2.1.2

/-- The rollback to the block of the lease leaves Bob without what was leased to him. -/
theorem doRollback_resetLease :
    ¬∀ (settings : BlockchainSettings) (dbSettings : DBSettings) (w v : LevelDBWriter)
      (id : BlockId), Reachable OwnBlock settings dbSettings w → Grows OwnBlock w v →
      v.db.heightOf id = some w.height → v.db.safeRollbackHeight ≤ w.height →
      (∀ a, (v.doRollback id).leaseBalance a = w.leaseBalance a) ∧
        ∀ leaseId, (v.doRollback id).db.leaseDetails leaseId = w.db.leaseDetails leaseId := by
  intro hclaim
  have hreachable : Reachable OwnBlock resetSettings dbSettings withLease :=
    (Reachable.empty.grows (grows_ownBlock beforeLease_eq)).grows (grows_ownBlock afterLease_eq)
  have hsame := (hclaim resetSettings dbSettings withLease atReset leaseBlock.signature hreachable
    (grows_ownBlock afterReset_eq) reset_run.2.2.2.1.1 reset_run.2.2.2.1.2).1 bob.address
  rw [reset_run.2.2.2.2.1.1, reset_run.2.2.2.2.1.2] at hsame
  exact absurd hsame (by decide)

end

end WavesNode
