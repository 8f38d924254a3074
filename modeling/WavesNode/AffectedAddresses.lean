/-
The addresses a transaction is recorded with.

The index of transactions by address, and the rollback, read the set that a diff records with
its transaction. `Diff.ofTx` takes it from the portfolios and the data it is given. Where all
changes of a transaction are given to it, the set is complete; where partial diffs are combined
the later entry replaces the earlier one, and the set is that of the later diff alone. So it is
for the complexity, which comes first and has no addresses; and a call collects its set again
at the end. A reissue and a burn give their changes afterwards, in a diff that lists nothing:
the set stays empty.
-/
import WavesNode.ActionSequences

set_option autoImplicit false

namespace WavesNode

section
variable [Crypto] [PBTransactionSerializer]

/-! ## 1. Complete sets -/

namespace Diff

/-- The addresses a transaction is recorded with; none where it is not listed. -/
def addressesOf (d : Diff) (tx : Transaction) : Finset Address :=
  ((d.transactions.get? tx.id).map Prod.snd).getD ∅

/-- The set misses neither the sender nor an address with a change. -/
structure MissesNobody (d : Diff) (tx : Transaction) : Prop where
  sender : ∀ s, tx.sender? = some s → s.toAddress ∈ d.addressesOf tx
  portfolios : d.portfolios.dom ⊆ d.addressesOf tx
  accountData : d.accountData.dom ⊆ d.addressesOf tx

theorem addressesOf_of_single {d : Diff} {tx : Transaction} {addresses : Finset Address}
    (h : d.transactions = .single tx.id (tx, addresses)) : d.addressesOf tx = addresses := by
  rw [addressesOf, h, FiniteMap.get?_single_self]
  rfl

theorem addressesOf_ofTx (tx : Transaction) (changes : Diff) :
    (ofTx tx changes).addressesOf tx = changes.portfolios.dom ∪ changes.accountData.dom :=
  addressesOf_of_single rfl

/-- Changes that are given at once, the sender's among them. -/
theorem missesNobody_ofTx {tx : Transaction} {changes : Diff}
    (h : ∀ s, tx.sender? = some s → s.toAddress ∈ changes.portfolios.dom) :
    (ofTx tx changes).MissesNobody tx where
  sender s hs := by
    rw [addressesOf_ofTx]
    exact Finset.mem_union_left _ (h s hs)
  portfolios := by
    rw [addressesOf_ofTx]
    exact Finset.subset_union_left
  accountData := by
    rw [addressesOf_ofTx]
    exact Finset.subset_union_right

/-- A later entry replaces an earlier one. -/
theorem addressesOf_combine {d d' : Diff} {tx : Transaction} (h : tx.id ∈ d'.transactions.dom) :
    (d.combine d').addressesOf tx = d'.addressesOf tx := by
  rw [addressesOf, combine, FiniteMap.get?_append, addressesOf]
  rw [FiniteMap.mem_dom] at h
  obtain ⟨entry, hentry⟩ := Option.isSome_iff_exists.mp h
  rw [hentry, Option.some_or]

/-- A later diff without an entry leaves the earlier one. -/
theorem addressesOf_combine_of_empty {d d' : Diff} {tx : Transaction}
    (h : d'.transactions = ∅) : (d.combine d').addressesOf tx = d.addressesOf tx := by
  rw [addressesOf, combine, h, FiniteMap.append_empty, addressesOf]

end Diff

/-! ## 2. Every type -/

/-- The types that change the supply of an asset. -/
def changesSupply : Transaction → Bool
  | .reissue _ => true
  | .burn _ => true
  | _ => false

namespace TransactionDiffer

/-- The complexity of the scripts comes first, so that its empty set is replaced. -/
theorem missesNobody_complexityDiff {b : Blockchain} {tx : Transaction} {d : Diff}
    (hlisted : tx.id ∈ d.transactions.dom) :
    ((complexityDiff b tx).combine d).MissesNobody tx ↔ d.MissesNobody tx := by
  have haddresses : ((complexityDiff b tx).combine d).addressesOf tx = d.addressesOf tx :=
    Diff.addressesOf_combine hlisted
  have hportfolios : ((complexityDiff b tx).combine d).portfolios = d.portfolios :=
    Portfolios.empty_combine d.portfolios
  have haccountData : ((complexityDiff b tx).combine d).accountData = d.accountData :=
    FiniteMap.combineWith_empty_left _ _
  constructor
  · rintro ⟨hsender, hps, hdata⟩
    rw [hportfolios, haddresses] at hps
    rw [haccountData, haddresses] at hdata
    exact ⟨fun s hs => haddresses ▸ hsender s hs, hps, hdata⟩
  · rintro ⟨hsender, hps, hdata⟩
    refine ⟨fun s hs => haddresses ▸ hsender s hs, ?_, ?_⟩
    · rwa [hportfolios, haddresses]
    · rwa [haccountData, haddresses]

/-- The set of a diff is complete, or that of a reissue or a burn. -/
def CompleteUnlessSupply (tx : Transaction) (d : Diff) : Prop :=
  tx.id ∈ d.transactions.dom ∧ (d.MissesNobody tx ↔ changesSupply tx = false)

theorem completeUnlessSupply_ofTx {tx : Transaction} {changes : Diff} {sender : PublicKey}
    (hsender : tx.sender? = some sender) (hmem : sender.toAddress ∈ changes.portfolios.dom)
    (htype : changesSupply tx = false) : CompleteUnlessSupply tx (.ofTx tx changes) := by
  refine ⟨Finset.mem_singleton_self _, iff_of_true (Diff.missesNobody_ofTx ?_) htype⟩
  intro s hs
  rw [hsender] at hs
  rwa [← Option.some.inj hs]

/-- Changes that are given afterwards: the set is empty, and the sender is missed. -/
theorem completeUnlessSupply_supply {tx : Transaction} {sender : PublicKey} {runs : ℕ} {d : Diff}
    (hsender : tx.sender? = some sender) (hlisted : d.transactions = ∅)
    (htype : changesSupply tx = true) :
    CompleteUnlessSupply tx
      ((Diff.ofTx tx { Diff.empty with scriptsRun := runs }).combine d) := by
  refine ⟨?_, iff_of_false ?_ (by rw [htype]; decide)⟩
  · rw [Diff.combine, FiniteMap.dom_append]
    exact Finset.mem_union_left _ (Finset.mem_singleton_self _)
  · intro h
    have hmem := h.sender sender hsender
    rw [Diff.addressesOf_combine_of_empty hlisted, Diff.addressesOf_ofTx] at hmem
    exact Finset.notMem_empty _ hmem

variable [Ride]

/-- The types that are validated with an estimate. -/
theorem completeUnlessSupply_withEstimate {blockTime : Long} {b : Blockchain} {tx : Transaction}
    {d : Diff} (h : unverifiedWithEstimate blockTime b tx = .ok d) :
    CompleteUnlessSupply tx d := by
  rcases tx with t | t | t | t | t | t | t | t | t | t | t | t | t | t | t | t
  case issue =>
    obtain ⟨script, -, rfl⟩ := AssetTransactionsDiff.issue_eq_ok h
    exact completeUnlessSupply_ofTx rfl (Finset.mem_singleton_self _) rfl
  case transfer =>
    obtain ⟨recipient, fee, -, -, -, rfl⟩ := TransferTransactionDiff.apply_eq_ok h
    refine completeUnlessSupply_ofTx rfl ?_ rfl
    -- the sender's part comes first
    refine Finset.mem_union_left _ (Finset.mem_union_left _ ?_)
    exact Finset.mem_singleton_self _
  case massTransfer =>
    obtain ⟨list, -, rfl⟩ := MassTransferTransactionDiff.apply_eq_ok h
    refine completeUnlessSupply_ofTx rfl ?_ rfl
    exact Finset.mem_union_right _ (Finset.mem_singleton_self _)
  case reissue =>
    obtain ⟨d', hd', rfl⟩ := AssetTransactionsDiff.reissue_eq_ok h
    obtain ⟨-, -, rfl⟩ := DiffsCommon.processReissue_eq_ok hd'
    exact completeUnlessSupply_supply rfl rfl rfl
  case burn =>
    obtain ⟨d', hd', rfl⟩ := AssetTransactionsDiff.burn_eq_ok h
    obtain ⟨-, rfl⟩ := DiffsCommon.processBurn_eq_ok.mp hd'
    exact completeUnlessSupply_supply rfl rfl rfl
  case lease =>
    obtain ⟨recipient, -, -, -, rfl⟩ := LeaseTransactionsDiff.lease_eq_ok h
    refine completeUnlessSupply_ofTx rfl ?_ rfl
    rw [FiniteMap.mem_dom, FiniteMap.get?_ofList_pair]
    split
    · rfl
    · rw [if_pos rfl]
      rfl
  case leaseCancel =>
    obtain ⟨lease, recipient, -, -, -, -, rfl⟩ := LeaseTransactionsDiff.leaseCancel_eq_ok h
    refine completeUnlessSupply_ofTx rfl ?_ rfl
    exact Finset.mem_union_left _ (Finset.mem_singleton_self _)
  case createAlias =>
    obtain ⟨-, rfl⟩ := CreateAliasTransactionDiff_eq_ok h
    exact completeUnlessSupply_ofTx rfl (Finset.mem_singleton_self _) rfl
  case data =>
    cases h
    exact completeUnlessSupply_ofTx rfl (Finset.mem_singleton_self _) rfl
  case setScript =>
    obtain ⟨script, -, rfl⟩ := SetScriptTransactionDiff_eq_ok h
    exact completeUnlessSupply_ofTx rfl (Finset.mem_singleton_self _) rfl
  case setAssetScript =>
    obtain ⟨-, script, runs, -, rfl⟩ := AssetTransactionsDiff.setAssetScript_eq_ok h
    exact completeUnlessSupply_ofTx rfl (Finset.mem_singleton_self _) rfl
  case sponsorFee =>
    obtain ⟨-, rfl⟩ := AssetTransactionsDiff.sponsor_eq_ok h
    exact completeUnlessSupply_ofTx rfl (Finset.mem_singleton_self _) rfl
  all_goals cases h

/-- A call collects its addresses when its actions are applied. -/
theorem missesNobody_call {b : Blockchain} {blockTime : Long} {tx : InvokeScriptTransaction}
    {d : Diff} (h : InvokeScriptTransactionDiff.apply b blockTime tx = .ok d) :
    d.MissesNobody (.invokeScript tx) := by
  obtain ⟨dAppAddress, actions, wavesFee, feePart, compositeDiff, happlied⟩ :=
    InvokeScriptTransactionDiff.apply_eq_ok h
  have haddresses : d.addressesOf (.invokeScript tx) =
      ((compositeDiff.transactions.get? (Transaction.invokeScript tx).id).map Prod.snd).getD ∅ ∪
        (compositeDiff.portfolios.combine (feePart.mapVal Portfolio.negate)).dom ∪
        compositeDiff.accountData.dom := by
    rw [Diff.addressesOf, happlied.transactions, FiniteMap.get?_insert, if_pos rfl]
    rfl
  -- the fee is the sender's
  have hsender : tx.sender.toAddress ∈ (feePart.mapVal Portfolio.negate).dom := by
    rw [FiniteMap.dom_mapVal]
    rcases InvokeScriptTransactionDiff.feeInfo_eq_ok happlied.fee with
      ⟨-, -, rfl⟩ | ⟨asset, desc, -, -, -, -, rfl⟩
    · exact Finset.mem_singleton_self _
    · rw [FiniteMap.mem_dom, FiniteMap.get?_ofList_pair]
      split
      · rfl
      · rw [if_pos rfl]
        rfl
  refine ⟨?_, ?_, ?_⟩
  · intro s hs
    rw [haddresses, ← Option.some.inj hs]
    exact Finset.mem_union_left _ (Finset.mem_union_right _ (Finset.mem_union_right _ hsender))
  · rw [haddresses, happlied.portfolios]
    intro a ha
    exact Finset.mem_union_left _ (Finset.mem_union_right _ (Finset.mem_union_left _ ha))
  · rw [haddresses, happlied.accountData]
    exact Finset.subset_union_right

/-- **Who is recorded.** Every type but a reissue and a burn misses nobody. -/
theorem missesNobody_unverified {blockTime : Long} {b : Blockchain} {tx : Transaction} {d : Diff}
    (h : unverified blockTime b tx = .ok d) :
    d.MissesNobody tx ↔ changesSupply tx = false := by
  have hestimate {tx : Transaction}
      (h : (do
        let d ← unverifiedWithEstimate blockTime b tx
        .ok ((complexityDiff b tx).combine d) : Validation Diff) = .ok d) :
      d.MissesNobody tx ↔ changesSupply tx = false := by
    obtain ⟨d', hd', h⟩ := Validation.bind_eq_ok.mp h
    cases h
    obtain ⟨hlisted, hiff⟩ := completeUnlessSupply_withEstimate hd'
    rw [missesNobody_complexityDiff hlisted, hiff]
  rcases tx with t | t | t | t | t | t | t | t | t | t | t | t | t | t | t | t
  case genesis =>
    obtain ⟨-, rfl⟩ := GenesisTransactionDiff_eq_ok h
    refine iff_of_true (Diff.missesNobody_ofTx ?_) rfl
    intro s hs
    cases hs
  case payment =>
    obtain ⟨-, rfl⟩ := PaymentTransactionDiff_eq_ok h
    refine iff_of_true (Diff.missesNobody_ofTx ?_) rfl
    intro s hs
    cases hs
    exact Finset.mem_union_right _ (Finset.mem_singleton_self _)
  case exchange =>
    obtain ⟨-, _, _, _, _, _, _, -, -, -, -, rfl⟩ := ExchangeTransactionDiff.apply_eq_ok h
    refine iff_of_true (Diff.missesNobody_ofTx ?_) rfl
    intro s hs
    cases hs
    -- the matcher's part is the first of all
    refine Finset.mem_union_left _ (Finset.mem_union_left _ ?_)
    refine Finset.mem_union_left _ (Finset.mem_union_left _ ?_)
    exact Finset.mem_singleton_self _
  case invokeScript => exact iff_of_true (missesNobody_call h) rfl
  all_goals exact hestimate h

/-- **Affected addresses.** An accepted transaction is recorded with its sender and with every
address whose portfolio or data its diff changes exactly when it is neither a reissue nor a
burn. -/
theorem missesNobody_iff {prevBlockTimestamp : Option Long} {currentBlockTimestamp : Long}
    {verify : Bool} {b : Blockchain} {tx : Transaction} {d : Diff}
    (h : TransactionDiffer.apply prevBlockTimestamp currentBlockTimestamp verify b tx = .ok d) :
    d.MissesNobody tx ↔ changesSupply tx = false := by
  unfold TransactionDiffer.apply at h
  by_cases hverify : verify = true
  · rw [if_pos hverify] at h
    exact missesNobody_unverified (verified_eq_ok.mp h).diff
  · rw [if_neg hverify] at h
    exact missesNobody_unverified h

end TransactionDiffer

end

/-! ## 3. A burn

Alice burns some of her token, and Bob calls her contract. The call is recorded with both of
them; the burn is recorded with nobody. -/

namespace Devnet

def unlistedBurn : BurnTransaction where
  version := 2
  sender := alice.publicKey
  asset := ⟨tokenId⟩
  quantity := 400
  fee := 100400000
  timestamp := 1500000000000
  proofs := ⟨[bytes 64
    0x7a163fe3bd0ba3bd90a8f8777591585710609fb670326d32f47f343fe35c1fe790d318228235c53af509f5da3a38503eee5f16d0951aa0aef024641562a84b82]⟩

def unlistedBurnBody : ByteStr :=
  bytes 91 0x0602542e8b2883c27b391359d7d0c15d00815a6693290a38dd8eba341cc07ddaa8ed4d63030a93e3174c4641e7a48c2e034da7459a3b15be1e5a86b44b998ac8c3891b00000000000001900000000005fbfb800000015d3ef79800

def unlistedBurnAnswers : KnownAnswers :=
  (contractBlocks []).and
    { digests :=
        [(unlistedBurnBody,
          bytes 32 0x06e5af526f9b6bee12459e9327a9beb1e38412c478fa7377ea17634ceba604bc)]
      signatures := [⟨alice.publicKey, unlistedBurnBody, unlistedBurn.proofs.proofs.headD []⟩] }

end Devnet

section
open Devnet

local instance unlistedBurnCrypto : Crypto := unlistedBurnAnswers.crypto
local instance unlistedBurnSerializer : PBTransactionSerializer := pbTransactionSerializer
local instance unlistedBurnRide : Ride := unlistedBurnAnswers.ride

namespace Devnet

/-- The diff of a transaction in a block after the contract's. -/
def contractDiff (tx : Transaction) : Diff :=
  (TransactionDiffer.apply (some 1499999960000) 1500000000000 true contractLedger
    tx).toOption.getD Diff.empty

end Devnet

theorem unlistedBurn_run :
    (TransactionDiffer.apply (some 1499999960000) 1500000000000 true contractLedger
      (.invokeScript contractCall)).toOption.isSome = true ∧
    (TransactionDiffer.apply (some 1499999960000) 1500000000000 true contractLedger
      (.burn unlistedBurn)).toOption.isSome = true := by
  decide +kernel

theorem TransactionDiffer.missesNobody_contractCall :
    (contractDiff (.invokeScript contractCall)).MissesNobody (.invokeScript contractCall) ↔
      changesSupply (.invokeScript contractCall) = false :=
  missesNobody_iff (Validation.eq_ok_getD unlistedBurn_run.1)

/-- The burn is accepted, and its sender is not among the addresses it is recorded with. -/
theorem TransactionDiffer.unlistedBurn_missed :
    ¬∀ (prevBlockTimestamp : Option Long) (currentBlockTimestamp : Long) (b : Blockchain)
      (tx : Transaction) (d : Diff),
      TransactionDiffer.apply prevBlockTimestamp currentBlockTimestamp true b tx = .ok d →
      d.MissesNobody tx := by
  intro hclaim
  have hok : TransactionDiffer.apply (some 1499999960000) 1500000000000 true contractLedger
      (.burn unlistedBurn) = .ok (contractDiff (.burn unlistedBurn)) :=
    Validation.eq_ok_getD unlistedBurn_run.2
  have haccepted : Accepted (some 1499999960000) 1500000000000 contractLedger (.burn unlistedBurn)
      (contractDiff (.burn unlistedBurn)) := verified_eq_ok.mp hok
  have hmissed := (missesNobody_unverified haccepted.diff).mp (hclaim _ _ _ _ _ hok)
  cases hmissed

end

end WavesNode
