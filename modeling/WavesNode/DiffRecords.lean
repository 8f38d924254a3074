/-
What the diff of a block says about the transactions of the block.

A diff is put together from the diffs of transactions, the miner's shares, patches and
expired leases. `Diff.Records d txs` collects what follows for each kind of change: the
transactions it lists are those of the block, an account whose data changes is among the
addresses recorded with a transaction, an order that is filled belongs to an exchange,
and so on. It holds of the diff of every transaction (`TransactionDiffer.records`), of
diffs that come from none (`Diff.records_nil`), and of combinations (`Diff.Records.combine`),
so of everything the block differ produces (`BlockDiffer.Produces.records`).

Combining needs that the ids of different transactions are different. A repeated payment
is not refused; everything else is.
-/
import WavesNode.LevelDBWriter
import WavesNode.TransactionDiffSpecs
import WavesNode.BlockDifferSpecs

set_option autoImplicit false

namespace WavesNode

variable [Crypto] [PBTransactionSerializer]

/-! ## 1. What is recorded -/

section
omit [Crypto] [PBTransactionSerializer]

def isPayment : Transaction → Bool
  | .payment _ => true
  | _ => false

end

/-- The asset a transaction issues. -/
def issuedBy : Transaction → Option IssuedAsset
  | .issue tx => some ⟨(Transaction.issue tx).id⟩
  | _ => none

/-- No two transactions have one id, but for a payment that is there twice. -/
def IdsDistinct (txs : List Transaction) : Prop :=
  txs.Pairwise fun tx tx' => tx.id = tx'.id → tx = tx' ∧ isPayment tx = true

instance (txs : List Transaction) : Decidable (IdsDistinct txs) :=
  inferInstanceAs (Decidable (txs.Pairwise _))

open LevelDBWriter in
/-- What the changes of a diff have to do with the transactions it comes from. -/
structure Diff.Records (d : Diff) (txs : List Transaction) : Prop where
  listed : ∀ id entry, d.transactions.get? id = some entry → entry.1 ∈ txs ∧ entry.1.id = id
  lists : ∀ tx ∈ txs, tx.id ∈ d.transactions.dom
  accountData : ∀ a ∈ d.accountData.dom, ∃ id entry, d.transactions.get? id = some entry ∧
    isPayment entry.1 = false ∧ a ∈ entry.2
  orderFills : ∀ id ∈ d.orderFills.dom, ∃ tx ∈ txs, id ∈ fillsUndoneBy tx
  sponsorship : ∀ asset minFee, d.sponsorship.get? asset = some (.SponsorshipValue minFee) →
    ∃ tx ∈ txs, sponsorshipUndoneBy tx = some asset
  assetScripts : ∀ asset ∈ d.assetScripts.dom, ∃ tx ∈ txs,
    assetScriptUndoneBy tx = some asset ∨ issuedBy tx = some asset
  issues : ∀ tx ∈ txs, ∀ asset, issuedBy tx = some asset →
    asset ∈ d.issuedAssets.dom ∧ asset ∈ d.assetScripts.dom
  leases : ∀ lt, .lease lt ∈ txs → (Transaction.lease lt).id ∈ d.leaseState.dom

/-- The ids a diff lists are those of the transactions. -/
def Diff.Lists (d : Diff) (txs : List Transaction) : Prop :=
  ∀ id, d.transactions.contains id = true ↔ ∃ tx ∈ txs, tx.id = id

theorem Diff.Records.lists_iff {d : Diff} {txs : List Transaction} (h : d.Records txs) :
    d.Lists txs := by
  intro id
  constructor
  · intro hlisted
    obtain ⟨entry, hentry⟩ := Option.isSome_iff_exists.mp hlisted
    exact ⟨entry.1, h.listed id entry hentry⟩
  · rintro ⟨tx, htx, rfl⟩
    exact (FiniteMap.contains_iff_mem_dom _ _).mpr (h.lists tx htx)

/-- Changes of balances and lease states alone, which come from no transaction. -/
def Diff.Silent (d : Diff) : Prop :=
  ∃ ps states, d = { Diff.empty with portfolios := ps, leaseState := states }

/-- Changes of balances and lease states alone come from no transaction. -/
theorem Diff.records_nil {d : Diff} (htransactions : d.transactions = ∅)
    (haccountData : d.accountData = ∅) (horderFills : d.orderFills = ∅)
    (hsponsorship : d.sponsorship = ∅) (hassetScripts : d.assetScripts = ∅) :
    d.Records [] where
  listed id entry h := by
    rw [htransactions, FiniteMap.get?_empty] at h
    cases h
  lists tx h := absurd h List.not_mem_nil
  accountData a h := by
    rw [haccountData, FiniteMap.dom_empty] at h
    exact absurd h (Finset.notMem_empty a)
  orderFills id h := by
    rw [horderFills, FiniteMap.dom_empty] at h
    exact absurd h (Finset.notMem_empty id)
  sponsorship asset minFee h := by
    rw [hsponsorship, FiniteMap.get?_empty] at h
    cases h
  assetScripts asset h := by
    rw [hassetScripts, FiniteMap.dom_empty] at h
    exact absurd h (Finset.notMem_empty asset)
  issues tx h := absurd h List.not_mem_nil
  leases lt h := absurd h List.not_mem_nil

/-- **Records of a combination.** -/
theorem Diff.Records.combine {d d' : Diff} {txs txs' : List Transaction} (h : d.Records txs)
    (h' : d'.Records txs') (hids : IdsDistinct (txs ++ txs')) :
    (d.combine d').Records (txs ++ txs') where
  listed id entry hentry := by
    rw [Diff.combine, FiniteMap.get?_append] at hentry
    rcases hnew : d'.transactions.get? id with _ | entry'
    · rw [hnew, Option.none_or] at hentry
      have := h.listed id entry hentry
      exact ⟨List.mem_append_left _ this.1, this.2⟩
    · rw [hnew, Option.some_or] at hentry
      cases hentry
      have := h'.listed id _ hnew
      exact ⟨List.mem_append_right _ this.1, this.2⟩
  lists tx htx := by
    rw [Diff.combine, FiniteMap.dom_append, Finset.mem_union]
    rcases List.mem_append.mp htx with htx | htx
    · exact .inl (h.lists tx htx)
    · exact .inr (h'.lists tx htx)
  accountData a ha := by
    rw [Diff.combine, FiniteMap.dom_combineWith, Finset.mem_union] at ha
    rw [Diff.combine]
    rcases ha with ha | ha
    · obtain ⟨id, entry, hentry, hpayment, haddr⟩ := h.accountData a ha
      refine ⟨id, entry, ?_, hpayment, haddr⟩
      rw [FiniteMap.get?_append, hentry]
      rcases hnew : d'.transactions.get? id with _ | entry'
      · rfl
      · -- only a repeated payment is listed twice, and a payment changes no data
        have hold := h.listed id entry hentry
        have hlisted := h'.listed id _ hnew
        have hsame := (List.pairwise_append.mp hids).2.2 _ hold.1 _ hlisted.1
          (hold.2.trans hlisted.2.symm)
        rw [hsame.2] at hpayment
        cases hpayment
    · obtain ⟨id, entry, hentry, hpayment, haddr⟩ := h'.accountData a ha
      refine ⟨id, entry, ?_, hpayment, haddr⟩
      rw [FiniteMap.get?_append, hentry, Option.some_or]
  orderFills id hid := by
    rw [Diff.combine, FiniteMap.dom_combineWith, Finset.mem_union] at hid
    rcases hid with hid | hid
    · obtain ⟨tx, htx, hfills⟩ := h.orderFills id hid
      exact ⟨tx, List.mem_append_left _ htx, hfills⟩
    · obtain ⟨tx, htx, hfills⟩ := h'.orderFills id hid
      exact ⟨tx, List.mem_append_right _ htx, hfills⟩
  sponsorship asset minFee hasset := by
    rw [Diff.combine, FiniteMap.get?_combineWith] at hasset
    have hor : d.sponsorship.get? asset = some (.SponsorshipValue minFee) ∨
        d'.sponsorship.get? asset = some (.SponsorshipValue minFee) := by
      rcases hold : d.sponsorship.get? asset with _ | x <;>
        rcases hnew : d'.sponsorship.get? asset with _ | y <;>
        rw [hold, hnew] at hasset
      · cases hasset
      · exact .inr hasset
      · exact .inl hasset
      · rcases y with m | _
        · exact .inr hasset
        · exact .inl hasset
    rcases hor with hold | hnew
    · obtain ⟨tx, htx, hs⟩ := h.sponsorship asset minFee hold
      exact ⟨tx, List.mem_append_left _ htx, hs⟩
    · obtain ⟨tx, htx, hs⟩ := h'.sponsorship asset minFee hnew
      exact ⟨tx, List.mem_append_right _ htx, hs⟩
  assetScripts asset hasset := by
    rw [Diff.combine, FiniteMap.dom_append, Finset.mem_union] at hasset
    rcases hasset with hasset | hasset
    · obtain ⟨tx, htx, hs⟩ := h.assetScripts asset hasset
      exact ⟨tx, List.mem_append_left _ htx, hs⟩
    · obtain ⟨tx, htx, hs⟩ := h'.assetScripts asset hasset
      exact ⟨tx, List.mem_append_right _ htx, hs⟩
  issues tx htx asset hasset := by
    rw [Diff.combine, FiniteMap.dom_combineWith, FiniteMap.dom_append, Finset.mem_union,
      Finset.mem_union]
    rcases List.mem_append.mp htx with htx | htx
    · have := h.issues tx htx asset hasset
      exact ⟨.inl this.1, .inl this.2⟩
    · have := h'.issues tx htx asset hasset
      exact ⟨.inr this.1, .inr this.2⟩
  leases lt hlt := by
    rw [Diff.combine, FiniteMap.dom_append, Finset.mem_union]
    rcases List.mem_append.mp hlt with hlt | hlt
    · exact .inl (h.leases lt hlt)
    · exact .inr (h'.leases lt hlt)

/-! ## 2. The diff of a transaction -/

open LevelDBWriter in
/-- A diff that lists one transaction. -/
theorem Diff.records_singleton {d : Diff} {tx : Transaction} {addresses : Finset Address}
    (htransactions : d.transactions = .single tx.id (tx, addresses))
    (haccountData : ∀ a ∈ d.accountData.dom, isPayment tx = false ∧ a ∈ addresses)
    (horderFills : ∀ id ∈ d.orderFills.dom, id ∈ fillsUndoneBy tx)
    (hsponsorship : ∀ asset minFee,
      d.sponsorship.get? asset = some (.SponsorshipValue minFee) →
        sponsorshipUndoneBy tx = some asset)
    (hassetScripts : ∀ asset ∈ d.assetScripts.dom,
      assetScriptUndoneBy tx = some asset ∨ issuedBy tx = some asset)
    (hissues : ∀ asset, issuedBy tx = some asset →
      asset ∈ d.issuedAssets.dom ∧ asset ∈ d.assetScripts.dom)
    (hleases : ∀ lt, tx = .lease lt → tx.id ∈ d.leaseState.dom) : d.Records [tx] where
  listed id entry h := by
    rw [htransactions, FiniteMap.get?_single] at h
    by_cases hid : id = tx.id
    · rw [if_pos hid] at h
      cases h
      exact ⟨List.mem_singleton_self tx, hid.symm⟩
    · rw [if_neg hid] at h
      cases h
  lists tx' h := by
    rw [List.mem_singleton.mp h, htransactions, FiniteMap.dom_single]
    exact Finset.mem_singleton_self _
  accountData a ha := by
    have hrecorded := haccountData a ha
    refine ⟨tx.id, (tx, addresses), ?_, hrecorded.1, hrecorded.2⟩
    rw [htransactions, FiniteMap.get?_single_self]
  orderFills id hid := ⟨tx, List.mem_singleton_self tx, horderFills id hid⟩
  sponsorship asset minFee h := ⟨tx, List.mem_singleton_self tx, hsponsorship asset minFee h⟩
  assetScripts asset h := ⟨tx, List.mem_singleton_self tx, hassetScripts asset h⟩
  issues tx' htx' asset h := by
    rw [List.mem_singleton.mp htx'] at h
    exact hissues asset h
  leases lt hlt := by
    have htx := List.mem_singleton.mp hlt
    have hlease := hleases lt htx.symm
    rwa [← htx] at hlease

open LevelDBWriter in
/-- The changes of a transaction that are recorded with `Diff.ofTx`. -/
theorem Diff.records_ofTx {tx : Transaction} {changes : Diff}
    (hpayment : isPayment tx = true → changes.accountData = ∅)
    (horderFills : ∀ id ∈ changes.orderFills.dom, id ∈ fillsUndoneBy tx)
    (hsponsorship : ∀ asset minFee,
      changes.sponsorship.get? asset = some (.SponsorshipValue minFee) →
        sponsorshipUndoneBy tx = some asset)
    (hassetScripts : ∀ asset ∈ changes.assetScripts.dom,
      assetScriptUndoneBy tx = some asset ∨ issuedBy tx = some asset)
    (hissues : ∀ asset, issuedBy tx = some asset →
      asset ∈ changes.issuedAssets.dom ∧ asset ∈ changes.assetScripts.dom)
    (hleases : ∀ lt, tx = .lease lt → tx.id ∈ changes.leaseState.dom) :
    (Diff.ofTx tx changes).Records [tx] := by
  refine Diff.records_singleton rfl ?_ horderFills hsponsorship hassetScripts hissues hleases
  intro a ha
  refine ⟨?_, Finset.mem_union_right _ ha⟩
  rcases hp : isPayment tx with _ | _
  · rfl
  · have hnone := hpayment hp
    change a ∈ changes.accountData.dom at ha
    rw [hnone, FiniteMap.dom_empty] at ha
    exact absurd ha (Finset.notMem_empty a)

/-- The types that fill no order and change neither a sponsorship nor an asset's script. -/
theorem Diff.records_plain {tx : Transaction} {changes : Diff}
    (hpayment : isPayment tx = true → changes.accountData = ∅)
    (horderFills : changes.orderFills = ∅) (hsponsorship : changes.sponsorship = ∅)
    (hassetScripts : changes.assetScripts = ∅) (hissue : issuedBy tx = none)
    (hleases : ∀ lt, tx = .lease lt → tx.id ∈ changes.leaseState.dom) :
    (Diff.ofTx tx changes).Records [tx] := by
  refine Diff.records_ofTx hpayment ?_ ?_ ?_ ?_ hleases
  · intro id hid
    rw [horderFills, FiniteMap.dom_empty] at hid
    exact absurd hid (Finset.notMem_empty id)
  · intro asset minFee h
    rw [hsponsorship, FiniteMap.get?_empty] at h
    cases h
  · intro asset h
    rw [hassetScripts, FiniteMap.dom_empty] at h
    exact absurd h (Finset.notMem_empty asset)
  · intro asset h
    rw [hissue] at h
    cases h

/-- A reissue or a burn, which records its transaction without an address. -/
theorem Diff.records_supply {tx : Transaction} {runs : ℕ} {ps : Portfolios}
    {infos : FiniteMap IssuedAsset AssetInfo} (hissue : issuedBy tx = none)
    (hlease : ∀ lt, tx ≠ .lease lt) :
    ((Diff.ofTx tx { Diff.empty with scriptsRun := runs }).combine
      { Diff.empty with portfolios := ps, issuedAssets := infos }).Records [tx] := by
  refine Diff.records_singleton (FiniteMap.append_empty (.single tx.id (tx, (∅ : Finset Address)))) ?_ ?_ ?_ ?_ ?_ ?_
  · exact fun a ha => absurd ha (Finset.notMem_empty a)
  · exact fun id hid => absurd hid (Finset.notMem_empty id)
  · intro asset minFee h
    cases h
  · exact fun asset h => absurd h (Finset.notMem_empty asset)
  · intro asset h
    rw [hissue] at h
    cases h
  · intro lt h
    exact absurd h (hlease lt)

/-- The complexity of the scripts adds nothing to what is recorded. -/
theorem Diff.Records.complexityDiff {b : Blockchain} {tx : Transaction} {d : Diff}
    (h : d.Records [tx]) : ((TransactionDiffer.complexityDiff b tx).combine d).Records [tx] := by
  have htransactions : ∀ id, ((TransactionDiffer.complexityDiff b tx).combine d).transactions.get? id =
      d.transactions.get? id := by
    intro id
    change (FiniteMap.single tx.id _ ++ d.transactions).get? id = _
    rw [FiniteMap.get?_append, FiniteMap.get?_single]
    by_cases hid : id = tx.id
    · have hdom := h.lists tx (List.mem_singleton_self tx)
      rw [d.transactions.mem_dom] at hdom
      rw [hid]
      rcases hget : d.transactions.get? tx.id with _ | entry
      · rw [hget] at hdom
        cases hdom
      · rfl
    · rw [if_neg hid, Option.or_none]
  have haccountData : ((TransactionDiffer.complexityDiff b tx).combine d).accountData =
      d.accountData := FiniteMap.combineWith_empty_left _ _
  have horderFills : ((TransactionDiffer.complexityDiff b tx).combine d).orderFills =
      d.orderFills := FiniteMap.combineWith_empty_left _ _
  have hsponsorship : ((TransactionDiffer.complexityDiff b tx).combine d).sponsorship =
      d.sponsorship := FiniteMap.combineWith_empty_left _ _
  have hassetScripts : ((TransactionDiffer.complexityDiff b tx).combine d).assetScripts =
      d.assetScripts := FiniteMap.empty_append _
  have hissuedAssets : ((TransactionDiffer.complexityDiff b tx).combine d).issuedAssets =
      d.issuedAssets := FiniteMap.combineWith_empty_left _ _
  have hleaseState : ((TransactionDiffer.complexityDiff b tx).combine d).leaseState =
      d.leaseState := FiniteMap.empty_append _
  refine ⟨?_, ?_, ?_, ?_, ?_, ?_, ?_, ?_⟩
  · intro id entry hentry
    rw [htransactions] at hentry
    exact h.listed id entry hentry
  · intro tx' htx'
    rw [FiniteMap.mem_dom, htransactions, ← FiniteMap.mem_dom]
    exact h.lists tx' htx'
  · intro a ha
    rw [haccountData] at ha
    obtain ⟨id, entry, hentry, hrest⟩ := h.accountData a ha
    exact ⟨id, entry, (htransactions id).trans hentry, hrest⟩
  · rw [horderFills]
    exact h.orderFills
  · rw [hsponsorship]
    exact h.sponsorship
  · rw [hassetScripts]
    exact h.assetScripts
  · rw [hissuedAssets, hassetScripts]
    exact h.issues
  · rw [hleaseState]
    exact h.leases

namespace TransactionDiffer

variable [Ride]

open LevelDBWriter in
/-- The types that are validated with an estimate. -/
theorem records_withEstimate {blockTime : Long} {b : Blockchain} {tx : Transaction} {d : Diff}
    (h : unverifiedWithEstimate blockTime b tx = .ok d) : d.Records [tx] := by
  rcases tx with t | t | t | t | t | t | t | t | t | t | t | t | t | t | t | t
  case issue =>
    obtain ⟨script, -, rfl⟩ := AssetTransactionsDiff.issue_eq_ok h
    refine Diff.records_ofTx (fun _ => rfl) ?_ ?_ ?_ ?_ ?_
    · exact fun id hid => absurd hid (Finset.notMem_empty id)
    · intro asset minFee hs
      cases hs
    · intro asset hasset
      rw [FiniteMap.dom_single, Finset.mem_singleton] at hasset
      exact .inr (congrArg some hasset.symm)
    · intro asset hasset
      have hid : ⟨(Transaction.issue t).id⟩ = asset := Option.some.inj hasset
      rw [← hid]
      exact ⟨Finset.mem_singleton_self _, Finset.mem_singleton_self _⟩
    · intro lt hlt
      cases hlt
  case transfer =>
    obtain ⟨recipient, fee, -, -, -, rfl⟩ := TransferTransactionDiff.apply_eq_ok h
    exact Diff.records_plain (fun _ => rfl) rfl rfl rfl rfl fun lt hlt => by cases hlt
  case massTransfer =>
    obtain ⟨list, -, rfl⟩ := MassTransferTransactionDiff.apply_eq_ok h
    exact Diff.records_plain (fun _ => rfl) rfl rfl rfl rfl fun lt hlt => by cases hlt
  case reissue =>
    obtain ⟨d', hd', rfl⟩ := AssetTransactionsDiff.reissue_eq_ok h
    obtain ⟨-, -, rfl⟩ := DiffsCommon.processReissue_eq_ok hd'
    exact Diff.records_supply rfl fun lt hlt => by cases hlt
  case burn =>
    obtain ⟨d', hd', rfl⟩ := AssetTransactionsDiff.burn_eq_ok h
    obtain ⟨-, rfl⟩ := DiffsCommon.processBurn_eq_ok.mp hd'
    exact Diff.records_supply rfl fun lt hlt => by cases hlt
  case lease =>
    obtain ⟨recipient, -, -, -, rfl⟩ := LeaseTransactionsDiff.lease_eq_ok h
    exact Diff.records_plain (fun _ => rfl) rfl rfl rfl rfl
      fun lt hlt => Finset.mem_singleton_self _
  case leaseCancel =>
    obtain ⟨lease, recipient, -, -, -, -, rfl⟩ := LeaseTransactionsDiff.leaseCancel_eq_ok h
    exact Diff.records_plain (fun _ => rfl) rfl rfl rfl rfl fun lt hlt => by cases hlt
  case createAlias =>
    obtain ⟨-, rfl⟩ := CreateAliasTransactionDiff_eq_ok h
    exact Diff.records_plain (fun _ => rfl) rfl rfl rfl rfl fun lt hlt => by cases hlt
  case data =>
    cases h
    exact Diff.records_plain (fun hp => by cases hp) rfl rfl rfl rfl fun lt hlt => by cases hlt
  case setScript =>
    obtain ⟨script, -, rfl⟩ := SetScriptTransactionDiff_eq_ok h
    exact Diff.records_plain (fun _ => rfl) rfl rfl rfl rfl fun lt hlt => by cases hlt
  case setAssetScript =>
    obtain ⟨-, script, runs, -, rfl⟩ := AssetTransactionsDiff.setAssetScript_eq_ok h
    refine Diff.records_ofTx (fun _ => rfl) ?_ ?_ ?_ ?_ ?_
    · exact fun id hid => absurd hid (Finset.notMem_empty id)
    · intro asset minFee hs
      cases hs
    · intro asset hasset
      rw [FiniteMap.dom_single, Finset.mem_singleton] at hasset
      exact .inl (congrArg some hasset.symm)
    · intro asset hasset
      cases hasset
    · intro lt hlt
      cases hlt
  case sponsorFee =>
    obtain ⟨-, rfl⟩ := AssetTransactionsDiff.sponsor_eq_ok h
    refine Diff.records_ofTx (fun _ => rfl) ?_ ?_ ?_ ?_ ?_
    · exact fun id hid => absurd hid (Finset.notMem_empty id)
    · intro asset minFee hs
      rw [FiniteMap.get?_single] at hs
      by_cases hasset : asset = t.asset
      · exact congrArg some hasset.symm
      · rw [if_neg hasset] at hs
        cases hs
    · exact fun asset hasset => absurd hasset (Finset.notMem_empty asset)
    · intro asset hasset
      cases hasset
    · intro lt hlt
      cases hlt
  all_goals cases h

/-- **What the diff of a transaction records.** -/
theorem records {blockTime : Long} {b : Blockchain} {tx : Transaction} {d : Diff}
    (h : unverified blockTime b tx = .ok d) : d.Records [tx] := by
  have hestimate {tx : Transaction}
      (h : (do
        let d ← unverifiedWithEstimate blockTime b tx
        .ok ((complexityDiff b tx).combine d) : Validation Diff) = .ok d) : d.Records [tx] := by
    obtain ⟨d', hd', h⟩ := Validation.bind_eq_ok.mp h
    cases h
    exact (records_withEstimate hd').complexityDiff
  rcases tx with t | t | t | t | t | t | t | t | t | t | t | t | t | t | t | t
  case genesis =>
    obtain ⟨-, rfl⟩ := GenesisTransactionDiff_eq_ok h
    exact Diff.records_plain (fun _ => rfl) rfl rfl rfl rfl fun lt hlt => by cases hlt
  case payment =>
    obtain ⟨-, rfl⟩ := PaymentTransactionDiff_eq_ok h
    exact Diff.records_plain (fun _ => rfl) rfl rfl rfl rfl fun lt hlt => by cases hlt
  case exchange =>
    obtain ⟨-, _, _, _, _, _, _, -, -, -, -, rfl⟩ := ExchangeTransactionDiff.apply_eq_ok h
    refine Diff.records_ofTx (fun _ => rfl) ?_ ?_ ?_ ?_ ?_
    · intro id hid
      rw [FiniteMap.mem_dom, FiniteMap.get?_ofList_pair] at hid
      change id ∈ [t.buyOrder.id, t.sellOrder.id]
      by_cases hsell : id = t.sellOrder.id
      · rw [hsell]
        exact List.mem_cons_of_mem _ (List.mem_singleton_self _)
      · rw [if_neg hsell] at hid
        by_cases hbuy : id = t.buyOrder.id
        · rw [hbuy]
          exact List.mem_cons_self
        · rw [if_neg hbuy] at hid
          cases hid
    · intro asset minFee hs
      cases hs
    · exact fun asset hasset => absurd hasset (Finset.notMem_empty asset)
    · intro asset hasset
      cases hasset
    · intro lt hlt
      cases hlt
  case invokeScript =>
    obtain ⟨dAppAddress, actions, wavesFee, feePart, compositeDiff, happlied⟩ :=
      InvokeScriptTransactionDiff.apply_eq_ok h
    obtain ⟨addresses, hdata, hcall⟩ := happlied.ofCall
    refine Diff.records_singleton hcall.transactions (fun a ha => ⟨rfl, hdata ha⟩) ?_ ?_ ?_ ?_ ?_
    · intro id hid
      rw [hcall.orderFills, FiniteMap.dom_empty] at hid
      exact absurd hid (Finset.notMem_empty id)
    · intro asset minFee hs
      rw [hcall.sponsorship, FiniteMap.get?_empty] at hs
      cases hs
    · intro asset hasset
      rw [hcall.assetScripts, FiniteMap.dom_empty] at hasset
      exact absurd hasset (Finset.notMem_empty asset)
    · intro asset hasset
      cases hasset
    · intro lt hlt
      cases hlt
  all_goals exact hestimate h

end TransactionDiffer

/-! ## 3. The diff of a block -/

theorem TransactionDiffer.records_apply [Ride] {prevBlockTimestamp : Option Long}
    {timestamp : Long} {verify : Bool} {b : Blockchain} {tx : Transaction} {d : Diff}
    (h : TransactionDiffer.apply prevBlockTimestamp timestamp verify b tx = .ok d) :
    d.Records [tx] := by
  unfold TransactionDiffer.apply at h
  by_cases hverify : verify = true
  · rw [if_pos hverify] at h
    exact records (TransactionDiffer.verified_eq_ok.mp h).diff
  · rw [if_neg hverify] at h
    exact records h

theorem IdsDistinct.of_append {txs txs' : List Transaction}
    (h : IdsDistinct (txs ++ txs')) : IdsDistinct txs :=
  (List.pairwise_append.mp h).1

theorem IdsDistinct.eq_of_id {txs : List Transaction} (h : IdsDistinct txs) {tx tx' : Transaction}
    (htx : tx ∈ txs) (htx' : tx' ∈ txs) (hid : tx.id = tx'.id) : tx = tx' := by
  have hall : ∀ ⦃x : Transaction⦄, x ∈ txs → ∀ ⦃y : Transaction⦄, y ∈ txs → x.id = y.id → x = y :=
    List.Pairwise.forall_of_forall_of_flip (fun _ _ _ => rfl) (h.imp fun h heq => (h heq).1)
      (h.imp fun h heq => (h heq.symm).1.symm)
  exact hall htx htx' hid

namespace BlockDiffer

variable [Ride] [BlockSerializer]

omit [PBTransactionSerializer] [Ride] [BlockSerializer] in
/-- What a patch adds comes from no transaction. -/
theorem silent_patch {b c : Blockchain} {p : Patch} {d : Diff} (hp : p ∈ patches b)
    (h : p.patch c = .ok d) : d.Silent := by
  simp only [patches, List.mem_cons, List.not_mem_nil, or_false] at hp
  rcases hp with rfl | rfl | rfl
  · cases h
    exact ⟨_, _, rfl⟩
  · cases h
    exact ⟨_, _, rfl⟩
  · change CancelInvalidLeaseIn c = .ok d at h
    unfold CancelInvalidLeaseIn at h
    dsimp only at h
    split at h
    · cases h
    · cases h
      exact ⟨_, _, rfl⟩

omit [PBTransactionSerializer] [Ride] [BlockSerializer] in
/-- The cancellations of leases that expire come from no transaction. -/
theorem silent_leasesToCancel {b : Blockchain} {leases : FiniteMap ByteStr LeaseTransaction}
    {id : ByteStr} {d : Diff}
    (h : (BlockchainUpdaterImpl.cancelLeases b leases).get? id = some d) : d.Silent := by
  rw [BlockchainUpdaterImpl.cancelLeases, FiniteMap.get?_filterMap] at h
  rcases hlt : leases.get? id with _ | lt
  · rw [hlt] at h
    cases h
  · rw [hlt, Option.bind_some] at h
    rcases hr : (b.resolveRecipient lt.recipient).toOption with _ | recipient
    · rw [hr] at h
      cases h
    · rw [hr] at h
      cases h
      exact ⟨_, _, rfl⟩

section

variable {P : Diff → List Transaction → Prop}
  (hsilent : ∀ d : Diff, d.Silent → P d [])
  (htx : ∀ {prevBlockTimestamp : Option Long} {timestamp : Long} {verify : Bool} {b : Blockchain}
    {tx : Transaction} {d : Diff},
    TransactionDiffer.apply prevBlockTimestamp timestamp verify b tx = .ok d → P d [tx])
  (hcombine : ∀ {d d' : Diff} {txs txs' : List Transaction}, P d txs → P d' txs' →
    P (d.combine d') (txs ++ txs'))

include hsilent hcombine in
omit [Crypto] [PBTransactionSerializer] [Ride] [BlockSerializer] in
theorem combine_silent {d d' : Diff} {txs : List Transaction} (h : P d txs) (h' : d'.Silent) :
    P (d.combine d') txs := by
  have hcombined := hcombine h (hsilent d' h')
  rwa [List.append_nil] at hcombined

include hsilent htx hcombine

omit [BlockSerializer] in
/-- What holds of every transaction's diff, and of what is combined, holds of a list's. -/
theorem apply_combined {b : Blockchain} {constraint : MiningConstraint}
    {prevBlockTimestamp : Option Long} {initDiff : Diff} {hasNg : Bool} {txs : List Transaction}
    {verify : Bool} {r : Result}
    (h : apply b constraint prevBlockTimestamp initDiff hasNg txs verify = .ok r)
    (h0 : initDiff.Silent) : P r.diff txs := by
  refine apply_induction (P := P) h (hsilent _ h0) ?_ ?_
  · intro timestamp acc done tx newDiff blockGenerator curBlockFees _ hacc hnew
    refine hcombine hacc ?_
    rcases hasNg with _ | _
    · exact htx hnew
    · exact combine_silent hsilent hcombine (htx hnew) ⟨_, _, rfl⟩
  · rintro d d' (rfl | ⟨p, hp, patchDiff, -, hpatch, rfl⟩) hd
    · exact hd
    · exact combine_silent hsilent hcombine hd (silent_patch hp hpatch)

/-- **What holds of the parts of a block holds of its diff**: of the diff of each transaction,
of what comes from no transaction, and of a combination. -/
theorem Produces.combined {height : ℕ} {block : Block} {d : Diff} {carry : Long}
    (h : Produces height block d carry) : P d block.transactionData := by
  induction h with
  | keyBlock hheight h =>
    obtain ⟨⟨⟩, -, h⟩ := Validation.bind_eq_ok.mp h
    exact apply_combined hsilent htx hcombine h ⟨_, _, rfl⟩
  | microBlock hblock hheight h ih =>
    obtain ⟨⟨⟩, -, h⟩ := Validation.bind_eq_ok.mp h
    obtain ⟨⟨⟩, -, h⟩ := Validation.bind_eq_ok.mp h
    exact hcombine ih (apply_combined hsilent htx hcombine h ⟨_, _, rfl⟩)
  | expiredLeases hblock hleases ih =>
    rename_i b block d carry ng
    have hfold : ∀ (l : List (ByteStr × Diff)) (d : Diff),
        (∀ e ∈ l, ng.leasesToCancel.get? e.1 = some e.2) → P d block.transactionData →
        P ((l.map Prod.snd).foldl Diff.combine d) block.transactionData := by
      intro l
      induction l with
      | nil => exact fun d _ hd => hd
      | cons e rest ihl =>
        intro d hl hd
        rw [List.map_cons, List.foldl_cons]
        refine ihl _ (fun e' he' => hl e' (List.mem_cons_of_mem _ he')) ?_
        have he := hl e List.mem_cons_self
        rw [hleases] at he
        exact combine_silent hsilent hcombine hd (silent_leasesToCancel he)
    refine hfold _ d ?_ ih
    intro e he
    exact FiniteMap.mem_toList.mp (List.mem_of_mem_filter he)

end

/-- **What the diff of an appended block records.** -/
theorem Produces.records {height : ℕ} {block : Block} {d : Diff} {carry : Long}
    (h : Produces height block d carry) (hids : IdsDistinct block.transactionData) :
    d.Records block.transactionData := by
  refine h.combined (P := fun d txs => IdsDistinct txs → d.Records txs) ?_ ?_ ?_ hids
  · rintro d ⟨ps, states, rfl⟩ -
    exact Diff.records_nil rfl rfl rfl rfl rfl
  · intro _ _ _ _ _ _ h _
    exact TransactionDiffer.records_apply h
  · intro d d' txs txs' hd hd' hids
    exact (hd hids.of_append).combine (hd' (List.pairwise_append.mp hids).2.1) hids

/-- **A block's diff lists the block's transactions**, each by its id. -/
theorem Produces.lists {height : ℕ} {block : Block} {d : Diff} {carry : Long}
    (h : Produces height block d carry) : d.Lists block.transactionData := by
  refine h.combined (P := Diff.Lists) ?_ ?_ ?_
  · rintro d ⟨ps, states, rfl⟩ id
    change (FiniteMap.contains ∅ id) = true ↔ _
    rw [FiniteMap.contains_iff_mem_dom, FiniteMap.dom_empty]
    exact iff_of_false (Finset.notMem_empty id) fun ⟨_, htx, _⟩ => absurd htx List.not_mem_nil
  · intro _ _ _ _ _ _ h
    exact (TransactionDiffer.records_apply h).lists_iff
  · intro d d' txs txs' hd hd' id
    rw [FiniteMap.contains_iff_mem_dom, Diff.combine, FiniteMap.dom_append, Finset.mem_union,
      ← FiniteMap.contains_iff_mem_dom, ← FiniteMap.contains_iff_mem_dom, hd id, hd' id]
    constructor
    · rintro (⟨tx, htx, hid⟩ | ⟨tx, htx, hid⟩)
      · exact ⟨tx, List.mem_append_left _ htx, hid⟩
      · exact ⟨tx, List.mem_append_right _ htx, hid⟩
    · rintro ⟨tx, htx, hid⟩
      exact (List.mem_append.mp htx).imp (fun htx => ⟨tx, htx, hid⟩) fun htx => ⟨tx, htx, hid⟩

end BlockDiffer

end WavesNode
