/-
The actions of a call, one after another.

`foldActions` turns every action of a contract's list into a diff on the blockchain
*before* the call; only the scripts of assets are shown the actions before. What a list
of actions means is that each action meets the ledger its predecessors left:
`applyOneByOne` is that meaning, with the same checks made on the overlay of the changes
so far, and with nothing spent that is not there.

The two agree on an accepted list exactly when no check would have answered differently
(`foldActions_oneByOne_iff`). `ActionsInTurn` says when: it looks only at the list, at the
ledger before the call, and at the payments.
-/
import WavesNode.TransactionDiffSpecs
import WavesNode.BlockchainUpdater

set_option autoImplicit false

namespace WavesNode

section
variable [Crypto] [PBTransactionSerializer] [Ride]

namespace InvokeScriptTransactionDiff

/-! ## 1. One action after another -/

/-- What an action needs of the contract's account, and of the asset, as it finds them. -/
def fits (state : Blockchain) (dAppAddress : Address) : CallableAction → Bool
  | .transfer t => t.amount ≤ state.balance dAppAddress (Asset.fromCompatId t.assetId)
  | .burn r => r.quantity ≤ state.balance dAppAddress (.issued ⟨r.assetId⟩)
  | .reissue r => (state.assetDescription ⟨r.assetId⟩).all fun desc =>
      desc.totalVolume + r.quantity.toInt ≤ Long.MaxValue.toInt
  | _ => true

/-- An action on the ledger that the changes before it left. -/
def applyInTurn (b : Blockchain) (blockTime : Long) (tx : InvokeScriptTransaction)
    (dAppAddress : Address) (acc : Diff) (action : CallableAction) : Validation Diff := do
  let state := CompositeBlockchain b (some acc)
  .cond (fits state dAppAddress action) (.GenericError "The action is not covered")
  let d ← applyAction state blockTime tx dAppAddress (.ok Diff.empty) action
  .ok (acc.combine d)

def applyOneByOne (b : Blockchain) (blockTime : Long) (tx : InvokeScriptTransaction)
    (dAppAddress : Address) (actions : List CallableAction) (paymentsDiff : Diff) :
    Validation Diff :=
  actions.foldlM (applyInTurn b blockTime tx dAppAddress) paymentsDiff

end InvokeScriptTransactionDiff

/-! ## 2. What a list does to an asset and to the contract's account -/

namespace CallableAction

omit [Crypto] [PBTransactionSerializer] [Ride]

/-- A reissue that ends all reissues of an asset. -/
def closes (asset : IssuedAsset) : CallableAction → Bool
  | reissue r => IssuedAsset.mk r.assetId = asset && !r.isReissuable
  | _ => false

/-- What an action adds to an asset's volume. -/
def volumeChange (asset : IssuedAsset) : CallableAction → ℤ
  | reissue r => if IssuedAsset.mk r.assetId = asset then r.quantity.toInt else 0
  | burn r => if IssuedAsset.mk r.assetId = asset then (-r.quantity).toInt else 0
  | _ => 0

/-- What an action adds to a balance of the contract. -/
def balanceChange (dAppAddress : Address) (x : Asset) : CallableAction → Long
  | transfer t =>
    if Asset.fromCompatId t.assetId = x then
      if t.recipient = dAppAddress.bytes then safeSum t.amount (-t.amount) else -t.amount
    else 0
  | reissue r => if Asset.issued ⟨r.assetId⟩ = x then r.quantity else 0
  | burn r => if Asset.issued ⟨r.assetId⟩ = x then -r.quantity else 0
  | _ => 0

end CallableAction

namespace InvokeScriptTransactionDiff

/-- A balance of the contract once the payments came in and some actions were applied. -/
def heldAfter (b : Blockchain) (dAppAddress : Address) (payments : Portfolios)
    (done : List CallableAction) (x : Asset) : Long :=
  b.balance dAppAddress x +
    (done.map (CallableAction.balanceChange dAppAddress x)).foldl safeSum
      (payments.delta dAppAddress x)

/-- A reissue that the actions before it leave room for. -/
structure ReissueInTurn (b : Blockchain) (blockTime : Long) (done : List CallableAction)
    (r : Reissue) (desc : AssetDescription) : Prop where
  open_ : done.all (fun a => !a.closes ⟨r.assetId⟩) ∨
    blockTime ≤ b.settings.functionalitySettings.allowInvalidReissueInSameBlockUntilTimestamp
  room : b.isFeatureActivated BlockchainFeatures.DataTransaction = true →
    desc.totalVolume + (done.map (CallableAction.volumeChange ⟨r.assetId⟩)).sum ≤
      (Long.MaxValue - r.quantity).toInt
  volume : desc.totalVolume + (done.map (CallableAction.volumeChange ⟨r.assetId⟩)).sum +
    r.quantity.toInt ≤ Long.MaxValue.toInt

/-- An action that the actions before it leave possible: an asset is not reissued after it
was closed or beyond the word, and nothing is spent that they left the contract without. -/
def ActionInTurn (b : Blockchain) (blockTime : Long) (dAppAddress : Address)
    (payments : Portfolios) (done : List CallableAction) : CallableAction → Prop
  | .transfer t =>
    t.amount ≤ heldAfter b dAppAddress payments done (Asset.fromCompatId t.assetId)
  | .burn r => r.quantity ≤ heldAfter b dAppAddress payments done (.issued ⟨r.assetId⟩)
  | .reissue r => ∀ desc, b.assetDescription ⟨r.assetId⟩ = some desc →
      ReissueInTurn b blockTime done r desc
  | _ => True

/-- Every action of a list is possible after those before it. -/
def ActionsInTurn (b : Blockchain) (blockTime : Long) (dAppAddress : Address)
    (payments : Portfolios) (actions : List CallableAction) : Prop :=
  ∀ done action rest, actions = done ++ action :: rest →
    ActionInTurn b blockTime dAppAddress payments done action

end InvokeScriptTransactionDiff

/-! ## 3. The changes so far

What the accumulated diff is after some actions, whatever ledger they were checked on. -/

namespace InvokeScriptTransactionDiff

/-- The diff of an applied action: what it adds to the contract's balances and to the
volumes, and nothing else that a later action reads. -/
structure ActionDiff (dAppAddress : Address) (action : CallableAction) (d : Diff) : Prop where
  transactions : d.transactions = ∅
  assetScripts : d.assetScripts = ∅
  balance : ∀ x, d.portfolios.delta dAppAddress x = action.balanceChange dAppAddress x
  info : ∀ asset, (d.issuedAssets.get? asset).getD ⟨true, 0⟩ =
    ⟨!action.closes asset, action.volumeChange asset⟩

omit [Crypto] [PBTransactionSerializer] [Ride] in
theorem delta_single_issued (a : Address) (asset : IssuedAsset) (quantity : Long) (x : Asset) :
    Portfolios.delta (.single a ⟨-0, LeaseBalance.empty, .single asset quantity⟩) a x =
      if Asset.issued asset = x then quantity else 0 := by
  rw [Portfolios.delta_single, if_pos rfl, ← Portfolio.balanceOf_build]
  rfl

theorem applyAction_actionDiff {b : Blockchain} {blockTime : Long} {tx : InvokeScriptTransaction}
    {dAppAddress : Address} {acc d : Diff} {action : CallableAction}
    (h : applyAction b blockTime tx dAppAddress (.ok acc) action = .ok d) :
    ActionDiff dAppAddress action d := by
  cases action with
  | transfer t =>
    obtain ⟨address, hbytes, -, rfl⟩ := applyTransfer_eq_ok h
    refine ⟨rfl, rfl, ?_, fun _ => rfl⟩
    intro x
    have hself : dAppAddress = address ↔ t.recipient = dAppAddress.bytes := by
      rw [← hbytes]
      exact ⟨fun heq => heq ▸ rfl, fun heq => congrArg Address.mk heq.symm⟩
    change Portfolios.delta (Portfolios.combine _ _) dAppAddress x = _
    rw [Portfolios.delta_combine, Portfolios.delta_single, Portfolios.delta_single, if_pos rfl,
      Portfolio.balanceOf_build, Portfolio.balanceOf_build, CallableAction.balanceChange]
    simp only [hself]
    by_cases hx : Asset.fromCompatId t.assetId = x
    · rw [if_pos hx, if_pos hx, if_pos hx]
      split
      · rfl
      · exact zero_safeSum _
    · rw [if_neg hx, if_neg hx, if_neg hx]
      split <;> exact zero_safeSum _
  | dataItem e =>
    cases h
    refine ⟨rfl, rfl, ?_, fun _ => rfl⟩
    intro x
    exact Portfolios.delta_empty _ _
  | issue => simp [applyAction] at h
  | reissue r =>
    obtain ⟨hreissue, -⟩ := applyReissue_eq_ok h
    obtain ⟨-, -, rfl⟩ := DiffsCommon.processReissue_eq_ok hreissue
    refine ⟨rfl, rfl, ?_, ?_⟩
    · intro x
      exact delta_single_issued dAppAddress ⟨r.assetId⟩ r.quantity x
    · intro asset
      by_cases hasset : IssuedAsset.mk r.assetId = asset
      · subst hasset
        simp [CallableAction.closes, CallableAction.volumeChange]
      · simp [CallableAction.closes, CallableAction.volumeChange, FiniteMap.get?_single, hasset,
          Ne.symm hasset]
  | burn r =>
    obtain ⟨hburn, -⟩ := applyBurn_eq_ok h
    obtain ⟨-, rfl⟩ := DiffsCommon.processBurn_eq_ok.mp hburn
    refine ⟨rfl, rfl, ?_, ?_⟩
    · intro x
      exact delta_single_issued dAppAddress ⟨r.assetId⟩ (-r.quantity) x
    · intro asset
      by_cases hasset : IssuedAsset.mk r.assetId = asset
      · subst hasset
        simp [CallableAction.closes, CallableAction.volumeChange]
      · simp [CallableAction.closes, CallableAction.volumeChange, FiniteMap.get?_single, hasset,
          Ne.symm hasset]

/-- What the accumulated diff is once the payments came in and some actions were applied. -/
structure ChangesSoFar (tx : InvokeScriptTransaction) (dAppAddress : Address)
    (payments : Portfolios) (done : List CallableAction) (acc : Diff) : Prop where
  transactions : ∀ id t, acc.transactions.get? id = some t → t.1 = .invokeScript tx
  assetScripts : acc.assetScripts = ∅
  balance : ∀ x, acc.portfolios.delta dAppAddress x =
    (done.map (CallableAction.balanceChange dAppAddress x)).foldl safeSum
      (payments.delta dAppAddress x)
  info : ∀ asset, (acc.issuedAssets.get? asset).getD ⟨true, 0⟩ =
    ⟨done.all fun a => !a.closes asset, (done.map (CallableAction.volumeChange asset)).sum⟩

namespace ChangesSoFar

variable {tx : InvokeScriptTransaction} {dAppAddress : Address} {payments : Portfolios}
  {done : List CallableAction} {acc : Diff}

omit [Ride] in
theorem initial (tx : InvokeScriptTransaction) (dAppAddress : Address) (feePart : Portfolios) :
    ChangesSoFar tx dAppAddress (feePart.combine (payablePart tx dAppAddress)) []
      (paymentsPart tx dAppAddress feePart) where
  transactions := by
    intro id t ht
    have hsingle : (FiniteMap.single (Transaction.invokeScript tx).id
        ((Transaction.invokeScript tx),
          (feePart.combine (payablePart tx dAppAddress)).dom ∪ ∅)).get? id = some t := ht
    rw [FiniteMap.get?_single] at hsingle
    split at hsingle
    · cases hsingle
      rfl
    · cases hsingle
  assetScripts := rfl
  balance := fun _ => rfl
  info := fun _ => rfl

omit [Crypto] [PBTransactionSerializer] [Ride] in
/-- What an action does is added to what was done before it. -/
theorem step (h : ChangesSoFar tx dAppAddress payments done acc) {action : CallableAction}
    {d : Diff} (hd : ActionDiff dAppAddress action d) :
    ChangesSoFar tx dAppAddress payments (done ++ [action]) (acc.combine d) where
  transactions := by
    intro id t ht
    refine h.transactions id t ?_
    have happend : (acc.transactions ++ d.transactions).get? id = some t := ht
    rwa [hd.transactions, FiniteMap.append_empty] at happend
  assetScripts := by
    change acc.assetScripts ++ d.assetScripts = ∅
    rw [h.assetScripts, hd.assetScripts, FiniteMap.append_empty]
  balance := by
    intro x
    change (acc.portfolios.combine d.portfolios).delta dAppAddress x = _
    rw [Portfolios.delta_combine, h.balance, hd.balance, List.map_append, List.foldl_append]
    rfl
  info := by
    intro asset
    have happend : ((FiniteMap.combineWith AssetInfo.combine acc.issuedAssets
        d.issuedAssets).get? asset).getD ⟨true, 0⟩ =
          (⟨done.all fun a => !a.closes asset,
            (done.map (CallableAction.volumeChange asset)).sum⟩ : AssetInfo).combine
            ⟨!action.closes asset, action.volumeChange asset⟩ := by
      rw [FiniteMap.get?_combineWith, AssetInfo.getD_combineOption, h.info, hd.info]
    refine happend.trans ?_
    simp [AssetInfo.combine]

end ChangesSoFar

/-! ## 4. The checks on the overlay -/

section
variable {b : Blockchain} {blockTime : Long} {tx : InvokeScriptTransaction}
  {dAppAddress : Address} {payments : Portfolios} {done : List CallableAction} {acc : Diff}

/-- The script of an asset sees the same blockchain either way. -/
theorem validateAction_inTurn (hacc : ChangesSoFar tx dAppAddress payments done acc)
    (pseudoTx : PseudoTx) (asset : IssuedAsset) :
    validateAction (CompositeBlockchain b (some acc)) tx (.ok Diff.empty) pseudoTx asset =
      validateAction b tx (.ok acc) pseudoTx asset := by
  have hscript : (CompositeBlockchain b (some acc)).assetScript asset = b.assetScript asset := by
    rw [Blockchain.assetScript, composite_assetScriptWithComplexity, hacc.assetScripts]
    rfl
  unfold validateAction
  rw [hscript]
  cases b.assetScript asset with
  | none => rfl
  | some script =>
    change validatePseudoTxWithSmartAssetScript _ tx Diff.empty pseudoTx asset.id script =
      validatePseudoTxWithSmartAssetScript b tx acc pseudoTx asset.id script
    unfold validatePseudoTxWithSmartAssetScript
    rw [composite_empty]
    rfl

omit [Ride] in
theorem balance_inTurn (hacc : ChangesSoFar tx dAppAddress payments done acc) (x : Asset) :
    (CompositeBlockchain b (some acc)).balance dAppAddress x =
      heldAfter b dAppAddress payments done x := by
  rw [composite_balance]
  exact congrArg (b.balance dAppAddress x + ·) (hacc.balance x)

omit [Ride] in
/-- An asset that is valid before the call is valid after some actions. -/
theorem validateAsset_inTurn (hacc : ChangesSoFar tx dAppAddress payments done acc)
    {asset : IssuedAsset} {sender : Address} {issuerOnly : Bool}
    (h : DiffsCommon.validateAsset b asset sender issuerOnly = .ok ()) :
    DiffsCommon.validateAsset (CompositeBlockchain b (some acc)) asset sender issuerOnly =
      .ok () := by
  unfold DiffsCommon.validateAsset at h ⊢
  rw [composite_transactionInfo]
  cases ht : acc.transactions.get? asset.id with
  | none => exact h
  | some t =>
    obtain ⟨t, addresses⟩ := t
    have htx : t = .invokeScript tx := hacc.transactions _ _ ht
    subst htx
    rfl

/-- A reissue on the overlay: the flag and the volume are those the actions before left. -/
theorem applyReissue_inTurn (hacc : ChangesSoFar tx dAppAddress payments done acc) {r : Reissue}
    {d : Diff} (h : applyReissue b blockTime tx dAppAddress (.ok acc) r = .ok d)
    {desc : AssetDescription} (hdesc : b.assetDescription ⟨r.assetId⟩ = some desc) {d' : Diff} :
    applyReissue (CompositeBlockchain b (some acc)) blockTime tx dAppAddress (.ok Diff.empty) r =
        .ok d' ↔
      ((done.all fun a => !a.closes ⟨r.assetId⟩) = true ∨ blockTime ≤
        b.settings.functionalitySettings.allowInvalidReissueInSameBlockUntilTimestamp) ∧
      (b.isFeatureActivated BlockchainFeatures.DataTransaction = true →
        desc.totalVolume + (done.map (CallableAction.volumeChange ⟨r.assetId⟩)).sum ≤
          (Long.MaxValue - r.quantity).toInt) ∧ d' = d := by
  obtain ⟨hreissue, hallowed⟩ := applyReissue_eq_ok h
  obtain ⟨hvalid, desc₀, hdesc₀, hopen₀, -, hd⟩ :=
    DiffsCommon.processReissue_eq_ok_iff.mp hreissue
  rw [hdesc] at hdesc₀
  cases hdesc₀
  obtain ⟨desc', hdesc', hflag, hvolume⟩ :=
    composite_assetDescription_of_some b acc none 0 none hdesc
  rw [hacc.info] at hflag hvolume
  have hreissue_iff : DiffsCommon.processReissue (CompositeBlockchain b (some acc)) dAppAddress
      blockTime 0 r = .ok d' ↔ (desc'.reissuable = true ∨ blockTime ≤
        b.settings.functionalitySettings.allowInvalidReissueInSameBlockUntilTimestamp) ∧
      (b.isFeatureActivated BlockchainFeatures.DataTransaction = true →
        desc'.totalVolume ≤ (Long.MaxValue - r.quantity).toInt) ∧ d' = d := by
    rw [DiffsCommon.processReissue_eq_ok_iff]
    constructor
    · rintro ⟨-, desc'', hdesc'', hopen, hroom, hd'⟩
      rw [hdesc'] at hdesc''
      cases hdesc''
      exact ⟨hopen, hroom, hd'.trans hd.symm⟩
    · rintro ⟨hopen, hroom, hd'⟩
      exact ⟨validateAsset_inTurn hacc hvalid, desc', hdesc', hopen, hroom, hd'.trans hd⟩
  have happly : applyReissue (CompositeBlockchain b (some acc)) blockTime tx dAppAddress
      (.ok Diff.empty) r = .ok d' ↔ DiffsCommon.processReissue (CompositeBlockchain b (some acc))
        dAppAddress blockTime 0 r = .ok d' := by
    constructor
    · exact fun h' => (applyReissue_eq_ok h').1
    · intro h'
      unfold applyReissue
      rw [h', validateAction_inTurn hacc, hallowed]
      rfl
  rw [happly, hreissue_iff, hflag, hvolume]
  refine and_congr_left fun _ => ?_
  rw [Bool.and_eq_true]
  constructor
  · rintro (⟨-, hall⟩ | htime)
    · exact .inl hall
    · exact .inr htime
  · rintro (hall | htime)
    · exact hopen₀.imp_left fun hopen => ⟨hopen, hall⟩
    · exact .inr htime

theorem applyInTurn_eq_ok {action : CallableAction} {r : Diff} :
    applyInTurn b blockTime tx dAppAddress acc action = .ok r ↔
      fits (CompositeBlockchain b (some acc)) dAppAddress action = true ∧
        ∃ d, applyAction (CompositeBlockchain b (some acc)) blockTime tx dAppAddress
          (.ok Diff.empty) action = .ok d ∧ acc.combine d = r := by
  unfold applyInTurn
  simp only [Validation.bind_eq_ok, Validation.cond_eq_ok, Except.ok.injEq, exists_and_left]
  constructor
  · rintro ⟨hfits, _, h⟩
    exact ⟨hfits, h⟩
  · rintro ⟨hfits, h⟩
    exact ⟨hfits, (), h⟩

/-- **One action.** An action that was applied to the blockchain before the call is applied
in turn exactly when the actions before it left it possible, and with the same diff. -/
theorem applyInTurn_iff (hacc : ChangesSoFar tx dAppAddress payments done acc)
    {action : CallableAction} {d : Diff}
    (h : applyAction b blockTime tx dAppAddress (.ok acc) action = .ok d) {r : Diff} :
    applyInTurn b blockTime tx dAppAddress acc action = .ok r ↔
      ActionInTurn b blockTime dAppAddress payments done action ∧ acc.combine d = r := by
  rw [applyInTurn_eq_ok]
  cases action with
  | transfer t =>
    have hsame : applyAction (CompositeBlockchain b (some acc)) blockTime tx dAppAddress
        (.ok Diff.empty) (.transfer t) = .ok d := by
      rw [← h]
      unfold applyAction applyTransfer
      simp only [validateAction_inTurn hacc]
    simp only [hsame, Except.ok.injEq, exists_eq_left']
    rw [fits, balance_inTurn hacc, decide_eq_true_eq]
    rfl
  | dataItem e =>
    have hsame : applyAction (CompositeBlockchain b (some acc)) blockTime tx dAppAddress
        (.ok Diff.empty) (.dataItem e) = .ok d := h
    simp only [hsame, Except.ok.injEq, exists_eq_left', fits, true_and, ActionInTurn]
  | issue => simp [applyAction] at h
  | reissue reissue =>
    obtain ⟨hreissue, -⟩ := applyReissue_eq_ok h
    obtain ⟨-, desc, hdesc, -⟩ := DiffsCommon.processReissue_eq_ok_iff.mp hreissue
    obtain ⟨desc', hdesc', -, hvolume⟩ :=
      composite_assetDescription_of_some b acc none 0 none hdesc
    rw [hacc.info] at hvolume
    have hfits : fits (CompositeBlockchain b (some acc)) dAppAddress (.reissue reissue) = true ↔
        desc.totalVolume + (done.map (CallableAction.volumeChange ⟨reissue.assetId⟩)).sum +
          reissue.quantity.toInt ≤ Long.MaxValue.toInt := by
      rw [fits, hdesc', Option.all_some, decide_eq_true_eq, hvolume]
    change _ ∧ (∃ d', applyReissue _ _ _ _ _ _ = .ok d' ∧ _) ↔ _
    simp only [hfits, applyReissue_inTurn hacc h hdesc, ActionInTurn, hdesc, Option.some.injEq,
      forall_eq']
    constructor
    · rintro ⟨hvolume, _, ⟨hopen, hroom, rfl⟩, hr⟩
      exact ⟨⟨hopen, hroom, hvolume⟩, hr⟩
    · rintro ⟨⟨hopen, hroom, hvolume⟩, hr⟩
      exact ⟨hvolume, d, ⟨hopen, hroom, rfl⟩, hr⟩
  | burn burn =>
    obtain ⟨hburn, hallowed⟩ := applyBurn_eq_ok h
    have hsame : applyAction (CompositeBlockchain b (some acc)) blockTime tx dAppAddress
        (.ok Diff.empty) (.burn burn) = .ok d := by
      obtain ⟨hvalid, hd⟩ := DiffsCommon.processBurn_eq_ok.mp hburn
      have hburn' : DiffsCommon.processBurn (CompositeBlockchain b (some acc)) dAppAddress 0
          burn = .ok d :=
        DiffsCommon.processBurn_eq_ok.mpr ⟨validateAsset_inTurn hacc hvalid, hd⟩
      change applyBurn _ _ _ _ _ = _
      unfold applyBurn
      rw [hburn', validateAction_inTurn hacc, hallowed]
      rfl
    simp only [hsame, Except.ok.injEq, exists_eq_left']
    rw [fits, balance_inTurn hacc, decide_eq_true_eq]
    rfl

end

/-! ## 5. Whole lists -/

/-- The actions of a list that was accepted, some others having been applied already. -/
theorem foldlM_applyInTurn_iff {b : Blockchain} {blockTime : Long} {tx : InvokeScriptTransaction}
    {dAppAddress : Address} {payments : Portfolios} {done actions : List CallableAction}
    {acc d : Diff} (hacc : ChangesSoFar tx dAppAddress payments done acc)
    (h : foldActions b blockTime tx dAppAddress actions acc = .ok d) :
    actions.foldlM (applyInTurn b blockTime tx dAppAddress) acc = .ok d ↔
      ∀ before action after, actions = before ++ action :: after →
        ActionInTurn b blockTime dAppAddress payments (done ++ before) action := by
  induction actions generalizing done acc with
  | nil =>
    rw [List.foldlM_nil, Validation.pure_eq_ok, iff_true_left (foldActions_nil_eq_ok h)]
    intro before action after hsplit
    simp at hsplit
  | cons action rest ih =>
    obtain ⟨d', hd', h⟩ := foldActions_cons_eq_ok h
    have hrest := ih (hacc.step (applyAction_actionDiff hd')) h
    rw [List.foldlM_cons, Validation.bind_eq_ok]
    simp only [applyInTurn_iff hacc hd']
    constructor
    · rintro ⟨_, ⟨hfirst, rfl⟩, hrun⟩ before action' after hsplit
      cases before with
      | nil =>
        rw [List.nil_append, List.cons.injEq] at hsplit
        rw [List.append_nil, ← hsplit.1]
        exact hfirst
      | cons first before =>
        rw [List.cons_append, List.cons.injEq] at hsplit
        have hnext := hrest.mp hrun before action' after hsplit.2
        rwa [List.append_assoc, List.singleton_append, hsplit.1] at hnext
    · intro hall
      refine ⟨_, ⟨?_, rfl⟩, hrest.mpr ?_⟩
      · have hfirst := hall [] action rest rfl
        rwa [List.append_nil] at hfirst
      · intro before action' after hsplit
        have hnext := hall (action :: before) action' after (by rw [hsplit, List.cons_append])
        rwa [List.append_assoc, List.singleton_append]

end InvokeScriptTransactionDiff

end

/-! ## 6. A closed asset reissued -/

namespace Devnet

/-- Two reissues, the first of which ends all reissues. -/
def closingReissues : List CallableAction :=
  [.reissue ⟨tokenId, false, 1⟩, .reissue ⟨tokenId, true, 1⟩]

end Devnet

section
open Devnet BlockchainUpdaterImpl InvokeScriptTransactionDiff

local instance reissuesCrypto : Crypto := (contractBlocks closingReissues).crypto
local instance reissuesSerializer : PBTransactionSerializer := pbTransactionSerializer
local instance reissuesBlocks : BlockSerializer := (contractBlocks closingReissues).blockSerializer
local instance reissuesRide : Ride := (contractBlocks closingReissues).ride

namespace Devnet

/-- The node after the contract's block. -/
def contractNode : Validation BlockchainUpdaterImpl :=
  (ofBlockchain (Blockchain.initial contractSettings)).processBlocks [genesisBlock, contractBlock]

def contractLedger : Blockchain :=
  (contractNode >>= ledger).toOption.getD (Blockchain.initial contractSettings)

/-- What Bob pays for the call. -/
def callFee : Portfolios := .single bob.address (.waves (-500000))

/-- The diff of a list of actions of the call. -/
def callDiff (actions : List CallableAction) : Diff :=
  (foldActions contractLedger 1500000000000 contractCall alice.address actions
    (paymentsPart contractCall alice.address callFee)).toOption.getD Diff.empty

end Devnet

/-- The ledger after the contract's block, and the call with its actions on it. -/
theorem contractLedger_run :
    ((contractNode >>= ledger).toOption.isSome ∧
        contractLedger.accountScript alice.address = contractScript.script ∧
        contractScript.script.map (fun script => runContract contractLedger script contractCall) =
          some (.ok (closingReissues, 1)) ∧
        contractCall.sender.toAddress = bob.address) ∧
      (foldActions contractLedger 1500000000000 contractCall alice.address closingReissues
        (paymentsPart contractCall alice.address callFee)).toOption.isSome ∧
      (applyOneByOne contractLedger 1500000000000 contractCall alice.address closingReissues
        (paymentsPart contractCall alice.address callFee)).toOption.isSome = false := by
  decide +kernel

theorem foldActions_closingReissues_eq_ok :
    foldActions contractLedger 1500000000000 contractCall alice.address closingReissues
      (paymentsPart contractCall alice.address callFee) = .ok (callDiff closingReissues) :=
  Validation.eq_ok_getD contractLedger_run.2.1

theorem contractLedger_reachable :
    ∃ u, Reachable contractSettings u ∧ u.ledger = .ok contractLedger := by
  have hrun : contractNode >>= ledger = .ok contractLedger :=
    Validation.eq_ok_getD contractLedger_run.1.1
  obtain ⟨u, hu, hledger⟩ := Validation.bind_eq_ok.mp hrun
  exact ⟨u, Reachable.initial.processBlocks hu, hledger⟩

theorem accountScript_contractLedger :
    contractLedger.accountScript alice.address = contractScript.script :=
  contractLedger_run.1.2.1

theorem runContract_contractCall :
    contractScript.script.map (fun script => runContract contractLedger script contractCall) =
      some (.ok (closingReissues, 1)) :=
  contractLedger_run.1.2.2.1

theorem feeInfo_contractCall : feeInfo contractLedger contractCall = .ok (500000, callFee) := by
  obtain ⟨⟨-, -, -, hsender⟩, -, -⟩ := contractLedger_run
  unfold feeInfo callFee
  rw [hsender]
  rfl

theorem applyOneByOne_closingReissues :
    (applyOneByOne contractLedger 1500000000000 contractCall alice.address closingReissues
      (paymentsPart contractCall alice.address callFee)).toOption.isSome = false :=
  contractLedger_run.2.2

end

end WavesNode
