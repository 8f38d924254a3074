/-
What each `…TransactionDiff` answers, one inversion lemma for each.

Every later argument about the changes of a transaction starts from the explicit
record these lemmas give, with the facts about the ledger that the code checked on
the way. No proof above this file unfolds a diff builder.
-/
import WavesNode.TransactionDiffer

set_option autoImplicit false

namespace WavesNode

variable [Crypto] [PBTransactionSerializer] [Ride]

/-! ## 1. `DiffsCommon` -/

namespace DiffsCommon

omit [PBTransactionSerializer] [Ride] in
/-- A validated asset has a transaction, and its issuer is the sender where the
transaction is an issue and only the issuer may act. -/
theorem validateAsset_eq_ok {b : Blockchain} {asset : IssuedAsset} {sender : Address}
    {issuerOnly : Bool} {u : Unit} (h : validateAsset b asset sender issuerOnly = .ok u) :
    ∃ height tx, b.transactionInfo asset.id = some (height, tx) ∧
      (issuerOnly = true → ∀ itx, tx = .issue itx → sender = itx.sender.toAddress) := by
  unfold validateAsset at h
  split at h
  · rename_i height sitx hinfo
    refine ⟨height, .issue sitx, hinfo, ?_⟩
    intro honly itx hitx
    cases hitx
    by_contra hne
    simp [honly, hne] at h
  · simp at h
  · rename_i entry hnot hinfo
    refine ⟨entry.1, entry.2, hinfo, ?_⟩
    rintro _ itx hitx
    refine (hnot entry.1 itx ?_).elim
    rw [← hitx]

omit [PBTransactionSerializer] [Ride] in
/-- A reissue that passes adds its quantity to the sender and to the asset. -/
theorem processReissue_eq_ok_iff {b : Blockchain} {sender : Address} {blockTime fee : Long}
    {r : Reissue} {d : Diff} :
    processReissue b sender blockTime fee r = .ok d ↔
      validateAsset b ⟨r.assetId⟩ sender true = .ok () ∧
        ∃ desc, b.assetDescription ⟨r.assetId⟩ = some desc ∧
          (desc.reissuable = true ∨ blockTime ≤
            b.settings.functionalitySettings.allowInvalidReissueInSameBlockUntilTimestamp) ∧
          (b.isFeatureActivated BlockchainFeatures.DataTransaction = true →
            desc.totalVolume ≤ (Long.MaxValue - r.quantity).toInt) ∧
          d = { Diff.empty with
            portfolios := .single sender
              ⟨-fee, LeaseBalance.empty, .single ⟨r.assetId⟩ r.quantity⟩
            issuedAssets := .single ⟨r.assetId⟩ ⟨r.isReissuable, r.quantity.toInt⟩ } := by
  unfold processReissue
  rw [Validation.bind_eq_ok]
  simp only [Validation.bind_eq_ok, Validation.get_eq_ok]
  constructor
  · rintro ⟨⟨⟩, hv, desc, hdesc, h⟩
    refine ⟨hv, desc, hdesc, ?_⟩
    split at h
    · rename_i hreissuable
      split at h
      · simp at h
      · rename_i hroom
        refine ⟨hreissuable, fun hact => ?_, (Except.ok.inj h).symm⟩
        exact not_lt.mp fun hlt => hroom ⟨hlt, hact⟩
    · simp at h
  · rintro ⟨hv, desc, hdesc, hreissuable, hroom, rfl⟩
    refine ⟨(), hv, desc, hdesc, ?_⟩
    rw [if_pos hreissuable, if_neg]
    rintro ⟨hlt, hact⟩
    exact absurd hlt (not_lt.mpr (hroom hact))

omit [PBTransactionSerializer] [Ride] in
/-- A reissue adds its quantity to the sender and to the asset. -/
theorem processReissue_eq_ok {b : Blockchain} {sender : Address} {blockTime fee : Long}
    {r : Reissue} {d : Diff} (h : processReissue b sender blockTime fee r = .ok d) :
    validateAsset b ⟨r.assetId⟩ sender true = .ok () ∧
      (∃ desc, b.assetDescription ⟨r.assetId⟩ = some desc) ∧
      d = { Diff.empty with
        portfolios := .single sender ⟨-fee, LeaseBalance.empty, .single ⟨r.assetId⟩ r.quantity⟩
        issuedAssets := .single ⟨r.assetId⟩ ⟨r.isReissuable, r.quantity.toInt⟩ } := by
  obtain ⟨hv, desc, hdesc, -, -, hd⟩ := processReissue_eq_ok_iff.mp h
  exact ⟨hv, ⟨desc, hdesc⟩, hd⟩

omit [PBTransactionSerializer] [Ride] in
/-- A burn takes its quantity from the sender and from the asset. -/
theorem processBurn_eq_ok {b : Blockchain} {sender : Address} {fee : Long} {r : Burn}
    {d : Diff} :
    processBurn b sender fee r = .ok d ↔
      validateAsset b ⟨r.assetId⟩ sender
          (!b.isFeatureActivated BlockchainFeatures.BurnAnyTokens) = .ok () ∧
        d = { Diff.empty with
          portfolios := .single sender
            ⟨-fee, LeaseBalance.empty, .single ⟨r.assetId⟩ (-r.quantity)⟩
          issuedAssets := .single ⟨r.assetId⟩ ⟨true, (-r.quantity).toInt⟩ } := by
  unfold processBurn
  rw [Validation.bind_eq_ok]
  constructor
  · rintro ⟨⟨⟩, hv, h⟩
    exact ⟨hv, (Except.ok.inj h).symm⟩
  · rintro ⟨hv, rfl⟩
    exact ⟨(), hv, rfl⟩

omit [Crypto] [PBTransactionSerializer] in
/-- The counted script is the script given. -/
theorem countScriptComplexity_eq_ok {script : Option Script} {b : Blockchain}
    {r : Option (Script × Long)} (h : countScriptComplexity script b = .ok r) :
    r.map Prod.fst = script := by
  unfold countScriptComplexity at h
  cases script with
  | none => cases h; rfl
  | some s =>
    cases hc : Ride.verifierComplexity s b.estimator with
    | error e => simp [hc] at h
    | ok c =>
      simp only [hc, Except.ok.injEq] at h
      rw [← h]
      rfl

end DiffsCommon

/-! ## 2. Genesis, payment and transfers -/

omit [Ride] in
theorem GenesisTransactionDiff_eq_ok {height : ℕ} {tx : GenesisTransaction} {d : Diff}
    (h : GenesisTransactionDiff height tx = .ok d) :
    height = 1 ∧ d = .ofTx (.genesis tx)
      { Diff.empty with portfolios := .single tx.recipient (.waves tx.amount) } := by
  unfold GenesisTransactionDiff at h
  split at h
  · simp at h
  · rename_i hheight
    exact ⟨not_not.mp hheight, (Except.ok.inj h).symm⟩

omit [Ride] in
theorem PaymentTransactionDiff_eq_ok {b : Blockchain} {tx : PaymentTransaction} {d : Diff}
    (h : PaymentTransactionDiff b tx = .ok d) :
    b.height ≤ b.settings.functionalitySettings.blockVersion3AfterHeight ∧
      d = .ofTx (.payment tx)
        { Diff.empty with
          portfolios := Portfolios.combine (.single tx.recipient (.waves tx.amount))
            (.single tx.sender.toAddress (.waves (-tx.amount - tx.fee))) } := by
  unfold PaymentTransactionDiff at h
  dsimp only at h
  split at h
  · simp at h
  · rename_i hheight
    exact ⟨not_lt.mp hheight, (Except.ok.inj h).symm⟩

namespace TransferTransactionDiff

omit [PBTransactionSerializer] [Ride] in
/-- The fee of a transfer: Waves from the sender; or an asset from the sender, handed to
its sponsor against Waves where sponsorship is in force. -/
theorem feePart_eq_ok {b : Blockchain} {sender : Address} {tx : TransferTransaction}
    {fee : Portfolios} (h : feePart b sender tx = .ok fee) :
    (tx.feeAssetId = .Waves ∧ fee = .single sender (.waves (-tx.fee))) ∨
      ∃ asset, tx.feeAssetId = .issued asset ∧ ∃ sponsorPf : Portfolios,
        (if b.height ≥ b.sponsoredFeesSwitchHeight then sponsorPortfolio b asset tx.fee
          else .ok ∅) = .ok sponsorPf ∧
        fee = Portfolios.combine (.single sender (.build (.issued asset) (-tx.fee))) sponsorPf := by
  unfold feePart at h
  cases hasset : tx.feeAssetId with
  | Waves =>
    rw [hasset] at h
    exact .inl ⟨rfl, (Except.ok.inj h).symm⟩
  | issued asset =>
    rw [hasset] at h
    dsimp only at h
    refine .inr ⟨asset, rfl, ?_⟩
    by_cases hs : b.height ≥ b.sponsoredFeesSwitchHeight
    · rw [if_pos hs] at h
      obtain ⟨sponsorPf, hsp, h⟩ := Validation.bind_eq_ok.mp h
      exact ⟨sponsorPf, by rw [if_pos hs, hsp], (Except.ok.inj h).symm⟩
    · rw [if_neg hs] at h
      refine ⟨∅, by rw [if_neg hs], ?_⟩
      rw [Portfolios.combine_empty]
      exact (Except.ok.inj h).symm

omit [Ride] in
theorem apply_eq_ok {b : Blockchain} {blockTime : Long} {tx : TransferTransaction} {d : Diff}
    (h : apply b blockTime tx = .ok d) :
    ∃ recipient fee, b.resolveRecipient tx.recipient = .ok recipient ∧
      feePart b tx.sender.toAddress tx = .ok fee ∧
      (∀ asset, tx.feeAssetId = .issued asset →
        (b.assetDescription asset).bind AssetDescription.script = none) ∧
      d = .ofTx (.transfer tx)
        { Diff.empty with
          portfolios :=
            (Portfolios.combine (.single tx.sender.toAddress (.build tx.assetId (-tx.amount)))
              (.single recipient (.build tx.assetId tx.amount))).combine fee
          scriptsRun := DiffsCommon.countScriptRuns b (.transfer tx) } := by
  unfold apply at h
  obtain ⟨recipient, hr, h⟩ := Validation.bind_eq_ok.mp h
  obtain ⟨⟨⟩, hsmart, h⟩ := Validation.bind_eq_ok.mp h
  obtain ⟨⟨⟩, -, h⟩ := Validation.bind_eq_ok.mp h
  obtain ⟨fee, hfee, h⟩ := Validation.bind_eq_ok.mp h
  obtain ⟨⟨⟩, -, h⟩ := Validation.bind_eq_ok.mp h
  refine ⟨recipient, fee, hr, hfee, ?_, (Except.ok.inj h).symm⟩
  intro asset hasset
  simpa [hasset] using hsmart

end TransferTransactionDiff

namespace MassTransferTransactionDiff

omit [Crypto] [PBTransactionSerializer] [Ride] in
theorem parseTransfer_eq_ok {b : Blockchain} {assetId : Asset} {xfer : ParsedTransfer}
    {r : Portfolios × Long} (h : parseTransfer b assetId xfer = .ok r) :
    ∃ a, b.resolveRecipient xfer.address = .ok a ∧
      r = (.single a (.build assetId xfer.amount), xfer.amount) := by
  obtain ⟨a, ha, h⟩ := Validation.bind_eq_ok.mp h
  exact ⟨a, ha, (Except.ok.inj h).symm⟩

omit [Crypto] [PBTransactionSerializer] [Ride] in
/-- The two halves of the fold are folds of their own. -/
theorem foldl_portfolios (list : List (Portfolios × Long)) (init : Portfolios × Long) :
    list.foldl (fun u v => (Portfolios.combine u.1 v.1, u.2 + v.2)) init =
      ((list.map Prod.fst).foldl Portfolios.combine init.1,
        (list.map Prod.snd).foldl (· + ·) init.2) := by
  induction list generalizing init with
  | nil => rfl
  | cons v rest ih => rw [List.foldl_cons, ih, List.map_cons, List.map_cons, List.foldl_cons,
      List.foldl_cons]

omit [Ride] in
theorem apply_eq_ok {b : Blockchain} {tx : MassTransferTransaction} {d : Diff}
    (h : apply b tx = .ok d) :
    ∃ list, tx.transfers.mapM (parseTransfer b tx.assetId) = .ok list ∧
      d = .ofTx (.massTransfer tx)
        { Diff.empty with
          portfolios := Portfolios.combine
            ((list.map Prod.fst).foldl Portfolios.combine
              (.single tx.sender.toAddress (.waves (-tx.fee))))
            (.single tx.sender.toAddress (.build tx.assetId (-longSum (list.map Prod.snd))))
          scriptsRun := DiffsCommon.countScriptRuns b (.massTransfer tx) } := by
  unfold apply at h
  obtain ⟨list, hlist, h⟩ := Validation.bind_eq_ok.mp h
  simp only [foldl_portfolios] at h
  obtain ⟨⟨⟩, -, h⟩ := Validation.bind_eq_ok.mp h
  exact ⟨list, hlist, (Except.ok.inj h).symm⟩

end MassTransferTransactionDiff

/-! ## 3. Assets -/

namespace AssetTransactionsDiff

theorem issue_eq_ok {b : Blockchain} {tx : IssueTransaction} {d : Diff}
    (h : issue b tx = .ok d) :
    ∃ script, DiffsCommon.countScriptComplexity tx.script b = .ok script ∧
      d = .ofTx (.issue tx)
        { Diff.empty with
          portfolios := .single tx.sender.toAddress
            ⟨-tx.fee, LeaseBalance.empty, .single ⟨(Transaction.issue tx).id⟩ tx.quantity⟩
          issuedAssets := .single ⟨(Transaction.issue tx).id⟩ ⟨tx.reissuable, tx.quantity.toInt⟩
          assetScripts := .single ⟨(Transaction.issue tx).id⟩ script
          scriptsRun := DiffsCommon.countScriptRuns b (.issue tx) } := by
  obtain ⟨script, hs, h⟩ := Validation.bind_eq_ok.mp h
  exact ⟨script, hs, (Except.ok.inj h).symm⟩

theorem setAssetScript_eq_ok {b : Blockchain} {tx : SetAssetScriptTransaction} {d : Diff}
    (h : setAssetScript b tx = .ok d) :
    b.hasAssetScript tx.asset = true ∧
      ∃ script runs, DiffsCommon.countScriptComplexity tx.script b = .ok script ∧
        d = .ofTx (.setAssetScript tx)
          { Diff.empty with
            portfolios := feePortfolio tx.sender tx.fee
            assetScripts := .single tx.asset script
            scriptsRun := runs } := by
  unfold setAssetScript at h
  obtain ⟨⟨⟩, -, h⟩ := Validation.bind_eq_ok.mp h
  by_cases hs : b.hasAssetScript tx.asset = true
  · rw [if_pos hs] at h
    obtain ⟨script, hscript, h⟩ := Validation.bind_eq_ok.mp h
    exact ⟨hs, script, _, hscript, (Except.ok.inj h).symm⟩
  · rw [if_neg hs] at h
    simp at h

omit [Ride] in
theorem reissue_eq_ok {b : Blockchain} {blockTime : Long} {tx : ReissueTransaction} {d : Diff}
    (h : reissue b blockTime tx = .ok d) :
    ∃ d', DiffsCommon.processReissue b tx.sender.toAddress blockTime tx.fee
        ⟨tx.asset.id, tx.reissuable, tx.quantity⟩ = .ok d' ∧
      d = (Diff.ofTx (.reissue tx)
        { Diff.empty with scriptsRun := DiffsCommon.countScriptRuns b (.reissue tx) }).combine d' := by
  obtain ⟨d', hd', h⟩ := Validation.bind_eq_ok.mp h
  exact ⟨d', hd', (Except.ok.inj h).symm⟩

omit [Ride] in
theorem burn_eq_ok {b : Blockchain} {tx : BurnTransaction} {d : Diff}
    (h : burn b tx = .ok d) :
    ∃ d', DiffsCommon.processBurn b tx.sender.toAddress tx.fee ⟨tx.asset.id, tx.quantity⟩ = .ok d' ∧
      d = (Diff.ofTx (.burn tx)
        { Diff.empty with scriptsRun := DiffsCommon.countScriptRuns b (.burn tx) }).combine d' := by
  obtain ⟨d', hd', h⟩ := Validation.bind_eq_ok.mp h
  exact ⟨d', hd', (Except.ok.inj h).symm⟩

omit [Ride] in
theorem sponsor_eq_ok {b : Blockchain} {tx : SponsorFeeTransaction} {d : Diff}
    (h : sponsor b tx = .ok d) :
    b.hasAssetScript tx.asset = false ∧
      d = .ofTx (.sponsorFee tx)
        { Diff.empty with
          portfolios := feePortfolio tx.sender tx.fee
          sponsorship := .single tx.asset (.SponsorshipValue (tx.minSponsoredAssetFee.getD 0))
          scriptsRun := DiffsCommon.countScriptRuns b (.sponsorFee tx) } := by
  obtain ⟨⟨⟩, -, h⟩ := Validation.bind_eq_ok.mp h
  obtain ⟨⟨⟩, hs, h⟩ := Validation.bind_eq_ok.mp h
  exact ⟨by simpa using hs, (Except.ok.inj h).symm⟩

end AssetTransactionsDiff

/-! ## 4. Leases, aliases, data and account scripts -/

namespace LeaseTransactionsDiff

omit [Ride] in
theorem lease_eq_ok {b : Blockchain} {tx : LeaseTransaction} {d : Diff}
    (h : lease b tx = .ok d) :
    ∃ recipient, b.resolveRecipient tx.recipient = .ok recipient ∧
      recipient ≠ tx.sender.toAddress ∧
      ¬ b.balance tx.sender.toAddress .Waves - (b.leaseBalance tx.sender.toAddress).out < tx.amount ∧
      d = .ofTx (.lease tx)
        { Diff.empty with
          portfolios := .ofList [(tx.sender.toAddress, ⟨-tx.fee, ⟨0, tx.amount⟩, ∅⟩),
            (recipient, ⟨0, ⟨tx.amount, 0⟩, ∅⟩)]
          leaseState := .single (Transaction.lease tx).id true
          scriptsRun := DiffsCommon.countScriptRuns b (.lease tx) } := by
  unfold lease at h
  obtain ⟨recipient, hr, h⟩ := Validation.bind_eq_ok.mp h
  dsimp only at h
  split at h
  · simp at h
  · rename_i hne
    split at h
    · simp at h
    · rename_i hown
      exact ⟨recipient, hr, hne, hown, (Except.ok.inj h).symm⟩

omit [Ride] in
theorem leaseCancel_eq_ok {b : Blockchain} {time : Long} {tx : LeaseCancelTransaction} {d : Diff}
    (h : leaseCancel b time tx = .ok d) :
    ∃ lease recipient, b.leaseDetails tx.leaseId = some lease ∧
      b.resolveRecipient lease.recipient = .ok recipient ∧
      (lease.isActive = true ∨ ¬ time >
        b.settings.functionalitySettings.allowMultipleLeaseCancelTransactionUntilTimestamp) ∧
      (tx.sender = lease.sender ∨ time <
        b.settings.functionalitySettings.allowMultipleLeaseCancelTransactionUntilTimestamp) ∧
      d = .ofTx (.leaseCancel tx)
        { Diff.empty with
          portfolios := Portfolios.combine
            (.single tx.sender.toAddress ⟨-tx.fee, ⟨0, -lease.amount⟩, ∅⟩)
            (.single recipient ⟨0, ⟨-lease.amount, 0⟩, ∅⟩)
          leaseState := .single tx.leaseId false
          scriptsRun := DiffsCommon.countScriptRuns b (.leaseCancel tx) } := by
  unfold leaseCancel at h
  obtain ⟨lease, hl, h⟩ := Validation.bind_eq_ok.mp h
  obtain ⟨recipient, hr, h⟩ := Validation.bind_eq_ok.mp h
  obtain ⟨⟨⟩, hactive, h⟩ := Validation.bind_eq_ok.mp h
  obtain ⟨⟨⟩, hsender, h⟩ := Validation.bind_eq_ok.mp h
  refine ⟨lease, recipient, Validation.ofOption_eq_ok.mp hl, hr, ?_, ?_,
    (Except.ok.inj h).symm⟩
  · simpa using hactive
  · simpa using hsender

end LeaseTransactionsDiff

omit [Ride] in
theorem CreateAliasTransactionDiff_eq_ok {b : Blockchain} {tx : CreateAliasTransaction} {d : Diff}
    (h : CreateAliasTransactionDiff b tx = .ok d) :
    (b.isFeatureActivated BlockchainFeatures.DataTransaction = true →
        b.canCreateAlias tx.alias = true) ∧
      d = .ofTx (.createAlias tx)
        { Diff.empty with
          portfolios := feePortfolio tx.sender tx.fee
          aliases := .single tx.alias tx.sender.toAddress
          scriptsRun := DiffsCommon.countScriptRuns b (.createAlias tx) } := by
  unfold CreateAliasTransactionDiff at h
  split at h
  · simp at h
  · rename_i hfree
    refine ⟨?_, (Except.ok.inj h).symm⟩
    intro hact
    simpa [hact] using hfree

theorem SetScriptTransactionDiff_eq_ok {b : Blockchain} {tx : SetScriptTransaction} {d : Diff}
    (h : SetScriptTransactionDiff b tx = .ok d) :
    ∃ script, DiffsCommon.countScriptComplexity tx.script b = .ok script ∧
      d = .ofTx (.setScript tx)
        { Diff.empty with
          portfolios := feePortfolio tx.sender tx.fee
          scripts := .single tx.sender.toAddress script
          scriptsRun := DiffsCommon.countScriptRuns b (.setScript tx) } := by
  obtain ⟨script, hs, h⟩ := Validation.bind_eq_ok.mp h
  exact ⟨script, hs, (Except.ok.inj h).symm⟩

/-! ## 5. Exchanges and calls -/

namespace ExchangeTransactionDiff

omit [PBTransactionSerializer] [Ride] [Crypto] in
theorem liftValidationError_eq_ok {α : Type} {x : Validation α} {a : α} :
    liftValidationError x = .ok a ↔ x = .ok a := Validation.leftMap_eq_ok

omit [Ride] in
theorem apply_eq_ok {b : Blockchain} {tx : ExchangeTransaction} {d : Diff}
    (h : apply b tx = .ok d) :
    enoughVolume tx b = .ok () ∧ ∃ buyPrice buyAmount sellPrice sellAmount runs complexity,
      tx.buyOrder.getSpendAmount tx.amount tx.price = .ok buyPrice ∧
      tx.buyOrder.getReceiveAmount tx.amount tx.price = .ok buyAmount ∧
      tx.sellOrder.getReceiveAmount tx.amount tx.price = .ok sellPrice ∧
      tx.sellOrder.getSpendAmount tx.amount tx.price = .ok sellAmount ∧
      d = .ofTx (.exchange tx)
        { Diff.empty with
          portfolios := portfolios tx (-buyPrice) buyAmount sellPrice (-sellAmount)
          orderFills := .ofList [(tx.buyOrder.id, ⟨tx.amount, tx.buyMatcherFee⟩),
            (tx.sellOrder.id, ⟨tx.amount, tx.sellMatcherFee⟩)]
          scriptsRun := runs
          scriptsComplexity := complexity } := by
  unfold apply at h
  obtain ⟨⟨⟩, -, h⟩ := Validation.bind_eq_ok.mp h
  obtain ⟨⟨⟩, -, h⟩ := Validation.bind_eq_ok.mp h
  obtain ⟨⟨⟩, -, h⟩ := Validation.bind_eq_ok.mp h
  obtain ⟨⟨⟩, -, h⟩ := Validation.bind_eq_ok.mp h
  obtain ⟨⟨⟩, hvol, h⟩ := Validation.bind_eq_ok.mp h
  obtain ⟨buyPrice, h1, h⟩ := Validation.bind_eq_ok.mp h
  obtain ⟨buyAmount, h2, h⟩ := Validation.bind_eq_ok.mp h
  obtain ⟨sellPrice, h3, h⟩ := Validation.bind_eq_ok.mp h
  obtain ⟨sellAmount, h4, h⟩ := Validation.bind_eq_ok.mp h
  exact ⟨hvol, buyPrice, buyAmount, sellPrice, sellAmount, _, _,
    liftValidationError_eq_ok.mp h1, liftValidationError_eq_ok.mp h2,
    liftValidationError_eq_ok.mp h3, liftValidationError_eq_ok.mp h4, (Except.ok.inj h).symm⟩

end ExchangeTransactionDiff

namespace InvokeScriptTransactionDiff

omit [PBTransactionSerializer] [Ride] in
/-- The fee of a call: Waves from the sender; or an asset with a positive rate, where the
sponsor's entry replaces the sender's if the two are one account. -/
theorem feeInfo_eq_ok {b : Blockchain} {tx : InvokeScriptTransaction} {wavesFee : Long}
    {feePart : Portfolios} (h : feeInfo b tx = .ok (wavesFee, feePart)) :
    (tx.feeAssetId = .Waves ∧ wavesFee = tx.fee ∧
        feePart = .single tx.sender.toAddress (.waves (-tx.fee))) ∨
      ∃ asset desc, tx.feeAssetId = .issued asset ∧ b.assetDescription asset = some desc ∧
        desc.sponsorship > 0 ∧ Sponsorship.toWaves tx.fee desc.sponsorship = .ok wavesFee ∧
        feePart = .ofList [(tx.sender.toAddress, .build (.issued asset) (-tx.fee)),
          (desc.issuer.toAddress, ⟨-wavesFee, LeaseBalance.empty, .single asset tx.fee⟩)] := by
  unfold feeInfo at h
  cases hasset : tx.feeAssetId with
  | Waves =>
    rw [hasset] at h
    simp only [Except.ok.injEq, Prod.mk.injEq] at h
    exact .inl ⟨rfl, h.1.symm, h.2.symm⟩
  | issued asset =>
    rw [hasset] at h
    obtain ⟨desc, hdesc, h⟩ := Validation.bind_eq_ok.mp h
    obtain ⟨⟨⟩, hpos, h⟩ := Validation.bind_eq_ok.mp h
    obtain ⟨w, hw, h⟩ := Validation.bind_eq_ok.mp h
    simp only [Except.ok.injEq, Prod.mk.injEq] at h
    obtain ⟨rfl, rfl⟩ := h
    exact .inr ⟨asset, desc, rfl, Validation.ofOption_eq_ok.mp hdesc, by simpa using hpos, hw, rfl⟩

omit [PBTransactionSerializer] [Ride] in
/-- What a list of actions passes before any of them is applied. -/
theorem checkActions_eq_ok {b : Blockchain} {tx : InvokeScriptTransaction} {dAppAddress : Address}
    {actions : List CallableAction} {u : Unit}
    (h : checkActions b tx dAppAddress actions = .ok u) :
    (∀ t ∈ actions.filterMap CallableAction.transfer?, 0 ≤ t.amount) ∧
      Long.InRange (((actions.filterMap CallableAction.transfer?).map
        AssetTransfer.amount).map Int64.toInt).sum ∧
      ∀ a ∈ transferAssets actions, (b.assetDescription a).isSome = true := by
  unfold checkActions at h
  obtain ⟨⟨⟩, -, h⟩ := Validation.bind_eq_ok.mp h
  obtain ⟨⟨⟩, -, h⟩ := Validation.bind_eq_ok.mp h
  obtain ⟨⟨⟩, -, h⟩ := Validation.bind_eq_ok.mp h
  obtain ⟨⟨⟩, hamounts, h⟩ := Validation.bind_eq_ok.mp h
  obtain ⟨⟨⟩, hoverflow, h⟩ := Validation.bind_eq_ok.mp h
  rw [Validation.cond_eq_ok, List.all_eq_true] at hamounts h
  exact ⟨fun t ht => of_decide_eq_true (hamounts t ht), validateOverflow_eq_ok hoverflow, h⟩

/-- An asset without a script allows every action; the others are shown it. -/
theorem validateAction_eq_ok {b : Blockchain} {tx : InvokeScriptTransaction} {acc : Diff}
    {pseudoTx : PseudoTx} {asset : IssuedAsset} {u : Unit} :
    validateAction b tx (.ok acc) pseudoTx asset = .ok u ↔
      ∀ script, b.assetScript asset = some script →
        validatePseudoTxWithSmartAssetScript b tx acc pseudoTx asset.id script = .ok () := by
  unfold validateAction
  cases b.assetScript asset with
  | none => simp
  | some script =>
    simp only [Option.some.injEq, forall_eq']
    exact Iff.rfl

theorem applyTransfer_eq_ok {b : Blockchain} {tx : InvokeScriptTransaction}
    {dAppAddress : Address} {acc d : Diff} {t : AssetTransfer}
    (h : applyTransfer b tx dAppAddress (.ok acc) t = .ok d) :
    ∃ address : Address, address.bytes = t.recipient ∧
      (∀ a, Asset.fromCompatId t.assetId = .issued a →
        validateAction b tx (.ok acc) (.scriptTransfer ⟨t.assetId, tx.dAppAddressOrAlias.bytes,
          t.recipient, t.amount, tx.timestamp, (Transaction.invokeScript tx).id⟩) a = .ok ()) ∧
      d = { Diff.empty with
        portfolios := Portfolios.combine
          (.single address (.build (Asset.fromCompatId t.assetId) t.amount))
          (.single dAppAddress (.build (Asset.fromCompatId t.assetId) (-t.amount))) } := by
  unfold applyTransfer at h
  obtain ⟨address, haddress, h⟩ := Validation.bind_eq_ok.mp h
  have hbytes : address.bytes = t.recipient := by
    unfold transferRecipient at haddress
    cases hread : Address.fromBytes t.recipient with
    | error e => simp [hread] at haddress
    | ok a =>
      simp only [hread, Except.ok.injEq] at haddress
      rw [← haddress]
      exact Address.fromBytes_bytes hread
  refine ⟨address, hbytes, ?_⟩
  cases hasset : Asset.fromCompatId t.assetId with
  | Waves =>
    simp only [hasset, Except.ok.injEq] at h
    exact ⟨fun a ha => (by cases ha), h.symm⟩
  | issued a =>
    simp only [hasset] at h
    obtain ⟨⟨⟩, hallowed, h⟩ := Validation.bind_eq_ok.mp h
    refine ⟨?_, (Except.ok.inj h).symm⟩
    rintro a' ha'
    cases ha'
    exact hallowed

theorem applyReissue_eq_ok {b : Blockchain} {blockTime : Long} {tx : InvokeScriptTransaction}
    {dAppAddress : Address} {acc d : Diff} {r : Reissue}
    (h : applyReissue b blockTime tx dAppAddress (.ok acc) r = .ok d) :
    DiffsCommon.processReissue b dAppAddress blockTime 0 r = .ok d ∧
      validateAction b tx (.ok acc) (.reissue r tx.dAppAddressOrAlias.bytes
        (Transaction.invokeScript tx).id tx.timestamp) ⟨r.assetId⟩ = .ok () := by
  obtain ⟨d', hd', h⟩ := Validation.bind_eq_ok.mp h
  obtain ⟨⟨⟩, hallowed, h⟩ := Validation.bind_eq_ok.mp h
  cases h
  exact ⟨hd', hallowed⟩

theorem applyBurn_eq_ok {b : Blockchain} {tx : InvokeScriptTransaction}
    {dAppAddress : Address} {acc d : Diff} {r : Burn}
    (h : applyBurn b tx dAppAddress (.ok acc) r = .ok d) :
    DiffsCommon.processBurn b dAppAddress 0 r = .ok d ∧
      validateAction b tx (.ok acc) (.burn r tx.dAppAddressOrAlias.bytes
        (Transaction.invokeScript tx).id tx.timestamp) ⟨r.assetId⟩ = .ok () := by
  obtain ⟨d', hd', h⟩ := Validation.bind_eq_ok.mp h
  obtain ⟨⟨⟩, hallowed, h⟩ := Validation.bind_eq_ok.mp h
  cases h
  exact ⟨hd', hallowed⟩

/-- **An accepted call**: the contract it ran, the actions it returned, and the stages
of its diff. -/
structure AppliedCall (b : Blockchain) (blockTime : Long) (tx : InvokeScriptTransaction)
    (dAppAddress : Address) (actions : List CallableAction) (wavesFee : Long)
    (feePart : Portfolios) (compositeDiff d : Diff) : Prop where
  dApp : b.resolveRecipient tx.dAppAddressOrAlias = .ok dAppAddress
  run : ∃ script complexity, b.accountScript dAppAddress = some script ∧
    runContract b script tx = .ok (actions, complexity)
  checked : checkActions b tx dAppAddress actions = .ok ()
  fee : feeInfo b tx = .ok (wavesFee, feePart)
  invoked : ∃ n, scriptsInvoked b tx actions wavesFee = .ok n
  folded : foldActions b blockTime tx dAppAddress actions
    (paymentsPart tx dAppAddress feePart) = .ok compositeDiff
  portfolios : d.portfolios = compositeDiff.portfolios
  issuedAssets : d.issuedAssets = compositeDiff.issuedAssets
  aliases : d.aliases = compositeDiff.aliases
  orderFills : d.orderFills = compositeDiff.orderFills
  leaseState : d.leaseState = compositeDiff.leaseState
  scripts : d.scripts = compositeDiff.scripts
  assetScripts : d.assetScripts = compositeDiff.assetScripts
  accountData : d.accountData = compositeDiff.accountData
  sponsorship : d.sponsorship = compositeDiff.sponsorship
  transactions : d.transactions =
    compositeDiff.transactions.insert (Transaction.invokeScript tx).id (.invokeScript tx,
      ((compositeDiff.transactions.get? (Transaction.invokeScript tx).id).map Prod.snd).getD ∅ ∪
        (compositeDiff.portfolios.combine (feePart.mapVal Portfolio.negate)).dom ∪
        compositeDiff.accountData.dom)

theorem apply_eq_ok {b : Blockchain} {blockTime : Long} {tx : InvokeScriptTransaction} {d : Diff}
    (h : apply b blockTime tx = .ok d) :
    ∃ dAppAddress actions wavesFee feePart compositeDiff,
      AppliedCall b blockTime tx dAppAddress actions wavesFee feePart compositeDiff d := by
  unfold apply at h
  obtain ⟨dAppAddress, hdapp, h⟩ := Validation.bind_eq_ok.mp h
  split at h
  · rename_i script hscript
    split at h
    · split at h
      · simp at h
      · rename_i actions complexity hrun
        unfold ofActions at h
        obtain ⟨⟨⟩, hchecked, h⟩ := Validation.bind_eq_ok.mp h
        obtain ⟨⟨wavesFee, feePart⟩, hfee, h⟩ := Validation.bind_eq_ok.mp h
        obtain ⟨n, hinv, h⟩ := Validation.bind_eq_ok.mp h
        obtain ⟨compositeDiff, hfold, h⟩ := Validation.bind_eq_ok.mp h
        have hd := (Except.ok.inj h).symm
        subst hd
        exact ⟨dAppAddress, actions, wavesFee, feePart, compositeDiff,
          { dApp := hdapp
            run := ⟨script, complexity, hscript, hrun⟩
            checked := hchecked
            fee := hfee
            invoked := ⟨n, hinv⟩
            folded := hfold
            portfolios := rfl
            issuedAssets := rfl
            aliases := rfl
            orderFills := rfl
            leaseState := rfl
            scripts := rfl
            assetScripts := rfl
            accountData := rfl
            sponsorship := rfl
            transactions := rfl }⟩
    · simp at h
  · simp at h

/-- An action changes balances, the volume of an asset, or the contract's data. -/
theorem applyAction_eq_ok {b : Blockchain} {blockTime : Long} {tx : InvokeScriptTransaction}
    {dAppAddress : Address} {acc d : Diff} {action : CallableAction}
    (h : applyAction b blockTime tx dAppAddress (.ok acc) action = .ok d) :
    ∃ ps infos data, d = { Diff.empty with
      portfolios := ps, issuedAssets := infos, accountData := data } := by
  rcases action with t | item | _ | r | r
  · obtain ⟨address, -, -, rfl⟩ := applyTransfer_eq_ok h
    exact ⟨_, _, _, rfl⟩
  · cases h
    exact ⟨_, _, _, rfl⟩
  · cases h
  · obtain ⟨h, -⟩ := applyReissue_eq_ok h
    obtain ⟨-, -, rfl⟩ := DiffsCommon.processReissue_eq_ok h
    exact ⟨_, _, _, rfl⟩
  · obtain ⟨h, -⟩ := applyBurn_eq_ok h
    obtain ⟨-, rfl⟩ := DiffsCommon.processBurn_eq_ok.mp h
    exact ⟨_, _, _, rfl⟩

/-- The changes a call does not make, and the transaction it records. -/
structure OfCall (tx : InvokeScriptTransaction) (addresses : Finset Address) (d : Diff) :
    Prop where
  transactions : d.transactions =
    .single (Transaction.invokeScript tx).id (.invokeScript tx, addresses)
  aliases : d.aliases = ∅
  orderFills : d.orderFills = ∅
  leaseState : d.leaseState = ∅
  scripts : d.scripts = ∅
  assetScripts : d.assetScripts = ∅
  sponsorship : d.sponsorship = ∅

omit [Ride] in
theorem OfCall.combine {tx : InvokeScriptTransaction} {addresses : Finset Address} {d : Diff}
    (h : OfCall tx addresses d) (ps : Portfolios) (infos : FiniteMap IssuedAsset AssetInfo)
    (data : FiniteMap Address AccountDataInfo) :
    OfCall tx addresses (d.combine { Diff.empty with
      portfolios := ps, issuedAssets := infos, accountData := data }) where
  transactions := (FiniteMap.append_empty _).trans h.transactions
  aliases := (FiniteMap.append_empty _).trans h.aliases
  orderFills := (FiniteMap.combineWith_empty_right _ _).trans h.orderFills
  leaseState := (FiniteMap.append_empty _).trans h.leaseState
  scripts := (FiniteMap.append_empty _).trans h.scripts
  assetScripts := (FiniteMap.append_empty _).trans h.assetScripts
  sponsorship := (FiniteMap.combineWith_empty_right _ _).trans h.sponsorship

/-- The fold over the actions keeps what the payments recorded. -/
theorem foldActions_ofCall {b : Blockchain} {blockTime : Long} {tx : InvokeScriptTransaction}
    {dAppAddress : Address} {actions : List CallableAction} {feePart : Portfolios} {d : Diff}
    (h : foldActions b blockTime tx dAppAddress actions
      (paymentsPart tx dAppAddress feePart) = .ok d) :
    OfCall tx ((feePart.combine (payablePart tx dAppAddress)).dom ∪ ∅) d := by
  refine foldActions_induction (P := OfCall tx _) h ⟨rfl, rfl, rfl, rfl, rfl, rfl, rfl⟩ ?_
  intro acc action d' _ hacc hd'
  obtain ⟨ps, infos, data, rfl⟩ := applyAction_eq_ok hd'
  exact hacc.combine ps infos data

/-- What the diff of a call is, but for balances, volumes and data. -/
theorem AppliedCall.ofCall {b : Blockchain} {blockTime : Long} {tx : InvokeScriptTransaction}
    {dAppAddress : Address} {actions : List CallableAction} {wavesFee : Long}
    {feePart : Portfolios} {compositeDiff d : Diff}
    (h : AppliedCall b blockTime tx dAppAddress actions wavesFee feePart compositeDiff d) :
    ∃ addresses, d.accountData.dom ⊆ addresses ∧ OfCall tx addresses d := by
  have hcall := foldActions_ofCall h.folded
  have hinsert (addresses addresses' : Finset Address) :
      (FiniteMap.single (Transaction.invokeScript tx).id
          ((.invokeScript tx, addresses) : Transaction × Finset Address)).insert
        (Transaction.invokeScript tx).id (.invokeScript tx, addresses') =
      .single (Transaction.invokeScript tx).id (.invokeScript tx, addresses') := by
    ext id : 1
    rw [FiniteMap.get?_insert, FiniteMap.get?_single, FiniteMap.get?_single]
    by_cases hid : id = (Transaction.invokeScript tx).id
    · rw [if_pos hid, if_pos hid]
    · rw [if_neg hid, if_neg hid, if_neg hid]
  have htransactions := h.transactions
  rw [hcall.transactions, hinsert] at htransactions
  have hdata : d.accountData.dom ⊆ compositeDiff.accountData.dom := by
    rw [h.accountData]
  exact ⟨_, hdata.trans Finset.subset_union_right,
    { transactions := htransactions
      aliases := h.aliases.trans hcall.aliases
      orderFills := h.orderFills.trans hcall.orderFills
      leaseState := h.leaseState.trans hcall.leaseState
      scripts := h.scripts.trans hcall.scripts
      assetScripts := h.assetScripts.trans hcall.assetScripts
      sponsorship := h.sponsorship.trans hcall.sponsorship }⟩

end InvokeScriptTransactionDiff

end WavesNode
