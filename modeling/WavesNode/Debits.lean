/-
Whose balances a transaction takes from.

A transaction speaks for its sender; an exchange also for the senders of its orders and
the matcher, a call for the contract, and a fee in a sponsored asset for the sponsor's
Waves. Nothing else may be debited. The diff builders negate and add signed words as
they come, so whether this holds is a matter of signs: of one transfer's amount, of the
amounts of a mass transfer that go to one account, and, for a sponsor, of a sum that may
leave the word. `CreditsRecipients` is that condition, in terms of the transaction and
the ledger before it; for every other type there is none.
-/
import WavesNode.TransactionDiffSpecs
import WavesNode.StaticConstraints
import WavesNode.BlockchainUpdater

set_option autoImplicit false

namespace WavesNode

section
variable [Crypto]

/-! ## 1. Who may be debited -/

/-- The account that answers for fees in an asset: it issued the asset and set a rate. -/
def Blockchain.SponsorOf (b : Blockchain) (feeAsset : Asset) (a : Address) : Prop :=
  ∃ asset desc, feeAsset = .issued asset ∧ b.assetDescription asset = some desc ∧
    desc.sponsorship > 0 ∧ desc.issuer.toAddress = a

/-- The accounts a transaction may take from, and what. -/
inductive MayDebit (b : Blockchain) : Transaction → Address → Asset → Prop where
  | sender {tx : Transaction} {s : PublicKey} {x : Asset} :
    tx.sender? = some s → MayDebit b tx s.toAddress x
  | sponsor {tx : Transaction} {a : Address} :
    b.SponsorOf tx.assetFee.1 a → MayDebit b tx a .Waves
  | matcher {tx : ExchangeTransaction} {x : Asset} :
    MayDebit b (.exchange tx) tx.buyOrder.matcherPublicKey.toAddress x
  | buyer {tx : ExchangeTransaction} {x : Asset} :
    MayDebit b (.exchange tx) tx.buyOrder.senderPublicKey.toAddress x
  | seller {tx : ExchangeTransaction} {x : Asset} :
    MayDebit b (.exchange tx) tx.sellOrder.senderPublicKey.toAddress x
  | dApp {tx : InvokeScriptTransaction} {a : Address} {x : Asset} :
    b.resolveRecipient tx.dAppAddressOrAlias = .ok a → MayDebit b (.invokeScript tx) a x

/-- Every balance a diff lowers is one the transaction may debit. -/
def NoUnauthorisedDebit (b : Blockchain) (tx : Transaction) (d : Diff) : Prop :=
  ∀ a x, d.portfolios.delta a x < 0 → MayDebit b tx a x

theorem noUnauthorisedDebit_iff {b : Blockchain} {tx : Transaction} {d : Diff} :
    NoUnauthorisedDebit b tx d ↔ ∀ a x, ¬MayDebit b tx a x → 0 ≤ d.portfolios.delta a x := by
  refine forall_congr' fun a => forall_congr' fun x => ?_
  rw [← Int64.not_lt]
  exact not_imp_not.symm

/-- A diff that touches no account but the sender's debits no other. -/
theorem NoUnauthorisedDebit.of_sender {b : Blockchain} {tx : Transaction} {d : Diff}
    {s : PublicKey} (hs : tx.sender? = some s)
    (h : ∀ a x, a ≠ s.toAddress → 0 ≤ d.portfolios.delta a x) : NoUnauthorisedDebit b tx d := by
  rw [noUnauthorisedDebit_iff]
  intro a x hnot
  refine h a x ?_
  rintro rfl
  exact hnot (.sender hs)

/-! ## 2. The condition -/

/-- A transfer's amount is not negative, or a sponsor who is the recipient has as much of
it back from the fee. -/
def TransferTransaction.CreditsRecipient (b : Blockchain) (tx : TransferTransaction) : Prop :=
  ∀ r, b.resolveRecipient tx.recipient = .ok r → r ≠ tx.sender.toAddress →
    (¬b.SponsorOf tx.feeAssetId r → 0 ≤ tx.amount) ∧
      (b.SponsorOf tx.feeAssetId r → tx.assetId ≠ .Waves →
        0 ≤ if tx.assetId = tx.feeAssetId then safeSum tx.amount tx.fee else tx.amount)

/-- The amounts a mass transfer sends to one account. -/
def MassTransferTransaction.amountsTo (b : Blockchain) (tx : MassTransferTransaction)
    (a : Address) : List Long :=
  (tx.transfers.filter fun t => (b.resolveRecipient t.address).toOption = some a).map
    ParsedTransfer.amount

/-- The amounts a mass transfer sends to one account do not sum below zero. -/
def MassTransferTransaction.CreditsRecipients (b : Blockchain) (tx : MassTransferTransaction) :
    Prop :=
  ∀ a, a ≠ tx.sender.toAddress → 0 ≤ (tx.amountsTo b a).foldl safeSum 0

def AssetTransfer.isTo (t : AssetTransfer) (a : Address) (x : Asset) : Bool :=
  t.recipient = a.bytes && Asset.fromCompatId t.assetId = x

/-- The amounts of an asset that a list of actions transfers to an account. -/
def amountsTo (actions : List CallableAction) (a : Address) (x : Asset) : List Long :=
  ((actions.filterMap CallableAction.transfer?).filter fun t => t.isTo a x).map
    AssetTransfer.amount

/-- What the contract transfers to the sponsor of the fee, in the asset of the fee, sums
with the fee to a word. -/
def InvokeScriptTransaction.CreditsSponsor [PBTransactionSerializer] [Ride] (b : Blockchain)
    (tx : InvokeScriptTransaction) : Prop :=
  ∀ sponsor dApp script actions complexity, b.SponsorOf tx.feeAssetId sponsor →
    b.resolveRecipient tx.dAppAddressOrAlias = .ok dApp → b.accountScript dApp = some script →
    InvokeScriptTransactionDiff.runContract b script tx = .ok (actions, complexity) →
    sponsor ≠ tx.sender.toAddress → sponsor ≠ dApp →
    0 ≤ (amountsTo actions sponsor tx.feeAssetId).foldl safeSum tx.fee

/-- When no account but those that may be is debited. -/
def CreditsRecipients [PBTransactionSerializer] [Ride] (b : Blockchain) : Transaction → Prop
  | .transfer tx => tx.CreditsRecipient b
  | .massTransfer tx => tx.CreditsRecipients b
  | .invokeScript tx => tx.CreditsSponsor b
  | _ => True

/-! ## 3. Transfers -/

omit [Crypto] in
/-- A minimal fee in a sponsored asset is not negative. -/
theorem Sponsorship.fromWaves_nonneg {wavesFee sponsorship minFee : Long}
    (hfee : 0 ≤ wavesFee.toInt) (hs : 0 ≤ sponsorship.toInt)
    (h : Sponsorship.fromWaves wavesFee sponsorship = .ok minFee) : 0 ≤ minFee.toInt := by
  unfold Sponsorship.fromWaves at h
  split at h
  · rw [← Except.ok.inj h, Long.toInt_zero]
  · rw [(Long.longValueExact_eq_some.mp (Validation.get_eq_ok.mp h)).2]
    exact Int.tdiv_nonneg (Int.mul_nonneg hfee hs) (by decide)

variable [PBTransactionSerializer]

/-- A transfer that pays its fee in a sponsored asset pays at least nothing. -/
theorem FeeValidation.fee_nonneg {b : Blockchain} {tx : TransferTransaction} {a : Address}
    {u : Unit} (hswitch : b.sponsoredFeesSwitchHeight ≤ b.height)
    (h : FeeValidation.apply b (.transfer tx) = .ok u) (hs : b.SponsorOf tx.feeAssetId a) :
    0 ≤ tx.fee.toInt := by
  obtain ⟨asset, desc, hasset, hdesc, hpos, -⟩ := hs
  unfold FeeValidation.apply at h
  rw [if_pos (show b.height ≥ b.sponsoredFeesSwitchHeight from hswitch)] at h
  obtain ⟨details, hmin, h⟩ := Validation.bind_eq_ok.mp h
  have hfeeAsset : (Transaction.transfer tx).assetFee.1 = .issued asset := hasset
  obtain ⟨n, hn, m, hm, hfee⟩ :=
    FeeValidation.getMinFee_sponsored hswitch hfeeAsset hdesc hpos hmin
  have hle : details.minFeeInAsset ≤ tx.fee := of_decide_eq_true (Validation.cond_eq_ok.mp h)
  rw [Long.le_iff] at hle
  refine le_trans (Sponsorship.fromWaves_nonneg ?_ (Long.pos_iff.mp hpos).le hfee) hle
  -- a transfer checks at most one asset, so the fee in Waves is one of a few
  have hassets : (Transaction.transfer tx).checkedAssets.length ≤ 1 := by
    change tx.assetId.issued?.toList.length ≤ 1
    cases tx.assetId.issued? <;> simp
  have hn' : n = 0 ∨ n = 1 ∨ n = 2 := by omega
  have hm' : m = 0 ∨ m = 1 := by omega
  change 0 ≤ (1 * FeeValidation.FeeUnit + Int64.ofNat n * FeeValidation.ScriptExtraFee +
    Int64.ofNat m * FeeValidation.ScriptExtraFee).toInt
  rcases hn' with rfl | rfl | rfl <;> rcases hm' with rfl | rfl <;> decide

omit [PBTransactionSerializer] in
theorem Blockchain.sponsorOf_issued {b : Blockchain} {asset : IssuedAsset}
    {desc : AssetDescription} (hdesc : b.assetDescription asset = some desc) (a : Address) :
    b.SponsorOf (.issued asset) a ↔ desc.sponsorship > 0 ∧ desc.issuer.toAddress = a := by
  constructor
  · rintro ⟨_, _, hissued, hdesc', hpos, hissuer⟩
    cases hissued
    rw [hdesc] at hdesc'
    cases hdesc'
    exact ⟨hpos, hissuer⟩
  · rintro ⟨hpos, hissuer⟩
    exact ⟨asset, desc, rfl, hdesc, hpos, hissuer⟩

omit [PBTransactionSerializer] in
theorem Blockchain.not_sponsorOf {b : Blockchain} {asset : IssuedAsset}
    (hdesc : b.assetDescription asset = none) (a : Address) :
    ¬b.SponsorOf (.issued asset) a := by
  rintro ⟨_, _, hissued, hdesc', -⟩
  cases hissued
  rw [hdesc] at hdesc'
  cases hdesc'

/-- What an account has of an asset from a fee in `feeAsset`, the sender's part aside: the
sponsor has the fee. -/
def feeTo (b : Blockchain) (feeAsset : Asset) (fee : Long) (a : Address) (x : Asset)
    (r : Long) : Prop :=
  (b.SponsorOf feeAsset a ∧ x = feeAsset → r = fee) ∧
    (¬(b.SponsorOf feeAsset a ∧ x = feeAsset) → r = 0)

omit [PBTransactionSerializer] in
theorem feeTo_zero {b : Blockchain} {feeAsset : Asset} {fee : Long} {a : Address} {x : Asset}
    (h : ¬(b.SponsorOf feeAsset a ∧ x = feeAsset)) : feeTo b feeAsset fee a x 0 :=
  ⟨fun h' => absurd h' h, fun _ => rfl⟩

omit [PBTransactionSerializer] in
/-- The sponsor's entry of a fee, the Waves it pays aside. -/
theorem feeTo_sponsor {b : Blockchain} {asset : IssuedAsset} {desc : AssetDescription}
    (hdesc : b.assetDescription asset = some desc) (hpos : desc.sponsorship > 0)
    (fee feeInWaves : Long) {a : Address} {x : Asset}
    (hx : ¬(x = .Waves ∧ b.SponsorOf (.issued asset) a)) :
    feeTo b (.issued asset) fee a x (Portfolios.delta
      (.single desc.issuer.toAddress ⟨-feeInWaves, LeaseBalance.empty, .single asset fee⟩) a x) := by
  have hiff := b.sponsorOf_issued hdesc a
  rw [Portfolios.delta_single]
  by_cases hissuer : a = desc.issuer.toAddress
  · rw [if_pos hissuer]
    cases x with
    | Waves => exact absurd ⟨rfl, hiff.mpr ⟨hpos, hissuer.symm⟩⟩ hx
    | issued y =>
      have hbalance : Portfolio.balanceOf
          ⟨-feeInWaves, LeaseBalance.empty, .single asset fee⟩ (.issued y) =
            if y = asset then fee else 0 := by
        rw [Portfolio.balanceOf, FiniteMap.getOrElse, FiniteMap.get?_single]
        split <;> rfl
      rw [hbalance]
      constructor
      · rintro ⟨-, hy⟩
        cases hy
        exact if_pos rfl
      · intro hnot
        refine if_neg ?_
        rintro rfl
        exact hnot ⟨hiff.mpr ⟨hpos, hissuer.symm⟩, rfl⟩
  · rw [if_neg hissuer]
    refine feeTo_zero ?_
    rintro ⟨hs, -⟩
    exact hissuer (hiff.mp hs).2.symm

omit [PBTransactionSerializer] in
theorem sponsorPortfolio_delta {b : Blockchain} {asset : IssuedAsset} {fee : Long}
    {ps : Portfolios} (h : sponsorPortfolio b asset fee = .ok ps) {a : Address} {x : Asset}
    (hx : ¬(x = .Waves ∧ b.SponsorOf (.issued asset) a)) :
    feeTo b (.issued asset) fee a x (ps.delta a x) := by
  unfold sponsorPortfolio at h
  cases hdesc : b.assetDescription asset with
  | none =>
    rw [hdesc] at h
    cases h
    rw [Portfolios.delta_empty]
    exact feeTo_zero fun hs => b.not_sponsorOf hdesc a hs.1
  | some desc =>
    rw [hdesc] at h
    dsimp only at h
    by_cases hpos : desc.sponsorship > 0
    · rw [if_pos hpos] at h
      obtain ⟨feeInWaves, -, h⟩ := Validation.bind_eq_ok.mp h
      cases h
      exact feeTo_sponsor hdesc hpos fee feeInWaves hx
    · rw [if_neg hpos] at h
      cases h
      rw [Portfolios.delta_empty]
      exact feeTo_zero fun hs => hpos ((b.sponsorOf_issued hdesc a).mp hs.1).1

omit [PBTransactionSerializer] in
/-- What the fee of a transfer does to an account that is not the sender. -/
theorem TransferTransactionDiff.feePart_delta {b : Blockchain} {tx : TransferTransaction}
    {fee : Portfolios} (hswitch : b.sponsoredFeesSwitchHeight ≤ b.height)
    (h : feePart b tx.sender.toAddress tx = .ok fee) {a : Address}
    (ha : a ≠ tx.sender.toAddress) {x : Asset} (hx : ¬(x = .Waves ∧ b.SponsorOf tx.feeAssetId a)) :
    feeTo b tx.feeAssetId tx.fee a x (fee.delta a x) := by
  rcases feePart_eq_ok h with ⟨hasset, rfl⟩ | ⟨asset, hasset, sponsorPf, hsponsor, rfl⟩
  · rw [Portfolios.delta_single_of_ne ha]
    refine feeTo_zero ?_
    rintro ⟨⟨_, _, hissued, -⟩, -⟩
    rw [hasset] at hissued
    cases hissued
  · rw [Portfolios.delta_combine, Portfolios.delta_single_of_ne ha, zero_safeSum]
    rw [if_pos (show b.height ≥ b.sponsoredFeesSwitchHeight from hswitch)] at hsponsor
    rw [hasset] at hx ⊢
    exact sponsorPortfolio_delta hsponsor hx

omit [PBTransactionSerializer] in
theorem mayDebit_transfer_iff {b : Blockchain} {tx : TransferTransaction} {a : Address}
    {x : Asset} :
    MayDebit b (.transfer tx) a x ↔
      a = tx.sender.toAddress ∨ (x = .Waves ∧ b.SponsorOf tx.feeAssetId a) := by
  constructor
  · rintro (hs | hs)
    · cases hs
      exact .inl rfl
    · exact .inr ⟨rfl, hs⟩
  · rintro (rfl | ⟨rfl, hs⟩)
    · exact .sender rfl
    · exact .sponsor hs

theorem TransferTransactionDiff.noUnauthorisedDebit_iff [Ride] {b : Blockchain}
    {blockTime : Long} {tx : TransferTransaction} {d : Diff} {u : Unit}
    (hswitch : b.sponsoredFeesSwitchHeight ≤ b.height)
    (hminFee : FeeValidation.apply b (.transfer tx) = .ok u)
    (h : apply b blockTime tx = .ok d) :
    NoUnauthorisedDebit b (.transfer tx) d ↔ tx.CreditsRecipient b := by
  obtain ⟨recipient, fee, hrecipient, hfee, -, hd⟩ := apply_eq_ok h
  -- an account that may not be debited has the amount as the recipient, and the fee as the
  -- sponsor
  have hdelta {a : Address} (x : Asset) (ha : a ≠ tx.sender.toAddress) :
      d.portfolios.delta a x =
        safeSum (if a = recipient ∧ tx.assetId = x then tx.amount else 0) (fee.delta a x) := by
    rw [hd]
    change Portfolios.delta ((Portfolios.combine (.single _ _) (.single _ _)).combine fee) a x = _
    rw [Portfolios.delta_combine, Portfolios.delta_combine, Portfolios.delta_single_of_ne ha,
      zero_safeSum, Portfolios.delta_single, Portfolio.balanceOf_build, ite_and]
  rw [WavesNode.noUnauthorisedDebit_iff]
  constructor
  · intro hall r hr hne
    obtain rfl : recipient = r := Except.ok.inj (hrecipient.symm.trans hr)
    have hcredit (hnot : ¬MayDebit b (.transfer tx) recipient tx.assetId) :
        0 ≤ safeSum tx.amount (fee.delta recipient tx.assetId) := by
      have hnonneg := hall recipient tx.assetId hnot
      rwa [hdelta _ hne, if_pos ⟨rfl, rfl⟩] at hnonneg
    constructor
    · intro hs
      have hpart := feePart_delta hswitch hfee hne (x := tx.assetId) fun hx => hs hx.2
      have hcredit := hcredit fun hmay =>
        (mayDebit_transfer_iff.mp hmay).elim hne fun hx => hs hx.2
      rwa [hpart.2 fun hx => hs hx.1, safeSum_zero] at hcredit
    · intro hs hWaves
      have hpart := feePart_delta hswitch hfee hne (x := tx.assetId) fun hx => hWaves hx.1
      have hcredit := hcredit fun hmay =>
        (mayDebit_transfer_iff.mp hmay).elim hne fun hx => hWaves hx.1
      by_cases hsame : tx.assetId = tx.feeAssetId
      · rwa [if_pos hsame, ← hpart.1 ⟨hs, hsame⟩]
      · rw [if_neg hsame]
        rwa [hpart.2 fun hx => hsame hx.2, safeSum_zero] at hcredit
  · intro hcredits a x hnot
    rw [mayDebit_transfer_iff, not_or] at hnot
    obtain ⟨ha, hx⟩ := hnot
    have hpart := feePart_delta hswitch hfee ha hx
    rw [hdelta x ha]
    by_cases hamount : a = recipient ∧ tx.assetId = x
    · obtain ⟨rfl, rfl⟩ := hamount
      rw [if_pos ⟨rfl, rfl⟩]
      obtain ⟨hplain, hsponsor⟩ := hcredits a hrecipient ha
      by_cases hs : b.SponsorOf tx.feeAssetId a
      · have hcredit := hsponsor hs fun hWaves => hx ⟨hWaves, hs⟩
        by_cases hsame : tx.assetId = tx.feeAssetId
        · rwa [if_pos hsame, ← hpart.1 ⟨hs, hsame⟩] at hcredit
        · rw [hpart.2 fun h => hsame h.2, safeSum_zero]
          rwa [if_neg hsame] at hcredit
      · rw [hpart.2 fun h => hs h.1, safeSum_zero]
        exact hplain hs
    · rw [if_neg hamount, zero_safeSum]
      by_cases hs : b.SponsorOf tx.feeAssetId a ∧ x = tx.feeAssetId
      · rw [hpart.1 hs, Long.nonneg_iff]
        exact FeeValidation.fee_nonneg hswitch hminFee hs.1
      · rw [hpart.2 hs]
        exact Int64.le_refl 0

/-! ## 4. Mass transfers -/

omit [PBTransactionSerializer] in
theorem mayDebit_massTransfer_iff {b : Blockchain} {tx : MassTransferTransaction} {a : Address}
    {x : Asset} : MayDebit b (.massTransfer tx) a x ↔ a = tx.sender.toAddress := by
  constructor
  · rintro (hs | ⟨_, _, hissued, -⟩)
    · cases hs
      rfl
    · cases hissued
  · rintro rfl
    exact .sender rfl

namespace MassTransferTransactionDiff

omit [Crypto] [PBTransactionSerializer] in
/-- What each transfer does to an account. -/
theorem map_delta {b : Blockchain} {assetId : Asset} {transfers : List ParsedTransfer}
    {list : List (Portfolios × Long)}
    (h : List.Forall₂ (fun t r => parseTransfer b assetId t = .ok r) transfers list)
    (a : Address) (x : Asset) :
    (list.map Prod.fst).map (fun ps => ps.delta a x) =
      transfers.map fun t => if (b.resolveRecipient t.address).toOption = some a ∧ assetId = x then
        t.amount else 0 := by
  induction h with
  | nil => rfl
  | @cons t r transfers list hparse _ ih =>
    obtain ⟨recipient, hr, rfl⟩ := parseTransfer_eq_ok hparse
    rw [List.map_cons, List.map_cons, List.map_cons, ih, hr, Portfolios.delta_single,
      Portfolio.balanceOf_build, ← ite_and]
    simp only [Except.toOption, Option.some.injEq, eq_comm (a := a)]

theorem noUnauthorisedDebit_iff [Ride] {b : Blockchain} {tx : MassTransferTransaction}
    {d : Diff} (h : apply b tx = .ok d) :
    NoUnauthorisedDebit b (.massTransfer tx) d ↔ tx.CreditsRecipients b := by
  obtain ⟨list, hlist, hd⟩ := apply_eq_ok h
  rw [Validation.mapM_eq_ok] at hlist
  have hdelta {a : Address} (x : Asset) (ha : a ≠ tx.sender.toAddress) :
      d.portfolios.delta a x = (tx.transfers.map fun t =>
        if (b.resolveRecipient t.address).toOption = some a ∧ tx.assetId = x then t.amount
        else 0).foldl safeSum 0 := by
    rw [hd]
    change Portfolios.delta (Portfolios.combine (List.foldl _ _ _) (.single _ _)) a x = _
    rw [Portfolios.delta_combine, Portfolios.delta_single_of_ne ha, safeSum_zero,
      Portfolios.delta_foldl, Portfolios.delta_single_of_ne ha, map_delta hlist]
  have hamounts {a : Address} (ha : a ≠ tx.sender.toAddress) :
      d.portfolios.delta a tx.assetId = (tx.amountsTo b a).foldl safeSum 0 := by
    rw [hdelta _ ha, MassTransferTransaction.amountsTo, ← foldl_safeSum_filter]
    simp only [and_true, decide_eq_true_eq]
  rw [WavesNode.noUnauthorisedDebit_iff]
  simp only [mayDebit_massTransfer_iff]
  constructor
  · intro hall a ha
    rw [← hamounts ha]
    exact hall a tx.assetId ha
  · intro hcredits a x ha
    by_cases hx : tx.assetId = x
    · rw [← hx, hamounts ha]
      exact hcredits a ha
    · have hzero : ∀ t ∈ tx.transfers,
          (if (b.resolveRecipient t.address).toOption = some a ∧ tx.assetId = x then t.amount
            else 0) = (fun _ => 0) t := fun t _ => if_neg fun hand => hx hand.2
      rw [hdelta x ha, List.map_congr_left hzero, foldl_safeSum_const_zero]
      exact Int64.le_refl 0

end MassTransferTransactionDiff

/-! ## 5. Calls -/

namespace InvokeScriptTransactionDiff

variable [Ride]

omit [PBTransactionSerializer] [Ride] in
/-- The fee of a call, to an account that is not the sender. -/
theorem feeInfo_delta {b : Blockchain} {tx : InvokeScriptTransaction} {wavesFee : Long}
    {feePart : Portfolios} (h : feeInfo b tx = .ok (wavesFee, feePart)) {a : Address}
    (ha : a ≠ tx.sender.toAddress) {x : Asset} (hx : ¬(x = .Waves ∧ b.SponsorOf tx.feeAssetId a)) :
    feeTo b tx.feeAssetId tx.fee a x (feePart.delta a x) := by
  rcases feeInfo_eq_ok h with ⟨hasset, -, rfl⟩ | ⟨asset, desc, hasset, hdesc, hpos, -, rfl⟩
  · rw [Portfolios.delta_single_of_ne ha]
    refine feeTo_zero ?_
    rintro ⟨⟨_, _, hissued, -⟩, -⟩
    rw [hasset] at hissued
    cases hissued
  · rw [hasset] at hx ⊢
    have hsponsor := feeTo_sponsor hdesc hpos tx.fee wavesFee hx
    rw [Portfolios.delta_single] at hsponsor
    rw [Portfolios.delta_ofList_pair, if_neg ha]
    exact hsponsor

omit [PBTransactionSerializer] [Ride] in
/-- The payments of a call only move between the sender and the contract. -/
theorem payablePart_delta {tx : InvokeScriptTransaction} {dApp a : Address}
    (ha : a ≠ tx.sender.toAddress) (hdApp : a ≠ dApp) (x : Asset) :
    (payablePart tx dApp).delta a x = 0 := by
  have hzero : tx.payments.map ((fun ps => ps.delta a x) ∘ fun p => Portfolios.combine
      (.single tx.sender.toAddress (.build p.assetId (-p.amount)))
        (.single dApp (.build p.assetId p.amount))) = tx.payments.map fun _ => (0 : Long) := by
    refine List.map_congr_left fun p _ => ?_
    rw [Function.comp_apply, Portfolios.delta_combine, Portfolios.delta_single_of_ne ha,
      Portfolios.delta_single_of_ne hdApp, safeSum_zero]
  rw [payablePart, Portfolios.delta_foldl, List.map_map, Portfolios.delta_empty, hzero,
    foldl_safeSum_const_zero]

/-- What one action does to an account that is not the contract's. -/
theorem applyAction_delta {b : Blockchain} {blockTime : Long} {tx : InvokeScriptTransaction}
    {dApp : Address} {acc d : Diff} {action : CallableAction}
    (h : applyAction b blockTime tx dApp (.ok acc) action = .ok d) {a : Address} (ha : a ≠ dApp)
    (x : Asset) :
    d.portfolios.delta a x =
      match action.transfer? with
      | some t => if t.isTo a x then t.amount else 0
      | none => 0 := by
  cases action with
  | transfer t =>
    obtain ⟨address, hbytes, -, rfl⟩ := applyTransfer_eq_ok h
    change Portfolios.delta (Portfolios.combine (.single _ _) (.single _ _)) a x = _
    rw [Portfolios.delta_combine, Portfolios.delta_single_of_ne ha, safeSum_zero,
      Portfolios.delta_single, Portfolio.balanceOf_build, ← ite_and]
    have hiff : a = address ↔ t.recipient = a.bytes := by
      rw [← hbytes]
      constructor
      · rintro rfl
        rfl
      · intro hb
        obtain ⟨bytes⟩ := a
        obtain ⟨bytes'⟩ := address
        exact congrArg Address.mk hb.symm
    simp [CallableAction.transfer?, AssetTransfer.isTo, hiff]
  | dataItem item =>
    cases h
    exact Portfolios.delta_empty a x
  | issue => simp [applyAction] at h
  | reissue r =>
    obtain ⟨h, -⟩ := applyReissue_eq_ok h
    obtain ⟨-, -, rfl⟩ := DiffsCommon.processReissue_eq_ok h
    exact Portfolios.delta_single_of_ne ha _ x
  | burn r =>
    obtain ⟨h, -⟩ := applyBurn_eq_ok h
    obtain ⟨-, rfl⟩ := DiffsCommon.processBurn_eq_ok.mp h
    exact Portfolios.delta_single_of_ne ha _ x

/-- What the actions of a call do to an account that is not the contract's: each amount
transferred to it is added. -/
theorem foldActions_delta {b : Blockchain} {blockTime : Long} {tx : InvokeScriptTransaction}
    {dApp : Address} {actions : List CallableAction} {paymentsDiff d : Diff}
    (h : foldActions b blockTime tx dApp actions paymentsDiff = .ok d) {a : Address}
    (ha : a ≠ dApp) (x : Asset) :
    d.portfolios.delta a x =
      (amountsTo actions a x).foldl safeSum (paymentsDiff.portfolios.delta a x) := by
  obtain ⟨ds, hds, rfl⟩ := foldActions_eq_ok h
  clear h
  induction hds generalizing paymentsDiff with
  | nil => rfl
  | @cons action d' actions ds hstep hrest ih =>
    obtain ⟨acc, hstep⟩ := hstep
    rw [List.foldl_cons, ih]
    have hportfolios : (paymentsDiff.combine d').portfolios.delta a x =
        safeSum (paymentsDiff.portfolios.delta a x) (d'.portfolios.delta a x) :=
      Portfolios.delta_combine _ _ a x
    rw [hportfolios, applyAction_delta hstep ha x]
    cases haction : action.transfer? with
    | none =>
      rw [safeSum_zero, amountsTo, amountsTo, List.filterMap_cons_none haction]
    | some t =>
      rw [amountsTo, amountsTo, List.filterMap_cons_some haction]
      dsimp only
      by_cases hto : t.isTo a x = true
      · rw [if_pos hto, List.filter_cons, if_pos hto, List.map_cons, List.foldl_cons]
      · rw [if_neg hto, List.filter_cons, if_neg hto, safeSum_zero]

omit [Crypto] [PBTransactionSerializer] [Ride] in
/-- The amounts that one account gets are among those that were checked as a whole. -/
theorem amountsTo_bounds {actions : List CallableAction}
    (hpos : ∀ t ∈ actions.filterMap CallableAction.transfer?, 0 ≤ t.amount)
    (hsum : Long.InRange (((actions.filterMap CallableAction.transfer?).map
      AssetTransfer.amount).map Int64.toInt).sum) (a : Address) (x : Asset) :
    (∀ y ∈ amountsTo actions a x, 0 ≤ y.toInt) ∧
      ((amountsTo actions a x).map Int64.toInt).sum ≤ 9223372036854775807 := by
  have hsub : (amountsTo actions a x).Sublist
      ((actions.filterMap CallableAction.transfer?).map AssetTransfer.amount) :=
    List.filter_sublist.map AssetTransfer.amount
  have hall : ∀ y ∈ (actions.filterMap CallableAction.transfer?).map AssetTransfer.amount,
      0 ≤ y.toInt := by
    intro y hy
    obtain ⟨t, ht, rfl⟩ := List.mem_map.mp hy
    exact Long.nonneg_iff.mp (hpos t ht)
  refine ⟨fun y hy => hall y (hsub.subset hy), ?_⟩
  have hle : ((amountsTo actions a x).map Int64.toInt).sum ≤
      (((actions.filterMap CallableAction.transfer?).map AssetTransfer.amount).map
        Int64.toInt).sum :=
    (hsub.map Int64.toInt).sum_le_sum fun z hz => by
      obtain ⟨y, hy, rfl⟩ := List.mem_map.mp hz
      exact hall y hy
  exact hle.trans hsum.2

omit [Crypto] [PBTransactionSerializer] [Ride] in
/-- Amounts that were checked as a whole do not sum below zero for one account. -/
theorem amountsTo_nonneg {actions : List CallableAction}
    (hpos : ∀ t ∈ actions.filterMap CallableAction.transfer?, 0 ≤ t.amount)
    (hsum : Long.InRange (((actions.filterMap CallableAction.transfer?).map
      AssetTransfer.amount).map Int64.toInt).sum) (a : Address) (x : Asset) :
    0 ≤ (amountsTo actions a x).foldl safeSum 0 := by
  obtain ⟨hpart, hle⟩ := amountsTo_bounds hpos hsum a x
  have hbound : (0 : Long).toInt + ((amountsTo actions a x).map Int64.toInt).sum ≤
      Long.MaxValue.toInt := by
    rw [Long.toInt_zero, Long.toInt_MaxValue, zero_add]
    exact hle
  rw [Long.nonneg_iff, toInt_foldl_safeSum hpart hbound, Long.toInt_zero, zero_add]
  refine List.sum_nonneg ?_
  intro z hz
  obtain ⟨y, hy, rfl⟩ := List.mem_map.mp hz
  exact hpart y hy

omit [PBTransactionSerializer] [Ride] in
theorem mayDebit_invokeScript_iff {b : Blockchain} {tx : InvokeScriptTransaction} {a : Address}
    {x : Asset} :
    MayDebit b (.invokeScript tx) a x ↔
      a = tx.sender.toAddress ∨ (x = .Waves ∧ b.SponsorOf tx.feeAssetId a) ∨
        b.resolveRecipient tx.dAppAddressOrAlias = .ok a := by
  constructor
  · intro h
    cases h with
    | sender hs =>
      cases hs
      exact .inl rfl
    | sponsor hs => exact .inr (.inl ⟨rfl, hs⟩)
    | dApp hr => exact .inr (.inr hr)
  · rintro (rfl | ⟨rfl, hs⟩ | hs)
    · exact .sender rfl
    · exact .sponsor hs
    · exact .dApp hs

theorem noUnauthorisedDebit_iff {b : Blockchain} {blockTime : Long}
    {tx : InvokeScriptTransaction} {d : Diff} (h : apply b blockTime tx = .ok d) :
    NoUnauthorisedDebit b (.invokeScript tx) d ↔ tx.CreditsSponsor b := by
  obtain ⟨dApp, actions, wavesFee, feePart, compositeDiff, happlied⟩ := apply_eq_ok h
  obtain ⟨hpos, hsum, -⟩ := checkActions_eq_ok happlied.checked
  obtain ⟨script, complexity, hscript, hrun⟩ := happlied.run
  -- an account that may not be debited has the fee as the sponsor, and what the contract
  -- transfers to it
  have hdelta {a : Address} {x : Asset} (ha : a ≠ tx.sender.toAddress) (hdApp : a ≠ dApp) :
      d.portfolios.delta a x =
        (amountsTo actions a x).foldl safeSum (feePart.delta a x) := by
    rw [happlied.portfolios, foldActions_delta happlied.folded hdApp]
    change (amountsTo actions a x).foldl safeSum
      ((feePart.combine (payablePart tx dApp)).delta a x) = _
    rw [Portfolios.delta_combine, payablePart_delta ha hdApp, safeSum_zero]
  rw [WavesNode.noUnauthorisedDebit_iff]
  simp only [mayDebit_invokeScript_iff, not_or]
  constructor
  · intro hall sponsor dApp' script' actions' complexity' hs hdApp' hscript' hrun' hne hne'
    obtain rfl : dApp' = dApp := Except.ok.inj (hdApp'.symm.trans happlied.dApp)
    obtain rfl : script' = script := Option.some.inj (hscript'.symm.trans hscript)
    obtain ⟨rfl, -⟩ := Prod.mk.inj (Except.ok.inj (hrun'.symm.trans hrun))
    have hWaves : tx.feeAssetId ≠ .Waves := by
      obtain ⟨_, _, hissued, -⟩ := hs
      rw [hissued]
      exact fun h => by cases h
    have hnonneg := hall sponsor tx.feeAssetId ⟨hne, fun hx => hWaves hx.1, fun hr =>
      hne' (Except.ok.inj (hr.symm.trans happlied.dApp))⟩
    have hfee := feeInfo_delta happlied.fee hne (x := tx.feeAssetId) fun hx => hWaves hx.1
    rwa [hdelta hne hne', hfee.1 ⟨hs, rfl⟩] at hnonneg
  · rintro hcredits a x ⟨ha, hx, hdApp⟩
    have hne : a ≠ dApp := by
      rintro rfl
      exact hdApp happlied.dApp
    have hfee := feeInfo_delta happlied.fee ha hx
    rw [hdelta ha hne]
    by_cases hs : b.SponsorOf tx.feeAssetId a ∧ x = tx.feeAssetId
    · rw [hfee.1 hs, hs.2]
      exact hcredits a dApp script actions complexity hs.1 happlied.dApp hscript hrun ha hne
    · rw [hfee.2 hs]
      exact amountsTo_nonneg hpos hsum a x

end InvokeScriptTransactionDiff

/-! ## 6. Every type -/

namespace ExchangeTransactionDiff

/-- An exchange touches the matcher and the senders of its orders. -/
theorem noUnauthorisedDebit [Ride] {b : Blockchain} {tx : ExchangeTransaction} {d : Diff}
    (h : apply b tx = .ok d) : NoUnauthorisedDebit b (.exchange tx) d := by
  obtain ⟨-, _, _, _, _, _, _, -, -, -, -, rfl⟩ := apply_eq_ok h
  rw [WavesNode.noUnauthorisedDebit_iff]
  intro a x hnot
  have hmatcher : a ≠ tx.buyOrder.matcherPublicKey.toAddress := by
    rintro rfl
    exact hnot .matcher
  have hbuyer : a ≠ tx.buyOrder.senderPublicKey.toAddress := by
    rintro rfl
    exact hnot .buyer
  have hseller : a ≠ tx.sellOrder.senderPublicKey.toAddress := by
    rintro rfl
    exact hnot .seller
  change 0 ≤ Portfolios.delta (portfolios tx _ _ _ _) a x
  simp only [portfolios, Portfolios.delta_combine, Portfolios.delta_single_of_ne hmatcher,
    Portfolios.delta_single_of_ne hbuyer, Portfolios.delta_single_of_ne hseller, safeSum_zero]
  exact Int64.le_refl 0

end ExchangeTransactionDiff

namespace TransactionDiffer

variable [Ride]

omit [Ride] in
theorem portfolios_complexityDiff_combine (b : Blockchain) (tx : Transaction) (d : Diff) :
    ((complexityDiff b tx).combine d).portfolios = d.portfolios :=
  Portfolios.empty_combine d.portfolios

/-- The types whose diff holds the sender's account, and recipients with no amount. -/
theorem noUnauthorisedDebit_of_sender {blockTime : Long} {b : Blockchain} {tx : Transaction}
    {d : Diff} (h : unverifiedWithEstimate blockTime b tx = .ok d)
    (htransfer : ∀ t, tx ≠ .transfer t) (hmass : ∀ t, tx ≠ .massTransfer t) :
    NoUnauthorisedDebit b tx d := by
  have hsingle {s : PublicKey} {p : Portfolio} (hs : tx.sender? = some s)
      (hd : d.portfolios = .single s.toAddress p) : NoUnauthorisedDebit b tx d := by
    refine .of_sender hs ?_
    intro a x ha
    rw [hd, Portfolios.delta_single_of_ne ha]
    exact Int64.le_refl 0
  cases tx with
  | transfer t => exact absurd rfl (htransfer t)
  | massTransfer t => exact absurd rfl (hmass t)
  | issue t =>
    obtain ⟨script, -, rfl⟩ := AssetTransactionsDiff.issue_eq_ok h
    exact hsingle rfl rfl
  | reissue t =>
    obtain ⟨d', hd', rfl⟩ := AssetTransactionsDiff.reissue_eq_ok h
    obtain ⟨-, -, rfl⟩ := DiffsCommon.processReissue_eq_ok hd'
    exact hsingle rfl (Portfolios.empty_combine _)
  | burn t =>
    obtain ⟨d', hd', rfl⟩ := AssetTransactionsDiff.burn_eq_ok h
    obtain ⟨-, rfl⟩ := DiffsCommon.processBurn_eq_ok.mp hd'
    exact hsingle rfl (Portfolios.empty_combine _)
  | lease t =>
    obtain ⟨recipient, -, -, -, rfl⟩ := LeaseTransactionsDiff.lease_eq_ok h
    refine .of_sender rfl ?_
    intro a x ha
    change 0 ≤ Portfolios.delta (.ofList [(_, _), (_, _)]) a x
    rw [Portfolios.delta_ofList_pair, if_neg ha]
    cases x <;> simp [Portfolio.balanceOf, FiniteMap.getOrElse]
  | leaseCancel t =>
    obtain ⟨lease, recipient, -, -, -, -, rfl⟩ := LeaseTransactionsDiff.leaseCancel_eq_ok h
    refine .of_sender rfl ?_
    intro a x ha
    change 0 ≤ Portfolios.delta (Portfolios.combine (.single _ _) (.single _ _)) a x
    rw [Portfolios.delta_combine, Portfolios.delta_single_of_ne ha, zero_safeSum,
      Portfolios.delta_single]
    cases x <;> simp [Portfolio.balanceOf, FiniteMap.getOrElse]
  | createAlias t =>
    obtain ⟨-, rfl⟩ := CreateAliasTransactionDiff_eq_ok h
    exact hsingle rfl rfl
  | data t =>
    cases h
    exact hsingle rfl rfl
  | setScript t =>
    obtain ⟨script, -, rfl⟩ := SetScriptTransactionDiff_eq_ok h
    exact hsingle rfl rfl
  | setAssetScript t =>
    obtain ⟨-, script, runs, -, rfl⟩ := AssetTransactionsDiff.setAssetScript_eq_ok h
    exact hsingle rfl rfl
  | sponsorFee t =>
    obtain ⟨-, rfl⟩ := AssetTransactionsDiff.sponsor_eq_ok h
    exact hsingle rfl rfl
  | genesis t => simp [unverifiedWithEstimate] at h
  | payment t => simp [unverifiedWithEstimate] at h
  | exchange t => simp [unverifiedWithEstimate] at h
  | invokeScript t => simp [unverifiedWithEstimate] at h

/-- A diff with its complexity debits what it debits without. -/
theorem noUnauthorisedDebit_complexityDiff {blockTime : Long} {b : Blockchain} {tx : Transaction}
    {d : Diff} {P : Prop}
    (h : (do
      let d ← unverifiedWithEstimate blockTime b tx
      .ok ((complexityDiff b tx).combine d) : Validation Diff) = .ok d)
    (hiff : ∀ d', unverifiedWithEstimate blockTime b tx = .ok d' →
      (NoUnauthorisedDebit b tx d' ↔ P)) : NoUnauthorisedDebit b tx d ↔ P := by
  obtain ⟨d', hd', h⟩ := Validation.bind_eq_ok.mp h
  cases h
  rw [← hiff d' hd', NoUnauthorisedDebit, NoUnauthorisedDebit, portfolios_complexityDiff_combine]

/-- **Who is debited.** An accepted transaction takes only from those it may take from,
exactly when the amounts it credits to the others are credits. -/
theorem verified_noUnauthorisedDebit_iff {prevBlockTimestamp : Option Long}
    {currentBlockTimestamp : Long} {b : Blockchain} {tx : Transaction} {d : Diff}
    (hheight : b.height ≠ 1)
    (hversion : b.settings.functionalitySettings.blockVersion3AfterHeight < b.height)
    (hswitch : b.sponsoredFeesSwitchHeight ≤ b.height)
    (h : verified prevBlockTimestamp currentBlockTimestamp b tx = .ok d) :
    NoUnauthorisedDebit b tx d ↔ CreditsRecipients b tx := by
  have haccepted := verified_eq_ok.mp h
  have hdiff := haccepted.diff
  cases tx with
  | genesis t => exact absurd (GenesisTransactionDiff_eq_ok hdiff).1 hheight
  | payment t => exact absurd (PaymentTransactionDiff_eq_ok hdiff).1 (not_le.mpr hversion)
  | invokeScript t => exact InvokeScriptTransactionDiff.noUnauthorisedDebit_iff hdiff
  | exchange t => exact iff_of_true (ExchangeTransactionDiff.noUnauthorisedDebit hdiff) trivial
  | transfer t =>
    exact noUnauthorisedDebit_complexityDiff hdiff fun d' hd' =>
      TransferTransactionDiff.noUnauthorisedDebit_iff hswitch haccepted.fee hd'
  | massTransfer t =>
    exact noUnauthorisedDebit_complexityDiff hdiff fun d' hd' =>
      MassTransferTransactionDiff.noUnauthorisedDebit_iff hd'
  | _ =>
    refine noUnauthorisedDebit_complexityDiff hdiff fun d' hd' => iff_of_true ?_ trivial
    exact noUnauthorisedDebit_of_sender hd' (fun t ht => by cases ht) fun t ht => by cases ht

end TransactionDiffer

end

/-! ## 7. A recipient debited -/

namespace Devnet

def negativeTransferBody : ByteStr :=
  bytes 87 0x042e8b2883c27b391359d7d0c15d00815a6693290a38dd8eba341cc07ddaa8ed4d00000000015d3ef79800fffffffffa0a1f0000000000000186a00154aa259a33e350952c45254e402badc9b74c47e88d2cdd1ded0000

def negativeTransferAnswers : KnownAnswers :=
  (firstBlocks.and transferToBobAnswers).and
    { digests := [(negativeTransferBody,
        bytes 32 0xdb5de30516e81ee3407f9e520ba6ec08aa5ac66929dceb502b319668133dedb1)]
      signatures := [⟨alice.publicKey, negativeTransferBody,
        bytes 64 0x161e6a97dc9e85e06b8ffac28e6ddfddef409aa588e2723a0bb41e894eb6b5b723792a00db36cc0db3995495e0493896d61c0723d9a2fab34b3fd686d299c081⟩] }

/-- NG and fee sponsorship are in force from the start. -/
def sponsorshipSettings : BlockchainSettings :=
  settings [(BlockchainFeatures.NG, 0), (BlockchainFeatures.FeeSponsorship, 0)]

end Devnet

section
open Devnet BlockchainUpdaterImpl

local instance debitsCrypto : Crypto := negativeTransferAnswers.crypto
local instance debitsSerializer : PBTransactionSerializer := pbTransactionSerializer
local instance debitsScripts : ScriptReader := scriptReader
local instance debitsBlocks : BlockSerializer := negativeTransferAnswers.blockSerializer
local instance debitsRide : Ride := negativeTransferAnswers.ride

namespace Devnet

/-- The node after the first blocks. -/
def secondNode : Validation BlockchainUpdaterImpl :=
  (ofBlockchain (Blockchain.initial sponsorshipSettings)).processBlocks [genesisBlock, emptyBlock]

def secondLedger : Blockchain :=
  (secondNode >>= ledger).toOption.getD (Blockchain.initial sponsorshipSettings)

/-- A transfer on the ledger after the first blocks. -/
def transferDiff (tx : TransferTransaction) : Diff :=
  (TransactionDiffer.verified (some 1499999960000) 1500000000000 secondLedger
    (.transfer tx)).toOption.getD Diff.empty

end Devnet

/-- The ledger after the first blocks, and the two transfers on it. -/
theorem secondLedger_run :
    ((secondNode >>= ledger).toOption.isSome ∧ secondLedger.height ≠ 1 ∧
        secondLedger.settings.functionalitySettings.blockVersion3AfterHeight <
          secondLedger.height ∧
        secondLedger.settings.functionalitySettings.lastTimeBasedForkParameter <
          (1500000000000 : Long) ∧
        secondLedger.sponsoredFeesSwitchHeight ≤ secondLedger.height) ∧
      ((TransactionDiffer.verified (some 1499999960000) 1500000000000 secondLedger
          (.transfer transferToBob)).toOption.isSome ∧
        (TransactionDiffer.verified (some 1499999960000) 1500000000000 secondLedger
          (.transfer negativeTransfer)).toOption.isSome) ∧
      TransactionParsers.parseBytes negativeTransferBytes = .ok (.transfer negativeTransfer) ∧
      (transferDiff negativeTransfer).portfolios.delta bob.address .Waves < 0 ∧
      bob.address ≠ negativeTransfer.sender.toAddress := by
  decide +kernel

theorem secondLedger_reachable :
    ∃ u, Reachable sponsorshipSettings u ∧ u.ledger = .ok secondLedger := by
  have hrun : secondNode >>= ledger = .ok secondLedger :=
    Validation.eq_ok_getD secondLedger_run.1.1
  obtain ⟨u, hu, hledger⟩ := Validation.bind_eq_ok.mp hrun
  exact ⟨u, Reachable.initial.processBlocks hu, hledger⟩

theorem TransactionDiffer.verified_noUnauthorisedDebit_iff_transferToBob :
    NoUnauthorisedDebit secondLedger (.transfer transferToBob) (transferDiff transferToBob) ↔
      CreditsRecipients secondLedger (.transfer transferToBob) := by
  obtain ⟨⟨-, hheight, hversion, -, hswitch⟩, ⟨hrun, -⟩, -⟩ := secondLedger_run
  have hverified : verified (some 1499999960000) 1500000000000 secondLedger
      (.transfer transferToBob) = .ok (transferDiff transferToBob) :=
    Validation.eq_ok_getD hrun
  exact verified_noUnauthorisedDebit_iff hheight hversion hswitch hverified

/-- The transfer below zero is read from its bytes, is accepted on a chain of two blocks,
and takes a Waves from Bob. -/
theorem TransactionDiffer.verified_negativeTransfer :
    ¬∀ (settings : BlockchainSettings) (u : BlockchainUpdaterImpl) (b : Blockchain)
      (bytes : ByteStr) (tx : Transaction) (prevBlockTimestamp : Option Long)
      (currentBlockTimestamp : Long) (d : Diff), Reachable settings u → u.ledger = .ok b →
      b.height ≠ 1 → b.settings.functionalitySettings.blockVersion3AfterHeight < b.height →
      b.settings.functionalitySettings.lastTimeBasedForkParameter < currentBlockTimestamp →
      b.sponsoredFeesSwitchHeight ≤ b.height → TransactionParsers.parseBytes bytes = .ok tx →
      verified prevBlockTimestamp currentBlockTimestamp b tx = .ok d →
      NoUnauthorisedDebit b tx d := by
  intro hclaim
  obtain ⟨u, hu, hledger⟩ := secondLedger_reachable
  obtain ⟨⟨-, hheight, hversion, hfork, hswitch⟩, ⟨-, hrun⟩, hparsed, hdebit, hbob⟩ :=
    secondLedger_run
  have hverified : verified (some 1499999960000) 1500000000000 secondLedger
      (.transfer negativeTransfer) = .ok (transferDiff negativeTransfer) :=
    Validation.eq_ok_getD hrun
  have hmay := hclaim sponsorshipSettings u secondLedger negativeTransferBytes _ _ _ _ hu hledger
    hheight hversion hfork hswitch hparsed hverified bob.address .Waves hdebit
  rcases mayDebit_transfer_iff.mp hmay with hsender | ⟨-, _, _, hissued, -⟩
  · exact absurd hsender hbob
  · cases hissued

end

end WavesNode
