/-
The minimal fee and the fee that is paid.

The check compares in units of the fee's asset: the minimum is converted there by
`Sponsorship.fromWaves`, which truncates. The accounting converts the fee back by
`Sponsorship.toWaves`, which truncates too, and takes that amount from the sponsor; a
call compares once more, in Waves, with a formula of its own. Here: for every rate the
Waves that are charged cover the minimum in Waves. No truncation is lost because every
minimum is a whole number of fee units, so the first conversion is exact.
-/
import WavesNode.Debits

set_option autoImplicit false

namespace WavesNode

section

/-! ## 1. The two conversions -/

namespace Sponsorship

/-- A whole number of fee units costs the rate for each of them. -/
theorem fromWaves_units {wavesFee sponsorship minFee : Long} {k : ℤ}
    (hunits : wavesFee.toInt = FeeUnit * k) (hpos : 0 < k) (hrate : 0 < sponsorship)
    (h : fromWaves wavesFee sponsorship = .ok minFee) :
    minFee.toInt = k * sponsorship.toInt := by
  have hrate' : 0 < sponsorship.toInt := Long.pos_iff.mp hrate
  have hfee : ¬(wavesFee = 0 ∨ sponsorship = 0) := by
    rintro (rfl | rfl)
    · rw [Long.toInt_zero, FeeUnit] at hunits
      omega
    · rw [Long.toInt_zero] at hrate'
      omega
  unfold fromWaves at h
  rw [if_neg hfee, Validation.get_eq_ok, Long.longValueExact_eq_some] at h
  rw [h.2, hunits, Int.mul_assoc, Int.mul_tdiv_cancel_left _ (by decide)]

/-- A fee that buys `k` units at the rate is worth at least `k` units. -/
theorem le_toWaves {assetFee sponsorship charged : Long} {k : ℤ} (hrate : 0 < sponsorship)
    (hle : k * sponsorship.toInt ≤ assetFee.toInt)
    (h : toWaves assetFee sponsorship = .ok charged) : FeeUnit * k ≤ charged.toInt := by
  have hrate' : 0 < sponsorship.toInt := Long.pos_iff.mp hrate
  have hne : sponsorship ≠ 0 := by
    rintro rfl
    rw [Long.toInt_zero] at hrate'
    omega
  unfold toWaves at h
  rw [if_neg hne, Validation.get_eq_ok, Long.longValueExact_eq_some] at h
  rw [h.2]
  have hunits : FeeUnit * k * sponsorship.toInt ≤ assetFee.toInt * FeeUnit := by
    calc FeeUnit * k * sponsorship.toInt = FeeUnit * (k * sponsorship.toInt) := Int.mul_assoc _ _ _
      _ ≤ FeeUnit * assetFee.toInt := Int.mul_le_mul_of_nonneg_left hle (by decide)
      _ = assetFee.toInt * FeeUnit := Int.mul_comm _ _
  exact Int.le_tdiv_of_mul_le hrate' hunits

end Sponsorship

variable [Crypto] [PBTransactionSerializer] [Ride]

/-! ## 2. The minimum in Waves -/

namespace FeeValidation

omit [Ride] in
/-- What is compared with the fee, after the switch. -/
theorem apply_eq_ok {b : Blockchain} {tx : Transaction} {u : Unit}
    (hswitch : b.sponsoredFeesSwitchHeight ≤ b.height) (h : apply b tx = .ok u) :
    ∃ details, getMinFee b tx = .ok details ∧ details.minFeeInAsset ≤ tx.assetFee.2 := by
  unfold apply at h
  rw [if_pos (show b.height ≥ b.sponsoredFeesSwitchHeight from hswitch)] at h
  obtain ⟨details, hmin, h⟩ := Validation.bind_eq_ok.mp h
  exact ⟨details, hmin, of_decide_eq_true (Validation.cond_eq_ok.mp h)⟩

omit [Ride] in
/-- A fee in Waves is compared in Waves. -/
theorem getMinFee_waves {b : Blockchain} {tx : Transaction} {details : FeeDetails}
    (hasset : tx.assetFee.1 = .Waves) (h : getMinFee b tx = .ok details) :
    details.minFeeInWaves = details.minFeeInAsset := by
  have hinfo : feeAfterSponsorship tx.assetFee.1 b tx =
      .ok ⟨none, [], feeInUnits b tx * FeeUnit⟩ := by
    unfold feeAfterSponsorship
    rw [hasset]
    split <;> rfl
  obtain ⟨info, hinfo', h⟩ := Validation.bind_eq_ok.mp h
  rw [hinfo] at hinfo'
  cases hinfo'
  cases h
  rfl

omit [Ride] in
/-- A fee in an asset has a rate, and a minimum of so many scripts. -/
theorem getMinFee_issued {b : Blockchain} {tx : Transaction} {asset : IssuedAsset}
    {details : FeeDetails} (hswitch : b.sponsoredFeesSwitchHeight ≤ b.height)
    (hasset : tx.assetFee.1 = .issued asset) (h : getMinFee b tx = .ok details) :
    ∃ desc, b.assetDescription asset = some desc ∧ 0 < desc.sponsorship ∧
      Sponsorship.fromWaves details.minFeeInWaves desc.sponsorship = .ok details.minFeeInAsset ∧
      ∃ n ≤ tx.checkedAssets.length + 1, ∃ m ≤ 1,
        details.minFeeInWaves = feeInUnits b tx * FeeUnit + Int64.ofNat n * ScriptExtraFee +
          Int64.ofNat m * ScriptExtraFee := by
  obtain ⟨info, hinfo, h⟩ := Validation.bind_eq_ok.mp h
  unfold feeAfterSponsorship at hinfo
  rw [if_neg (not_lt.mpr hswitch), hasset] at hinfo
  dsimp only at hinfo
  cases hdesc : b.assetDescription asset with
  | none =>
    rw [hdesc] at hinfo
    cases hinfo
  | some desc =>
    rw [hdesc] at hinfo
    dsimp only at hinfo
    by_cases hrate : desc.sponsorship > 0
    · rw [if_pos hrate] at hinfo
      cases hinfo
      obtain ⟨minFee, hfee, h⟩ := Validation.bind_eq_ok.mp h
      cases h
      obtain ⟨n, hn, htokens⟩ := wavesFee_feeAfterSmartTokens b tx
        ⟨some (asset, desc), [], feeInUnits b tx * FeeUnit⟩
      obtain ⟨m, hm, haccounts⟩ := wavesFee_feeAfterSmartAccounts b tx
        (feeAfterSmartTokens b tx ⟨some (asset, desc), [], feeInUnits b tx * FeeUnit⟩)
      rw [htokens] at haccounts
      exact ⟨desc, rfl, hrate, hfee, n, hn, m, hm, haccounts⟩
    · rw [if_neg hrate] at hinfo
      cases hinfo

omit [Crypto] [PBTransactionSerializer] [Ride] in
/-- The minimum of a transfer or of a call is a whole number of fee units: an extra fee is four
of them. -/
theorem whole_units {u : Long} {n m : ℕ} (hu : u = 1 ∨ u = 5) (hn : n ≤ 3) (hm : m ≤ 1) :
    ∃ k : ℤ, 0 < k ∧
      (u * FeeUnit + Int64.ofNat n * ScriptExtraFee + Int64.ofNat m * ScriptExtraFee).toInt =
        Sponsorship.FeeUnit * k := by
  refine ⟨u.toInt + 4 * n + 4 * m, ?_, ?_⟩
  · rcases hu with rfl | rfl
    · rw [show (1 : Long).toInt = 1 from rfl]
      omega
    · rw [show (5 : Long).toInt = 5 from rfl]
      omega
  · have hn' : n = 0 ∨ n = 1 ∨ n = 2 ∨ n = 3 := by omega
    have hm' : m = 0 ∨ m = 1 := by omega
    rcases hu with rfl | rfl <;> rcases hn' with rfl | rfl | rfl | rfl <;>
      rcases hm' with rfl | rfl <;> rfl

end FeeValidation

/-! ## 3. What is charged -/

namespace Sponsorship

/-- `Sponsorship.calcWavesFeeAmount` with the rates of a ledger. -/
def calcWavesFeeAmount (b : Blockchain) (tx : Transaction) : Validation Long :=
  match tx.assetFee with
  | (.issued asset, amountInAsset) =>
    toWaves amountInAsset (((b.assetDescription asset).map AssetDescription.sponsorship).getD 0)
  | (.Waves, amountInWaves) => .ok amountInWaves

end Sponsorship

/-- The portfolios that pay a fee in an asset; the fee of every other type is in Waves. -/
def feePortfolios (b : Blockchain) : Transaction → Validation Portfolios
  | .transfer tx => TransferTransactionDiff.feePart b tx.sender.toAddress tx
  | .invokeScript tx => do
    let feeInfo ← InvokeScriptTransactionDiff.feeInfo b tx
    .ok feeInfo.2
  | _ => .ok ∅

/-- The fee accounting charges so many Waves for a transaction: the differ of the block counts
them, and a fee in an asset takes them from the sponsor. -/
structure ChargedInWaves (b : Blockchain) (tx : Transaction) (charged : Long) : Prop where
  amount : Sponsorship.calcWavesFeeAmount b tx = .ok charged
  block : BlockDiffer.sponsoredFee b true tx = .ok (.waves charged)
  sponsor : ∀ asset desc, tx.assetFee.1 = .issued asset → b.assetDescription asset = some desc →
    ∃ fee, feePortfolios b tx = .ok fee ∧ fee.delta desc.issuer.toAddress .Waves = -charged

namespace ChargedInWaves

omit [PBTransactionSerializer] [Ride] in
/-- A fee in Waves is charged as it is. -/
theorem of_waves {b : Blockchain} {tx : Transaction} (hasset : tx.assetFee.1 = .Waves) :
    ChargedInWaves b tx tx.assetFee.2 where
  amount := by
    unfold Sponsorship.calcWavesFeeAmount
    split
    · rename_i asset fee hfee
      rw [hfee] at hasset
      cases hasset
    · rename_i fee hfee
      rw [hfee]
  block := by
    unfold BlockDiffer.sponsoredFee
    rw [if_pos rfl]
    split
    · rename_i fee hfee
      rw [hfee]
    · rename_i asset fee hfee
      rw [hfee] at hasset
      cases hasset
  sponsor asset desc hissued := by
    rw [hasset] at hissued
    cases hissued

omit [PBTransactionSerializer] [Ride] in
/-- A fee in an asset is charged at the asset's rate. -/
theorem of_issued {b : Blockchain} {tx : Transaction} {asset : IssuedAsset}
    {desc : AssetDescription} {charged : Long} {fee : Portfolios}
    (hasset : tx.assetFee.1 = .issued asset) (hdesc : b.assetDescription asset = some desc)
    (hcharged : Sponsorship.toWaves tx.assetFee.2 desc.sponsorship = .ok charged)
    (hfee : feePortfolios b tx = .ok fee)
    (hsponsor : fee.delta desc.issuer.toAddress .Waves = -charged) :
    ChargedInWaves b tx charged where
  amount := by
    unfold Sponsorship.calcWavesFeeAmount
    split
    · rename_i asset' fee' hfee'
      rw [hfee'] at hasset hcharged
      cases hasset
      rw [hdesc]
      exact hcharged
    · rename_i fee' hfee'
      rw [hfee'] at hasset
      cases hasset
  block := by
    unfold BlockDiffer.sponsoredFee
    rw [if_pos rfl]
    split
    · rename_i fee' hfee'
      rw [hfee'] at hasset
      cases hasset
    · rename_i asset' fee' hfee'
      rw [hfee'] at hasset hcharged
      cases hasset
      rw [hdesc]
      exact Validation.bind_eq_ok.mpr ⟨desc, rfl, Validation.bind_eq_ok.mpr ⟨charged, hcharged, rfl⟩⟩
  sponsor asset' desc' hissued hdesc' := by
    rw [hasset] at hissued
    cases hissued
    rw [hdesc] at hdesc'
    cases hdesc'
    exact ⟨fee, hfee, hsponsor⟩

end ChargedInWaves

/-! ## 4. The scripts of a call -/

namespace InvokeScriptTransactionDiff

section
omit [Crypto] [PBTransactionSerializer] [Ride]

/-- Every action is of one kind. -/
theorem length_kinds_le (actions : List CallableAction) :
    (actions.filterMap CallableAction.transfer?).length +
        (actions.filterMap CallableAction.reissue?).length +
        (actions.filterMap CallableAction.burn?).length +
        (actions.filterMap CallableAction.dataItem?).length ≤ actions.length := by
  induction actions with
  | nil => simp
  | cons action actions ih =>
    cases action <;>
      simp only [List.filterMap_cons, CallableAction.transfer?, CallableAction.reissue?,
        CallableAction.burn?, CallableAction.dataItem?, List.length_cons] <;> omega

/-- The regrouped entries are no more than there are. -/
theorem length_dataEntriesOf_le (actions : List CallableAction) :
    (dataEntriesOf actions).length ≤ (actions.filterMap CallableAction.dataItem?).length := by
  unfold dataEntriesOf
  generalize actions.filterMap CallableAction.dataItem? = items
  simp only [List.length_append]
  induction items with
  | nil => simp
  | cons item items ih =>
    simp only [List.filter_cons, List.length_cons]
    cases item.value <;>
      simp only [if_true, if_false, List.length_cons, Bool.false_eq_true] <;> omega

/-- The extra fees of so few scripts do not wrap. -/
theorem minWaves_toInt : ∀ n ≤ 13,
    (Int64.ofNat n * FeeValidation.ScriptExtraFee + 5 * FeeValidation.FeeUnit).toInt =
      (n : ℤ) * 400000 + 500000 := by
  decide

/-- A contract is not run on more than two payments. -/
theorem length_payments_le {tx : InvokeScriptTransaction} {version : StdLibVersion}
    {allowsMultiPayment : Bool} {payments : List Payment}
    (h : extractPayments tx version allowsMultiPayment = .ok payments) :
    tx.payments.length ≤ 2 := by
  unfold extractPayments at h
  split at h
  · omega
  · split at h
    · cases h
    · split at h
      · cases h
      · split at h
        · cases h
        · omega

end

theorem checkedAssets_le {b : Blockchain} {script : Script} {tx : InvokeScriptTransaction}
    {actions : List CallableAction} {complexity : Long}
    (h : runContract b script tx = .ok (actions, complexity)) :
    (Transaction.invokeScript tx).checkedAssets.length ≤ 2 := by
  have hpayments : tx.payments.length ≤ 2 := by
    unfold runContract at h
    rcases hp : extractPayments tx script.stdLibVersion b.allowsMultiPayment with e | payments
    · rw [hp] at h
      cases h
    · exact length_payments_le hp
  exact (List.length_filterMap_le _ _).trans hpayments

omit [PBTransactionSerializer] [Ride] in
theorem length_actions_le {b : Blockchain} {tx : InvokeScriptTransaction}
    {dAppAddress : Address} {actions : List CallableAction}
    (h : checkActions b tx dAppAddress actions = .ok ()) :
    actions.length ≤ MaxCallableActionsAmount + (dataEntriesOf actions).length := by
  unfold checkActions at h
  obtain ⟨⟨⟩, -, h⟩ := Validation.bind_eq_ok.mp h
  obtain ⟨⟨⟩, hcount, -⟩ := Validation.bind_eq_ok.mp h
  exact of_decide_eq_true (Validation.cond_eq_ok.mp hcount)

omit [PBTransactionSerializer] [Ride] in
/-- What the call's own check says of the fee in Waves, in numbers that do not wrap: the
number of scripts it counts is small. -/
theorem scriptsInvoked_covered {b : Blockchain} {tx : InvokeScriptTransaction}
    {actions : List CallableAction} {wavesFee : Long} {n : ℕ}
    (hassets : (Transaction.invokeScript tx).checkedAssets.length ≤ 2)
    (hactions : actions.length ≤ MaxCallableActionsAmount + (dataEntriesOf actions).length)
    (h : scriptsInvoked b tx actions wavesFee = .ok n) :
    (n : ℤ) * 400000 + 500000 ≤ wavesFee.toInt := by
  unfold scriptsInvoked at h
  obtain ⟨⟨⟩, hcond, h⟩ := Validation.bind_eq_ok.mp h
  have hle := of_decide_eq_true (Validation.cond_eq_ok.mp hcond)
  have hn := Except.ok.inj h
  rw [hn] at hle
  have hkinds := length_kinds_le actions
  have hentries := length_dataEntriesOf_le actions
  have htransfers : (transferAssets actions).length ≤
      (actions.filterMap CallableAction.transfer?).length := List.length_filterMap_le _ _
  -- two payments and ten actions that are not entries, each with one asset, and the sender
  have hbound : n ≤ 13 := by
    rw [← hn]
    refine (Nat.add_le_add (List.countP_le_length (p := b.hasAssetScript))
      (show (if b.hasScript tx.sender.toAddress = true then 1 else 0) ≤ 1 by split <;> omega)).trans ?_
    simp only [List.length_append, List.length_map]
    rw [MaxCallableActionsAmount] at hactions
    omega
  rw [Long.le_iff] at hle
  rw [← minWaves_toInt n hbound]
  exact hle

end InvokeScriptTransactionDiff

/-- The call's own check: the Waves charged cover every script that the call runs besides the
contract. -/
def CoversScripts (b : Blockchain) (tx : InvokeScriptTransaction) (charged : Long) : Prop :=
  ∃ dAppAddress script actions complexity scripts,
    b.resolveRecipient tx.dAppAddressOrAlias = .ok dAppAddress ∧
      b.accountScript dAppAddress = some script ∧
      InvokeScriptTransactionDiff.runContract b script tx = .ok (actions, complexity) ∧
      InvokeScriptTransactionDiff.scriptsInvoked b tx actions charged = .ok scripts ∧
      (scripts : ℤ) * 400000 + 500000 ≤ charged.toInt

/-! ## 5. Accepted transactions -/

namespace TransferTransactionDiff

omit [PBTransactionSerializer] [Ride] in
/-- The sponsor of a transfer's fee gives the Waves it is worth. -/
theorem feePart_sponsor {b : Blockchain} {tx : TransferTransaction} {fee : Portfolios}
    {asset : IssuedAsset} {desc : AssetDescription}
    (hswitch : b.sponsoredFeesSwitchHeight ≤ b.height) (hasset : tx.feeAssetId = .issued asset)
    (hdesc : b.assetDescription asset = some desc) (hrate : 0 < desc.sponsorship)
    (h : feePart b tx.sender.toAddress tx = .ok fee) :
    ∃ charged, Sponsorship.toWaves tx.fee desc.sponsorship = .ok charged ∧
      fee.delta desc.issuer.toAddress .Waves = -charged := by
  rcases feePart_eq_ok h with ⟨hwaves, -⟩ | ⟨asset', hasset', sponsorPf, hsponsor, rfl⟩
  · rw [hasset] at hwaves
    cases hwaves
  · rw [hasset] at hasset'
    cases hasset'
    rw [if_pos (show b.height ≥ b.sponsoredFeesSwitchHeight from hswitch)] at hsponsor
    unfold sponsorPortfolio at hsponsor
    rw [hdesc] at hsponsor
    dsimp only at hsponsor
    rw [if_pos hrate] at hsponsor
    obtain ⟨charged, hcharged, hsponsor⟩ := Validation.bind_eq_ok.mp hsponsor
    refine ⟨charged, hcharged, ?_⟩
    -- the sender's part is in the asset, also where the sender is the sponsor
    have hsender : Portfolios.delta (.single tx.sender.toAddress (.build (.issued asset) (-tx.fee)))
        desc.issuer.toAddress .Waves = 0 := by
      rw [Portfolios.delta_single, Portfolio.balanceOf_build]
      split <;> rfl
    rw [Portfolios.delta_combine, hsender, zero_safeSum, ← Except.ok.inj hsponsor,
      Portfolios.delta_single, if_pos rfl]
    rfl

end TransferTransactionDiff

namespace InvokeScriptTransactionDiff

omit [PBTransactionSerializer] [Ride] in
/-- The sponsor of a call's fee gives the Waves it is worth. -/
theorem feeInfo_sponsor {b : Blockchain} {tx : InvokeScriptTransaction} {wavesFee : Long}
    {fee : Portfolios} {asset : IssuedAsset} {desc : AssetDescription}
    (hasset : tx.feeAssetId = .issued asset) (hdesc : b.assetDescription asset = some desc)
    (h : feeInfo b tx = .ok (wavesFee, fee)) :
    Sponsorship.toWaves tx.fee desc.sponsorship = .ok wavesFee ∧
      fee.delta desc.issuer.toAddress .Waves = -wavesFee := by
  rcases feeInfo_eq_ok h with ⟨hwaves, -⟩ | ⟨asset', desc', hasset', hdesc', -, hcharged, rfl⟩
  · rw [hasset] at hwaves
    cases hwaves
  · rw [hasset] at hasset'
    cases hasset'
    rw [hdesc] at hdesc'
    cases hdesc'
    refine ⟨hcharged, ?_⟩
    rw [Portfolios.delta_ofList_pair, if_pos rfl]
    rfl

end InvokeScriptTransactionDiff

namespace TransactionDiffer

variable {prevBlockTimestamp : Option Long} {currentBlockTimestamp : Long} {b : Blockchain}
  {d : Diff}

omit [Ride] in
/-- The charge of an asset fee that passed the check covers the minimum in Waves, if the
minimum is a whole number of fee units. -/
theorem minFee_le_of_issued {tx : Transaction} {asset : IssuedAsset}
    {details : FeeValidation.FeeDetails} {u charged : Long} (hu : u = 1 ∨ u = 5)
    (hunits : FeeValidation.feeInUnits b tx = u) (hassets : tx.checkedAssets.length ≤ 2)
    (hswitch : b.sponsoredFeesSwitchHeight ≤ b.height) (hasset : tx.assetFee.1 = .issued asset)
    (hmin : FeeValidation.getMinFee b tx = .ok details)
    (hle : details.minFeeInAsset ≤ tx.assetFee.2)
    (hcharged : ∀ desc, b.assetDescription asset = some desc → 0 < desc.sponsorship →
      Sponsorship.toWaves tx.assetFee.2 desc.sponsorship = .ok charged) :
    details.minFeeInWaves ≤ charged := by
  obtain ⟨desc, hdesc, hrate, hfromWaves, n, hn, m, hm, hwaves⟩ :=
    FeeValidation.getMinFee_issued hswitch hasset hmin
  obtain ⟨k, hpos, hk⟩ := FeeValidation.whole_units hu (show n ≤ 3 by omega) hm
  rw [← hunits, ← hwaves] at hk
  rw [Long.le_iff, Sponsorship.fromWaves_units hk hpos hrate hfromWaves] at hle
  rw [Long.le_iff, hk]
  exact Sponsorship.le_toWaves hrate hle (hcharged desc hdesc hrate)

omit [Ride] in
/-- A fee in Waves that passed the check is the charge. -/
theorem minFee_le_of_waves {tx : Transaction} {details : FeeValidation.FeeDetails}
    (hasset : tx.assetFee.1 = .Waves) (hmin : FeeValidation.getMinFee b tx = .ok details)
    (hle : details.minFeeInAsset ≤ tx.assetFee.2) :
    ChargedInWaves b tx tx.assetFee.2 ∧ details.minFeeInWaves ≤ tx.assetFee.2 := by
  rw [FeeValidation.getMinFee_waves hasset hmin]
  exact ⟨ChargedInWaves.of_waves hasset, hle⟩

/-- An accepted transfer. -/
theorem minFee_charged_transfer {t : TransferTransaction} {details : FeeValidation.FeeDetails}
    (hswitch : b.sponsoredFeesSwitchHeight ≤ b.height)
    (haccepted : Accepted prevBlockTimestamp currentBlockTimestamp b (.transfer t) d)
    (hmin : FeeValidation.getMinFee b (.transfer t) = .ok details)
    (hle : details.minFeeInAsset ≤ (Transaction.transfer t).assetFee.2) :
    ∃ charged, ChargedInWaves b (.transfer t) charged ∧ details.minFeeInWaves ≤ charged := by
  obtain ⟨d', hd', -⟩ := Validation.bind_eq_ok.mp haccepted.diff
  obtain ⟨recipient, fee, -, hfee, -⟩ := TransferTransactionDiff.apply_eq_ok hd'
  cases hasset : t.feeAssetId with
  | Waves => exact ⟨_, minFee_le_of_waves hasset hmin hle⟩
  | issued asset =>
    have hfeeAsset : (Transaction.transfer t).assetFee.1 = .issued asset := hasset
    obtain ⟨desc, hdesc, hrate, -⟩ := FeeValidation.getMinFee_issued hswitch hfeeAsset hmin
    obtain ⟨charged, hcharged, hsponsor⟩ :=
      TransferTransactionDiff.feePart_sponsor hswitch hasset hdesc hrate hfee
    refine ⟨charged, ChargedInWaves.of_issued hasset hdesc hcharged hfee hsponsor, ?_⟩
    have hassets : (Transaction.transfer t).checkedAssets.length ≤ 2 := by
      change t.assetId.issued?.toList.length ≤ 2
      cases t.assetId.issued? <;> simp
    refine minFee_le_of_issued (.inl rfl) rfl hassets hswitch hasset hmin hle ?_
    intro desc' hdesc' _
    rw [hdesc] at hdesc'
    cases hdesc'
    exact hcharged

/-- An accepted call, which is checked twice. -/
theorem minFee_charged_invokeScript {t : InvokeScriptTransaction}
    {details : FeeValidation.FeeDetails} (hswitch : b.sponsoredFeesSwitchHeight ≤ b.height)
    (haccepted : Accepted prevBlockTimestamp currentBlockTimestamp b (.invokeScript t) d)
    (hmin : FeeValidation.getMinFee b (.invokeScript t) = .ok details)
    (hle : details.minFeeInAsset ≤ (Transaction.invokeScript t).assetFee.2) :
    ∃ charged, ChargedInWaves b (.invokeScript t) charged ∧ details.minFeeInWaves ≤ charged ∧
      CoversScripts b t charged := by
  obtain ⟨dAppAddress, actions, wavesFee, feePart, compositeDiff, happlied⟩ :=
    InvokeScriptTransactionDiff.apply_eq_ok haccepted.diff
  obtain ⟨script, complexity, hscript, hrun⟩ := happlied.run
  obtain ⟨scripts, hscripts⟩ := happlied.invoked
  have hassets := InvokeScriptTransactionDiff.checkedAssets_le hrun
  have hcovers : CoversScripts b t wavesFee :=
    ⟨dAppAddress, script, actions, complexity, scripts, happlied.dApp, hscript, hrun, hscripts,
      InvokeScriptTransactionDiff.scriptsInvoked_covered hassets
        (InvokeScriptTransactionDiff.length_actions_le happlied.checked) hscripts⟩
  cases hasset : t.feeAssetId with
  | Waves =>
    have hfeeAsset : (Transaction.invokeScript t).assetFee.1 = .Waves := hasset
    obtain ⟨hcharged, hpaid⟩ := minFee_le_of_waves hfeeAsset hmin hle
    rcases InvokeScriptTransactionDiff.feeInfo_eq_ok happlied.fee with
      ⟨-, rfl, -⟩ | ⟨asset, desc, hissued, -⟩
    · exact ⟨_, hcharged, hpaid, hcovers⟩
    · rw [hasset] at hissued
      cases hissued
  | issued asset =>
    have hfeeAsset : (Transaction.invokeScript t).assetFee.1 = .issued asset := hasset
    obtain ⟨desc, hdesc, hrate, -⟩ := FeeValidation.getMinFee_issued hswitch hfeeAsset hmin
    obtain ⟨hcharged, hsponsor⟩ :=
      InvokeScriptTransactionDiff.feeInfo_sponsor hasset hdesc happlied.fee
    have hfee : feePortfolios b (.invokeScript t) = .ok feePart :=
      Validation.bind_eq_ok.mpr ⟨_, happlied.fee, rfl⟩
    refine ⟨wavesFee, ChargedInWaves.of_issued hasset hdesc hcharged hfee hsponsor, ?_, hcovers⟩
    refine minFee_le_of_issued (.inr rfl) rfl hassets hswitch hasset hmin hle ?_
    intro desc' hdesc' _
    rw [hdesc] at hdesc'
    cases hdesc'
    exact hcharged

/-- **The minimum is paid.** After the switch, the Waves that the fee accounting charges for an
accepted transaction are at least its minimal fee in Waves; those charged for a call also cover
the scripts that it turned out to run. -/
theorem minFee_charged {tx : Transaction} (hswitch : b.sponsoredFeesSwitchHeight ≤ b.height)
    (h : verified prevBlockTimestamp currentBlockTimestamp b tx = .ok d) :
    ∃ details charged, FeeValidation.getMinFee b tx = .ok details ∧
      ChargedInWaves b tx charged ∧ details.minFeeInWaves ≤ charged ∧
      ∀ call, tx = .invokeScript call → CoversScripts b call charged := by
  have haccepted := verified_eq_ok.mp h
  obtain ⟨details, hmin, hle⟩ := FeeValidation.apply_eq_ok hswitch haccepted.fee
  cases tx with
  | transfer t =>
    obtain ⟨charged, hcharged, hpaid⟩ := minFee_charged_transfer hswitch haccepted hmin hle
    exact ⟨details, charged, hmin, hcharged, hpaid, fun call hcall => by cases hcall⟩
  | invokeScript t =>
    obtain ⟨charged, hcharged, hpaid, hcovers⟩ :=
      minFee_charged_invokeScript hswitch haccepted hmin hle
    refine ⟨details, charged, hmin, hcharged, hpaid, ?_⟩
    rintro call ⟨⟩
    exact hcovers
  | _ =>
    -- every other type has its fee in Waves
    obtain ⟨hcharged, hpaid⟩ := minFee_le_of_waves rfl hmin hle
    exact ⟨details, _, hmin, hcharged, hpaid, fun call hcall => by cases hcall⟩

end TransactionDiffer

end

/-! ## 6. A fee in a token

Bob sends Alice a Waves and pays with eight of her tokens, at seven a fee unit. -/

namespace Devnet

def sponsoredTransfer : TransferTransaction where
  version := 1
  sender := bob.publicKey
  recipient := .address alice.address
  assetId := .Waves
  amount := 100000000
  feeAssetId := .issued ⟨tokenId⟩
  fee := 8
  attachment := []
  timestamp := 1500000000000
  proofs := ⟨[bytes 64
    0xeffca410e696582f1e6bc5145f66d9ee27dc62c7395eedc42bcc60c668b235f8f817528b4058832c15018acb6ca76b8808896342e79a998089d1331c10542384]⟩

def sponsoredTransferBody : ByteStr :=
  bytes 119 0x04c0b126b5aa134b84e64625256b8de8973787612b1f3839d2c60526d2114e886d000163030a93e3174c4641e7a48c2e034da7459a3b15be1e5a86b44b998ac8c3891b0000015d3ef798000000000005f5e10000000000000000080154ea58e2539eb41410f8873ff020608b0c8325427feaaacd730000

def sponsoredTransferAnswers : KnownAnswers where
  digests := [(sponsoredTransferBody,
    bytes 32 0x6e9ef46b476aadf3eb499e424df3f1cdca79d5da3198a411e13656bb49d1fe84)]
  signatures := [⟨bob.publicKey, sponsoredTransferBody, sponsoredTransfer.proofs.proofs.headD []⟩]

def sponsoredToken : AssetDescription where
  issuer := alice.publicKey
  name := token.name
  description := []
  decimals := 0
  reissuable := true
  totalVolume := 1000
  script := none
  sponsorship := 7

/-- The switch is behind, the token has a rate, and everybody has enough. -/
def sponsoredLedger : Blockchain :=
  { Blockchain.empty sponsorshipSettings with
    height := 2
    activatedFeatures := .single BlockchainFeatures.FeeSponsorship.id 0
    assetDescription := fun asset => if asset = ⟨tokenId⟩ then some sponsoredToken else none
    balance := fun _ _ => 1000000000 }

end Devnet

section
open Devnet

local instance paidFeesCrypto : Crypto := sponsoredTransferAnswers.crypto
local instance paidFeesSerializer : PBTransactionSerializer := pbTransactionSerializer
local instance paidFeesRide : Ride := sponsoredTransferAnswers.ride

theorem Devnet.sponsoredTransfer_run :
    sponsoredLedger.sponsoredFeesSwitchHeight ≤ sponsoredLedger.height ∧
      (TransactionDiffer.verified (some 1499999960000) 1500000000000 sponsoredLedger
        (.transfer sponsoredTransfer)).toOption.isSome := by
  decide +kernel

theorem TransactionDiffer.minFee_charged_sponsoredTransfer :
    ∃ details, FeeValidation.getMinFee sponsoredLedger (.transfer sponsoredTransfer) = .ok details ∧
      ChargedInWaves sponsoredLedger (.transfer sponsoredTransfer) 114285 ∧
      details.minFeeInWaves ≤ 114285 := by
  obtain ⟨hswitch, hrun⟩ := sponsoredTransfer_run
  obtain ⟨d, hverified⟩ : ∃ d, verified (some 1499999960000) 1500000000000 sponsoredLedger
      (.transfer sponsoredTransfer) = .ok d := ⟨_, Validation.eq_ok_getD (a := Diff.empty) hrun⟩
  obtain ⟨details, charged, hmin, hcharged, hpaid, -⟩ := minFee_charged hswitch hverified
  have hcharge : Sponsorship.calcWavesFeeAmount sponsoredLedger (.transfer sponsoredTransfer) =
      .ok 114285 := rfl
  obtain rfl : charged = 114285 := Except.ok.inj (hcharged.amount.symm.trans hcharge)
  exact ⟨details, hmin, hcharged, hpaid⟩

end

end WavesNode
