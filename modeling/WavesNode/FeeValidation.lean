/-
The minimal fee of a transaction.

Before the sponsorship switch a fee only has to be positive. After it the fee is
computed in Waves from the type and the size of the transaction, raised for every
scripted asset and for a scripted sender, and, for a fee in a sponsored asset,
converted by the asset's rate.
-/
import WavesNode.CommonValidation

set_option autoImplicit false

namespace WavesNode

namespace FeeValidation

structure FeeDetails where
  asset : Asset
  requirements : List String
  minFeeInAsset : Long
  minFeeInWaves : Long

def ScriptExtraFee : Long := 400000
def FeeUnit : Long := 100000

/-- `FeeConstants`, which has every type. -/
def FeeConstants : Transaction → Long
  | .genesis _ => 0
  | .payment _ => 1
  | .issue _ => 1000
  | .reissue _ => 1000
  | .burn _ => 1
  | .transfer _ => 1
  | .massTransfer _ => 1
  | .lease _ => 1
  | .leaseCancel _ => 1
  | .exchange _ => 3
  | .createAlias _ => 1
  | .data _ => 1
  | .setScript _ => 10
  | .sponsorFee _ => 1000
  | .setAssetScript _ => 1000 - 4
  | .invokeScript _ => 5

/-- `Constants.TransactionNames`. -/
def transactionName : Transaction → String
  | .genesis _ => "GenesisTransaction"
  | .payment _ => "PaymentTransaction"
  | .issue _ => "IssueTransaction"
  | .reissue _ => "ReissueTransaction"
  | .burn _ => "BurnTransaction"
  | .transfer _ => "TransferTransaction"
  | .massTransfer _ => "MassTransferTransaction"
  | .lease _ => "LeaseTransaction"
  | .leaseCancel _ => "LeaseCancelTransaction"
  | .exchange _ => "ExchangeTransaction"
  | .createAlias _ => "CreateAliasTransaction"
  | .data _ => "DataTransaction"
  | .setScript _ => "SetScriptTransaction"
  | .sponsorFee _ => "SponsorFeeTransaction"
  | .setAssetScript _ => "SetAssetScriptTransaction"
  | .invokeScript _ => "InvokeScriptTransaction"

def feeAssetName (a : Asset) : String := (a.maybeBase58Repr).getD "WAVES"

def notEnoughFeeError (tx : Transaction) (feeDetails : FeeDetails) (feeAmount : Long) :
    ValidationError :=
  let actualFee := s!"{feeAmount} in {feeAssetName feeDetails.asset}"
  let orInAsset :=
    match feeDetails.asset.maybeBase58Repr with
    | none => ""
    | some id => s!" or {feeDetails.minFeeInAsset} {id}"
  let requiredFee := s!"{feeDetails.minFeeInWaves} WAVES{orInAsset}"
  let errorMessage :=
    s!"Fee for {transactionName tx} ({actualFee}) does not exceed minimal value of {requiredFee}."
  .GenericError (" ".intercalate feeDetails.requirements ++ ". " ++ errorMessage)

/-- What is known of a fee while it is computed. -/
structure FeeInfo where
  assetInfo : Option (IssuedAsset × AssetDescription)
  requirements : List String
  wavesFee : Long

variable [Crypto] [PBTransactionSerializer]

/-- `feeInUnits`. The multiplier 0.001 of a base fee of 1000 is an exact division. -/
def feeInUnits (b : Blockchain) (tx : Transaction) : Long :=
  let baseFee := FeeConstants tx
  match tx with
  | .massTransfer t => baseFee + Int64.ofNat ((t.transfers.length + 1) / 2)
  | .data _ =>
    let base :=
      if b.isFeatureActivated BlockchainFeatures.SmartAccounts then TxSerializer.bodyBytes tx
      else TxSerializer.bytes tx
    baseFee + Int64.ofNat ((base.length - 1) / 1024)
  | .issue itx =>
    if itx.isNFT && b.isFeatureActivated BlockchainFeatures.ReduceNFTFee then baseFee / 1000
    else baseFee
  | .reissue _ =>
    if b.isFeatureActivated BlockchainFeatures.MultiPaymentInvokeScript then baseFee / 1000
    else baseFee
  | _ => baseFee

def feeAfterSponsorship (txAsset : Asset) (b : Blockchain) (tx : Transaction) :
    Validation FeeInfo :=
  if b.height < b.sponsoredFeesSwitchHeight then .ok ⟨none, [], feeInUnits b tx * FeeUnit⟩
  else
    match txAsset with
    | .Waves => .ok ⟨none, [], feeInUnits b tx * FeeUnit⟩
    | .issued assetId =>
      match b.assetDescription assetId with
      | none =>
        .fail (.GenericError
          s!"Asset {ByteStr.stringRepr assetId.id} does not exist, cannot be used to pay fees")
      | some assetInfo =>
        if assetInfo.sponsorship > 0 then
          .ok ⟨some (assetId, assetInfo), [], feeInUnits b tx * FeeUnit⟩
        else
          .fail (.GenericError
            s!"Asset {ByteStr.stringRepr assetId.id} is not sponsored, cannot be used to pay fees")

def feeAfterSmartTokens (b : Blockchain) (tx : Transaction) (inputFee : FeeInfo) : FeeInfo :=
  let tokenIsSmart : Bool :=
    ((inputFee.assetInfo.map Prod.fst).bind b.assetDescription).any fun d => d.script.isSome
  let assetsCount := tx.checkedAssets.countP b.hasAssetScript
  let finalAssetsCount := if tokenIsSmart then assetsCount + 1 else assetsCount
  let extraFee := Int64.ofNat finalAssetsCount * ScriptExtraFee
  let extraRequirements :=
    if finalAssetsCount > 0 then
      [s!"Transaction involves {finalAssetsCount} scripted assets. Requires {extraFee} extra fee"]
    else []
  ⟨inputFee.assetInfo, extraRequirements ++ inputFee.requirements, inputFee.wavesFee + extraFee⟩

def feeAfterSmartAccounts (b : Blockchain) (tx : Transaction) (inputFee : FeeInfo) : FeeInfo :=
  let smartAccountScriptsCount : ℕ :=
    match tx.sender? with
    | some sender => if b.hasScript sender.toAddress then 1 else 0
    | none => 0
  let extraFee := Int64.ofNat smartAccountScriptsCount * ScriptExtraFee
  let extraRequirements :=
    if smartAccountScriptsCount > 0 then
      [s!"Transaction sent from smart account. Requires {extraFee} extra fee."]
    else []
  ⟨inputFee.assetInfo, extraRequirements ++ inputFee.requirements, inputFee.wavesFee + extraFee⟩

def getMinFee (b : Blockchain) (tx : Transaction) : Validation FeeDetails := do
  let info ← feeAfterSponsorship tx.assetFee.1 b tx
  let ⟨assetInfo, reqs, amountInWaves⟩ :=
    feeAfterSmartAccounts b tx (feeAfterSmartTokens b tx info)
  match assetInfo with
  | some (assetId, desc) =>
    let minFee ← Sponsorship.fromWaves amountInWaves desc.sponsorship
    .ok ⟨.issued assetId, reqs, minFee, amountInWaves⟩
  | none => .ok ⟨.Waves, reqs, amountInWaves, amountInWaves⟩

/-- `FeeValidation.apply`. -/
def apply (b : Blockchain) (tx : Transaction) : Validation Unit :=
  if b.height ≥ b.sponsoredFeesSwitchHeight then do
    let feeDetails ← getMinFee b tx
    .cond (feeDetails.minFeeInAsset ≤ tx.assetFee.2) (notEnoughFeeError tx feeDetails tx.assetFee.2)
  else
    .cond (tx.assetFee.2 > 0 || tx.sender?.isNone) (.GenericError "Fee must be positive.")

/-! ## What the minimal fee in an asset comes from -/

omit [Crypto] [PBTransactionSerializer] in
theorem wavesFee_feeAfterSmartTokens (b : Blockchain) (tx : Transaction) (inputFee : FeeInfo) :
    ∃ n ≤ tx.checkedAssets.length + 1,
      (feeAfterSmartTokens b tx inputFee).wavesFee =
        inputFee.wavesFee + Int64.ofNat n * ScriptExtraFee := by
  have hcount : tx.checkedAssets.countP b.hasAssetScript ≤ tx.checkedAssets.length :=
    List.countP_le_length
  refine ⟨_, ?_, rfl⟩
  split <;> omega

omit [PBTransactionSerializer] in
theorem wavesFee_feeAfterSmartAccounts (b : Blockchain) (tx : Transaction)
    (inputFee : FeeInfo) :
    ∃ n ≤ 1, (feeAfterSmartAccounts b tx inputFee).wavesFee =
      inputFee.wavesFee + Int64.ofNat n * ScriptExtraFee := by
  refine ⟨_, ?_, rfl⟩
  split
  · split <;> omega
  · omega

/-- A fee in a sponsored asset is the fee of the table, with an extra fee for each script,
at the asset's rate. -/
theorem getMinFee_sponsored {b : Blockchain} {tx : Transaction} {asset : IssuedAsset}
    {desc : AssetDescription} {details : FeeDetails}
    (hswitch : b.sponsoredFeesSwitchHeight ≤ b.height) (hasset : tx.assetFee.1 = .issued asset)
    (hdesc : b.assetDescription asset = some desc) (hpos : desc.sponsorship > 0)
    (h : getMinFee b tx = .ok details) :
    ∃ n ≤ tx.checkedAssets.length + 1, ∃ m ≤ 1,
      Sponsorship.fromWaves (feeInUnits b tx * FeeUnit + Int64.ofNat n * ScriptExtraFee +
        Int64.ofNat m * ScriptExtraFee) desc.sponsorship = .ok details.minFeeInAsset := by
  have hinfo : feeAfterSponsorship tx.assetFee.1 b tx =
      .ok ⟨some (asset, desc), [], feeInUnits b tx * FeeUnit⟩ := by
    unfold feeAfterSponsorship
    rw [if_neg (not_lt.mpr hswitch)]
    simp only [hasset, hdesc, hpos, if_true]
  obtain ⟨info, hinfo', h⟩ := Validation.bind_eq_ok.mp h
  rw [hinfo] at hinfo'
  cases hinfo'
  obtain ⟨minFee, hfee, h⟩ := Validation.bind_eq_ok.mp h
  cases h
  obtain ⟨n, hn, htokens⟩ := wavesFee_feeAfterSmartTokens b tx
    ⟨some (asset, desc), [], feeInUnits b tx * FeeUnit⟩
  obtain ⟨m, hm, haccounts⟩ := wavesFee_feeAfterSmartAccounts b tx
    (feeAfterSmartTokens b tx ⟨some (asset, desc), [], feeInUnits b tx * FeeUnit⟩)
  rw [htokens] at haccounts
  refine ⟨n, hn, m, hm, ?_⟩
  rw [← haccounts]
  exact hfee

end FeeValidation

end WavesNode
