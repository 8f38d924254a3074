/-
Transactions read back from the database.

A stored transaction is read by `vanilla(signedTx, unsafe = true)`: the same match over the
kinds of data, with bare constructors in place of `create`. The two matches have come apart in
three places. A genesis transaction is given the signature of the message where the validated
one computes its own; an exchange is given the version of the message where the validated one
is of the second version; and the bytes after a call are not looked at, which the validated one
refuses. The first two change a transaction that was accepted.
-/
import WavesNode.StaticConstraints

set_option autoImplicit false

namespace WavesNode

open ByteBuffer

/-! ## 1. The conversion without checks -/

namespace Validation

variable {α : Type}

/-- `explicitGet`: what is refused is thrown. -/
def explicitGet : Validation α → Validation α
  | .ok a => .ok a
  | .error (.error _) => .throwing "explicitGet on Left"
  | .error (.thrown m) => .throwing m

@[simp] theorem explicitGet_eq_ok {x : Validation α} {a : α} :
    explicitGet x = .ok a ↔ x = .ok a := by
  rcases x with (e | m) | v <;> simp [explicitGet]

end Validation

section
variable [Crypto]

omit [Crypto] in
/-- The call of a stored invocation: what follows the call is not looked at. -/
def readFunctionCallUnsafe (bytes : ByteStr) : Validation (Option FunctionCall) :=
  match Deser.parseByteArrayOptionWithLength.from bytes 0 with
  | .error e => .throwing e
  | .ok none => .ok none
  | .ok (some call) =>
    match Serde.deserializeCall ⟨call, 0⟩ with
    | .error e => .throwing e
    | .ok (f, _) => .ok (some f)

namespace PBTransactions

variable [PBTransactionSerializer] [ScriptReader]

omit [PBTransactionSerializer] in
/-- `createVanillaUnsafe`. -/
def createVanillaUnsafe (version : Int32) (chainId : Byte) (sender : PublicKey)
    (feeAmount : Long) (feeAssetId : Asset) (timestamp : Long) (proofs : Proofs)
    (data : PBData) : Validation Transaction :=
  let signature := proofs.toSignature
  match data with
  | .Genesis recipient amount => do
    let addr ← (PBRecipients.toAddressOfBytes recipient).explicitGet
    .ok (.genesis ⟨addr, amount, timestamp, signature⟩)
  | .Payment recipient amount => do
    let addr ← (PBRecipients.toAddressOfBytes recipient).explicitGet
    .ok (.payment ⟨sender, addr, amount, feeAmount, timestamp, signature⟩)
  | .Transfer (some recipient) (some amount) attachment => do
    let address ← (PBRecipients.toAddressOrAlias recipient).explicitGet
    .ok (.transfer ⟨version.toInt8, sender, address, PBAmounts.toVanillaAssetId amount.assetId,
      amount.amount, feeAssetId, feeAmount, attachment, timestamp, proofs⟩)
  | .CreateAlias name => do
    let a ← (Alias.createWithChainId name chainId).explicitGet
    .ok (.createAlias ⟨version.toInt8, sender, a, feeAmount, timestamp, ⟨[signature]⟩⟩)
  | .Issue name description quantity decimals reissuable script => do
    let s ← readScript script
    .ok (.issue ⟨version.toInt8, sender, name, description, quantity, decimals.toInt8, reissuable,
      s, feeAmount, timestamp, proofs⟩)
  | .Reissue (some a) reissuable =>
    .ok (.reissue ⟨version.toInt8, sender, ⟨a.assetId⟩, a.amount, reissuable, feeAmount, timestamp,
      proofs⟩)
  | .Burn (some a) =>
    .ok (.burn ⟨version.toInt8, sender, ⟨a.assetId⟩, a.amount, feeAmount, timestamp, proofs⟩)
  | .SetAssetScript assetId script => do
    let s ← readScript script
    .ok (.setAssetScript ⟨1, sender, ⟨assetId⟩, s, feeAmount, timestamp, proofs⟩)
  | .SetScript script => do
    let s ← readScript script
    .ok (.setScript ⟨1, sender, s, feeAmount, timestamp, proofs⟩)
  | .Lease (some recipient) amount => do
    let address ← (PBRecipients.toAddressOrAlias recipient).explicitGet
    .ok (.lease ⟨version.toInt8, sender, address, amount, feeAmount, timestamp, proofs⟩)
  | .LeaseCancel leaseId =>
    .ok (.leaseCancel ⟨version.toInt8, sender, leaseId, feeAmount, timestamp, proofs⟩)
  | .Exchange amount price buyMatcherFee sellMatcherFee [buyOrder, sellOrder] => do
    let buy ← PBOrders.vanilla buyOrder
    let sell ← PBOrders.vanilla sellOrder
    .ok (.exchange ⟨version.toInt8, buy, sell, amount, price, buyMatcherFee, sellMatcherFee,
      feeAmount, timestamp, proofs⟩)
  | .DataTransaction entries => do
    let es ← entries.mapM toVanillaDataEntry
    .ok (.data ⟨1, sender, es, feeAmount, timestamp, proofs⟩)
  | .MassTransfer assetId transfers attachment =>
    let parsed := transfers.filterMap fun t =>
      match PBRecipients.toAddressOrAlias (t.address.getD .Empty) with
      | .ok address => some ⟨address, t.amount⟩
      | .error _ => none
    .ok (.massTransfer ⟨1, sender, PBAmounts.toVanillaAssetId assetId, parsed, feeAmount,
      timestamp, attachment, proofs⟩)
  | .SponsorFee (some a) =>
    .ok (.sponsorFee ⟨1, sender, ⟨a.assetId⟩, if 0 < a.amount then some a.amount else none,
      feeAmount, timestamp, proofs⟩)
  | .InvokeScript (some dApp) functionCall payments => do
    let address ← (PBRecipients.toAddressOrAlias dApp).explicitGet
    let call ← readFunctionCallUnsafe functionCall
    .ok (.invokeScript ⟨1, sender, address, call,
      payments.map fun p => ⟨p.amount, PBAmounts.toVanillaAssetId p.assetId⟩, feeAmount,
      feeAssetId, timestamp, proofs⟩)
  | _ => .throwing "Unsupported transaction data"

/-- `vanilla(signedTx, unsafe)`. -/
def vanillaWith (isUnsafe : Bool) (signedTx : PBSignedTransaction) : Validation Transaction := do
  let parsedTx ← .ofOption (.GenericError "Transaction must be specified") signedTx.transaction
  let fee ← .ofOption (.GenericError "Fee must be specified") parsedTx.fee
  .cond (parsedTx.data ≠ .Empty) (.GenericError "Transaction data must be specified")
  let feeAmount := PBAmounts.toAssetAndAmount fee
  if isUnsafe then
    createVanillaUnsafe parsedTx.version parsedTx.chainId.toInt8 parsedTx.senderPublicKey
      feeAmount.2 feeAmount.1 parsedTx.timestamp ⟨signedTx.proofs⟩ parsedTx.data
  else
    createVanilla parsedTx.version parsedTx.chainId.toInt8 parsedTx.senderPublicKey feeAmount.2
      feeAmount.1 parsedTx.timestamp ⟨signedTx.proofs⟩ parsedTx.data

theorem vanillaWith_false (signedTx : PBSignedTransaction) :
    vanillaWith false signedTx = vanilla signedTx := rfl

/-! ## 2. What is stored is what was validated -/

/-- The two matches agree: a genesis transaction carries the signature that is computed for it,
and an exchange is of the second version. -/
def SameData (version : Int32) (timestamp : Long) (proofs : Proofs) : PBData → Prop
  | .Genesis recipient amount => ∀ addr, PBRecipients.toAddressOfBytes recipient = .ok addr →
    proofs.toSignature = GenesisTransaction.generateSignature addr amount timestamp
  | .Exchange _ _ _ _ _ => version.toInt8 = 2
  | _ => True

def SameWhenStored (signedTx : PBSignedTransaction) : Prop :=
  ∀ parsedTx, signedTx.transaction = some parsedTx →
    SameData parsedTx.version parsedTx.timestamp ⟨signedTx.proofs⟩ parsedTx.data

omit [PBTransactionSerializer] [ScriptReader] [Crypto] in
/-- A call that was read to its end is read again. -/
theorem readFunctionCallUnsafe_of_ok {bytes : ByteStr} {call : Option FunctionCall}
    (h : readFunctionCall bytes = .ok call) : readFunctionCallUnsafe bytes = .ok call := by
  unfold readFunctionCall at h
  unfold readFunctionCallUnsafe
  rcases hread : Deser.parseByteArrayOptionWithLength.from bytes 0 with e | (_ | arr)
  · rw [hread] at h
    simp at h
  · rw [hread] at h
    exact h
  · rw [hread] at h
    dsimp only at h ⊢
    rcases hcall : Serde.deserializeCall ⟨arr, 0⟩ with e | ⟨f, buf⟩
    · rw [hcall] at h
      simp at h
    · rw [hcall] at h
      dsimp only at h ⊢
      by_cases hend : buf.remaining = 0
      · rwa [if_pos hend] at h
      · rw [if_neg hend] at h
        simp at h

omit [PBTransactionSerializer] [ScriptReader] in
/-- An address that is read whole is the one its bytes stand for. -/
theorem toAddressOfBytes_of_fromBytes {bytes : ByteStr} {addr : Address}
    (h : Address.fromBytes bytes = .ok addr) : PBRecipients.toAddressOfBytes bytes = .ok addr := by
  have hlength : bytes.length = Address.AddressLength := by
    by_contra hne
    rw [Address.fromBytes, if_pos hne] at h
    simp at h
  rw [PBRecipients.toAddressOfBytes, hlength, if_neg (by decide), if_pos rfl, h]

omit [ScriptReader] in
private theorem same {t tx : Transaction} (h : validatedEither t = .ok tx) :
    (.ok t : Validation Transaction) = .ok tx ↔ True := by
  rw [(validatedEither_eq_ok.mp h).2]
  simp

omit [ScriptReader] in
private theorem same_of {α : Type} {x : Validation α} {a : α} {f : α → Transaction}
    {tx : Transaction} (ha : x = .ok a) (h : validatedEither (f a) = .ok tx) :
    (x >>= fun a => .ok (f a)) = .ok tx ↔ True := by
  rw [ha, Validation.ok_bind]
  exact same h

/-- The match over the kinds of data, kind by kind. -/
theorem createVanillaUnsafe_iff {version : Int32} {chainId : Byte} {sender : PublicKey}
    {feeAmount : Long} {feeAssetId : Asset} {timestamp : Long} {proofs : Proofs} {data : PBData}
    {tx : Transaction}
    (h : createVanilla version chainId sender feeAmount feeAssetId timestamp proofs data = .ok tx) :
    createVanillaUnsafe version chainId sender feeAmount feeAssetId timestamp proofs data =
        .ok tx ↔ SameData version timestamp proofs data := by
  unfold createVanilla at h
  dsimp only at h
  unfold createVanillaUnsafe
  split at h
  case h_1 recipient amount =>
    obtain ⟨addr, haddr, h⟩ := Validation.bind_eq_ok.mp h
    obtain ⟨-, rfl⟩ := validatedEither_eq_ok.mp h
    dsimp only [SameData]
    rw [haddr]
    simp [Validation.bind_eq_ok]
  case h_2 recipient amount =>
    obtain ⟨-, -, h⟩ := Validation.bind_eq_ok.mp h
    split at h
    case h_1 addr haddr =>
      obtain ⟨-, rfl⟩ := validatedEither_eq_ok.mp h
      simp [Validation.bind_eq_ok, SameData, toAddressOfBytes_of_fromBytes haddr]
    case h_2 => simp at h
  case h_3 recipient amount attachment =>
    obtain ⟨address, haddress, h⟩ := Validation.bind_eq_ok.mp h
    simp only [Validation.bind_eq_ok, Validation.explicitGet_eq_ok, SameData, iff_true]
    exact ⟨address, haddress, h⟩
  case h_12 buyOrder sellOrder =>
    obtain ⟨buy, hbuy, h⟩ := Validation.bind_eq_ok.mp h
    obtain ⟨sell, hsell, h⟩ := Validation.bind_eq_ok.mp h
    obtain ⟨-, rfl⟩ := validatedEither_eq_ok.mp h
    dsimp only
    rw [hbuy, hsell]
    simp [Validation.bind_eq_ok, SameData]
  case h_16 dApp functionCall payments =>
    obtain ⟨address, haddress, h⟩ := Validation.bind_eq_ok.mp h
    obtain ⟨call, hcall, h⟩ := Validation.bind_eq_ok.mp h
    obtain ⟨-, rfl⟩ := validatedEither_eq_ok.mp h
    simp only [Validation.bind_eq_ok, Validation.explicitGet_eq_ok, SameData, iff_true]
    exact ⟨address, haddress, call, readFunctionCallUnsafe_of_ok hcall, rfl⟩
  case h_17 => simp at h
  case h_6 => exact same h
  case h_7 => exact same h
  case h_11 => exact same h
  case h_14 => exact same h
  case h_15 => exact same h
  case h_4 name =>
    obtain ⟨a, ha, h⟩ := Validation.bind_eq_ok.mp h
    rw [← Validation.explicitGet_eq_ok] at ha
    exact same_of ha h
  case h_10 recipient amount =>
    obtain ⟨address, haddress, h⟩ := Validation.bind_eq_ok.mp h
    rw [← Validation.explicitGet_eq_ok] at haddress
    exact same_of haddress h
  -- a script or a list of entries is read alike by both
  all_goals
    obtain ⟨part, hpart, h⟩ := Validation.bind_eq_ok.mp h
    exact same_of hpart h

/-- **What is stored is what was validated**, for every message that is accepted: exactly when a
genesis transaction has its own signature, and an exchange the second version. -/
theorem vanillaWith_true_iff {signedTx : PBSignedTransaction} {tx : Transaction}
    (h : vanillaWith false signedTx = .ok tx) :
    vanillaWith true signedTx = .ok tx ↔ SameWhenStored signedTx := by
  unfold vanillaWith at h
  obtain ⟨parsedTx, hparsed, h⟩ := Validation.bind_eq_ok.mp h
  obtain ⟨fee, hfee, h⟩ := Validation.bind_eq_ok.mp h
  obtain ⟨⟨⟩, hdata, h⟩ := Validation.bind_eq_ok.mp h
  have hiff := createVanillaUnsafe_iff h
  have hread : vanillaWith true signedTx =
      createVanillaUnsafe parsedTx.version parsedTx.chainId.toInt8 parsedTx.senderPublicKey
        (PBAmounts.toAssetAndAmount fee).2 (PBAmounts.toAssetAndAmount fee).1 parsedTx.timestamp
        ⟨signedTx.proofs⟩ parsedTx.data := by
    unfold vanillaWith
    rw [hparsed, Validation.ok_bind, hfee, Validation.ok_bind, hdata, Validation.ok_bind]
    rfl
  rw [hread, hiff, SameWhenStored]
  rw [Validation.ofOption_eq_ok] at hparsed
  constructor
  · intro hsame parsedTx' hparsed'
    rw [hparsed] at hparsed'
    cases hparsed'
    exact hsame
  · intro hsame
    exact hsame parsedTx hparsed

end PBTransactions

end

/-! ## 3. An exchange of the third version

The orders and the numbers are those of an exchange of a token with the least parts of a
Waves. The message says version 3, and the transaction that is validated says version 2. -/

namespace Devnet

def orderMessage (owner : Account) (orderSide : PBSide) : PBOrder where
  senderPublicKey := owner.publicKey
  matcherPublicKey := founder.publicKey
  assetPair := some ([], tokenId)
  orderSide := orderSide
  amount := 300
  price := 200000000
  timestamp := 1500000000000
  expiration := 1500086400000
  matcherFee := some ⟨[], 300000⟩
  version := 3
  proofs := []

/-- An exchange of a version, as it is sent. -/
def exchangeMessage (version : Int32) : PBSignedTransaction where
  transaction := some
    { chainId := 84
      senderPublicKey := founder.publicKey
      fee := some ⟨[], 300000⟩
      timestamp := 1500000000000
      version := version
      data := .Exchange 300 200000000 300000 300000
        [orderMessage bob .BUY, orderMessage miner .SELL] }
  proofs := []

end Devnet

section
open Devnet PBTransactions

local instance storedCrypto : Crypto := KnownAnswers.crypto {}
local instance storedSerializer : PBTransactionSerializer := pbTransactionSerializer
local instance storedScripts : ScriptReader := scriptReader

namespace Devnet

/-- The exchange that is made of a message, which does not depend on its version. -/
def exchangeOfMessage : Transaction :=
  (vanillaWith false (exchangeMessage 3)).toOption.getD (.transfer transferToBob)

end Devnet

theorem exchangeMessage_run :
    (vanillaWith false (exchangeMessage 2)).toOption = some exchangeOfMessage ∧
      (vanillaWith false (exchangeMessage 3)).toOption = some exchangeOfMessage ∧
      (vanillaWith true (exchangeMessage 3)).toOption ≠ some exchangeOfMessage := by
  decide +kernel

theorem PBTransactions.vanillaWith_true_iff_exchangeMessage :
    vanillaWith true (exchangeMessage 2) = .ok exchangeOfMessage ↔
      SameWhenStored (exchangeMessage 2) :=
  vanillaWith_true_iff (Validation.toOption_eq_some.mp exchangeMessage_run.1)

/-- An exchange that is validated as of the second version is stored as of the third. -/
theorem PBTransactions.vanillaWith_true_exchangeMessage :
    ¬∀ (signedTx : PBSignedTransaction) (tx : Transaction),
      vanillaWith false signedTx = .ok tx → vanillaWith true signedTx = .ok tx := by
  intro hclaim
  obtain ⟨-, hvalidated, hstored⟩ := exchangeMessage_run
  have hsame := hclaim (exchangeMessage 3) exchangeOfMessage
    (Validation.toOption_eq_some.mp hvalidated)
  exact hstored (Validation.toOption_eq_some.mpr hsame)

end

end WavesNode
