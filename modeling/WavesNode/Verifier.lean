/-
Who may send a transaction: `Verifier.apply` and what its acceptance means.

The verifier matches on the transaction's traits and on the presence of a script on
the sender's account, in a first-match order, and afterwards runs the script of
every asset the transaction declares. The definitions keep that order.

The main result, `Verifier.apply_authorised`, says what an accepted transaction has
shown: the sender of every transaction but a genesis one, and the matcher and the
two order senders of an exchange, each passed the check their account asks for
(`Authorised`): one valid signature where the account has no script, a script that
answered TRUE where it has one. `Verifier.apply_checkedAssets` and
`Verifier.apply_exchangeAssets` say which asset scripts an accepted transaction ran.
-/
import WavesNode.Devnet

set_option autoImplicit false

namespace WavesNode

namespace Verifier

/-! ## 1. The checks of the source -/

/-- What the verifier makes of a script's answer. -/
def ofOutcome (isAsset : Bool) : ScriptOutcome → Validation Unit
  | .error e => .fail (.ScriptExecutionError e isAsset)
  | .value .FALSE => .fail (.TransactionNotAllowedByScript isAsset)
  | .value .TRUE => .ok ()
  | .value (.other x) => .fail (.GenericError s!"Script returned not a boolean result, but {x}")
  | .thrown e => .fail (.ScriptExecutionError s!"Uncaught execution error: {e}" isAsset)

@[simp] theorem ofOutcome_eq_ok {isAsset : Bool} {o : ScriptOutcome} {u : Unit} :
    ofOutcome isAsset o = .ok u ↔ o = .value .TRUE := by
  unfold ofOutcome
  split <;> simp

section
variable [Crypto]

/-- The signature check, with its error as a `GenericError`. -/
def signatureCheck (proofs : Proofs) (body : ByteStr) (sender : PublicKey) : Validation Unit :=
  match verifyAsEllipticCurveSignature proofs body sender with
  | .ok u => .ok u
  | .error e => .fail (.GenericError e)

theorem signatureCheck_eq_ok {proofs : Proofs} {body : ByteStr} {sender : PublicKey} {u : Unit} :
    signatureCheck proofs body sender = .ok u ↔
      ∃ p, proofs.proofs = [p] ∧ Crypto.verify p body sender = true := by
  unfold signatureCheck
  rw [← verifyAsEllipticCurveSignature_eq_ok (u := u)]
  cases verifyAsEllipticCurveSignature proofs body sender <;> simp

end

variable [Crypto] [PBTransactionSerializer] [Ride]

/-- `Verifier.verifyTx`. The sender is read before the script runs, outside of the
block that catches exceptions. -/
def verifyTx (b : Blockchain) (script : Script) (tx : Transaction)
    (assetIdOpt : Option ByteStr) : Validation Unit :=
  match tx.sender? with
  | none => .throwing "ClassCastException"
  | some sender =>
    let isAsset := assetIdOpt.isSome
    let containerAddress := assetIdOpt.getD sender.toAddress.bytes
    ofOutcome isAsset (ScriptRunner (.tx tx) b script isAsset containerAddress)

/-- `Verifier.verifyOrder`: the script is estimated before it is run. -/
def verifyOrder (b : Blockchain) (script : Script) (order : Order) : Validation Unit :=
  match Ride.estimate script b.estimator with
  | .error e => .fail (.GenericError e)
  | .ok _ =>
    ofOutcome false (ScriptRunner (.order order) b script false order.sender.toAddress.bytes)

/-- `matcherTxVerification` of `verifyExchange`. -/
def matcherTxVerification (et : ExchangeTransaction) (b : Blockchain)
    (matcherScriptOpt : Option Script) : Validation Unit :=
  match matcherScriptOpt with
  | some script =>
    if et.version ≠ 1 then verifyTx b script (.exchange et) none
    else .fail (.GenericError "Can't process transaction with signature from scripted account")
  | none => signatureCheck et.proofs (TxSerializer.bodyBytes (.exchange et)) et.sender

/-- `orderVerification` of `verifyExchange`. -/
def orderVerification (b : Blockchain) (order : Order) : Validation Unit :=
  match b.accountScript order.sender.toAddress with
  | some script =>
    if order.version ≠ 1 then verifyOrder b script order
    else .fail (.GenericError "Can't process order with signature from scripted account")
  | none => signatureCheck order.proofs (TxSerializer.orderBodyBytes order) order.sender

/-- `assetVerification` of `verifyExchange`; any error becomes a script error. -/
def assetVerification (et : ExchangeTransaction) (b : Blockchain) : Asset → Validation Unit
  | .Waves => .ok ()
  | .issued asset =>
    match b.assetScript asset with
    | none => .ok ()
    | some script =>
      (verifyTx b script (.exchange et) (some asset.id)).leftMap fun e =>
        match e with
        | .ScriptExecutionError m a => .ScriptExecutionError m a
        | .TransactionNotAllowedByScript a => .TransactionNotAllowedByScript a
        | .GenericError m => .ScriptExecutionError m true
        | _ => .ScriptExecutionError "" true

/-- The assets whose scripts an exchange runs: the pair of the buy order and the fee
assets of both orders. -/
def exchangeAssets (et : ExchangeTransaction) : List Asset :=
  [et.buyOrder.assetPair.amountAsset, et.buyOrder.assetPair.priceAsset,
    et.buyOrder.matcherFeeAssetId, et.sellOrder.matcherFeeAssetId].eraseDups

/-- The estimate of the matcher's script, made before anything is run. -/
def matcherEstimate (b : Blockchain) : Option Script → Validation Unit
  | some script =>
    match Ride.estimate script b.estimator with
    | .error e => .fail (.GenericError e)
    | .ok _ => .ok ()
  | none => .ok ()

/-- `Verifier.verifyExchange`. -/
def verifyExchange (et : ExchangeTransaction) (b : Blockchain)
    (matcherScriptOpt : Option Script) : Validation Unit := do
  matcherEstimate b matcherScriptOpt
  matcherTxVerification et b matcherScriptOpt
  orderVerification b et.sellOrder
  orderVerification b et.buyOrder
  (exchangeAssets et).forM (assetVerification et b)

/-- The first-match dispatch of `Verifier.apply`. -/
def verifySender (b : Blockchain) (tx : Transaction) : Validation Unit :=
  match tx.sender? with
  | none => .ok ()
  | some sender =>
    match tx, b.accountScript sender.toAddress with
    | .payment p, none =>
      .cond (Crypto.verify p.signature (TxSerializer.bodyBytes tx) p.sender)
        (.InvalidSignature p.sender)
    | .exchange et, scriptOpt => verifyExchange et b scriptOpt
    | .payment _, some _ =>
      .fail (.GenericError "Can't process transaction with signature from scripted account")
    | _, some script =>
      if tx.usesLegacySignature then
        .fail (.GenericError "Can't process transaction with signature from scripted account")
      else verifyTx b script tx none
    | _, none => signatureCheck tx.proofs (TxSerializer.bodyBytes tx) sender

/-- The scripts of the assets a transaction declares, in its order. -/
def checkedScripts (b : Blockchain) (tx : Transaction) : List (Script × IssuedAsset) :=
  tx.checkedAssets.filterMap fun asset =>
    ((b.assetDescription asset).bind AssetDescription.script).map fun script => (script, asset)

/-- `Verifier.apply`: the sender, then the declared assets from the last to the
first. -/
def apply (b : Blockchain) (tx : Transaction) : Validation Unit := do
  verifySender b tx
  (checkedScripts b tx).foldr
    (fun s txr => do txr; verifyTx b s.1 tx (some s.2.id)) (.ok ())

/-! ## 2. What a passed check means -/

/-- A transaction's script `script` was run for `assetIdOpt` and answered TRUE. -/
def ScriptAllows (b : Blockchain) (script : Script) (tx : Transaction)
    (assetIdOpt : Option ByteStr) : Prop :=
  ∃ sender, tx.sender? = some sender ∧
    ScriptRunner (.tx tx) b script assetIdOpt.isSome
      (assetIdOpt.getD sender.toAddress.bytes) = .value .TRUE

theorem verifyTx_eq_ok {b : Blockchain} {script : Script} {tx : Transaction}
    {assetIdOpt : Option ByteStr} {u : Unit} :
    verifyTx b script tx assetIdOpt = .ok u ↔ ScriptAllows b script tx assetIdOpt := by
  unfold verifyTx ScriptAllows
  cases tx.sender? with
  | none => simp
  | some sender => simp

/-- **What authority over a message means.** The account that `sender` controls has
no script and the message carries exactly one proof, a valid signature of `body`; or
it has a script, the message is not of a version that only carries a signature, and
the script's run `run script` answered TRUE. -/
def Authorised (b : Blockchain) (sender : PublicKey) (proofs : Proofs) (body : ByteStr)
    (signatureOnly : Bool) (run : Script → ScriptOutcome) : Prop :=
  match b.accountScript sender.toAddress with
  | none => ∃ p, proofs.proofs = [p] ∧ Crypto.verify p body sender = true
  | some script => signatureOnly = false ∧ run script = .value .TRUE

/-- The authority a transaction needs from its sender. -/
def SenderAuthorised (b : Blockchain) (tx : Transaction) (sender : PublicKey) : Prop :=
  Authorised b sender tx.proofs (TxSerializer.bodyBytes tx)
    (match tx with
      | .payment _ => true
      | _ => tx.usesLegacySignature)
    fun script => ScriptRunner (.tx tx) b script false sender.toAddress.bytes

/-- The authority an order needs from its sender. -/
def OrderAuthorised (b : Blockchain) (o : Order) : Prop :=
  Authorised b o.sender o.proofs (TxSerializer.orderBodyBytes o) (o.version == 1)
    fun script => ScriptRunner (.order o) b script false o.sender.toAddress.bytes

theorem verifyTx_none_eq_ok {b : Blockchain} {script : Script} {tx : Transaction}
    {sender : PublicKey} {u : Unit} (hs : tx.sender? = some sender)
    (h : verifyTx b script tx none = .ok u) :
    ScriptRunner (.tx tx) b script false sender.toAddress.bytes = .value .TRUE := by
  obtain ⟨s, hs', hrun⟩ := verifyTx_eq_ok.mp h
  rw [hs] at hs'
  cases hs'
  exact hrun

theorem orderVerification_authorised {b : Blockchain} {o : Order} {u : Unit}
    (h : orderVerification b o = .ok u) : OrderAuthorised b o := by
  unfold OrderAuthorised Authorised
  unfold orderVerification at h
  cases hscript : b.accountScript o.sender.toAddress with
  | none =>
    rw [hscript] at h
    exact signatureCheck_eq_ok.mp h
  | some script =>
    rw [hscript] at h
    by_cases hv : o.version = 1
    · simp [hv] at h
    · simp only [ne_eq, hv, not_false_eq_true, if_true] at h
      refine ⟨by simpa using hv, ?_⟩
      unfold verifyOrder at h
      cases he : Ride.estimate script b.estimator with
      | error e => simp [he] at h
      | ok c => simpa [he] using h

theorem matcherTxVerification_authorised {b : Blockchain} {et : ExchangeTransaction} {u : Unit}
    (h : matcherTxVerification et b (b.accountScript et.sender.toAddress) = .ok u) :
    SenderAuthorised b (.exchange et) et.sender := by
  unfold SenderAuthorised Authorised
  unfold matcherTxVerification at h
  cases hscript : b.accountScript et.sender.toAddress with
  | none =>
    rw [hscript] at h
    exact signatureCheck_eq_ok.mp h
  | some script =>
    rw [hscript] at h
    by_cases hv : et.version = 1
    · simp [hv] at h
    · simp only [ne_eq, hv, not_false_eq_true, if_true] at h
      refine ⟨?_, verifyTx_none_eq_ok rfl h⟩
      simpa [Transaction.usesLegacySignature, Transaction.version?, Transaction.isSigProofsSwitch]
        using hv

/-- The four links of an exchange's verification, apart from the estimate. -/
theorem verifyExchange_eq_ok {b : Blockchain} {et : ExchangeTransaction}
    {scriptOpt : Option Script} {u : Unit} (h : verifyExchange et b scriptOpt = .ok u) :
    matcherTxVerification et b scriptOpt = .ok () ∧
      orderVerification b et.sellOrder = .ok () ∧
      orderVerification b et.buyOrder = .ok () ∧
      (exchangeAssets et).forM (assetVerification et b) = .ok () := by
  unfold verifyExchange at h
  obtain ⟨⟨⟩, -, h⟩ := Validation.bind_eq_ok.mp h
  obtain ⟨⟨⟩, hm, h⟩ := Validation.bind_eq_ok.mp h
  obtain ⟨⟨⟩, hs, h⟩ := Validation.bind_eq_ok.mp h
  obtain ⟨⟨⟩, hb, h⟩ := Validation.bind_eq_ok.mp h
  exact ⟨hm, hs, hb, h⟩

theorem verifySender_authorised {b : Blockchain} {tx : Transaction} {sender : PublicKey}
    {u : Unit} (hs : tx.sender? = some sender) (h : verifySender b tx = .ok u) :
    SenderAuthorised b tx sender := by
  unfold verifySender at h
  rw [hs] at h
  dsimp only at h
  cases tx with
  | genesis tx => simp [Transaction.sender?] at hs
  | payment p =>
    obtain rfl : p.sender = sender := by simpa [Transaction.sender?] using hs
    unfold SenderAuthorised Authorised
    cases hscript : b.accountScript p.sender.toAddress with
    | none =>
      simp only [hscript, Validation.cond_eq_ok] at h
      exact ⟨p.signature, rfl, h⟩
    | some script => simp [hscript] at h
  | exchange et =>
    obtain rfl : et.sender = sender := by simpa [Transaction.sender?] using hs
    exact matcherTxVerification_authorised (verifyExchange_eq_ok h).1
  | _ =>
    -- every other type: a signature without a script, a run of the script with one
    all_goals
      unfold SenderAuthorised Authorised
      cases hscript : b.accountScript sender.toAddress with
      | none =>
        simp only [hscript] at h
        exact signatureCheck_eq_ok.mp h
      | some script =>
        simp only [hscript] at h
        split at h
        · simp at h
        · rename_i hlegacy
          exact ⟨by simpa using hlegacy, verifyTx_none_eq_ok hs h⟩

/-- The two parts of an accepted transaction: the sender's check, then the run of
every declared asset's script. -/
theorem apply_eq_ok {b : Blockchain} {tx : Transaction} {u : Unit} (h : apply b tx = .ok u) :
    verifySender b tx = .ok () ∧
      ∀ s ∈ checkedScripts b tx, ScriptAllows b s.1 tx (some s.2.id) := by
  obtain ⟨⟨⟩, hsender, hassets⟩ := Validation.bind_eq_ok.mp h
  refine ⟨hsender, ?_⟩
  clear h hsender
  generalize checkedScripts b tx = scripts at hassets
  induction scripts generalizing u with
  | nil => simp
  | cons s rest ih =>
    obtain ⟨⟨⟩, hrest, hs⟩ := Validation.bind_eq_ok.mp hassets
    intro t ht
    rcases List.mem_cons.mp ht with rfl | ht
    · exact verifyTx_eq_ok.mp hs
    · exact ih hrest t ht

/-! ## 3. Authorisation -/

/-- **Authorisation.** An accepted transaction shows the authority of its sender,
and an accepted exchange shows, each on its own, the authority of the matcher and of
the senders of both orders. Only a genesis transaction has no sender to show it. -/
theorem apply_authorised (b : Blockchain) (tx : Transaction) (h : apply b tx = .ok ()) :
    (∀ sender, tx.sender? = some sender → SenderAuthorised b tx sender) ∧
      ∀ et, tx = .exchange et → OrderAuthorised b et.buyOrder ∧ OrderAuthorised b et.sellOrder := by
  obtain ⟨hsender, -⟩ := apply_eq_ok h
  refine ⟨fun sender hs => verifySender_authorised hs hsender, ?_⟩
  rintro et rfl
  obtain ⟨-, hsell, hbuy, -⟩ := verifyExchange_eq_ok hsender
  exact ⟨orderVerification_authorised hbuy, orderVerification_authorised hsell⟩

/-- A sender whose account holds a contract without a verifier has still signed. -/
theorem SenderAuthorised.signed_of_noVerifier {b : Blockchain} {tx : Transaction}
    {sender : PublicKey} {script : Script} (hs : tx.sender? = some sender)
    (h : SenderAuthorised b tx sender) (hscript : b.accountScript sender.toAddress = some script)
    (hkind : script.expr = .dApp false) :
    ∃ p, tx.proofs.proofs = [p] ∧ Crypto.verify p (TxSerializer.bodyBytes tx) sender = true := by
  unfold SenderAuthorised Authorised at h
  rw [hscript] at h
  obtain ⟨s, p, hs', hp, hv⟩ := ScriptRunner_noVerifier_tx hkind h.2
  rw [hs] at hs'
  cases hs'
  exact ⟨p, hp, hv⟩

end Verifier

/-! ## 4. An accepted transaction

Alice sends Bob a Waves on an empty chain, and signs. -/

namespace Devnet

def transferToBob : TransferTransaction where
  version := 1
  sender := alice.publicKey
  recipient := .address bob.address
  assetId := .Waves
  amount := 100000000
  feeAssetId := .Waves
  fee := 100000
  attachment := []
  timestamp := 1500000000000
  proofs := ⟨[bytes 64
    0x39f441fcae8561b6a2165ffee83e20a03bc8aadbbd5d00c86eb65aa46a45bf37571c02d336be3e1a6ff02cede367d2fd09c4beab6238acce8b1bed238739dd8d]⟩

def transferToBobBody : ByteStr :=
  bytes 87 0x042e8b2883c27b391359d7d0c15d00815a6693290a38dd8eba341cc07ddaa8ed4d00000000015d3ef798000000000005f5e10000000000000186a00154aa259a33e350952c45254e402badc9b74c47e88d2cdd1ded0000

def transferToBobAnswers : KnownAnswers where
  digests := [(transferToBobBody,
    bytes 32 0x6833c75b36f6ff6d9b6e8665a1b965d0e22ff13ea7c5e1073423f6382f1ac00f)]
  signatures := [⟨alice.publicKey, transferToBobBody,
    bytes 64 0x39f441fcae8561b6a2165ffee83e20a03bc8aadbbd5d00c86eb65aa46a45bf37571c02d336be3e1a6ff02cede367d2fd09c4beab6238acce8b1bed238739dd8d⟩]

end Devnet

section
open Devnet

local instance transferToBobCrypto : Crypto := transferToBobAnswers.crypto
local instance transferToBobSerializer : PBTransactionSerializer := pbTransactionSerializer
local instance transferToBobRide : Ride := transferToBobAnswers.ride

theorem Verifier.apply_authorised_transferToBob :
    (∀ sender, (Transaction.transfer transferToBob).sender? = some sender →
        Verifier.SenderAuthorised (Blockchain.empty (settings [])) (.transfer transferToBob)
          sender) ∧
      ∀ et, Transaction.transfer transferToBob = .exchange et →
        Verifier.OrderAuthorised (Blockchain.empty (settings [])) et.buyOrder ∧
          Verifier.OrderAuthorised (Blockchain.empty (settings [])) et.sellOrder :=
  Verifier.apply_authorised (Blockchain.empty (settings [])) (.transfer transferToBob)
    (Validation.eq_ok_of_toBool (by decide +kernel))

end

end WavesNode
