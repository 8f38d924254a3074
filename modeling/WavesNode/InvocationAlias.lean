/-
A call by the alias of a contract, and the same call by its address.

The recipient of a call is resolved once, and payments, transfers and data go to the address
it stands for. The bytes of the recipient as the transaction has it are handed on beside: the
environment and the invocation have them for `this`, and the pseudo-transactions that asset
scripts are shown have them for the sender. An alias is not the address, and a script that
looks may answer otherwise.

Where every script answers alike, the two calls have the same verdict and the same changes
(`apply_byAddress`). Which answers are asked follows the fold over the actions: each asset
script is run on the ledger with the changes before, and the two calls are recorded there
under their own ids.
-/
import WavesNode.ActionSequences

set_option autoImplicit false

namespace WavesNode

/-! ## 1. The same outcome -/

/-- The same changes: what is filed under the id of the call aside, everything. -/
structure Diff.SameChanges (d d' : Diff) : Prop where
  portfolios : d.portfolios = d'.portfolios
  issuedAssets : d.issuedAssets = d'.issuedAssets
  aliases : d.aliases = d'.aliases
  orderFills : d.orderFills = d'.orderFills
  leaseState : d.leaseState = d'.leaseState
  scripts : d.scripts = d'.scripts
  assetScripts : d.assetScripts = d'.assetScripts
  accountData : d.accountData = d'.accountData
  sponsorship : d.sponsorship = d'.sponsorship
  scriptsRun : d.scriptsRun = d'.scriptsRun
  scriptsComplexity : d.scriptsComplexity = d'.scriptsComplexity

theorem Diff.SameChanges.refl (d : Diff) : d.SameChanges d :=
  ⟨rfl, rfl, rfl, rfl, rfl, rfl, rfl, rfl, rfl, rfl, rfl⟩

/-- The changes of a combination come from the changes combined. -/
theorem Diff.SameChanges.combine {d₁ d₁' d₂ d₂' : Diff} (h₁ : d₁.SameChanges d₁')
    (h₂ : d₂.SameChanges d₂') : (d₁.combine d₂).SameChanges (d₁'.combine d₂') := by
  constructor
  all_goals dsimp only [Diff.combine]
  · rw [h₁.portfolios, h₂.portfolios]
  · rw [h₁.issuedAssets, h₂.issuedAssets]
  · rw [h₁.aliases, h₂.aliases]
  · rw [h₁.orderFills, h₂.orderFills]
  · rw [h₁.leaseState, h₂.leaseState]
  · rw [h₁.scripts, h₂.scripts]
  · rw [h₁.assetScripts, h₂.assetScripts]
  · rw [h₁.accountData, h₂.accountData]
  · rw [h₁.sponsorship, h₂.sponsorship]
  · rw [h₁.scriptsRun, h₂.scriptsRun]
  · rw [h₁.scriptsComplexity, h₂.scriptsComplexity]

namespace Validation

variable {α β : Type}

/-- The same verdict, and values that agree: what is refused is refused, and what throws
throws. -/
inductive Agree (R : α → β → Prop) : Validation α → Validation β → Prop
  | ok {a : α} {b : β} (h : R a b) : Agree R (.ok a) (.ok b)
  | refused (e e' : ValidationError) : Agree R (.error (.error e)) (.error (.error e'))
  | thrown (m m' : String) : Agree R (.error (.thrown m)) (.error (.thrown m'))

theorem Agree.refl {R : α → α → Prop} (h : ∀ a, R a a) (x : Validation α) : Agree R x x := by
  rcases x with (e | m) | a
  · exact .refused e e
  · exact .thrown m m
  · exact .ok (h a)

/-- Chains agree whose links do. -/
theorem Agree.bind {γ δ : Type} {R : α → β → Prop} {S : γ → δ → Prop} {x : Validation α}
    {y : Validation β} {f : α → Validation γ} {g : β → Validation δ} (h : Agree R x y)
    (hf : ∀ a b, x = .ok a → y = .ok b → R a b → Agree S (f a) (g b)) :
    Agree S (x >>= f) (y >>= g) := by
  cases h with
  | ok hR => exact hf _ _ rfl rfl hR
  | refused e e' => exact .refused e e'
  | thrown m m' => exact .thrown m m'

end Validation

open Validation

namespace InvokeScriptTransactionDiff

section
variable [Crypto] [PBTransactionSerializer] [Ride]

/-! ## 2. The two calls -/

omit [Crypto] [PBTransactionSerializer] [Ride] in
/-- The same call of the contract at an address, with proofs of its own. -/
def byAddress (tx : InvokeScriptTransaction) (dAppAddress : Address) (proofs : Proofs) :
    InvokeScriptTransaction :=
  { tx with dAppAddressOrAlias := .address dAppAddress, proofs := proofs }

/-- The run of the contract, on the payments as they are attached. -/
def contractRun (b : Blockchain) (script : Script) (tx : InvokeScriptTransaction) :
    Except String (List CallableAction) :=
  Ride.invoke b.environment script (.invokeScript tx)
    { funcCall := tx.funcCallOpt
      caller := tx.sender.toAddress
      callerPk := tx.sender
      payments := tx.payments
      dappAddress := tx.dAppAddressOrAlias.bytes
      transactionId := (Transaction.invokeScript tx).id
      fee := tx.fee
      feeAssetId := tx.feeAssetId.compatId }

/-- What the contract answers to a call; an error is no answer. -/
def contractAnswer (b : Blockchain) (script : Script) (tx : InvokeScriptTransaction) :
    Option (List CallableAction) :=
  (contractRun b script tx).toOption

/-- The pseudo-transaction of an action, with the asset whose script is shown it. -/
def pseudoTxOf (tx : InvokeScriptTransaction) : CallableAction → Option (PseudoTx × ByteStr)
  | .transfer t => t.assetId.map fun assetId =>
    (.scriptTransfer ⟨t.assetId, tx.dAppAddressOrAlias.bytes, t.recipient, t.amount, tx.timestamp,
      (Transaction.invokeScript tx).id⟩, assetId)
  | .reissue r => some (.reissue r tx.dAppAddressOrAlias.bytes (Transaction.invokeScript tx).id
      tx.timestamp, r.assetId)
  | .burn r => some (.burn r tx.dAppAddressOrAlias.bytes (Transaction.invokeScript tx).id
      tx.timestamp, r.assetId)
  | _ => none

/-- The script of the asset of an action, if there is one, allows the action on the ledger with
some changes. -/
def AssetAllows (b : Blockchain) (tx : InvokeScriptTransaction) (acc : Diff)
    (action : CallableAction) : Prop :=
  ∀ pseudoTx assetId script, pseudoTxOf tx action = some (pseudoTx, assetId) →
    b.assetScript ⟨assetId⟩ = some script →
    ScriptRunner (.pseudoTx pseudoTx) (CompositeBlockchain b (some acc)) script true
      (if b.passCorrectAssetId then assetId else tx.dAppAddressOrAlias.bytes) = .value .TRUE

/-- The asset scripts answer alike to the actions of two calls, one after another. -/
def AssetsAlike (b : Blockchain) (blockTime : Long) (dAppAddress : Address)
    (tx tx' : InvokeScriptTransaction) : Diff → Diff → List CallableAction → Prop
  | _, _, [] => True
  | acc, acc', action :: rest =>
    (AssetAllows b tx acc action ↔ AssetAllows b tx' acc' action) ∧
      ∀ d d', applyAction b blockTime tx dAppAddress (.ok acc) action = .ok d →
        applyAction b blockTime tx' dAppAddress (.ok acc') action = .ok d' →
        AssetsAlike b blockTime dAppAddress tx tx' (acc.combine d) (acc'.combine d') rest

/-- Every script that two calls run answers alike: the contract, and then the scripts of the
assets it transfers, reissues and burns. -/
structure ScriptsAlike (b : Blockchain) (blockTime : Long) (dAppAddress : Address)
    (tx tx' : InvokeScriptTransaction) : Prop where
  contract : ∀ script, b.accountScript dAppAddress = some script →
    contractAnswer b script tx = contractAnswer b script tx'
  assets : ∀ script actions wavesFee feePart, b.accountScript dAppAddress = some script →
    contractAnswer b script tx = some actions → feeInfo b tx = .ok (wavesFee, feePart) →
    AssetsAlike b blockTime dAppAddress tx tx' (paymentsPart tx dAppAddress feePart)
      (paymentsPart tx' dAppAddress feePart) actions

/-! ## 3. The fold -/

/-- An asset script allows its action or refuses it; its exceptions are caught. -/
theorem validatePseudoTx_cases (b : Blockchain) (tx : InvokeScriptTransaction) (acc : Diff)
    (pseudoTx : PseudoTx) (assetId : ByteStr) (script : Script) :
    (ScriptRunner (.pseudoTx pseudoTx) (CompositeBlockchain b (some acc)) script true
        (if b.passCorrectAssetId then assetId else tx.dAppAddressOrAlias.bytes) = .value .TRUE ∧
      validatePseudoTxWithSmartAssetScript b tx acc pseudoTx assetId script = .ok ()) ∨
    (ScriptRunner (.pseudoTx pseudoTx) (CompositeBlockchain b (some acc)) script true
        (if b.passCorrectAssetId then assetId else tx.dAppAddressOrAlias.bytes) ≠ .value .TRUE ∧
      ∃ e, validatePseudoTxWithSmartAssetScript b tx acc pseudoTx assetId script =
        .error (.error e)) := by
  unfold validatePseudoTxWithSmartAssetScript
  dsimp only
  rcases ScriptRunner (.pseudoTx pseudoTx) (CompositeBlockchain b (some acc)) script true
    (if b.passCorrectAssetId then assetId else tx.dAppAddressOrAlias.bytes) with
    (_ | _ | other) | e | m
  · exact .inl ⟨rfl, rfl⟩
  · exact .inr ⟨by simp, _, rfl⟩
  · exact .inr ⟨by simp, _, rfl⟩
  · exact .inr ⟨by simp, _, rfl⟩
  · exact .inr ⟨by simp, _, rfl⟩

theorem agree_validateAction {b : Blockchain} {tx tx' : InvokeScriptTransaction}
    {x x' : Validation Diff} (action : CallableAction) {pseudoTx pseudoTx' : PseudoTx}
    {assetId : ByteStr} (hx : Agree Diff.SameChanges x x')
    (hallows : ∀ acc acc', x = .ok acc → x' = .ok acc' →
      (AssetAllows b tx acc action ↔ AssetAllows b tx' acc' action))
    (hpseudo : pseudoTxOf tx action = some (pseudoTx, assetId))
    (hpseudo' : pseudoTxOf tx' action = some (pseudoTx', assetId)) :
    Agree (fun _ _ => True) (validateAction b tx x pseudoTx ⟨assetId⟩)
      (validateAction b tx' x' pseudoTx' ⟨assetId⟩) := by
  unfold validateAction
  rcases hscript : b.assetScript ⟨assetId⟩ with _ | script
  · exact .ok trivial
  dsimp only
  cases hx with
  | refused e e' => exact .refused e e'
  | thrown m m' => exact .thrown m m'
  | @ok acc acc' hsame =>
    have hallowed : ∀ {tx : InvokeScriptTransaction} {acc : Diff} {pseudoTx : PseudoTx},
        pseudoTxOf tx action = some (pseudoTx, assetId) → (AssetAllows b tx acc action ↔
          ScriptRunner (.pseudoTx pseudoTx) (CompositeBlockchain b (some acc)) script true
            (if b.passCorrectAssetId then assetId else tx.dAppAddressOrAlias.bytes) =
              .value .TRUE) := by
      intro tx acc pseudoTx hpseudo
      constructor
      · intro h
        exact h pseudoTx assetId script hpseudo hscript
      · intro htrue p id s hp hs
        rw [hpseudo] at hp
        cases hp
        rw [hscript] at hs
        cases hs
        exact htrue
    have hiff := hallows acc acc' rfl rfl
    rw [hallowed hpseudo, hallowed hpseudo'] at hiff
    rw [Validation.ok_bind, Validation.ok_bind]
    rcases validatePseudoTx_cases b tx acc pseudoTx assetId script with ⟨htrue, hok⟩ | ⟨hne, e, he⟩
    · rcases validatePseudoTx_cases b tx' acc' pseudoTx' assetId script with
        ⟨-, hok'⟩ | ⟨hne', -⟩
      · rw [hok, hok']
        exact .ok trivial
      · exact absurd (hiff.mp htrue) hne'
    · rcases validatePseudoTx_cases b tx' acc' pseudoTx' assetId script with
        ⟨htrue', -⟩ | ⟨-, e', he'⟩
      · exact absurd (hiff.mpr htrue') hne
      · rw [he, he']
        exact .refused e e'

/-- One action, on the changes before it. -/
theorem agree_applyAction {b : Blockchain} {blockTime : Long} {dAppAddress : Address}
    {tx tx' : InvokeScriptTransaction} {x x' : Validation Diff} (action : CallableAction)
    (hx : Agree Diff.SameChanges x x')
    (hallows : ∀ acc acc', x = .ok acc → x' = .ok acc' →
      (AssetAllows b tx acc action ↔ AssetAllows b tx' acc' action)) :
    Agree Diff.SameChanges (applyAction b blockTime tx dAppAddress x action)
      (applyAction b blockTime tx' dAppAddress x' action) := by
  cases action with
  | transfer t =>
    refine (Agree.refl (R := Eq) (fun _ => rfl) _).bind ?_
    rintro address _ - - rfl
    obtain ⟨recipient, amount, assetId⟩ := t
    cases assetId with
    | none => exact .ok (Diff.SameChanges.refl _)
    | some id =>
      refine (agree_validateAction _ hx hallows rfl rfl).bind fun _ _ _ _ _ => ?_
      exact .ok (Diff.SameChanges.refl _)
  | dataItem d => exact .ok (Diff.SameChanges.refl _)
  | issue => exact .thrown _ _
  | reissue r =>
    refine (Agree.refl (R := Eq) (fun _ => rfl) _).bind ?_
    rintro d _ - - rfl
    refine (agree_validateAction _ hx hallows rfl rfl).bind fun _ _ _ _ _ => ?_
    exact .ok (Diff.SameChanges.refl d)
  | burn r =>
    refine (Agree.refl (R := Eq) (fun _ => rfl) _).bind ?_
    rintro d _ - - rfl
    refine (agree_validateAction _ hx hallows rfl rfl).bind fun _ _ _ _ _ => ?_
    exact .ok (Diff.SameChanges.refl d)

omit [Crypto] [PBTransactionSerializer] [Ride] in
theorem agree_combineTraced {x x' y y' : Validation Diff} (hx : Agree Diff.SameChanges x x')
    (hy : Agree Diff.SameChanges y y') :
    Agree Diff.SameChanges (combineTraced x y) (combineTraced x' y') := by
  cases hx with
  | thrown m m' => exact .thrown m m'
  | refused e e' =>
    cases hy with
    | thrown m m' => exact .thrown m m'
    | refused _ _ => exact .refused e e'
    | ok _ => exact .refused e e'
  | ok hacc =>
    cases hy with
    | thrown m m' => exact .thrown m m'
    | refused e e' => exact .refused e e'
    | ok hd => exact .ok (hacc.combine hd)

/-- The fold over the actions, from changes that agree. -/
theorem agree_foldl {b : Blockchain} {blockTime : Long} {dAppAddress : Address}
    {tx tx' : InvokeScriptTransaction} {actions : List CallableAction} {x x' : Validation Diff}
    (hx : Agree Diff.SameChanges x x')
    (halike : ∀ acc acc', x = .ok acc → x' = .ok acc' →
      AssetsAlike b blockTime dAppAddress tx tx' acc acc' actions) :
    Agree Diff.SameChanges
      (actions.foldl (fun diffAcc action =>
        combineTraced diffAcc (applyAction b blockTime tx dAppAddress diffAcc action)) x)
      (actions.foldl (fun diffAcc action =>
        combineTraced diffAcc (applyAction b blockTime tx' dAppAddress diffAcc action)) x') := by
  induction actions generalizing x x' with
  | nil => exact hx
  | cons action rest ih =>
    have haction : Agree Diff.SameChanges (applyAction b blockTime tx dAppAddress x action)
        (applyAction b blockTime tx' dAppAddress x' action) :=
      agree_applyAction action hx fun acc acc' hacc hacc' => (halike acc acc' hacc hacc').1
    rw [List.foldl_cons, List.foldl_cons]
    refine ih (agree_combineTraced hx haction) ?_
    -- the next action is asked about on what the accepted ones add up to
    intro next next' hnext hnext'
    obtain ⟨acc, d, rfl, hd, rfl⟩ := combineTraced_eq_ok.mp hnext
    obtain ⟨acc', d', rfl, hd', rfl⟩ := combineTraced_eq_ok.mp hnext'
    exact (halike acc acc' rfl rfl).2 d d' hd hd'

/-! ## 4. The whole call -/

theorem runContract_eq {b : Blockchain} {script : Script} {tx : InvokeScriptTransaction}
    {payments : List Payment} {complexity : Long}
    (hpayments : extractPayments tx script.stdLibVersion b.allowsMultiPayment = .ok payments)
    (hcomplexity : b.invocationComplexity script tx.funcCallOpt = .ok complexity) :
    runContract b script tx = (contractRun b script tx).map fun actions => (actions, complexity) := by
  have hsame : payments = tx.payments := by
    unfold extractPayments at hpayments
    split_ifs at hpayments
    · exact (Except.ok.inj hpayments).symm
    · exact (Except.ok.inj hpayments).symm
  subst hsame
  unfold runContract contractRun
  rw [hpayments, hcomplexity]
  rfl

/-- The contract fails for both calls, or it gives both the same actions. -/
theorem runContract_cases {b : Blockchain} {script : Script} {tx : InvokeScriptTransaction}
    {dAppAddress : Address} {proofs : Proofs}
    (h : contractAnswer b script tx = contractAnswer b script (byAddress tx dAppAddress proofs)) :
    (∃ m m', runContract b script tx = .error m ∧
      runContract b script (byAddress tx dAppAddress proofs) = .error m') ∨
    ∃ actions complexity, runContract b script tx = .ok (actions, complexity) ∧
      runContract b script (byAddress tx dAppAddress proofs) = .ok (actions, complexity) ∧
      contractAnswer b script tx = some actions := by
  rcases hpayments : extractPayments tx script.stdLibVersion b.allowsMultiPayment with m | payments
  · refine .inl ⟨m, m, ?_, ?_⟩
    · rw [runContract, hpayments]
      rfl
    · have hpayments' : extractPayments (byAddress tx dAppAddress proofs) script.stdLibVersion
          b.allowsMultiPayment = .error m := hpayments
      rw [runContract, hpayments']
      rfl
  rcases hcomplexity : b.invocationComplexity script tx.funcCallOpt with m | complexity
  · refine .inl ⟨m, m, ?_, ?_⟩
    · rw [runContract, hpayments, hcomplexity]
      rfl
    · have hpayments' : extractPayments (byAddress tx dAppAddress proofs) script.stdLibVersion
          b.allowsMultiPayment = .ok payments := hpayments
      have hcomplexity' : b.invocationComplexity script
          (byAddress tx dAppAddress proofs).funcCallOpt = .error m := hcomplexity
      rw [runContract, hpayments', hcomplexity']
      rfl
  have hrun' : runContract b script (byAddress tx dAppAddress proofs) =
      (contractRun b script (byAddress tx dAppAddress proofs)).map
        fun actions => (actions, complexity) := runContract_eq hpayments hcomplexity
  rw [runContract_eq hpayments hcomplexity, hrun']
  unfold contractAnswer at h ⊢
  rcases hleft : contractRun b script tx with m | actions
  · rcases hright : contractRun b script (byAddress tx dAppAddress proofs) with m' | actions'
    · exact .inl ⟨m, m', rfl, rfl⟩
    · rw [hleft, hright] at h
      cases h
  · rcases hright : contractRun b script (byAddress tx dAppAddress proofs) with m' | actions'
    · rw [hleft, hright] at h
      cases h
    · rw [hleft, hright] at h
      obtain rfl := Option.some.inj h
      exact .inr ⟨actions, complexity, rfl, rfl, rfl⟩

/-- The changes of a call whose contract answered. -/
theorem agree_ofActions {b : Blockchain} {blockTime : Long} {tx : InvokeScriptTransaction}
    {dAppAddress : Address} {proofs : Proofs} {actions : List CallableAction} {complexity : Long}
    (h : ∀ wavesFee feePart, feeInfo b tx = .ok (wavesFee, feePart) →
      AssetsAlike b blockTime dAppAddress tx (byAddress tx dAppAddress proofs)
        (paymentsPart tx dAppAddress feePart)
        (paymentsPart (byAddress tx dAppAddress proofs) dAppAddress feePart) actions) :
    Agree Diff.SameChanges (ofActions b blockTime tx dAppAddress actions complexity)
      (ofActions b blockTime (byAddress tx dAppAddress proofs) dAppAddress actions complexity) := by
  unfold ofActions
  refine (Agree.refl (R := Eq) (fun _ => rfl) (checkActions b tx dAppAddress actions)).bind ?_
  rintro _ _ - - -
  refine (Agree.refl (R := Eq) (fun _ => rfl) (feeInfo b tx)).bind ?_
  rintro ⟨wavesFee, feePart⟩ _ hfee - rfl
  refine (Agree.refl (R := Eq) (fun _ => rfl) (scriptsInvoked b tx actions wavesFee)).bind ?_
  rintro invoked _ - - rfl
  have hpart : (paymentsPart tx dAppAddress feePart).SameChanges
      (paymentsPart (byAddress tx dAppAddress proofs) dAppAddress feePart) :=
    ⟨rfl, rfl, rfl, rfl, rfl, rfl, rfl, rfl, rfl, rfl, rfl⟩
  have hfold : Agree Diff.SameChanges
      (foldActions b blockTime tx dAppAddress actions (paymentsPart tx dAppAddress feePart))
      (foldActions b blockTime (byAddress tx dAppAddress proofs) dAppAddress actions
        (paymentsPart (byAddress tx dAppAddress proofs) dAppAddress feePart)) := by
    refine agree_foldl (.ok hpart) ?_
    intro acc acc' hacc hacc'
    rw [← Except.ok.inj hacc, ← Except.ok.inj hacc']
    exact h wavesFee feePart hfee
  refine hfold.bind fun d d' _ _ hd => .ok ?_
  exact ⟨hd.portfolios, hd.issuedAssets, hd.aliases, hd.orderFills, hd.leaseState, hd.scripts,
    hd.assetScripts, hd.accountData, hd.sponsorship, rfl, rfl⟩

end

end InvokeScriptTransactionDiff

/-! ## 5. A contract that writes who it is

Alice's account is a contract and has an alias. The contract has one function, which writes
`this.bytes` as data; a call without a function does nothing. Bob calls it by the alias. -/

namespace Devnet

def contractAlias : Alias := ⟨chainId, "contract"⟩

def contractAliasTx : CreateAliasTransaction where
  version := 1
  sender := alice.publicKey
  «alias» := contractAlias
  fee := 100000
  timestamp := 1499999960000
  proofs := ⟨[bytes 64
    0x68721e189ec29b396d42910047be061b5044b07279b614c56576d7c4042e59eb08474b15845dbcebccfcd457d908e28c5b1129259b488f8e970a2cfacb841a8a]⟩

def contractAliasBody : ByteStr :=
  bytes 63 0x0a2e8b2883c27b391359d7d0c15d00815a6693290a38dd8eba341cc07ddaa8ed4d000c02540008636f6e747261637400000000000186a00000015d3ef6fbc0

def aliasBlock : Block :=
  { emptyBlock with
    signature := bytes 64
      0x19167cc95005674f883b1d3cade35eef2b823f32bd133b67faec83bc0e5c76ec6f34e8b8cb70a6bab7d48b36b86dd66b5957ce54a0081cb87b416447b3f03b82
    transactionData := [.createAlias contractAliasTx, .setScript contractScript] }

def aliasBlockBytes : ByteStr :=
  bytes 423 0x030000015d3ef6fbc0813668d47528909acf62aeeba30294f9418c2e97172d3ba7c6b151db7b59017729e5dcdad233de6207ec6c23997c1e53e839c715225de43d375043d5b398e688000000280000000009299ff340328d507794ee8ca0f9169b6e221a1409677d18dc99c0d1674574ccf69aceb90000010a000000020000007f0a2e8b2883c27b391359d7d0c15d00815a6693290a38dd8eba341cc07ddaa8ed4d000c02540008636f6e747261637400000000000186a00000015d3ef6fbc068721e189ec29b396d42910047be061b5044b07279b614c56576d7c4042e59eb08474b15845dbcebccfcd457d908e28c5b1129259b488f8e970a2cfacb841a8a0000007f000d01542e8b2883c27b391359d7d0c15d00815a6693290a38dd8eba341cc07ddaa8ed4d01000300020400000000000f42400000015d3ef6fbc0010001004094af320e3e0b21c217ce880ed3862e69782bcf4f635a285cfcd3da8ab6144b617ef703cd38b0035d206fbefc3c09fa4504fd90ec001991aeb2124acdf04c428c000000001885844ed84c86501cd2221627f1d16cd4c60530e5415e1bf6cab037b054f150

/-- A call by the alias. -/
def aliasCall (call : Option FunctionCall) : InvokeScriptTransaction :=
  { contractCall with dAppAddressOrAlias := .alias contractAlias, funcCallOpt := call }

def selfCall : FunctionCall := ⟨.User "self", []⟩

/-- The platform that knows the block and the four calls. -/
def aliasAnswers : KnownAnswers :=
  firstBlocks.and
    { digests :=
        [((10 : Byte) :: contractAlias.bytes,
            bytes 32 0x174b19be6068baad54617cc1028249549ec689309142b8c0651853aa3f4db2d8),
          (contractScriptBody,
            bytes 32 0xa234b7028eec35b5f174210d7cb39de4482f2597d4c5fb6ee25c2b448f4823c6),
          (contractCallBody,
            bytes 32 0xd4d70db45d18585990ee17b339620660865c80b9008ca56b0bb7dbb51434ccd4),
          (bytes 67 0x100154c0b126b5aa134b84e64625256b8de8973787612b1f3839d2c60526d2114e886d02540008636f6e7472616374000000000000000007a120000000015d3ef79800,
            bytes 32 0x905deec8566e2a825ef64719d5b1d32c7152b19a6f4d2aa534e1b1a727e2fed2),
          (bytes 81 0x100154c0b126b5aa134b84e64625256b8de8973787612b1f3839d2c60526d2114e886d02540008636f6e74726163740109010000000473656c66000000000000000000000007a120000000015d3ef79800,
            bytes 32 0x195d899ac0a2459e806231d7470cd6c43c870d53d474703bb9ff166b4e39a5f5),
          (bytes 95 0x100154c0b126b5aa134b84e64625256b8de8973787612b1f3839d2c60526d2114e886d0154ea58e2539eb41410f8873ff020608b0c8325427feaaacd730109010000000473656c66000000000000000000000007a120000000015d3ef79800,
            bytes 32 0x3cf360bbe4191880003414f1d2766379b998078c8b18e0663d1d1a72dc732364)]
      signatures :=
        [⟨alice.publicKey, contractAliasBody, contractAliasTx.proofs.proofs.headD []⟩,
          ⟨alice.publicKey, contractScriptBody, contractScript.proofs.proofs.headD []⟩,
          ⟨miner.publicKey, aliasBlockBytes, aliasBlock.signature⟩]
      blocks := [(aliasBlock, aliasBlockBytes)] }

end Devnet

section
open Devnet BlockchainUpdaterImpl InvokeScriptTransactionDiff

local instance aliasCrypto : Crypto := aliasAnswers.crypto
local instance aliasSerializer : PBTransactionSerializer := pbTransactionSerializer
local instance aliasBlocks : BlockSerializer := aliasAnswers.blockSerializer

/-- The contract's function writes `this.bytes`. -/
local instance aliasRide : Ride :=
  { aliasAnswers.ride with
    invoke := fun _ _ _ invocation =>
      .ok (if invocation.funcCall.isNone then []
        else [.dataItem ⟨"self", .Binary invocation.dappAddress, none⟩]) }

namespace Devnet

/-- The node after the alias and the contract. -/
def aliasNode : Validation BlockchainUpdaterImpl :=
  (ofBlockchain (Blockchain.initial contractSettings)).processBlocks [genesisBlock, aliasBlock]

def aliasLedger : Blockchain :=
  (aliasNode >>= ledger).toOption.getD (Blockchain.initial contractSettings)

/-- What a call writes under Alice's key `self`, if it is accepted. -/
def selfWritten (tx : InvokeScriptTransaction) : Option (Option DataEntry) :=
  (InvokeScriptTransactionDiff.apply aliasLedger 1500000000000 tx).toOption.map fun d =>
    (d.accountData.get? alice.address).bind fun info => info.data.get? "self"

end Devnet

theorem aliasLedger_run :
    (aliasNode >>= ledger).toOption.isSome = true ∧
      (aliasLedger.resolveAlias contractAlias).toOption = some alice.address ∧
      selfWritten (aliasCall (some selfCall)) =
        some (some ⟨"self", .Binary contractAlias.bytes, none⟩) ∧
      selfWritten (byAddress (aliasCall (some selfCall)) alice.address ⟨[]⟩) =
        some (some ⟨"self", .Binary alice.address.bytes, none⟩) := by
  decide +kernel

end

end WavesNode
