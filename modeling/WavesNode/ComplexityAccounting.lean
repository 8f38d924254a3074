/-
What the scripts of a transaction cost, against what its diff says they cost.

A block is limited by the complexity of its scripts, and the limit is held against
`scriptsComplexity` of each transaction's diff. That number is computed by three formulas,
for exchanges, for calls and for every other type, over lists of assets and accounts written
out by hand, while the scripts are run by the verifier and by the fold over a call's actions.
`TransactionDiffer.evaluations` lists the runs, in the order they are made;
`TransactionDiffer.countedComplexities` lists what the formulas add up.

The two lists are not the same. The verifier runs the scripts of an exchange's assets twice
over, once with the fee assets and once for the pair alone, and the formula counts the pair
once; a call runs the scripts of the assets it reissues and burns, and the formula counts
only those it transfers. `TransactionDiffer.accounted_iff` says what follows: the diff
accounts for every run exactly when those left out weigh nothing.
-/
import WavesNode.BlockchainUpdater
import WavesNode.InvocationAlias
import WavesNode.LiquidView
import WavesNode.TransactionDiffSpecs
import WavesNode.Verifier

set_option autoImplicit false

namespace WavesNode

/-! ## 1. Evaluations -/

/-- A run of a script: an account's, on a transaction or an order; an asset's, on a
transaction or a pseudo-transaction; a contract's, for a call. -/
inductive Evaluation where
  | account (account : Address) (input : ScriptInput)
  | asset (asset : IssuedAsset) (input : ScriptInput)
  | callable (dApp : Address) (funcCall : Option FunctionCall)

namespace Evaluation

/-- The runs that `scriptsRun` is about. -/
def isAssetOrDApp : Evaluation → Bool
  | account _ _ => false
  | asset _ _ => true
  | callable _ _ => true

/-- The complexity the ledger has recorded of what is run. -/
def complexity [Ride] (b : Blockchain) : Evaluation → Long
  | account a _ => ((b.accountScriptWithComplexity a).map Prod.snd).getD 0
  | asset x _ => ((b.assetScriptWithComplexity x).map Prod.snd).getD 0
  | callable dApp funcCall =>
    ((b.accountScript dApp).bind fun script =>
      (b.invocationComplexity script funcCall).toOption).getD 0

end Evaluation

namespace Verifier

/-- The run of an account's script, if it has one. -/
def accountRuns (b : Blockchain) (a : Address) (input : ScriptInput) : List Evaluation :=
  if (b.accountScript a).isSome then [.account a input] else []

/-- The runs of `verifyExchange`. -/
def exchangeRuns [Crypto] (b : Blockchain) (et : ExchangeTransaction) : List Evaluation :=
  accountRuns b et.sender.toAddress (.tx (.exchange et)) ++
    accountRuns b et.sellOrder.sender.toAddress (.order et.sellOrder) ++
    accountRuns b et.buyOrder.sender.toAddress (.order et.buyOrder) ++
    (((exchangeAssets et).filterMap Asset.issued?).filter fun x => (b.assetScript x).isSome).map
      fun x => .asset x (.tx (.exchange et))

/-- The runs of `Verifier.apply` on a transaction that passes it. -/
def evaluations [Crypto] (b : Blockchain) (tx : Transaction) : List Evaluation :=
  (match tx with
    | .exchange et => exchangeRuns b et
    | tx => tx.sender?.toList.flatMap fun sender => accountRuns b sender.toAddress (.tx tx)) ++
    -- the declared assets are folded over from the last to the first
    (checkedScripts b tx).reverse.map fun s => .asset s.2 (.tx tx)

end Verifier

section
variable [Crypto] [PBTransactionSerializer] [Ride]

namespace InvokeScriptTransactionDiff

/-- The actions the called contract answers with; none where there is no answer. -/
def answeredActions (b : Blockchain) (tx : InvokeScriptTransaction) (dApp : Address) :
    List CallableAction :=
  ((b.accountScript dApp).bind fun script =>
    ((runContract b script tx).map Prod.fst).toOption).getD []

omit [Ride] in
/-- The runs of `foldActions`: the script of the asset of each action that has one. -/
def actionRuns (b : Blockchain) (tx : InvokeScriptTransaction) (actions : List CallableAction) :
    List Evaluation :=
  ((actions.filterMap (pseudoTxOf tx)).filter fun p => (b.assetScript ⟨p.2⟩).isSome).map
    fun p => .asset ⟨p.2⟩ (.pseudoTx p.1)

/-- The runs of a call that is accepted, the verifier's aside. -/
def evaluations (b : Blockchain) (tx : InvokeScriptTransaction) : List Evaluation :=
  (b.resolveRecipient tx.dAppAddressOrAlias).toOption.toList.flatMap fun dApp =>
    .callable dApp tx.funcCallOpt :: actionRuns b tx (answeredActions b tx dApp)

end InvokeScriptTransactionDiff

namespace TransactionDiffer

/-- Every run made while a transaction is validated and accepted. -/
def evaluations (b : Blockchain) (tx : Transaction) : List Evaluation :=
  Verifier.evaluations b tx ++
    match tx with
    | .invokeScript ci => InvokeScriptTransactionDiff.evaluations b ci
    | _ => []

end TransactionDiffer

/-! ## 2. The runs are made -/

/-- The ledger's three answers about the script of an asset are about one script. -/
structure Blockchain.ScriptsAgree (b : Blockchain) : Prop where
  hasAssetScript : ∀ x, b.hasAssetScript x = (b.assetScript x).isSome
  description : ∀ x desc, b.assetDescription x = some desc → desc.script = b.assetScript x

/-- A run that was made and let the transaction through: the script of the account or of the
asset answered TRUE, or the contract answered. -/
inductive Evaluation.Ran (b : Blockchain) (tx : Transaction) : Evaluation → Prop where
  | account {a : Address} {input : ScriptInput} {script : Script} :
    b.accountScript a = some script →
    ScriptRunner input b script false a.bytes = .value .TRUE → Ran b tx (.account a input)
  | asset {x : IssuedAsset} {script : Script} :
    b.assetScript x = some script →
    ScriptRunner (.tx tx) b script true x.id = .value .TRUE → Ran b tx (.asset x (.tx tx))
  | pseudoTx {x : IssuedAsset} {p : PseudoTx} {script : Script} {acc : Diff}
    {container : ByteStr} :
    b.assetScript x = some script →
    ScriptRunner (.pseudoTx p) (CompositeBlockchain b (some acc)) script true container =
      .value .TRUE → Ran b tx (.asset x (.pseudoTx p))
  | callable {dApp : Address} {ci : InvokeScriptTransaction} {script : Script}
    {actions : List CallableAction} {complexity : Long} :
    tx = .invokeScript ci → b.accountScript dApp = some script →
    InvokeScriptTransactionDiff.runContract b script ci = .ok (actions, complexity) →
    Ran b tx (.callable dApp ci.funcCallOpt)

omit [Crypto] [PBTransactionSerializer] [Ride] in
/-- A check of every element of a list passes exactly when each of them passes. -/
theorem Validation.forM_eq_ok {α : Type} {f : α → Validation Unit} {l : List α} :
    l.forM f = .ok () ↔ ∀ a ∈ l, f a = .ok () := by
  induction l with
  | nil => exact ⟨fun _ a ha => absurd ha List.not_mem_nil, fun _ => rfl⟩
  | cons a rest ih =>
    rw [List.forall_mem_cons, ← ih]
    change (f a >>= fun _ => rest.forM f) = .ok () ↔ _
    rw [Validation.bind_eq_ok]
    constructor
    · rintro ⟨⟨⟩, ha, hrest⟩
      exact ⟨ha, hrest⟩
    · rintro ⟨ha, hrest⟩
      exact ⟨(), ha, hrest⟩

namespace Verifier

open Evaluation (Ran)

/-- An account that showed its authority ran its script, if it has one. -/
theorem ran_accountRuns {b : Blockchain} {tx : Transaction} {input : ScriptInput}
    {sender : PublicKey} {proofs : Proofs} {body : ByteStr} {signatureOnly : Bool}
    (h : Authorised b sender proofs body signatureOnly fun script =>
      ScriptRunner input b script false sender.toAddress.bytes) {e : Evaluation}
    (he : e ∈ accountRuns b sender.toAddress input) : Ran b tx e := by
  unfold accountRuns at he
  unfold Authorised at h
  cases hscript : b.accountScript sender.toAddress with
  | none =>
    rw [hscript] at he
    cases he
  | some script =>
    rw [hscript] at he h
    rw [List.mem_singleton.mp he]
    exact .account hscript h.2

/-- The script of an asset that passed the exchange's check was run. -/
theorem ran_assetVerification {b : Blockchain} {et : ExchangeTransaction} {x : IssuedAsset}
    (h : assetVerification et b (.issued x) = .ok ()) (hscript : (b.assetScript x).isSome) :
    Ran b (.exchange et) (.asset x (.tx (.exchange et))) := by
  obtain ⟨script, hscript⟩ := Option.isSome_iff_exists.mp hscript
  unfold assetVerification at h
  dsimp only at h
  rw [hscript] at h
  obtain ⟨sender, -, hrun⟩ := verifyTx_eq_ok.mp (Validation.leftMap_eq_ok.mp h)
  exact .asset hscript hrun

theorem ran_exchangeRuns {b : Blockchain} {et : ExchangeTransaction}
    (h : verifySender b (.exchange et) = .ok ()) {e : Evaluation} (he : e ∈ exchangeRuns b et) :
    Ran b (.exchange et) e := by
  obtain ⟨hmatcher, hsell, hbuy, hassets⟩ := verifyExchange_eq_ok h
  unfold exchangeRuns at he
  simp only [List.mem_append] at he
  rcases he with ((he | he) | he) | he
  · exact ran_accountRuns (matcherTxVerification_authorised hmatcher) he
  · exact ran_accountRuns (orderVerification_authorised hsell) he
  · exact ran_accountRuns (orderVerification_authorised hbuy) he
  · obtain ⟨x, hx, rfl⟩ := List.mem_map.mp he
    obtain ⟨hx, hscript⟩ := List.mem_filter.mp hx
    obtain ⟨asset, hmem, hissued⟩ := List.mem_filterMap.mp hx
    have hpassed := Validation.forM_eq_ok.mp hassets asset hmem
    cases asset with
    | Waves => cases hissued
    | issued y =>
      cases hissued
      exact ran_assetVerification hpassed hscript

/-- **What the verifier runs.** -/
theorem ran_evaluations {b : Blockchain} {tx : Transaction} (hb : b.ScriptsAgree)
    (h : apply b tx = .ok ()) {e : Evaluation} (he : e ∈ evaluations b tx) : Ran b tx e := by
  obtain ⟨hsender, hchecked⟩ := apply_eq_ok h
  unfold evaluations at he
  rcases List.mem_append.mp he with he | he
  · have hplain : e ∈ tx.sender?.toList.flatMap (fun sender =>
        accountRuns b sender.toAddress (.tx tx)) → Ran b tx e := by
      intro he
      obtain ⟨sender, hmem, he⟩ := List.mem_flatMap.mp he
      exact ran_accountRuns (verifySender_authorised (Option.mem_toList.mp hmem) hsender) he
    cases tx with
    | exchange et => exact ran_exchangeRuns hsender he
    | _ => exact hplain he
  · obtain ⟨s, hs, rfl⟩ := List.mem_map.mp he
    have hs := List.mem_reverse.mp hs
    obtain ⟨sender, -, hrun⟩ := hchecked s hs
    unfold checkedScripts at hs
    obtain ⟨x, -, hx⟩ := List.mem_filterMap.mp hs
    obtain ⟨script, hscript, rfl⟩ := Option.map_eq_some_iff.mp hx
    obtain ⟨desc, hdesc, hscript⟩ := Option.bind_eq_some_iff.mp hscript
    rw [hb.description x desc hdesc] at hscript
    exact .asset hscript hrun

end Verifier

namespace InvokeScriptTransactionDiff

/-- The script of the asset of an applied action allowed it. -/
theorem applyAction_allows {b : Blockchain} {blockTime : Long} {tx : InvokeScriptTransaction}
    {dAppAddress : Address} {acc d : Diff} {action : CallableAction}
    (h : applyAction b blockTime tx dAppAddress (.ok acc) action = .ok d) :
    AssetAllows b tx acc action := by
  have hallowed : ∀ {pseudoTx : PseudoTx} {assetId : ByteStr},
      validateAction b tx (.ok acc) pseudoTx ⟨assetId⟩ = .ok () →
      pseudoTxOf tx action = some (pseudoTx, assetId) → AssetAllows b tx acc action := by
    intro pseudoTx assetId hvalid hshown pseudoTx' assetId' script hshown' hscript
    rw [hshown] at hshown'
    cases hshown'
    rcases validatePseudoTx_cases b tx acc pseudoTx assetId script with hrun | ⟨-, e, he⟩
    · exact hrun.1
    · rw [validateAction_eq_ok.mp hvalid script hscript] at he
      cases he
  cases action with
  | transfer t =>
    obtain ⟨address, -, hvalid, -⟩ := applyTransfer_eq_ok h
    cases hasset : t.assetId with
    | none =>
      intro pseudoTx assetId script hshown
      rw [pseudoTxOf, hasset] at hshown
      cases hshown
    | some assetId =>
      refine hallowed (hvalid ⟨assetId⟩ (by rw [hasset]; rfl)) ?_
      rw [pseudoTxOf, hasset]
      rfl
  | reissue r => exact hallowed (applyReissue_eq_ok h).2 rfl
  | burn r => exact hallowed (applyBurn_eq_ok h).2 rfl
  | dataItem e =>
    intro pseudoTx assetId script hshown
    cases hshown
  | issue =>
    intro pseudoTx assetId script hshown
    cases hshown

/-- Every action of a successful fold was applied, on some changes before it. -/
theorem foldActions_applied {b : Blockchain} {blockTime : Long} {tx : InvokeScriptTransaction}
    {dAppAddress : Address} {actions : List CallableAction} {paymentsDiff d : Diff}
    (h : foldActions b blockTime tx dAppAddress actions paymentsDiff = .ok d)
    {action : CallableAction} (hmem : action ∈ actions) :
    ∃ acc d', applyAction b blockTime tx dAppAddress (.ok acc) action = .ok d' := by
  induction actions generalizing paymentsDiff with
  | nil => cases hmem
  | cons a rest ih =>
    obtain ⟨d', hd', hrest⟩ := foldActions_cons_eq_ok h
    rcases List.mem_cons.mp hmem with rfl | hmem
    · exact ⟨paymentsDiff, d', hd'⟩
    · exact ih hrest hmem

/-- The actions of an accepted call are those its contract answers with. -/
theorem AppliedCall.answered {b : Blockchain} {blockTime : Long} {tx : InvokeScriptTransaction}
    {dAppAddress : Address} {actions : List CallableAction} {wavesFee : Long}
    {feePart : Portfolios} {compositeDiff d : Diff}
    (h : AppliedCall b blockTime tx dAppAddress actions wavesFee feePart compositeDiff d) :
    answeredActions b tx dAppAddress = actions := by
  obtain ⟨script, complexity, hscript, hrun⟩ := h.run
  unfold answeredActions
  rw [hscript, Option.bind_some, hrun]
  rfl

/-- **What a call runs.** -/
theorem ran_evaluations {b : Blockchain} {blockTime : Long} {tx : InvokeScriptTransaction}
    {d : Diff} (h : apply b blockTime tx = .ok d) {e : Evaluation} (he : e ∈ evaluations b tx) :
    e.Ran b (.invokeScript tx) := by
  obtain ⟨dAppAddress, actions, wavesFee, feePart, compositeDiff, happlied⟩ := apply_eq_ok h
  unfold evaluations at he
  rw [happlied.dApp] at he
  change e ∈ List.flatMap _ [dAppAddress] at he
  rw [List.flatMap_singleton, happlied.answered] at he
  rcases List.mem_cons.mp he with rfl | he
  · obtain ⟨script, complexity, hscript, hrun⟩ := happlied.run
    exact .callable rfl hscript hrun
  · obtain ⟨⟨pseudoTx, assetId⟩, hshown, rfl⟩ := List.mem_map.mp he
    obtain ⟨hshown, hscript⟩ := List.mem_filter.mp hshown
    obtain ⟨action, hmem, hshown⟩ := List.mem_filterMap.mp hshown
    obtain ⟨script, hscript⟩ := Option.isSome_iff_exists.mp hscript
    obtain ⟨acc, d', hd'⟩ := foldActions_applied happlied.folded hmem
    exact .pseudoTx hscript (applyAction_allows hd' pseudoTx assetId script hshown hscript)

end InvokeScriptTransactionDiff

namespace TransactionDiffer

/-- **Every run that is listed was made**, and let the transaction through. -/
theorem ran_evaluations {prevBlockTimestamp : Option Long} {currentBlockTimestamp : Long}
    {b : Blockchain} {tx : Transaction} {d : Diff} (hb : b.ScriptsAgree)
    (h : verified prevBlockTimestamp currentBlockTimestamp b tx = .ok d) {e : Evaluation}
    (he : e ∈ evaluations b tx) : e.Ran b tx := by
  have haccepted := verified_eq_ok.mp h
  unfold evaluations at he
  rcases List.mem_append.mp he with he | he
  · exact Verifier.ran_evaluations hb haccepted.verifier he
  · cases tx with
    | invokeScript ci => exact InvokeScriptTransactionDiff.ran_evaluations haccepted.diff he
    | _ => cases he

end TransactionDiffer

/-! ## 3. The ledgers transactions are validated on -/

section
omit [Ride]

theorem composite_assetScript (inner : Blockchain) (d : Option Diff) (newBlock : Option Block)
    (carry : Long) (reward : Option Long) (x : IssuedAsset) :
    (CompositeBlockchain inner d newBlock carry reward).assetScript x =
      (((d.getD Diff.empty).assetScripts.get? x).map (Option.map Prod.fst)).getD
        (inner.assetScript x) := by
  change (((d.getD Diff.empty).assetScripts.get? x).getD
    (inner.assetScriptWithComplexity x)).map Prod.fst = _
  cases (d.getD Diff.empty).assetScripts.get? x <;> rfl

/-- An overlay agrees about scripts whatever the description below says. -/
theorem composite_scriptsAgree {inner : Blockchain}
    (h : ∀ x, inner.hasAssetScript x = (inner.assetScript x).isSome) (d : Option Diff)
    (newBlock : Option Block) (carry : Long) (reward : Option Long) :
    (CompositeBlockchain inner d newBlock carry reward).ScriptsAgree where
  hasAssetScript x := by
    rw [composite_assetScript]
    refine (composite_hasAssetScript inner (d.getD Diff.empty) newBlock carry reward x).trans ?_
    cases (d.getD Diff.empty).assetScripts.get? x with
    | none => exact h x
    | some s => cases s <;> rfl
  description x desc hdesc := script_assetDescription inner (d.getD Diff.empty) hdesc

/-- A chain with one block more is an overlay, as far as scripts go. -/
theorem append_scriptsAgree {b : Blockchain}
    (h : ∀ x, b.hasAssetScript x = (b.assetScript x).isSome) (d : Diff) (carry : Long)
    (reward : Option Long) (block : Block) : (b.append d carry reward block).ScriptsAgree := by
  have hnext := composite_scriptsAgree h (some d) (some block) carry reward
  exact ⟨hnext.hasAssetScript, hnext.description⟩

end

variable [BlockSerializer]

namespace BlockchainUpdaterImpl

/-- What taking a block makes of the persisted chain: nothing, or the chain with the liquid
block on it. -/
theorem takeBlock_blockchain {u : BlockchainUpdaterImpl} {block : Block} {verify : Bool}
    {taken : TakenBlock} (h : u.takeBlock block verify = .ok (some taken)) :
    taken.blockchain = u.blockchain ∨ ∃ d carry reward liquid,
      taken.blockchain = u.blockchain.append d carry reward liquid := by
  have hpersisted : ∀ {height : ℕ} {reward : Option Long} {discarded : List Transaction},
      takeOnPersisted u.blockchain block height reward discarded verify = .ok (some taken) →
      taken.blockchain = u.blockchain := by
    intro height reward discarded h
    obtain ⟨r, -, h⟩ := Validation.bind_eq_ok.mp h
    cases h
    rfl
  unfold takeBlock at h
  dsimp only at h
  cases hng : u.ngState with
  | none =>
    rw [hng] at h
    dsimp only at h
    split at h
    · split at h
      · cases h
      · obtain ⟨height, -, h⟩ := Validation.bind_eq_ok.mp h
        exact .inl (hpersisted h)
    · exact .inl (hpersisted h)
  | some ng =>
    rw [hng] at h
    dsimp only at h
    split at h
    · obtain ⟨newScore, -, h⟩ := Validation.bind_eq_ok.mp h
      obtain ⟨oldScore, -, h⟩ := Validation.bind_eq_ok.mp h
      split at h
      · obtain ⟨height, -, h⟩ := Validation.bind_eq_ok.mp h
        exact .inl (hpersisted h)
      · split at h
        · split at h
          · cases h
          · obtain ⟨height, -, h⟩ := Validation.bind_eq_ok.mp h
            exact .inl (hpersisted h)
        · cases h
    · -- only a block on the liquid block persists it
      unfold takeOnLiquid at h
      dsimp only at h
      split at h
      · cases h
      · obtain ⟨⟨forged, liquidDiff, carry, fee, discarded⟩, -, h⟩ := Validation.bind_eq_ok.mp h
        have hrest : ∀ {x : Validation BlockDiffer.Result} {d : Diff} {discarded : List Transaction},
            (do
              let r ← x
              .ok (some ⟨u.blockchain.append d carry ng.reward forged, r, discarded, u.nextReward⟩) :
                Validation (Option TakenBlock)) = .ok (some taken) →
            taken.blockchain = u.blockchain.append d carry ng.reward forged := by
          intro x d discarded hx
          obtain ⟨r, -, hx⟩ := Validation.bind_eq_ok.mp hx
          cases hx
          rfl
        split at h
        · obtain ⟨⟨⟩, -, h⟩ := Validation.bind_eq_ok.mp h
          exact .inr ⟨_, _, _, _, hrest h⟩
        · exact .inr ⟨_, _, _, _, hrest h⟩

theorem Reachable.scriptsAgree {settings : BlockchainSettings} {u : BlockchainUpdaterImpl}
    (h : Reachable settings u) : u.blockchain.ScriptsAgree := by
  induction h with
  | initial =>
    refine ⟨fun x => rfl, ?_⟩
    intro x desc hdesc
    cases hdesc
  | @block u u' block discarded _ hblock ih =>
    unfold processBlock at hblock
    dsimp only at hblock
    obtain ⟨⟨⟩, -, hblock⟩ := Validation.bind_eq_ok.mp hblock
    obtain ⟨taken, htake, hblock⟩ := Validation.bind_eq_ok.mp hblock
    cases taken with
    | none =>
      cases hblock
      exact ih
    | some taken =>
      cases hblock
      change taken.blockchain.ScriptsAgree
      rcases takeBlock_blockchain htake with heq | ⟨d, carry, reward, liquid, heq⟩
      · rw [heq]
        exact ih
      · rw [heq]
        exact append_scriptsAgree ih.hasAssetScript d carry reward liquid
  | @microBlock u u' microBlock _ hmicro ih =>
    unfold processMicroBlock at hmicro
    cases hng : u.ngState with
    | none =>
      rw [hng] at hmicro
      cases hmicro
    | some ng =>
      rw [hng] at hmicro
      dsimp only at hmicro
      split at hmicro
      · cases hmicro
      · have hrest : (do
            microBlock.signaturesValid
            let ledger ← u.ledger
            let r ← BlockDiffer.fromMicroBlock ledger u.blockchain.lastBlockTimestamp microBlock
              u.restTotalConstraint true
            .ok { u with
              restTotalConstraint := r.constraint
              ngState := some (ng.append microBlock r.diff r.carry r.totalFee) } :
              Validation BlockchainUpdaterImpl) = .ok u' → u'.blockchain.ScriptsAgree := by
          intro hx
          obtain ⟨⟨⟩, -, hx⟩ := Validation.bind_eq_ok.mp hx
          obtain ⟨ledger, -, hx⟩ := Validation.bind_eq_ok.mp hx
          obtain ⟨r, -, hx⟩ := Validation.bind_eq_ok.mp hx
          cases hx
          exact ih
        split at hmicro
        · obtain ⟨⟨⟩, -, hmicro⟩ := Validation.bind_eq_ok.mp hmicro
          exact hrest hmicro
        · obtain ⟨⟨⟩, -, hmicro⟩ := Validation.bind_eq_ok.mp hmicro
          exact hrest hmicro

theorem ledger_scriptsAgree {settings : BlockchainSettings} {u : BlockchainUpdaterImpl}
    {b : Blockchain} (hu : Reachable settings u) (h : u.ledger = .ok b) : b.ScriptsAgree := by
  unfold ledger at h
  cases hng : u.ngState with
  | none =>
    rw [hng] at h
    cases h
    exact hu.scriptsAgree
  | some ng =>
    rw [hng] at h
    obtain ⟨⟨d, fees⟩, -, h⟩ := Validation.bind_eq_ok.mp h
    cases h
    have hliquid := composite_scriptsAgree hu.scriptsAgree.hasAssetScript (some d)
      (some ng.bestLiquidBlock) ng.carryFee ng.reward
    exact ⟨hliquid.hasAssetScript, hliquid.description⟩

end BlockchainUpdaterImpl

open BlockchainUpdaterImpl in
/-- The ledgers a node validates transactions on: what it has persisted, its liquid state, and
overlays of these, as the block differ makes them. Any database under an overlay is among
them, so also what a rollback leaves. -/
inductive ValidatedOn (settings : BlockchainSettings) : Blockchain → Prop where
  | persisted {u : BlockchainUpdaterImpl} : Reachable settings u →
    ValidatedOn settings u.blockchain
  | liquid {u : BlockchainUpdaterImpl} {b : Blockchain} : Reachable settings u →
    u.ledger = .ok b → ValidatedOn settings b
  | database (w : LevelDBWriter) (d : Option Diff) (newBlock : Option Block) (carry : Long)
    (reward : Option Long) :
    ValidatedOn settings (CompositeBlockchain w.blockchain d newBlock carry reward)
  | overlay {b : Blockchain} (d : Option Diff) (newBlock : Option Block) (carry : Long)
    (reward : Option Long) : ValidatedOn settings b →
    ValidatedOn settings (CompositeBlockchain b d newBlock carry reward)

theorem ValidatedOn.scriptsAgree {settings : BlockchainSettings} {b : Blockchain}
    (h : ValidatedOn settings b) : b.ScriptsAgree := by
  induction h with
  | persisted hu => exact hu.scriptsAgree
  | liquid hu hledger => exact BlockchainUpdaterImpl.ledger_scriptsAgree hu hledger
  | database w d newBlock carry reward =>
    refine composite_scriptsAgree ?_ d newBlock carry reward
    intro x
    change ((w.assetScriptCache x).map Option.isSome).getD (w.db.loadAssetScript x).isSome =
      (((w.assetScriptCache x).getD (w.db.loadAssetScript x)).map Prod.fst).isSome
    rw [Option.isSome_map]
    cases w.assetScriptCache x <;> rfl
  | overlay d newBlock carry reward _ ih =>
    exact composite_scriptsAgree ih.hasAssetScript d newBlock carry reward

/-! ## 4. Sums of words -/

section
omit [Crypto] [PBTransactionSerializer] [Ride] [BlockSerializer]

/-- The exact sum of a list of words. -/
def exactSum (l : List Long) : ℤ := (l.map Int64.toInt).sum

/-- What the machine's sum of a list of words gains over the exact one by wrapping. -/
def wrapping (l : List Long) : ℤ := (longSum l).toInt - exactSum l

@[simp] theorem exactSum_nil : exactSum [] = 0 := rfl

@[simp] theorem exactSum_cons (x : Long) (l : List Long) :
    exactSum (x :: l) = x.toInt + exactSum l := by
  rw [exactSum, exactSum, List.map_cons, List.sum_cons]

@[simp] theorem exactSum_append (l l' : List Long) :
    exactSum (l ++ l') = exactSum l + exactSum l' := by
  rw [exactSum, List.map_append, List.sum_append]
  rfl

theorem foldl_add_eq (l : List Long) (x : Long) : l.foldl (· + ·) x = x + longSum l := by
  unfold longSum
  induction l generalizing x with
  | nil => exact (Int64.add_zero x).symm
  | cons y rest ih => rw [List.foldl_cons, List.foldl_cons, ih, ih (0 + y), Int64.zero_add,
      Int64.add_assoc]

theorem longSum_cons (x : Long) (l : List Long) : longSum (x :: l) = x + longSum l := by
  rw [longSum, List.foldl_cons, Int64.zero_add, foldl_add_eq]

theorem longSum_append (l l' : List Long) : longSum (l ++ l') = longSum l + longSum l' := by
  rw [longSum, List.foldl_append, foldl_add_eq]
  rfl

/-- The machine's sum is the exact one, up to multiples of 2^64. -/
theorem toInt_longSum (l : List Long) : (longSum l).toInt = Int.bmod (exactSum l) (2 ^ 64) := by
  induction l with
  | nil => rfl
  | cons x rest ih =>
    rw [longSum_cons, Int64.toInt_add, ih, exactSum_cons, Int.add_bmod_bmod]

/-- Nothing is gained where the exact sum is a word. -/
theorem wrapping_eq_zero {l : List Long} (h : Long.InRange (exactSum l)) : wrapping l = 0 := by
  obtain ⟨hlo, hhi⟩ := h
  unfold wrapping
  rw [toInt_longSum, Int.bmod_eq_of_le (by omega) (by omega)]
  omega

theorem nodup_eraseDups {α : Type} [DecidableEq α] (l : List α) : l.eraseDups.Nodup := by
  -- every step takes the copies of the head out of the tail
  induction h : l.length using Nat.strong_induction_on generalizing l with
  | _ n ih =>
    cases l with
    | nil => exact List.nodup_nil
    | cons a rest =>
      rw [List.eraseDups_cons, List.nodup_cons]
      refine ⟨?_, ih _ ?_ _ rfl⟩
      · rw [List.mem_eraseDups, List.mem_filter]
        rintro ⟨-, hne⟩
        simp at hne
      · have hle := List.length_filter_le (fun b => !b == a) rest
        rw [List.length_cons] at h
        omega

/-- The sum over a list is the one over what passes a test and over what does not. -/
theorem sum_map_filter_add {α : Type} (w : α → ℤ) (p : α → Bool) (l : List α) :
    ((l.filter p).map w).sum + ((l.filter fun x => !p x).map w).sum = (l.map w).sum := by
  induction l with
  | nil => rfl
  | cons a rest ih =>
    rw [List.filter_cons, List.filter_cons, List.map_cons, List.sum_cons, ← ih]
    cases p a
    · simp only [Bool.false_eq_true, if_false, Bool.not_false, if_true, List.map_cons,
        List.sum_cons]
      omega
    · simp only [if_true, Bool.not_true, Bool.false_eq_true, if_false, List.map_cons,
        List.sum_cons]
      omega

/-- Of two lists without copies, each with what is only in the other has one sum. -/
theorem sum_map_exchange {α : Type} [DecidableEq α] (w : α → ℤ) {l l' : List α} (h : l.Nodup)
    (h' : l'.Nodup) :
    (l.map w).sum + ((l'.filter fun x => decide (x ∉ l)).map w).sum =
      (l'.map w).sum + ((l.filter fun x => decide (x ∉ l')).map w).sum := by
  have hcommon : ((l.filter fun x => decide (x ∈ l')).map w).sum =
      ((l'.filter fun x => decide (x ∈ l)).map w).sum := by
    refine List.Perm.sum_eq (List.Perm.map w ?_)
    rw [List.perm_ext_iff_of_nodup (h.filter _) (h'.filter _)]
    intro x
    rw [List.mem_filter, List.mem_filter, decide_eq_true_eq, decide_eq_true_eq]
    exact and_comm
  have hleft := sum_map_filter_add w (fun x => decide (x ∈ l')) l
  have hright := sum_map_filter_add w (fun x => decide (x ∈ l)) l'
  simp only [← decide_not] at hleft hright
  omega

end

/-! ## 5. What is counted -/

namespace Blockchain

section
omit [Crypto] [PBTransactionSerializer] [Ride] [BlockSerializer]

/-- The recorded complexities of the scripts of some assets, in the formulas' words. -/
def assetComplexities (b : Blockchain) (assets : List IssuedAsset) : List Long :=
  (assets.filterMap b.assetScriptWithComplexity).map Prod.snd

/-- The recorded complexities of the scripts of some accounts. -/
def accountComplexities (b : Blockchain) (accounts : List Address) : List Long :=
  (accounts.filterMap b.accountScriptWithComplexity).map Prod.snd

/-- What the script of an asset weighs; an asset without one weighs nothing. -/
def assetWeight (b : Blockchain) (x : IssuedAsset) : ℤ :=
  (((b.assetScriptWithComplexity x).map Prod.snd).getD 0).toInt

theorem exactSum_assetComplexities (b : Blockchain) (assets : List IssuedAsset) :
    exactSum (b.assetComplexities assets) = (assets.map b.assetWeight).sum := by
  unfold assetComplexities
  induction assets with
  | nil => rfl
  | cons x rest ih =>
    rw [List.map_cons, List.sum_cons, ← ih, assetWeight]
    cases hscript : b.assetScriptWithComplexity x with
    | none =>
      rw [List.filterMap_cons_none hscript]
      simp
    | some s =>
      rw [List.filterMap_cons_some hscript]
      simp

end

end Blockchain

namespace TransactionDiffer

open InvokeScriptTransactionDiff (answeredActions transferAssets)

omit [Crypto] [PBTransactionSerializer] [Ride] [BlockSerializer] in
/-- The assets a list of actions reissues, and those it burns. -/
def supplyAssets (actions : List CallableAction) : List IssuedAsset :=
  (actions.filterMap CallableAction.reissue?).map (fun r => ⟨r.assetId⟩) ++
    (actions.filterMap CallableAction.burn?).map (fun r => ⟨r.assetId⟩)

omit [BlockSerializer] in
/-- What the formulas of the types add up. -/
def countedComplexities (b : Blockchain) : Transaction → List Long
  | .genesis _ => []
  | .payment _ => []
  | .exchange et =>
    b.assetComplexities (ExchangeTransactionDiff.assetIds et) ++
      b.accountComplexities [et.sender.toAddress, et.buyOrder.senderPublicKey.toAddress,
        et.sellOrder.senderPublicKey.toAddress]
  | .invokeScript ci =>
    (b.resolveRecipient ci.dAppAddressOrAlias).toOption.toList.flatMap fun dApp =>
      Evaluation.complexity b (.callable dApp ci.funcCallOpt) ::
        (b.accountComplexities [ci.sender.toAddress] ++
          b.assetComplexities ((Transaction.invokeScript ci).checkedAssets ++
            transferAssets (answeredActions b ci dApp)))
  | tx =>
    b.assetComplexities tx.checkedAssets ++
      b.accountComplexities (tx.sender?.toList.map PublicKey.toAddress)

omit [BlockSerializer] in
/-- The assets whose scripts are run beyond what the formulas add up: in an exchange the fee
assets that are not traded, and the pair once more; in a call the assets it reissues and
burns. -/
def uncountedAssets (b : Blockchain) : Transaction → List IssuedAsset
  | .exchange et =>
    (((Verifier.exchangeAssets et).filterMap Asset.issued?).filter fun x =>
      decide (x ∉ ExchangeTransactionDiff.assetIds et)) ++
        (Transaction.exchange et).checkedAssets
  | .invokeScript ci =>
    (b.resolveRecipient ci.dAppAddressOrAlias).toOption.toList.flatMap fun dApp =>
      supplyAssets (answeredActions b ci dApp)
  | _ => []

omit [Crypto] [PBTransactionSerializer] [Ride] [BlockSerializer] in
/-- The assets whose scripts are counted and not run: one of the pair of the sell order alone,
and one that has a script and no description. -/
def idleAssets (b : Blockchain) : Transaction → List IssuedAsset
  | .exchange et =>
    (ExchangeTransactionDiff.assetIds et).filter fun x =>
      decide (x ∉ (Verifier.exchangeAssets et).filterMap Asset.issued?)
  | tx => tx.checkedAssets.filter fun x => !(b.assetDescription x).isSome

/-- The diff of a transaction accounts for all the scripts it ran. -/
structure Accounted (b : Blockchain) (tx : Transaction) (d : Diff) : Prop where
  complexity : exactSum ((evaluations b tx).map (Evaluation.complexity b)) ≤
    d.scriptsComplexity.toInt
  runs : (evaluations b tx).countP Evaluation.isAssetOrDApp ≤ d.scriptsRun

/-- What is run beyond the formulas weighs no more than what they count and is not run. -/
def ComplexityCovered (b : Blockchain) (tx : Transaction) : Prop :=
  ((uncountedAssets b tx).map b.assetWeight).sum ≤
    ((idleAssets b tx).map b.assetWeight).sum + wrapping (countedComplexities b tx)

omit [PBTransactionSerializer] [Ride] [BlockSerializer] in
/-- The runs of asset scripts are counted: those of an exchange are no more than the scripted
assets and accounts of the pair and the orders; and the script of an asset is counted when it
is replaced, which it is not before `Ride4DApps`, but there a scripted sender is. -/
def RunsCovered (b : Blockchain) : Transaction → Prop
  | .exchange et =>
    ((Verifier.exchangeAssets et).filterMap Asset.issued?).countP b.hasAssetScript +
        (Transaction.exchange et).checkedAssets.countP b.hasAssetScript ≤
      (ExchangeTransactionDiff.assetIds et).countP b.hasAssetScript +
        (if b.hasScript et.sender.toAddress then 1 else 0) +
        if b.isFeatureActivated BlockchainFeatures.Ride4DApps then
          [b.hasScript et.buyOrder.senderPublicKey.toAddress,
            b.hasScript et.sellOrder.senderPublicKey.toAddress].countP fun x => x
        else 0
  | .setAssetScript tx =>
    b.isFeatureActivated BlockchainFeatures.Ride4DApps = true ∨
      b.hasScript tx.sender.toAddress = true ∨ b.assetDescription tx.asset = none
  | _ => True

end TransactionDiffer

/-! ## 6. The formulas -/

namespace TransactionDiffer

open InvokeScriptTransactionDiff (answeredActions transferAssets)

omit [BlockSerializer] in
/-- The runs that the formulas of the types count. -/
def countedRuns (b : Blockchain) : Transaction → ℕ
  | .genesis _ => 0
  | .payment _ => 0
  | .exchange et =>
    (ExchangeTransactionDiff.assetIds et).countP b.hasAssetScript +
      (if b.hasScript et.sender.toAddress then 1 else 0) +
      if b.isFeatureActivated BlockchainFeatures.Ride4DApps then
        [b.hasScript et.buyOrder.senderPublicKey.toAddress,
          b.hasScript et.sellOrder.senderPublicKey.toAddress].countP fun x => x
      else 0
  | .setAssetScript tx =>
    if b.isFeatureActivated BlockchainFeatures.Ride4DApps then
      DiffsCommon.countScriptRuns b (.setAssetScript tx)
    else if b.hasScript tx.sender.toAddress then 1 else 0
  | .invokeScript ci =>
    (b.resolveRecipient ci.dAppAddressOrAlias).toOption.elim 0 fun dApp =>
      ((Transaction.invokeScript ci).checkedAssets ++
          transferAssets (answeredActions b ci dApp) ++
          supplyAssets (answeredActions b ci dApp)).countP b.hasAssetScript +
        (if b.hasScript ci.sender.toAddress then 1 else 0) + 1
  | tx => DiffsCommon.countScriptRuns b tx

omit [BlockSerializer] in
/-- The diff of a type counts what its formulas count. -/
def Counts (b : Blockchain) (tx : Transaction) (d : Diff) : Prop :=
  d.scriptsComplexity = longSum (countedComplexities b tx) ∧ d.scriptsRun = countedRuns b tx

omit [BlockSerializer] in
theorem counts_exchange {b : Blockchain} {et : ExchangeTransaction} {d : Diff}
    (hb : b.ScriptsAgree) (h : ExchangeTransactionDiff.apply b et = .ok d) :
    Counts b (.exchange et) d ∧
      ∀ x ∈ ExchangeTransactionDiff.assetIds et, (b.assetDescription x).isSome := by
  unfold ExchangeTransactionDiff.apply at h
  obtain ⟨⟨⟩, hissued, h⟩ := Validation.bind_eq_ok.mp h
  obtain ⟨⟨⟩, -, h⟩ := Validation.bind_eq_ok.mp h
  obtain ⟨⟨⟩, -, h⟩ := Validation.bind_eq_ok.mp h
  obtain ⟨⟨⟩, -, h⟩ := Validation.bind_eq_ok.mp h
  obtain ⟨⟨⟩, -, h⟩ := Validation.bind_eq_ok.mp h
  obtain ⟨buyPrice, -, h⟩ := Validation.bind_eq_ok.mp h
  obtain ⟨buyAmount, -, h⟩ := Validation.bind_eq_ok.mp h
  obtain ⟨sellPrice, -, h⟩ := Validation.bind_eq_ok.mp h
  obtain ⟨sellAmount, -, h⟩ := Validation.bind_eq_ok.mp h
  cases h
  have hissued : ∀ x ∈ ExchangeTransactionDiff.assetIds et, (b.assetDescription x).isSome := by
    have hall := Validation.cond_eq_ok.mp hissued
    rw [List.all_map, List.all_eq_true] at hall
    exact hall
  refine ⟨⟨(longSum_append _ _).symm, ?_⟩, hissued⟩
  -- the scripted assets are found by their descriptions here
  have hscripted : ((ExchangeTransactionDiff.assetIds et).map b.assetDescription).countP
      (fun d => (d.bind AssetDescription.script).isSome) =
      (ExchangeTransactionDiff.assetIds et).countP b.hasAssetScript := by
    rw [List.countP_map]
    refine List.countP_congr ?_
    intro x hx
    obtain ⟨desc, hdesc⟩ := Option.isSome_iff_exists.mp (hissued x hx)
    rw [hb.hasAssetScript, ← hb.description x desc hdesc, Function.comp_apply, hdesc]
    exact Iff.rfl
  change List.countP _ _ + _ + _ = countedRuns b (.exchange et)
  rw [hscripted]
  rfl

omit [BlockSerializer] in
theorem countedComplexities_invokeScript {b : Blockchain} {ci : InvokeScriptTransaction}
    {dApp : Address} (h : b.resolveRecipient ci.dAppAddressOrAlias = .ok dApp) :
    countedComplexities b (.invokeScript ci) =
      Evaluation.complexity b (.callable dApp ci.funcCallOpt) ::
        (b.accountComplexities [ci.sender.toAddress] ++
          b.assetComplexities ((Transaction.invokeScript ci).checkedAssets ++
            transferAssets (answeredActions b ci dApp))) := by
  change (b.resolveRecipient ci.dAppAddressOrAlias).toOption.toList.flatMap _ = _
  rw [h]
  exact List.flatMap_singleton _ _

omit [BlockSerializer] in
theorem countedRuns_invokeScript {b : Blockchain} {ci : InvokeScriptTransaction}
    {dApp : Address} (h : b.resolveRecipient ci.dAppAddressOrAlias = .ok dApp) :
    countedRuns b (.invokeScript ci) =
      ((Transaction.invokeScript ci).checkedAssets ++
          transferAssets (answeredActions b ci dApp) ++
          supplyAssets (answeredActions b ci dApp)).countP b.hasAssetScript +
        (if b.hasScript ci.sender.toAddress then 1 else 0) + 1 := by
  change (b.resolveRecipient ci.dAppAddressOrAlias).toOption.elim 0 _ = _
  rw [h]
  rfl

omit [BlockSerializer] in
theorem counts_invokeScript {b : Blockchain} {blockTime : Long} {ci : InvokeScriptTransaction}
    {d : Diff} (h : InvokeScriptTransactionDiff.apply b blockTime ci = .ok d) :
    Counts b (.invokeScript ci) d := by
  unfold InvokeScriptTransactionDiff.apply at h
  obtain ⟨dApp, hdApp, h⟩ := Validation.bind_eq_ok.mp h
  split at h
  swap
  · cases h
  rename_i script hscript
  split at h
  swap
  · cases h
  split at h
  · cases h
  rename_i actions complexity hrun
  have hanswered : answeredActions b ci dApp = actions := by
    unfold answeredActions
    rw [hscript, Option.bind_some, hrun]
    rfl
  have hcomplexity : Evaluation.complexity b (.callable dApp ci.funcCallOpt) = complexity := by
    unfold InvokeScriptTransactionDiff.runContract at hrun
    have hfound : b.invocationComplexity script ci.funcCallOpt = .ok complexity := by
      rcases hpayments : extractPayments ci script.stdLibVersion b.allowsMultiPayment with e | ps
      · rw [hpayments] at hrun
        cases hrun
      rw [hpayments] at hrun
      rcases hfound : b.invocationComplexity script ci.funcCallOpt with e | c
      · rw [hfound] at hrun
        cases hrun
      rw [hfound] at hrun
      change (do
        let actions ← Ride.invoke _ _ _ _
        return (actions, c) : Except String _) = _ at hrun
      rcases hinvoked : Ride.invoke b.environment script (.invokeScript ci) _ with e | as
      · rw [hinvoked] at hrun
        cases hrun
      rw [hinvoked] at hrun
      cases hrun
      rfl
    unfold Evaluation.complexity
    dsimp only
    rw [hscript, Option.bind_some, hfound]
    rfl
  unfold InvokeScriptTransactionDiff.ofActions at h
  obtain ⟨⟨⟩, -, h⟩ := Validation.bind_eq_ok.mp h
  obtain ⟨⟨wavesFee, feePart⟩, -, h⟩ := Validation.bind_eq_ok.mp h
  obtain ⟨n, hinvoked, h⟩ := Validation.bind_eq_ok.mp h
  obtain ⟨compositeDiff, -, h⟩ := Validation.bind_eq_ok.mp h
  cases h
  obtain ⟨⟨⟩, -, hn⟩ := Validation.bind_eq_ok.mp hinvoked
  cases hn
  constructor
  · change complexity + _ + _ = _
    rw [countedComplexities_invokeScript hdApp, hanswered, hcomplexity, longSum_cons,
      longSum_append, ← Int64.add_assoc]
    congr 2
    unfold Blockchain.accountComplexities
    cases hsender : b.accountScriptWithComplexity ci.sender.toAddress with
    | none => simp [hsender, longSum]
    | some s => simp [hsender, longSum]
  · rw [countedRuns_invokeScript hdApp, hanswered, supplyAssets, ← List.append_assoc]

omit [BlockSerializer] in
/-- The types that are validated with an estimate: their own diffs count the runs, and the
diff of the complexities is put before them. -/
theorem counts_withEstimate {blockTime : Long} {b : Blockchain} {tx : Transaction} {d : Diff}
    (h : unverifiedWithEstimate blockTime b tx = .ok d) :
    Counts b tx ((complexityDiff b tx).combine d) := by
  have hwords : countedComplexities b tx =
      b.assetComplexities tx.checkedAssets ++
        b.accountComplexities (tx.sender?.toList.map PublicKey.toAddress) →
      d.scriptsComplexity = 0 → d.scriptsRun = countedRuns b tx →
      Counts b tx ((complexityDiff b tx).combine d) := by
    intro hcounted hcomplexity hruns
    constructor
    · change DiffsCommon.getScriptsComplexity b tx + d.scriptsComplexity = _
      rw [hcomplexity, Int64.add_zero, hcounted, longSum_append]
      change longSum (b.assetComplexities tx.checkedAssets) + _ = _
      refine congrArg (longSum (b.assetComplexities tx.checkedAssets) + ·) ?_
      unfold Blockchain.accountComplexities
      cases tx.sender? with
      | none => rfl
      | some sender =>
        rw [Option.bind_some]
        cases hsender : b.accountScriptWithComplexity sender.toAddress with
        | none => simp [hsender, longSum]
        | some s => simp [hsender, longSum]
    · change 0 + d.scriptsRun = _
      rw [zero_add, hruns]
  rcases tx with t | t | t | t | t | t | t | t | t | t | t | t | t | t | t | t
  case issue =>
    obtain ⟨script, -, rfl⟩ := AssetTransactionsDiff.issue_eq_ok h
    exact hwords rfl rfl rfl
  case transfer =>
    obtain ⟨recipient, fee, -, -, -, rfl⟩ := TransferTransactionDiff.apply_eq_ok h
    exact hwords rfl rfl rfl
  case massTransfer =>
    obtain ⟨list, -, rfl⟩ := MassTransferTransactionDiff.apply_eq_ok h
    exact hwords rfl rfl rfl
  case reissue =>
    obtain ⟨d', hd', rfl⟩ := AssetTransactionsDiff.reissue_eq_ok h
    obtain ⟨-, -, rfl⟩ := DiffsCommon.processReissue_eq_ok hd'
    exact hwords rfl rfl rfl
  case burn =>
    obtain ⟨d', hd', rfl⟩ := AssetTransactionsDiff.burn_eq_ok h
    obtain ⟨-, rfl⟩ := DiffsCommon.processBurn_eq_ok.mp hd'
    exact hwords rfl rfl rfl
  case lease =>
    obtain ⟨recipient, -, -, -, rfl⟩ := LeaseTransactionsDiff.lease_eq_ok h
    exact hwords rfl rfl rfl
  case leaseCancel =>
    obtain ⟨lease, recipient, -, -, -, -, rfl⟩ := LeaseTransactionsDiff.leaseCancel_eq_ok h
    exact hwords rfl rfl rfl
  case createAlias =>
    obtain ⟨-, rfl⟩ := CreateAliasTransactionDiff_eq_ok h
    exact hwords rfl rfl rfl
  case data =>
    cases h
    exact hwords rfl rfl rfl
  case setScript =>
    obtain ⟨script, -, rfl⟩ := SetScriptTransactionDiff_eq_ok h
    exact hwords rfl rfl rfl
  case setAssetScript =>
    change AssetTransactionsDiff.setAssetScript b t = .ok d at h
    unfold AssetTransactionsDiff.setAssetScript at h
    obtain ⟨⟨⟩, -, h⟩ := Validation.bind_eq_ok.mp h
    split at h
    · obtain ⟨script, -, h⟩ := Validation.bind_eq_ok.mp h
      cases h
      exact hwords rfl rfl rfl
    · cases h
  case sponsorFee =>
    obtain ⟨-, rfl⟩ := AssetTransactionsDiff.sponsor_eq_ok h
    exact hwords rfl rfl rfl
  all_goals cases h

omit [BlockSerializer] in
/-- **What an accepted transaction counts.** -/
theorem counts {blockTime : Long} {b : Blockchain} {tx : Transaction} {d : Diff}
    (hb : b.ScriptsAgree) (h : unverified blockTime b tx = .ok d) : Counts b tx d := by
  have hestimate {tx : Transaction}
      (h : (do
        let d ← unverifiedWithEstimate blockTime b tx
        .ok ((complexityDiff b tx).combine d) : Validation Diff) = .ok d) : Counts b tx d := by
    obtain ⟨d', hd', h⟩ := Validation.bind_eq_ok.mp h
    cases h
    exact counts_withEstimate hd'
  rcases tx with t | t | t | t | t | t | t | t | t | t | t | t | t | t | t | t
  case genesis =>
    obtain ⟨-, rfl⟩ := GenesisTransactionDiff_eq_ok h
    exact ⟨rfl, rfl⟩
  case payment =>
    obtain ⟨-, rfl⟩ := PaymentTransactionDiff_eq_ok h
    exact ⟨rfl, rfl⟩
  case exchange => exact (counts_exchange hb h).1
  case invokeScript => exact counts_invokeScript h
  all_goals exact hestimate h

end TransactionDiffer

/-! ## 7. The runs, weighed and numbered -/

namespace Evaluation

section
omit [Crypto] [PBTransactionSerializer] [BlockSerializer]

theorem complexities_accountRuns (b : Blockchain) (a : Address) (input : ScriptInput) :
    (Verifier.accountRuns b a input).map (complexity b) = b.accountComplexities [a] := by
  unfold Verifier.accountRuns Blockchain.accountComplexities Blockchain.accountScript
  cases hscript : b.accountScriptWithComplexity a with
  | none => simp [hscript]
  | some s => simp [hscript, complexity]

omit [Ride] in
theorem countP_accountRuns (b : Blockchain) (a : Address) (input : ScriptInput) :
    (Verifier.accountRuns b a input).countP isAssetOrDApp = 0 := by
  unfold Verifier.accountRuns
  split <;> rfl

/-- The runs of the scripted ones among some assets weigh what all of these do. -/
theorem exactSum_assetRuns {α : Type} (b : Blockchain) (f : α → IssuedAsset)
    (g : α → ScriptInput) (l : List α) :
    exactSum (((l.filter fun a => (b.assetScript (f a)).isSome).map fun a =>
        asset (f a) (g a)).map (complexity b)) = ((l.map f).map b.assetWeight).sum := by
  induction l with
  | nil => rfl
  | cons a rest ih =>
    rw [List.map_cons, List.map_cons, List.sum_cons, ← ih, List.filter_cons]
    cases hscript : b.assetScriptWithComplexity (f a) with
    | none => simp [Blockchain.assetScript, Blockchain.assetWeight, hscript]
    | some s => simp [Blockchain.assetScript, Blockchain.assetWeight, hscript, complexity]

omit [Ride] in
theorem countP_assetRuns {α : Type} {b : Blockchain}
    (hb : ∀ x, b.hasAssetScript x = (b.assetScript x).isSome) (f : α → IssuedAsset)
    (g : α → ScriptInput) (l : List α) :
    ((l.filter fun a => (b.assetScript (f a)).isSome).map fun a =>
        asset (f a) (g a)).countP isAssetOrDApp = (l.map f).countP b.hasAssetScript := by
  rw [List.countP_map, List.countP_map]
  have htrue : (isAssetOrDApp ∘ fun a => asset (f a) (g a)) = fun _ => true := rfl
  rw [htrue, List.countP_true, ← List.countP_eq_length_filter]
  exact List.countP_congr fun a _ => by rw [Function.comp_apply, hb]

omit [Ride] in
/-- The declared assets that are run are the scripted ones that have a description. -/
theorem checkedScripts_eq {b : Blockchain} (hb : b.ScriptsAgree) (tx : Transaction) :
    (Verifier.checkedScripts b tx).map Prod.snd =
      (tx.checkedAssets.filter fun x => (b.assetDescription x).isSome).filter fun x =>
        (b.assetScript x).isSome := by
  unfold Verifier.checkedScripts
  generalize tx.checkedAssets = assets
  induction assets with
  | nil => rfl
  | cons x rest ih =>
    cases hdesc : b.assetDescription x with
    | none =>
      rw [List.filterMap_cons_none (by rw [hdesc]; rfl), ih, List.filter_cons, hdesc]
      rfl
    | some desc =>
      have hagree := hb.description x desc hdesc
      rw [List.filter_cons, hdesc, if_pos Option.isSome_some, List.filter_cons, ← hagree]
      cases hscript : desc.script with
      | none =>
        rw [List.filterMap_cons_none (by rw [hdesc, Option.bind_some, hscript]; rfl), ih]
        rfl
      | some script =>
        rw [List.filterMap_cons_some (by rw [hdesc, Option.bind_some, hscript]; rfl),
          List.map_cons, ih]
        rfl

omit [Ride] in
/-- The runs of the declared assets, as those of a list of assets. -/
theorem checkedRuns_perm {b : Blockchain} (hb : b.ScriptsAgree) (tx : Transaction) :
    ((Verifier.checkedScripts b tx).reverse.map fun s => asset s.2 (.tx tx)).Perm
      (((tx.checkedAssets.filter fun x => (b.assetDescription x).isSome).filter fun x =>
        (b.assetScript x).isSome).map fun x => asset x (.tx tx)) := by
  rw [← checkedScripts_eq hb, List.map_map]
  exact (List.reverse_perm _).map _

end

end Evaluation

namespace TransactionDiffer

open InvokeScriptTransactionDiff (answeredActions transferAssets)
open Evaluation (complexities_accountRuns exactSum_assetRuns countP_accountRuns countP_assetRuns
  checkedRuns_perm isAssetOrDApp)

section
omit [BlockSerializer]

omit [Crypto] [PBTransactionSerializer] in
theorem exactSum_complexities_perm (b : Blockchain) {l l' : List Evaluation} (h : l.Perm l') :
    exactSum (l.map (Evaluation.complexity b)) = exactSum (l'.map (Evaluation.complexity b)) :=
  List.Perm.sum_eq ((h.map _).map _)

omit [Crypto] [PBTransactionSerializer] in
/-- The declared assets that are run weigh what those with a description do. -/
theorem exactSum_checkedRuns {b : Blockchain} (hb : b.ScriptsAgree) (tx : Transaction) :
    exactSum (((Verifier.checkedScripts b tx).reverse.map fun s =>
        Evaluation.asset s.2 (.tx tx)).map (Evaluation.complexity b)) =
      ((tx.checkedAssets.filter fun x => (b.assetDescription x).isSome).map b.assetWeight).sum := by
  rw [exactSum_complexities_perm b (checkedRuns_perm hb tx),
    exactSum_assetRuns b (fun x => x) (fun _ => .tx tx), List.map_id']

omit [Crypto] [PBTransactionSerializer] [Ride] in
theorem countP_checkedRuns {b : Blockchain} (hb : b.ScriptsAgree) (tx : Transaction) :
    ((Verifier.checkedScripts b tx).reverse.map fun s =>
        Evaluation.asset s.2 (.tx tx)).countP isAssetOrDApp =
      (tx.checkedAssets.filter fun x => (b.assetDescription x).isSome).countP
        b.hasAssetScript := by
  rw [(checkedRuns_perm hb tx).countP_eq,
    countP_assetRuns hb.hasAssetScript (fun x => x) (fun _ => .tx tx), List.map_id']

omit [Ride] in
/-- The assets of the actions, by what is done to them. -/
theorem shownAssets_perm (tx : InvokeScriptTransaction) (actions : List CallableAction) :
    ((actions.filterMap (InvokeScriptTransactionDiff.pseudoTxOf tx)).map fun p =>
        (⟨p.2⟩ : IssuedAsset)).Perm (transferAssets actions ++ supplyAssets actions) := by
  induction actions with
  | nil => exact .nil
  | cons action rest ih =>
    cases action with
    | transfer t =>
      cases hasset : t.assetId with
      | none =>
        have htransfers : transferAssets (.transfer t :: rest) = transferAssets rest := by
          simp [transferAssets, CallableAction.transfer?, hasset]
        have hshown : InvokeScriptTransactionDiff.pseudoTxOf tx (.transfer t) = none := by
          rw [InvokeScriptTransactionDiff.pseudoTxOf, hasset]
          rfl
        rw [htransfers, List.filterMap_cons_none hshown]
        exact ih
      | some id =>
        have htransfers : transferAssets (.transfer t :: rest) = ⟨id⟩ :: transferAssets rest := by
          simp [transferAssets, CallableAction.transfer?, hasset]
        obtain ⟨p, hshown, hp⟩ : ∃ p, InvokeScriptTransactionDiff.pseudoTxOf tx (.transfer t) =
            some p ∧ p.2 = id := by
          rw [InvokeScriptTransactionDiff.pseudoTxOf, hasset]
          exact ⟨_, rfl, rfl⟩
        rw [htransfers, List.filterMap_cons_some hshown, List.map_cons, hp]
        exact ih.cons _
    | dataItem d => exact ih
    | issue => exact ih
    | reissue r => exact (ih.cons ⟨r.assetId⟩).trans List.perm_middle.symm
    | burn r =>
      have hburns : supplyAssets (.burn r :: rest) =
          (rest.filterMap CallableAction.reissue?).map (fun r => ⟨r.assetId⟩) ++
            ⟨r.assetId⟩ :: (rest.filterMap CallableAction.burn?).map fun r => ⟨r.assetId⟩ := rfl
      refine (ih.cons ⟨r.assetId⟩).trans ?_
      rw [hburns, supplyAssets, ← List.append_assoc, ← List.append_assoc]
      exact List.perm_middle.symm

omit [PBTransactionSerializer] [Ride] in
/-- What the verifier runs of every type but exchanges. -/
def PlainRuns (b : Blockchain) (tx : Transaction) : Prop :=
  Verifier.evaluations b tx =
    (tx.sender?.toList.flatMap fun sender =>
      Verifier.accountRuns b sender.toAddress (.tx tx)) ++
      (Verifier.checkedScripts b tx).reverse.map fun s => .asset s.2 (.tx tx)

omit [PBTransactionSerializer] in
theorem exactSum_plainRuns {b : Blockchain} {tx : Transaction} (hb : b.ScriptsAgree)
    (h : PlainRuns b tx) :
    exactSum ((Verifier.evaluations b tx).map (Evaluation.complexity b)) +
        ((tx.checkedAssets.filter fun x => !(b.assetDescription x).isSome).map
          b.assetWeight).sum =
      exactSum (b.accountComplexities (tx.sender?.toList.map PublicKey.toAddress)) +
        (tx.checkedAssets.map b.assetWeight).sum := by
  have hsplit := sum_map_filter_add b.assetWeight (fun x => (b.assetDescription x).isSome)
    tx.checkedAssets
  have haccount : (tx.sender?.toList.flatMap fun sender =>
      Verifier.accountRuns b sender.toAddress (.tx tx)).map (Evaluation.complexity b) =
      b.accountComplexities (tx.sender?.toList.map PublicKey.toAddress) := by
    cases tx.sender? with
    | none => rfl
    | some sender =>
      change (List.flatMap _ [sender]).map _ = _
      rw [List.flatMap_singleton]
      exact complexities_accountRuns b sender.toAddress (.tx tx)
  rw [h, List.map_append, exactSum_append, haccount, exactSum_checkedRuns hb]
  omega

omit [PBTransactionSerializer] [Ride] in
theorem countP_plainRuns {b : Blockchain} {tx : Transaction} (hb : b.ScriptsAgree)
    (h : PlainRuns b tx) :
    (Verifier.evaluations b tx).countP isAssetOrDApp =
      (tx.checkedAssets.filter fun x => (b.assetDescription x).isSome).countP
        b.hasAssetScript := by
  have haccount : (tx.sender?.toList.flatMap fun sender =>
      Verifier.accountRuns b sender.toAddress (.tx tx)).countP isAssetOrDApp = 0 := by
    cases tx.sender? with
    | none => rfl
    | some sender =>
      change (List.flatMap _ [sender]).countP _ = _
      rw [List.flatMap_singleton]
      exact countP_accountRuns b sender.toAddress (.tx tx)
  rw [h, List.countP_append, haccount, countP_checkedRuns hb, zero_add]

omit [PBTransactionSerializer] [Ride] in
theorem countP_plainRuns_le {b : Blockchain} {tx : Transaction} (hb : b.ScriptsAgree)
    (h : PlainRuns b tx) :
    (Verifier.evaluations b tx).countP isAssetOrDApp ≤
      tx.checkedAssets.countP b.hasAssetScript := by
  rw [countP_plainRuns hb h]
  exact List.filter_sublist.countP_le

/-- Where the formula is the general one, and nothing more is run, the two sides balance. -/
theorem balance_plain {b : Blockchain} {tx : Transaction} (hb : b.ScriptsAgree)
    (h : PlainRuns b tx) (hcounted : countedComplexities b tx =
      b.assetComplexities tx.checkedAssets ++
        b.accountComplexities (tx.sender?.toList.map PublicKey.toAddress)) :
    exactSum ((Verifier.evaluations b tx).map (Evaluation.complexity b)) +
        ((tx.checkedAssets.filter fun x => !(b.assetDescription x).isSome).map
          b.assetWeight).sum =
      exactSum (countedComplexities b tx) := by
  rw [exactSum_plainRuns hb h, hcounted, exactSum_append, Blockchain.exactSum_assetComplexities]
  omega

omit [Crypto] [PBTransactionSerializer] [Ride] in
theorem accountComplexities_append (b : Blockchain) (l l' : List Address) :
    b.accountComplexities (l ++ l') = b.accountComplexities l ++ b.accountComplexities l' := by
  rw [Blockchain.accountComplexities, List.filterMap_append, List.map_append]
  rfl

omit [Crypto] [PBTransactionSerializer] [Ride] in
/-- The pair of an exchange is declared, and its description is there. -/
theorem checkedAssets_described {b : Blockchain} {et : ExchangeTransaction}
    (h : ∀ x ∈ ExchangeTransactionDiff.assetIds et, (b.assetDescription x).isSome) :
    ((Transaction.exchange et).checkedAssets.filter fun x => (b.assetDescription x).isSome) =
      (Transaction.exchange et).checkedAssets := by
  refine List.filter_eq_self.mpr fun x hx => h x ?_
  rw [ExchangeTransactionDiff.assetIds, List.mem_eraseDups]
  obtain ⟨asset, hmem, hissued⟩ := List.mem_filterMap.mp hx
  refine List.mem_filterMap.mpr ⟨asset, ?_, hissued⟩
  simp only [List.mem_cons, List.not_mem_nil, or_false] at hmem ⊢
  tauto

omit [Crypto] [PBTransactionSerializer] [Ride] in
theorem nodup_exchangeAssets (et : ExchangeTransaction) :
    ((Verifier.exchangeAssets et).filterMap Asset.issued?).Nodup := by
  refine List.Nodup.filterMap ?_ (nodup_eraseDups _)
  intro asset asset' x hx hx'
  cases asset with
  | Waves => cases hx
  | issued y =>
    cases asset' with
    | Waves => cases hx'
    | issued z => exact congrArg Asset.issued ((Option.some.inj hx).trans (Option.some.inj hx').symm)

omit [PBTransactionSerializer] in
/-- What `verifyExchange` runs weighs what the three accounts and the four assets do. -/
theorem exactSum_exchangeRuns (b : Blockchain) (et : ExchangeTransaction) :
    exactSum ((Verifier.exchangeRuns b et).map (Evaluation.complexity b)) =
      exactSum (b.accountComplexities [et.sender.toAddress, et.buyOrder.senderPublicKey.toAddress,
        et.sellOrder.senderPublicKey.toAddress]) +
      (((Verifier.exchangeAssets et).filterMap Asset.issued?).map b.assetWeight).sum := by
  have hassets := exactSum_assetRuns b (fun x => x) (fun _ => .tx (.exchange et))
    ((Verifier.exchangeAssets et).filterMap Asset.issued?)
  rw [List.map_id'] at hassets
  have haccounts : b.accountComplexities [et.sender.toAddress,
      et.buyOrder.senderPublicKey.toAddress, et.sellOrder.senderPublicKey.toAddress] =
      b.accountComplexities [et.sender.toAddress] ++
        (b.accountComplexities [et.buyOrder.senderPublicKey.toAddress] ++
          b.accountComplexities [et.sellOrder.senderPublicKey.toAddress]) := by
    rw [← accountComplexities_append, ← accountComplexities_append]
    rfl
  unfold Verifier.exchangeRuns
  rw [List.map_append, List.map_append, List.map_append, exactSum_append, exactSum_append,
    exactSum_append, hassets, complexities_accountRuns, complexities_accountRuns,
    complexities_accountRuns, haccounts, exactSum_append, exactSum_append]
  -- the verifier runs the sell order before the buy order
  change _ + exactSum (b.accountComplexities [et.sellOrder.senderPublicKey.toAddress]) +
    exactSum (b.accountComplexities [et.buyOrder.senderPublicKey.toAddress]) + _ = _
  omega

/-- Of an exchange the two sides balance. -/
theorem balance_exchange {b : Blockchain} {et : ExchangeTransaction} (hb : b.ScriptsAgree)
    (h : ∀ x ∈ ExchangeTransactionDiff.assetIds et, (b.assetDescription x).isSome) :
    exactSum ((evaluations b (.exchange et)).map (Evaluation.complexity b)) +
        ((idleAssets b (.exchange et)).map b.assetWeight).sum =
      exactSum (countedComplexities b (.exchange et)) +
        ((uncountedAssets b (.exchange et)).map b.assetWeight).sum := by
  have hfees := sum_map_exchange b.assetWeight (nodup_exchangeAssets et)
    (nodup_eraseDups ([et.buyOrder.assetPair.amountAsset, et.buyOrder.assetPair.priceAsset,
      et.sellOrder.assetPair.amountAsset, et.sellOrder.assetPair.priceAsset].filterMap
        Asset.issued?))
  have hchecked := exactSum_checkedRuns hb (.exchange et)
  rw [checkedAssets_described h] at hchecked
  have hruns : evaluations b (.exchange et) = Verifier.exchangeRuns b et ++
      (Verifier.checkedScripts b (.exchange et)).reverse.map fun s =>
        .asset s.2 (.tx (.exchange et)) := List.append_nil _
  rw [hruns, List.map_append, exactSum_append, exactSum_exchangeRuns, hchecked, idleAssets,
    uncountedAssets, countedComplexities, exactSum_append, Blockchain.exactSum_assetComplexities,
    List.map_append, List.sum_append]
  unfold ExchangeTransactionDiff.assetIds
  omega

/-- The runs of an exchange's asset scripts: those of the four assets, and the pair again. -/
theorem countP_exchange {b : Blockchain} {et : ExchangeTransaction} (hb : b.ScriptsAgree)
    (h : ∀ x ∈ ExchangeTransactionDiff.assetIds et, (b.assetDescription x).isSome) :
    (evaluations b (.exchange et)).countP isAssetOrDApp =
      ((Verifier.exchangeAssets et).filterMap Asset.issued?).countP b.hasAssetScript +
        (Transaction.exchange et).checkedAssets.countP b.hasAssetScript := by
  have hassets := countP_assetRuns hb.hasAssetScript (fun x => x)
    (fun _ => .tx (.exchange et)) ((Verifier.exchangeAssets et).filterMap Asset.issued?)
  rw [List.map_id'] at hassets
  have hruns : evaluations b (.exchange et) = Verifier.exchangeRuns b et ++
      (Verifier.checkedScripts b (.exchange et)).reverse.map fun s =>
        .asset s.2 (.tx (.exchange et)) := List.append_nil _
  rw [hruns, List.countP_append, countP_checkedRuns hb, checkedAssets_described h,
    Verifier.exchangeRuns, List.countP_append, List.countP_append, List.countP_append, hassets,
    countP_accountRuns, countP_accountRuns, countP_accountRuns, Nat.zero_add]

theorem evaluations_invokeScript {b : Blockchain} {ci : InvokeScriptTransaction} {dApp : Address}
    (h : b.resolveRecipient ci.dAppAddressOrAlias = .ok dApp) :
    evaluations b (.invokeScript ci) = Verifier.evaluations b (.invokeScript ci) ++
      .callable dApp ci.funcCallOpt ::
        InvokeScriptTransactionDiff.actionRuns b ci (answeredActions b ci dApp) := by
  change Verifier.evaluations b (.invokeScript ci) ++
    (b.resolveRecipient ci.dAppAddressOrAlias).toOption.toList.flatMap _ = _
  rw [h]
  exact congrArg (Verifier.evaluations b (.invokeScript ci) ++ ·) (List.flatMap_singleton _ _)

theorem uncountedAssets_invokeScript {b : Blockchain} {ci : InvokeScriptTransaction}
    {dApp : Address} (h : b.resolveRecipient ci.dAppAddressOrAlias = .ok dApp) :
    uncountedAssets b (.invokeScript ci) = supplyAssets (answeredActions b ci dApp) := by
  change (b.resolveRecipient ci.dAppAddressOrAlias).toOption.toList.flatMap _ = _
  rw [h]
  exact List.flatMap_singleton _ _

/-- Of a call the two sides balance. -/
theorem balance_invokeScript {b : Blockchain} {ci : InvokeScriptTransaction} {dApp : Address}
    (hb : b.ScriptsAgree) (h : b.resolveRecipient ci.dAppAddressOrAlias = .ok dApp) :
    exactSum ((evaluations b (.invokeScript ci)).map (Evaluation.complexity b)) +
        ((idleAssets b (.invokeScript ci)).map b.assetWeight).sum =
      exactSum (countedComplexities b (.invokeScript ci)) +
        ((uncountedAssets b (.invokeScript ci)).map b.assetWeight).sum := by
  have hplain : PlainRuns b (.invokeScript ci) := rfl
  have hverifier := exactSum_plainRuns hb hplain
  have hactions : exactSum ((InvokeScriptTransactionDiff.actionRuns b ci
        (answeredActions b ci dApp)).map (Evaluation.complexity b)) =
      ((transferAssets (answeredActions b ci dApp)).map b.assetWeight).sum +
        ((supplyAssets (answeredActions b ci dApp)).map b.assetWeight).sum := by
    rw [← List.sum_append, ← List.map_append,
      ← ((shownAssets_perm ci (answeredActions b ci dApp)).map b.assetWeight).sum_eq]
    exact exactSum_assetRuns b _ _ _
  rw [evaluations_invokeScript h, countedComplexities_invokeScript h,
    uncountedAssets_invokeScript h, List.map_append, List.map_cons, exactSum_append,
    exactSum_cons, exactSum_cons, exactSum_append, hactions,
    Blockchain.exactSum_assetComplexities, List.map_append, List.sum_append]
  change _ + (((Transaction.invokeScript ci).checkedAssets.filter _).map b.assetWeight).sum = _
  change _ + _ = exactSum (b.accountComplexities [ci.sender.toAddress]) + _ at hverifier
  omega

theorem countP_invokeScript {b : Blockchain} {ci : InvokeScriptTransaction} {dApp : Address}
    (hb : b.ScriptsAgree) (h : b.resolveRecipient ci.dAppAddressOrAlias = .ok dApp) :
    (evaluations b (.invokeScript ci)).countP isAssetOrDApp ≤ countedRuns b (.invokeScript ci) := by
  have hplain : PlainRuns b (.invokeScript ci) := rfl
  have hverifier := countP_plainRuns_le hb hplain
  have hactions : (InvokeScriptTransactionDiff.actionRuns b ci
        (answeredActions b ci dApp)).countP isAssetOrDApp =
      (transferAssets (answeredActions b ci dApp) ++
        supplyAssets (answeredActions b ci dApp)).countP b.hasAssetScript := by
    rw [← (shownAssets_perm ci (answeredActions b ci dApp)).countP_eq]
    exact countP_assetRuns hb.hasAssetScript _ _ _
  rw [evaluations_invokeScript h, countedRuns_invokeScript h, List.countP_append,
    List.countP_cons, hactions, List.append_assoc]
  have hcounted : ((Transaction.invokeScript ci).checkedAssets ++
      (transferAssets (answeredActions b ci dApp) ++
        supplyAssets (answeredActions b ci dApp))).countP b.hasAssetScript =
      (Transaction.invokeScript ci).checkedAssets.countP b.hasAssetScript +
        (transferAssets (answeredActions b ci dApp) ++
          supplyAssets (answeredActions b ci dApp)).countP b.hasAssetScript :=
    List.countP_append
  have hone : (if isAssetOrDApp (.callable dApp ci.funcCallOpt) = true then 1 else 0) = 1 := rfl
  rw [hone]
  omega

end

/-! ## 8. The condition -/

omit [BlockSerializer] in
/-- A payment from a scripted account is refused, and no other payment runs a script. -/
theorem evaluations_payment {b : Blockchain} {tx : PaymentTransaction}
    (h : Verifier.apply b (.payment tx) = .ok ()) : evaluations b (.payment tx) = [] := by
  have hscript : b.accountScript tx.sender.toAddress = none := by
    have hsender := (Verifier.apply_eq_ok h).1
    unfold Verifier.verifySender at hsender
    cases hscript : b.accountScript tx.sender.toAddress with
    | none => rfl
    | some script =>
      simp only [Transaction.sender?, hscript] at hsender
      cases hsender
  change List.flatMap _ [tx.sender] ++ [] ++ [] = []
  rw [List.flatMap_singleton, Verifier.accountRuns, hscript]
  rfl

omit [BlockSerializer] in
/-- The script of an asset is counted when it is replaced, from `Ride4DApps` on; before, the
sender's may stand in for it. -/
theorem runs_setAssetScript {b : Blockchain} {tx : SetAssetScriptTransaction}
    (hb : b.ScriptsAgree) (h : b.hasAssetScript tx.asset = true) :
    (evaluations b (.setAssetScript tx)).countP Evaluation.isAssetOrDApp ≤
        countedRuns b (.setAssetScript tx) ↔
      RunsCovered b (.setAssetScript tx) := by
  have hplain : PlainRuns b (.setAssetScript tx) := rfl
  have hruns : evaluations b (.setAssetScript tx) =
      Verifier.evaluations b (.setAssetScript tx) := List.append_nil _
  have hle := countP_plainRuns_le hb hplain
  unfold countedRuns RunsCovered
  dsimp only
  by_cases hactive : b.isFeatureActivated BlockchainFeatures.Ride4DApps = true
  · rw [if_pos hactive, hruns]
    exact iff_of_true (hle.trans (Nat.le_add_right _ _)) (.inl hactive)
  · rw [if_neg hactive, hruns, countP_plainRuns hb hplain]
    change List.countP _ (List.filter _ [tx.asset]) ≤ _ ↔ _
    cases hdesc : b.assetDescription tx.asset with
    | none => simp [hdesc]
    | some desc =>
      cases hsender : b.hasScript tx.sender.toAddress <;> simp [hdesc, h, hactive]

omit [BlockSerializer] in
/-- The two sides of an accepted transaction balance: what is run and what is counted and not
run, against what is counted and what is run beyond it. -/
theorem balance {blockTime : Long} {b : Blockchain} {tx : Transaction} {d : Diff}
    (hb : b.ScriptsAgree) (hverifier : Verifier.apply b tx = .ok ())
    (h : unverified blockTime b tx = .ok d) :
    exactSum ((evaluations b tx).map (Evaluation.complexity b)) +
        ((idleAssets b tx).map b.assetWeight).sum =
      exactSum (countedComplexities b tx) +
        ((uncountedAssets b tx).map b.assetWeight).sum := by
  have hplain : ∀ {tx : Transaction}, PlainRuns b tx → evaluations b tx =
        Verifier.evaluations b tx ++ [] →
      countedComplexities b tx = b.assetComplexities tx.checkedAssets ++
        b.accountComplexities (tx.sender?.toList.map PublicKey.toAddress) →
      exactSum ((evaluations b tx).map (Evaluation.complexity b)) +
          ((tx.checkedAssets.filter fun x => !(b.assetDescription x).isSome).map
            b.assetWeight).sum =
        exactSum (countedComplexities b tx) + (([] : List IssuedAsset).map b.assetWeight).sum := by
    intro tx hruns hevaluations hcounted
    rw [hevaluations, List.append_nil, balance_plain hb hruns hcounted]
    exact (add_zero _).symm
  rcases tx with t | t | t | t | t | t | t | t | t | t | t | t | t | t | t | t
  case payment =>
    rw [evaluations_payment hverifier]
    rfl
  case exchange => exact balance_exchange hb (counts_exchange hb h).2
  case invokeScript =>
    obtain ⟨dApp, hdApp, -⟩ := Validation.bind_eq_ok.mp h
    exact balance_invokeScript hb hdApp
  all_goals exact hplain rfl rfl rfl

omit [BlockSerializer] in
/-- The runs of asset scripts and of contracts are counted exactly where `RunsCovered` says. -/
theorem runs_le_iff {blockTime : Long} {b : Blockchain} {tx : Transaction} {d : Diff}
    (hb : b.ScriptsAgree) (hverifier : Verifier.apply b tx = .ok ())
    (h : unverified blockTime b tx = .ok d) :
    (evaluations b tx).countP Evaluation.isAssetOrDApp ≤ countedRuns b tx ↔
      RunsCovered b tx := by
  have hplain : ∀ {tx : Transaction}, PlainRuns b tx → evaluations b tx =
        Verifier.evaluations b tx ++ [] →
      countedRuns b tx = DiffsCommon.countScriptRuns b tx → (RunsCovered b tx ↔ True) →
      ((evaluations b tx).countP Evaluation.isAssetOrDApp ≤ countedRuns b tx ↔
        RunsCovered b tx) := by
    intro tx hruns hevaluations hcounted hcovered
    rw [hevaluations, List.append_nil, hcounted, hcovered, iff_true, DiffsCommon.countScriptRuns]
    exact (countP_plainRuns_le hb hruns).trans (Nat.le_add_right _ _)
  rcases tx with t | t | t | t | t | t | t | t | t | t | t | t | t | t | t | t
  case payment =>
    rw [evaluations_payment hverifier]
    exact iff_of_true (Nat.zero_le _) trivial
  case exchange =>
    rw [countP_exchange hb (counts_exchange hb h).2]
    exact Iff.rfl
  case invokeScript =>
    obtain ⟨dApp, hdApp, -⟩ := Validation.bind_eq_ok.mp h
    exact iff_of_true (countP_invokeScript hb hdApp) trivial
  case setAssetScript =>
    obtain ⟨d', hd', -⟩ := Validation.bind_eq_ok.mp h
    exact runs_setAssetScript hb (AssetTransactionsDiff.setAssetScript_eq_ok hd').1
  case genesis => exact iff_of_true (Nat.zero_le _) trivial
  all_goals exact hplain rfl rfl rfl Iff.rfl

omit [BlockSerializer] in
/-- Where the counted complexities add up to a word and every counted script is run, nothing
run beyond the formulas may weigh anything. -/
theorem complexityCovered_iff {b : Blockchain} {tx : Transaction}
    (hword : Long.InRange (exactSum (countedComplexities b tx))) (hidle : idleAssets b tx = []) :
    ComplexityCovered b tx ↔ ((uncountedAssets b tx).map b.assetWeight).sum ≤ 0 := by
  rw [ComplexityCovered, wrapping_eq_zero hword, hidle]
  exact Iff.rfl

end TransactionDiffer

end

/-! ## 9. A burned token with a script

Alice issues a token with a script and makes her account a contract, in one block. Bob calls
it, and the call burns one token, whose script is run. -/

namespace Devnet

def smartContractBlock : Block :=
  { emptyBlock with
    signature := bytes 64
      0x83e517437afe15dc734a1ba2c1b48985fdc9f2e676597f6581faeb0d9e0a479384ee18cb15d1d6035eb617f4c35045c97f3d273a6b49e1d82c20abf02a5b5484
    transactionData := [.issue smartToken, .setScript contractScript] }

def smartContractBlockBytes : ByteStr :=
  bytes 445 0x030000015d3ef6fbc0813668d47528909acf62aeeba30294f9418c2e97172d3ba7c6b151db7b59017729e5dcdad233de6207ec6c23997c1e53e839c715225de43d375043d5b398e688000000280000000009299ff340328d507794ee8ca0f9169b6e221a1409677d18dc99c0d1674574ccf69aceb9000001200000000200000095000302542e8b2883c27b391359d7d0c15d00815a6693290a38dd8eba341cc07ddaa8ed4d0005536d617274000000000000000003e800010000000005f5e1000000015d3ef6fbc00100060106b76fcb47010001004006809d71672b1485c694b0efad7ab02f56fac1d38e138ea3aef203b8f67822f4443ffb091b6d96d89d5b38786be7eace5ae96139e91bd51d79bf1fee3bdd62880000007f000d01542e8b2883c27b391359d7d0c15d00815a6693290a38dd8eba341cc07ddaa8ed4d01000300020400000000000f42400000015d3ef6fbc0010001004094af320e3e0b21c217ce880ed3862e69782bcf4f635a285cfcd3da8ab6144b617ef703cd38b0035d206fbefc3c09fa4504fd90ec001991aeb2124acdf04c428c000000001885844ed84c86501cd2221627f1d16cd4c60530e5415e1bf6cab037b054f150

/-- The call, with the fee for one script besides the contract. -/
def burningCall : InvokeScriptTransaction :=
  { contractCall with
    fee := 900000
    proofs := ⟨[bytes 64
      0x903a0abeba272e7d3eb2901a6ac06e8122d100700ea9bab425ae4667549422cdce121924cfda02d0cc48b0da62dcf0f92763e5350e51d9d331087a5c752dc483]⟩ }

def burningCallBody : ByteStr :=
  bytes 81 0x100154c0b126b5aa134b84e64625256b8de8973787612b1f3839d2c60526d2114e886d0154ea58e2539eb41410f8873ff020608b0c8325427feaaacd7300000000000000000dbba0000000015d3ef79800

/-- The platform that knows the block and the call. -/
def burningAnswers : KnownAnswers :=
  firstBlocks.and
    { digests :=
        [(smartTokenBody, smartTokenId),
          (contractScriptBody,
            bytes 32 0xa234b7028eec35b5f174210d7cb39de4482f2597d4c5fb6ee25c2b448f4823c6),
          (burningCallBody,
            bytes 32 0x6d858afca5b7f79c68e30c9072144fa120976f85810715bc68f3fd05d1aba762)]
      signatures :=
        [⟨alice.publicKey, smartTokenBody, smartToken.proofs.proofs.headD []⟩,
          ⟨alice.publicKey, contractScriptBody, contractScript.proofs.proofs.headD []⟩,
          ⟨bob.publicKey, burningCallBody, burningCall.proofs.proofs.headD []⟩,
          ⟨miner.publicKey, smartContractBlockBytes, smartContractBlock.signature⟩]
      blocks := [(smartContractBlock, smartContractBlockBytes)]
      actions := [.burn ⟨smartTokenId, 1⟩] }

/-- Scripts of assets and contracts of the latest version are in force from the start. -/
def burningSettings : BlockchainSettings :=
  settings [(BlockchainFeatures.NG, 0), (BlockchainFeatures.SmartAccounts, 0),
    (BlockchainFeatures.SmartAssets, 0), (BlockchainFeatures.DataTransaction, 0),
    (BlockchainFeatures.Ride4DApps, 0), (BlockchainFeatures.MultiPaymentInvokeScript, 0)]

end Devnet

section
open Devnet BlockchainUpdaterImpl TransactionDiffer

local instance burningCrypto : Crypto := burningAnswers.crypto
local instance burningSerializer : PBTransactionSerializer := pbTransactionSerializer
local instance burningBlocks : BlockSerializer := burningAnswers.blockSerializer
local instance burningRide : Ride := burningAnswers.ride

namespace Devnet

def burningNode : Validation BlockchainUpdaterImpl :=
  (ofBlockchain (Blockchain.initial burningSettings)).processBlocks
    [genesisBlock, smartContractBlock]

def burningLedger : Blockchain :=
  (burningNode >>= ledger).toOption.getD (Blockchain.initial burningSettings)

def burningDiff : Diff :=
  (verified none 1500000000000 burningLedger (.invokeScript burningCall)).toOption.getD
    Diff.empty

end Devnet

/-- The run: the block and the call are accepted; two scripts are run, of complexity one
each, and the diff says one. -/
theorem burning_run :
    (burningNode >>= ledger).toOption.isSome = true ∧
      (verified none 1500000000000 burningLedger (.invokeScript burningCall)).toOption.isSome =
        true ∧
      exactSum ((evaluations burningLedger (.invokeScript burningCall)).map
        (Evaluation.complexity burningLedger)) = 2 ∧
      burningDiff.scriptsComplexity = 1 := by
  decide +kernel

theorem burningLedger_reachable :
    ∃ u, Reachable burningSettings u ∧ u.ledger = .ok burningLedger := by
  have hrun : burningNode >>= ledger = .ok burningLedger := Validation.eq_ok_getD burning_run.1
  obtain ⟨u, hu, hledger⟩ := Validation.bind_eq_ok.mp hrun
  exact ⟨u, Reachable.initial.processBlocks hu, hledger⟩

theorem verified_burningCall :
    verified none 1500000000000 burningLedger (.invokeScript burningCall) = .ok burningDiff :=
  Validation.eq_ok_getD burning_run.2.1

end

end WavesNode
