/-
The updater as it runs: assignments and announcements in the order the source makes them.

`BlockchainUpdaterImpl.processBlock` and `processMicroBlock` are methods of an object with
mutable fields and with a subject it publishes to. Here they are computations that leave
whatever they assigned and published also when they fail. What they assign is what the
pure step functions answer (`exec_processBlock`, `exec_processMicroBlock`): a rejected
block has assigned nothing. What they publish is not: three branches of `processBlock`
announce the rollback of micro-blocks before the block is looked at.
-/
import WavesNode.BlockchainUpdater
import WavesNode.Effects

set_option autoImplicit false

namespace WavesNode

section
variable [Crypto] [PBTransactionSerializer] [BlockSerializer]

/-! ## 1. The node and what it publishes -/

/-- `BlockchainUpdated`. The source computes the balances an appended event lists from the
differ's detailed diff, which stands for them here. -/
inductive BlockchainUpdated where
  | BlockAppended (block : Block) (height : ℕ) (diff : BlockDiffer.DetailedDiff)
  | MicroBlockAppended (microBlock : MicroBlock) (height : ℕ) (diff : BlockDiffer.DetailedDiff)
  | RollbackCompleted (to_ : BlockId) (height : ℕ)
  | MicroBlockRollbackCompleted (to_ : BlockId) (height : ℕ)

/-- The updater's fields, and what it has published, the latest event last. -/
structure Node where
  updater : BlockchainUpdaterImpl
  published : List BlockchainUpdated

abbrev NodeM := Effect Node Failure

namespace Node

open BlockchainUpdaterImpl

def publish (e : BlockchainUpdated) : NodeM Unit :=
  .update fun n => { n with published := n.published ++ [e] }

/-- `Left(e)`. -/
def reject {α : Type} (e : ValidationError) : NodeM α := .lift (Validation.fail e)

def setUpdater (f : BlockchainUpdaterImpl → BlockchainUpdaterImpl) : NodeM Unit :=
  .update fun n => { n with updater := f n.updater }

omit [Crypto] [PBTransactionSerializer] [BlockSerializer] in
/-- `BlockchainUpdateNotifier.notifyMicroBlockRollback`. -/
def notifyMicroBlockRollback (toSignature : BlockId) (height : ℕ) : NodeM Unit :=
  publish (.MicroBlockRollbackCompleted toSignature (height + 1))

/-! ## 2. Key blocks -/

omit [BlockSerializer] in
/-- `autoShutdownOnUnsupportedFeature`: no block is taken once a feature that the node does
not implement is active. -/
def checkImplemented (u : BlockchainUpdaterImpl) : Validation Unit :=
  let b := u.blockchain
  let unimplemented : Bool := decide (∃ feature ∈ b.activatedFeatures.dom,
    b.activatedFeaturesAt b.height feature ∧ feature ∉ BlockchainFeatures.implemented)
  .cond (!u.autoShutdownOnUnsupportedFeature || !unimplemented)
    (.GenericError "UNIMPLEMENTED FEATURES ACTIVATED ON BLOCKCHAIN, UPDATE THE NODE IMMEDIATELY")

omit [PBTransactionSerializer] [BlockSerializer] in
/-- The liquid block of a key block without micro-blocks. -/
def keyBlock (b : Blockchain) (block : Block) (result : BlockDiffer.Result)
    (reward : Option Long) : NgState where
  base := block
  baseBlockDiff := result.diff
  baseBlockCarry := result.carry
  baseBlockTotalFee := result.totalFee
  approvedFeatures := featuresApprovedWithBlock b block
  reward := reward
  leasesToCancel := cancelLeases b (collectLeasesToCancel b (b.height + 1))
  microDiffs := ∅
  microBlocks := []

variable [Ride]

/-- What the first half of `processBlock` hands to the second. -/
structure Differed where
  result : BlockDiffer.Result
  discarded : List Transaction
  reward : Option Long

/-- The differ on the persisted chain. -/
def differOnPersisted (b : Blockchain) (block : Block) (height : ℕ) (reward : Option Long)
    (discarded : List Transaction) (verify : Bool) : NodeM (Option Differed) := do
  let r ← .lift (BlockDiffer.fromBlock (CompositeBlockchain b none none b.carryFee reward)
    b.lastBlock block (MiningConstraints.total b height) verify)
  pure (some ⟨r, discarded, reward⟩)

/-- A block on a forged block: once the differ has taken it, the liquid block up to there is
appended to the persisted chain. -/
def differOnForged (u : BlockchainUpdaterImpl) (ng : NgState) (block : Block) (verify : Bool)
    (referencedForgedBlock : Block) (referencedLiquidDiff : Diff) (carry : Long)
    (discarded : List MicroBlock) : NodeM (Option Differed) := do
  let b := u.blockchain
  let height := (b.heightOf referencedForgedBlock.header.reference).getD 0
  if discarded.isEmpty then pure ()
  else notifyMicroBlockRollback referencedForgedBlock.uniqueId height
  let reward := u.nextReward
  let liquidDiffWithCancelledLeases := ng.cancelExpiredLeases referencedLiquidDiff
  let r ← .lift (BlockDiffer.fromBlock
    (CompositeBlockchain b (some liquidDiffWithCancelledLeases) (some referencedForgedBlock)
      carry reward)
    (some referencedForgedBlock) block (MiningConstraints.total b height) verify)
  setUpdater fun u => { u with
    blockchain := u.blockchain.append liquidDiffWithCancelledLeases carry ng.reward
      referencedForgedBlock }
  pure (some ⟨r, discarded.flatMap MicroBlock.transactionData, reward⟩)

/-- A block on the liquid block or on one of its micro-blocks. -/
def differOnLiquid (u : BlockchainUpdaterImpl) (ng : NgState) (block : Block) (verify : Bool) :
    NodeM (Option Differed) := do
  match ng.totalDiffOf block.header.reference with
  | none =>
    reject (.BlockAppendError "References incorrect or non-existing block" block.signature)
  | some total => do
    let (referencedForgedBlock, referencedLiquidDiff, carry, _, discarded) ← .lift total
    .lift (if verify then
        referencedForgedBlock.signaturesValid.leftMap fun _ =>
          .BlockAppendError
            s!"Forged block has invalid signature: base: {ByteStr.stringRepr ng.base.signature}, requested reference: {ByteStr.stringRepr block.header.reference}"
            block.signature
      else .ok ())
    differOnForged u ng block verify referencedForgedBlock referencedLiquidDiff carry discarded

/-- The first half of `processBlock`: where the block goes. -/
def differ (u : BlockchainUpdaterImpl) (block : Block) (verify : Bool) :
    NodeM (Option Differed) :=
  let b := u.blockchain
  match u.ngState with
  | none =>
    match b.lastBlockId with
    | some uniqueId =>
      if uniqueId ≠ block.header.reference then
        let reference := ByteStr.stringRepr block.header.reference
        let what :=
          if (b.heightOf block.header.reference).isSome then "exits, it's not last persisted"
          else "doesn't exist"
        reject (.BlockAppendError
          s!"References incorrect or non-existing block: The referenced block({reference}) {what}"
          block.signature)
      else do
        let height ← .lift (b.unsafeHeightOf uniqueId)
        differOnPersisted b block height u.nextReward [] verify
    | none => differOnPersisted b block 0 u.nextReward [] verify
  | some ng =>
    if ng.base.header.reference = block.header.reference then do
      let newScore ← .lift (blockScore block)
      let oldScore ← .lift (blockScore ng.base)
      if newScore > oldScore then do
        let height ← .lift (b.unsafeHeightOf ng.base.header.reference)
        notifyMicroBlockRollback block.header.reference height
        differOnPersisted b block height ng.reward ng.transactions verify
      else if areVersionsOfSameBlock block ng.base then
        if block.transactionData.length ≤ ng.transactions.length then pure none
        else do
          let height ← .lift (b.unsafeHeightOf ng.base.header.reference)
          notifyMicroBlockRollback block.header.reference height
          differOnPersisted b block height ng.reward [] verify
      else
        reject (.BlockAppendError
          s!"Competitors liquid block {ByteStr.stringRepr block.signature}(score={newScore}) is not better than existing (ng.base {ByteStr.stringRepr ng.base.signature}(score={oldScore}))"
          block.signature)
    else differOnLiquid u ng block verify

/-- `processBlock`, as it runs. -/
def processBlock (block : Block) (verify : Bool := true) :
    NodeM (Option (List Transaction)) := do
  let n ← .read
  .lift (checkImplemented n.updater)
  match ← differ n.updater block verify with
  | none => pure none
  | some ⟨result, discarded, reward⟩ => do
    setUpdater fun u =>
      let b := u.blockchain
      { u with
        restTotalConstraint := result.constraint
        ngState := some (keyBlock b block result reward) }
    let n ← .read
    publish (.BlockAppended block (n.updater.blockchain.height + 1) result.detailedDiff)
    pure (some discarded)

/-! ## 3. Micro-blocks -/

omit [Crypto] [PBTransactionSerializer] [BlockSerializer] [Ride] in
/-- A micro-block continues the last one, or the key block. -/
def checkReference (ng : NgState) (microBlock : MicroBlock) : Validation Unit :=
  match ng.lastMicroBlock with
  | none =>
    .cond (ng.base.uniqueId = microBlock.prevResBlockSig)
      (.MicroBlockAppendError
        "It's first micro and it doesn't reference base block(which exists)"
        microBlock.totalResBlockSig)
  | some prevMicro =>
    .cond (prevMicro.totalResBlockSig = microBlock.prevResBlockSig)
      (.MicroBlockAppendError "It doesn't reference last known microBlock(which exists)"
        microBlock.totalResBlockSig)

/-- `processMicroBlock`, as it runs. -/
def processMicroBlock (microBlock : MicroBlock) (verify : Bool := true) : NodeM Unit := do
  let n ← .read
  let u := n.updater
  match u.ngState with
  | none =>
    reject (.MicroBlockAppendError "No base block exists" microBlock.totalResBlockSig)
  | some ng =>
    if ng.base.sender.toAddress ≠ microBlock.sender.toAddress then
      reject (.MicroBlockAppendError "Base block has been generated by another account"
        microBlock.totalResBlockSig)
    else do
      .lift (checkReference ng microBlock)
      .lift microBlock.signaturesValid
      let ledger ← .lift u.ledger
      let r ← .lift (BlockDiffer.fromMicroBlock ledger u.blockchain.lastBlockTimestamp microBlock
        u.restTotalConstraint verify)
      publish (.MicroBlockAppended microBlock (u.blockchain.height + 1) r.detailedDiff)
      setUpdater fun u => { u with
        restTotalConstraint := r.constraint
        ngState := some (ng.append microBlock r.diff r.carry r.totalFee) }

/-! ## 4. What `processBlock` announces before it looks at the block -/

/-- The rollback that a block is announced with: of the liquid block that a better one, or a
longer version of it, replaces; or of the micro-blocks after the one it references. -/
def announced (u : BlockchainUpdaterImpl) (block : Block) (verify : Bool) :
    List BlockchainUpdated :=
  match u.ngState with
  | none => []
  | some ng =>
    if ng.base.header.reference = block.header.reference then
      match blockScore block, blockScore ng.base,
        u.blockchain.unsafeHeightOf ng.base.header.reference with
      | .ok newScore, .ok oldScore, .ok height =>
        if newScore > oldScore ∨ areVersionsOfSameBlock block ng.base ∧
            ¬block.transactionData.length ≤ ng.transactions.length then
          [.MicroBlockRollbackCompleted block.header.reference (height + 1)]
        else []
      | _, _, _ => []
    else
      match ng.totalDiffOf block.header.reference with
      | some (.ok (referencedForgedBlock, _, _, _, discarded)) =>
        if (!verify || referencedForgedBlock.signaturesValid.toBool) && !discarded.isEmpty then
          [.MicroBlockRollbackCompleted referencedForgedBlock.uniqueId
            ((u.blockchain.heightOf referencedForgedBlock.header.reference).getD 0 + 1)]
        else []
      | _ => []

/-- What the first half hands on of a block that was taken. -/
def handed (taken : TakenBlock) : Differed := ⟨taken.result, taken.discarded, taken.reward⟩

/-- The fields once the first half is done: only a block that was taken has changed one. -/
def afterTaking (u : BlockchainUpdaterImpl) : Validation (Option TakenBlock) →
    BlockchainUpdaterImpl
  | .ok (some taken) => { u with blockchain := taken.blockchain }
  | _ => u

/-! ## 5. The run of the first half -/

theorem exec_differOnPersisted (n : Node) (b : Blockchain) (block : Block) (height : ℕ)
    (reward : Option Long) (discarded : List Transaction) (verify : Bool) :
    (differOnPersisted b block height reward discarded verify).exec n =
      ((takeOnPersisted b block height reward discarded verify).map (Option.map handed), n) := by
  unfold differOnPersisted takeOnPersisted
  rw [Effect.exec_lift_bind]
  cases BlockDiffer.fromBlock _ _ _ _ _ <;> rfl

/-- A block on the persisted chain changes no field. -/
theorem afterTaking_takeOnPersisted (u : BlockchainUpdaterImpl) (block : Block) (height : ℕ)
    (reward : Option Long) (discarded : List Transaction) (verify : Bool) :
    afterTaking u (takeOnPersisted u.blockchain block height reward discarded verify) = u := by
  unfold takeOnPersisted
  cases BlockDiffer.fromBlock _ _ _ _ _ <;> rfl

theorem exec_differOnForged (n : Node) (ng : NgState) (block : Block) (verify : Bool)
    (forged : Block) (liquidDiff : Diff) (carry : Long) (discarded : List MicroBlock) :
    (differOnForged n.updater ng block verify forged liquidDiff carry discarded).exec n =
      let b := n.updater.blockchain
      let height := (b.heightOf forged.header.reference).getD 0
      let diff := ng.cancelExpiredLeases liquidDiff
      let published := n.published ++
        if discarded.isEmpty then []
        else [.MicroBlockRollbackCompleted forged.uniqueId (height + 1)]
      match BlockDiffer.fromBlock (CompositeBlockchain b (some diff) (some forged) carry
          n.updater.nextReward) (some forged) block (MiningConstraints.total b height) verify with
      | .ok r => (.ok (some ⟨r, discarded.flatMap MicroBlock.transactionData,
          n.updater.nextReward⟩),
          { updater := { n.updater with blockchain := b.append diff carry ng.reward forged }
            published := published })
      | .error e => (.error e, { n with published := published }) := by
  unfold differOnForged
  cases hempty : discarded.isEmpty
  · rw [if_neg Bool.false_ne_true, notifyMicroBlockRollback, publish, Effect.exec_update_bind,
      Effect.exec_lift_bind]
    dsimp only
    rw [if_neg Bool.false_ne_true]
    cases BlockDiffer.fromBlock _ _ _ _ _ <;> rfl
  · rw [if_pos rfl]
    dsimp only
    rw [Effect.exec_lift_bind, if_pos rfl, List.append_nil]
    cases BlockDiffer.fromBlock _ _ _ _ _ <;> rfl

theorem exec_differOnLiquid (n : Node) (ng : NgState) (block : Block) (verify : Bool)
    (hng : n.updater.ngState = some ng)
    (href : ng.base.header.reference ≠ block.header.reference) :
    (differOnLiquid n.updater ng block verify).exec n =
      ((n.updater.takeOnLiquid ng block verify).map (Option.map handed),
        { updater := afterTaking n.updater (n.updater.takeOnLiquid ng block verify)
          published := n.published ++ announced n.updater block verify }) := by
  unfold differOnLiquid takeOnLiquid announced
  rw [hng]
  dsimp only
  rw [if_neg href]
  cases ng.totalDiffOf block.header.reference with
  | none =>
    dsimp only
    rw [List.append_nil]
    rfl
  | some total =>
    dsimp only
    rw [Effect.exec_lift_bind]
    rcases total with e | ⟨forged, liquidDiff, carry, fee, discarded⟩
    · dsimp only
      rw [List.append_nil]
      rfl
    · dsimp only
      cases verify
      · rw [Effect.exec_lift_bind, if_neg Bool.false_ne_true]
        dsimp only
        rw [exec_differOnForged]
        dsimp only [bind, Except.bind]
        rw [if_neg Bool.false_ne_true]
        cases hempty : discarded.isEmpty <;>
          cases BlockDiffer.fromBlock _ _ _ _ _ <;> rfl
      · rw [Effect.exec_lift_bind, if_pos rfl]
        dsimp only [bind, Except.bind]
        rw [if_pos rfl]
        rcases forged.signaturesValid with (e | m) | ⟨⟩
        · simp only [Except.toBool, Bool.not_true, Bool.or_self, Bool.false_and,
            Bool.false_eq_true, if_false, List.append_nil]
          rfl
        · simp only [Except.toBool, Bool.not_true, Bool.or_self, Bool.false_and,
            Bool.false_eq_true, if_false, List.append_nil]
          rfl
        · dsimp only [Validation.leftMap]
          rw [exec_differOnForged]
          dsimp only
          cases hempty : discarded.isEmpty <;>
            cases BlockDiffer.fromBlock _ _ _ _ _ <;> rfl

/-- **The first half** answers what the pure one answers, assigns what it assigns, and has
made its announcement whatever the answer is. -/
theorem exec_differ (n : Node) (block : Block) (verify : Bool) :
    (differ n.updater block verify).exec n =
      ((n.updater.takeBlock block verify).map (Option.map handed),
        { updater := afterTaking n.updater (n.updater.takeBlock block verify)
          published := n.published ++ announced n.updater block verify }) := by
  have hpersisted (height : ℕ) (reward : Option Long) (discarded : List Transaction)
      (published : List BlockchainUpdated) :
      (differOnPersisted n.updater.blockchain block height reward discarded verify).exec
          ⟨n.updater, published⟩ =
        ((takeOnPersisted n.updater.blockchain block height reward discarded verify).map
            (Option.map handed),
          ⟨afterTaking n.updater
            (takeOnPersisted n.updater.blockchain block height reward discarded verify),
            published⟩) := by
    rw [exec_differOnPersisted, afterTaking_takeOnPersisted]
  unfold differ takeBlock
  cases hng : n.updater.ngState with
  | none =>
    have hsilent : announced n.updater block verify = [] := by rw [announced, hng]
    rw [hsilent, List.append_nil]
    dsimp only
    cases hlast : n.updater.blockchain.lastBlockId with
    | none => exact hpersisted _ _ _ _
    | some uniqueId =>
      dsimp only
      by_cases href : uniqueId ≠ block.header.reference
      · rw [if_pos href, if_pos href]
        rfl
      · rw [if_neg href, if_neg href, Effect.exec_lift_bind]
        cases n.updater.blockchain.unsafeHeightOf uniqueId with
        | error e => rfl
        | ok height => exact hpersisted _ _ _ _
  | some ng =>
    dsimp only
    by_cases href : ng.base.header.reference = block.header.reference
    · rw [if_pos href, if_pos href, Effect.exec_lift_bind]
      unfold announced
      rw [hng]
      dsimp only
      rw [if_pos href]
      cases hnew : blockScore block with
      | error e => exact congrArg (fun p => (_, Node.mk n.updater p)) (List.append_nil _).symm
      | ok newScore =>
        dsimp only
        rw [Effect.exec_lift_bind]
        cases hold : blockScore ng.base with
        | error e => exact congrArg (fun p => (_, Node.mk n.updater p)) (List.append_nil _).symm
        | ok oldScore =>
          rw [Validation.ok_bind, Validation.ok_bind]
          dsimp only
          by_cases hbetter : newScore > oldScore
          · rw [if_pos hbetter, if_pos hbetter, Effect.exec_lift_bind]
            cases hheight : n.updater.blockchain.unsafeHeightOf ng.base.header.reference with
            | error e => exact congrArg (fun p => (_, Node.mk n.updater p)) (List.append_nil _).symm
            | ok height =>
              rw [Validation.ok_bind]
              dsimp only
              rw [if_pos (Or.inl hbetter), notifyMicroBlockRollback, publish,
                Effect.exec_update_bind]
              exact hpersisted _ _ _ _
          · rw [if_neg hbetter, if_neg hbetter]
            by_cases hsame : areVersionsOfSameBlock block ng.base = true
            · rw [if_pos hsame, if_pos hsame]
              by_cases hlength : block.transactionData.length ≤ ng.transactions.length
              · rw [if_pos hlength, if_pos hlength]
                have hsilent : ¬(newScore > oldScore ∨ areVersionsOfSameBlock block ng.base = true ∧
                    ¬block.transactionData.length ≤ ng.transactions.length) := by
                  rintro (h | ⟨-, h⟩)
                  · exact hbetter h
                  · exact h hlength
                cases n.updater.blockchain.unsafeHeightOf ng.base.header.reference with
                | error e =>
                  exact congrArg (fun p => (_, Node.mk n.updater p)) (List.append_nil _).symm
                | ok height =>
                  dsimp only
                  rw [if_neg hsilent, List.append_nil]
                  rfl
              · rw [if_neg hlength, if_neg hlength, Effect.exec_lift_bind]
                cases hheight : n.updater.blockchain.unsafeHeightOf ng.base.header.reference with
                | error e =>
                  exact congrArg (fun p => (_, Node.mk n.updater p)) (List.append_nil _).symm
                | ok height =>
                  rw [Validation.ok_bind]
                  dsimp only
                  rw [if_pos (Or.inr ⟨hsame, hlength⟩), notifyMicroBlockRollback, publish,
                    Effect.exec_update_bind]
                  exact hpersisted _ _ _ _
            · rw [if_neg hsame, if_neg hsame]
              have hsilent : ¬(newScore > oldScore ∨ areVersionsOfSameBlock block ng.base = true ∧
                  ¬block.transactionData.length ≤ ng.transactions.length) := by
                rintro (h | ⟨h, -⟩)
                · exact hbetter h
                · exact hsame h
              cases n.updater.blockchain.unsafeHeightOf ng.base.header.reference with
              | error e =>
                exact congrArg (fun p => (_, Node.mk n.updater p)) (List.append_nil _).symm
              | ok height =>
                dsimp only
                rw [if_neg hsilent, List.append_nil]
                rfl
    · rw [if_neg href, if_neg href]
      exact exec_differOnLiquid n ng block verify hng href

/-! ## 6. The runs of the two methods -/

/-- **`processBlock`** answers and assigns what the pure step does. A block it rejects has
assigned nothing, but what was announced of it stays announced. -/
theorem exec_processBlock (n : Node) (block : Block) (verify : Bool) :
    (processBlock block verify).exec n =
      match checkImplemented n.updater with
      | .error e => (.error e, n)
      | .ok _ =>
        match n.updater.takeBlock block verify with
        | .error e => (.error e,
            { n with published := n.published ++ announced n.updater block verify })
        | .ok none => (.ok none,
            { n with published := n.published ++ announced n.updater block verify })
        | .ok (some taken) => (.ok (some taken.discarded),
            { updater := n.updater.withTaken block taken
              published := n.published ++ announced n.updater block verify ++
                [.BlockAppended block (taken.blockchain.height + 1)
                  taken.result.detailedDiff] }) := by
  unfold processBlock
  rw [Effect.exec_read_bind, Effect.exec_lift_bind]
  cases checkImplemented n.updater with
  | error e => rfl
  | ok u =>
    dsimp only
    rw [Effect.exec_bind, exec_differ]
    rcases n.updater.takeBlock block verify with e | (_ | taken) <;> rfl

/-- The pure step, its check written out. -/
theorem processBlock_eq (u : BlockchainUpdaterImpl) (block : Block) (verify : Bool) :
    u.processBlock block verify = (do
      checkImplemented u
      let taken ← u.takeBlock block verify
      match taken with
      | none => .ok (u, none)
      | some taken => .ok (u.withTaken block taken, some taken.discarded)) := rfl

/-- The pure step on a micro-block of the right sender, its checks written out. -/
theorem processMicroBlock_eq {u : BlockchainUpdaterImpl} {ng : NgState} {microBlock : MicroBlock}
    {verify : Bool} (hng : u.ngState = some ng)
    (hsender : ¬ng.base.sender.toAddress ≠ microBlock.sender.toAddress) :
    u.processMicroBlock microBlock verify = (do
      checkReference ng microBlock
      microBlock.signaturesValid
      let ledger ← u.ledger
      let r ← BlockDiffer.fromMicroBlock ledger u.blockchain.lastBlockTimestamp microBlock
        u.restTotalConstraint verify
      .ok { u with
        restTotalConstraint := r.constraint
        ngState := some (ng.append microBlock r.diff r.carry r.totalFee) }) := by
  unfold BlockchainUpdaterImpl.processMicroBlock checkReference
  rw [hng]
  dsimp only
  rw [if_neg hsender]
  cases ng.lastMicroBlock <;> rfl

/-- **`processMicroBlock`** publishes and assigns at its end only. -/
theorem exec_processMicroBlock (n : Node) (microBlock : MicroBlock) (verify : Bool) :
    match n.updater.processMicroBlock microBlock verify with
    | .error e => (processMicroBlock microBlock verify).exec n = (.error e, n)
    | .ok u => ∃ diff, (processMicroBlock microBlock verify).exec n = (.ok (),
        { updater := u
          published := n.published ++
            [.MicroBlockAppended microBlock (n.updater.blockchain.height + 1) diff] }) := by
  cases hng : n.updater.ngState with
  | none =>
    unfold processMicroBlock BlockchainUpdaterImpl.processMicroBlock
    rw [Effect.exec_read_bind, hng]
    dsimp only
    rw [hng]
    exact rfl
  | some ng =>
    by_cases hsender : ng.base.sender.toAddress ≠ microBlock.sender.toAddress
    · unfold processMicroBlock BlockchainUpdaterImpl.processMicroBlock
      rw [Effect.exec_read_bind, hng]
      dsimp only
      rw [hng]
      dsimp only
      rw [if_pos hsender, if_pos hsender]
      exact rfl
    · rw [processMicroBlock_eq hng hsender]
      unfold processMicroBlock
      rw [Effect.exec_read_bind]
      dsimp only
      rw [hng]
      dsimp only
      rw [if_neg hsender, Effect.exec_lift_bind]
      cases checkReference ng microBlock with
      | error e => exact rfl
      | ok u₁ =>
        dsimp only
        rw [Validation.ok_bind, Effect.exec_lift_bind]
        cases microBlock.signaturesValid with
        | error e => exact rfl
        | ok u₂ =>
          dsimp only
          rw [Validation.ok_bind, Effect.exec_lift_bind]
          cases n.updater.ledger with
          | error e => exact rfl
          | ok ledger =>
            dsimp only
            rw [Validation.ok_bind, Effect.exec_lift_bind]
            cases BlockDiffer.fromMicroBlock ledger _ _ _ _ with
            | error e => exact rfl
            | ok r => exact ⟨r.detailedDiff, rfl⟩

/-! ## 7. What a rejection leaves -/

end Node

end

/-! ## 8. A better block that is refused -/

namespace Devnet

/-- A block in place of the empty one, of a better score, with a transaction that only the
first block may have. -/
def invalidBlock : Block :=
  { emptyBlock with
    header := { emptyBlock.header with baseTarget := 100000000 }
    signature := bytes 64
      0x9c9b6ba057ebb40e594e4b5a693b5719e5728e682c0791fa8ebd627dffe18e29f1500df8cbf14414f19ab9a99d88e42fc2ecc23d67fb539dc6907e225097ad81
    transactionData := genesisBlock.transactionData.take 1 }

def invalidBlockBytes : ByteStr :=
  bytes 208 0x030000015d3ef6fbc0813668d47528909acf62aeeba30294f9418c2e97172d3ba7c6b151db7b59017729e5dcdad233de6207ec6c23997c1e53e839c715225de43d375043d5b398e688000000280000000005f5e10040328d507794ee8ca0f9169b6e221a1409677d18dc99c0d1674574ccf69aceb900000033000000010000002b010000015d3ef611600154ea58e2539eb41410f8873ff020608b0c8325427feaaacd730011c37937e08000000000001885844ed84c86501cd2221627f1d16cd4c60530e5415e1bf6cab037b054f150

/-- The platform that knows the first blocks and the invalid one. -/
def invalidBlockAnswers : KnownAnswers :=
  firstBlocks.and
    { signatures := [⟨miner.publicKey, invalidBlockBytes, invalidBlock.signature⟩]
      blocks := [(invalidBlock, invalidBlockBytes)] }

/-- NG is in force from the start. -/
def ngSettings : BlockchainSettings := settings [(BlockchainFeatures.NG, 0)]

end Devnet

section
open Devnet BlockchainUpdaterImpl

local instance nodeCrypto : Crypto := invalidBlockAnswers.crypto
local instance nodeSerializer : PBTransactionSerializer := pbTransactionSerializer
local instance nodeBlocks : BlockSerializer := invalidBlockAnswers.blockSerializer
local instance nodeRide : Ride := invalidBlockAnswers.ride

namespace Devnet

def twoBlocksUpdater : Validation BlockchainUpdaterImpl :=
  (ofBlockchain (Blockchain.initial ngSettings)).processBlocks [genesisBlock, emptyBlock]

def twoBlocks : BlockchainUpdaterImpl :=
  twoBlocksUpdater.toOption.getD (ofBlockchain (Blockchain.initial ngSettings))

def refusal : Except Failure (Option (List Transaction)) × Node :=
  (Node.processBlock invalidBlock).exec ⟨twoBlocks, []⟩

end Devnet

/-- The first blocks are accepted, and the better one is refused after something was published. -/
theorem refusal_run :
    twoBlocksUpdater.toOption.isSome ∧ Validation.isLeft refusal.1 = true ∧
      refusal.2.published.length = 1 := by
  decide +kernel

theorem twoBlocks_reachable : Reachable ngSettings twoBlocks := by
  have hrun : twoBlocksUpdater = .ok twoBlocks := Validation.eq_ok_getD refusal_run.1
  exact Reachable.initial.processBlocks hrun

theorem refusal_rejected :
    ∃ e, (Node.processBlock invalidBlock).exec ⟨twoBlocks, []⟩ =
      (.error (.error e), refusal.2) := by
  obtain ⟨e, he⟩ := Validation.isLeft_iff.mp refusal_run.2.1
  have hrun : (Node.processBlock invalidBlock).exec ⟨twoBlocks, []⟩ = refusal := by
    rw [refusal]
  have hpair : refusal = (.error (.error e), refusal.2) := by rw [← he]
  exact ⟨e, hrun.trans hpair⟩

end

end WavesNode
