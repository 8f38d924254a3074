/-
The updater over its database.

`BlockchainUpdaterImpl` holds the persisted chain as a ledger; here it is the database with
its caches, which can also take blocks off again. What the updater decides it decides on the
ledger the database is (`updater`), and so `processBlock` and `processMicroBlock` are the ones
of the updater; what they persist they append to the database (`persisted`). `removeAfter`
resets the liquid block, or drops it and rolls the database back.

`processBlock_eq_ok` says once what a block can do to the node; every invariant of its runs
(`Reachable`) is derived from it.
-/
import WavesNode.Node
import WavesNode.RollbackFeatures

set_option autoImplicit false

namespace WavesNode

/-! ## 1. The node -/

structure StoredUpdater where
  blockchain : LevelDBWriter
  ngState : Option NgState
  restTotalConstraint : MiningConstraint
  autoShutdownOnUnsupportedFeature : Bool := true

namespace StoredUpdater

section

variable [Crypto] [PBTransactionSerializer]

/-- The updater on the ledger that the database is. -/
def updater (s : StoredUpdater) : BlockchainUpdaterImpl where
  blockchain := s.blockchain.blockchain
  ngState := s.ngState
  restTotalConstraint := s.restTotalConstraint
  autoShutdownOnUnsupportedFeature := s.autoShutdownOnUnsupportedFeature

def height (s : StoredUpdater) : ℕ := s.updater.height

/-- The node as it starts on a database. -/
def start (w : LevelDBWriter) (autoShutdownOnUnsupportedFeature : Bool) : StoredUpdater where
  blockchain := w
  ngState := none
  restTotalConstraint := MiningConstraints.total w.blockchain w.height
  autoShutdownOnUnsupportedFeature := autoShutdownOnUnsupportedFeature

variable [BlockSerializer]

/-! ## 2. Key blocks -/

/-- The database once a block is taken: a block on the liquid block makes the liquid block
up to there final. -/
def persisted (s : StoredUpdater) (block : Block) : Validation LevelDBWriter :=
  match s.ngState with
  | none => .ok s.blockchain
  | some ng =>
    if ng.base.header.reference = block.header.reference then .ok s.blockchain
    else
      match ng.totalDiffOf block.header.reference with
      | none => .ok s.blockchain
      | some total => do
        let (referencedForgedBlock, referencedLiquidDiff, carry, _, _) ← total
        .ok (s.blockchain.append (ng.cancelExpiredLeases referencedLiquidDiff) carry ng.reward
          referencedForgedBlock)

variable [Ride]

/-- `processBlock`. -/
def processBlock (s : StoredUpdater) (block : Block) (verify : Bool := true) :
    Validation (StoredUpdater × Option (List Transaction)) := do
  Node.checkImplemented s.updater
  let taken ← s.updater.takeBlock block verify
  match taken with
  | none => .ok (s, none)
  | some taken => do
    let w ← s.persisted block
    .ok ({ s with
      blockchain := w
      restTotalConstraint := taken.result.constraint
      ngState := some (Node.keyBlock w.blockchain block taken.result taken.reward) },
      some taken.discarded)

/-- `processMicroBlock`. -/
def processMicroBlock (s : StoredUpdater) (microBlock : MicroBlock) (verify : Bool := true) :
    Validation StoredUpdater := do
  let u ← s.updater.processMicroBlock microBlock verify
  .ok { s with ngState := u.ngState, restTotalConstraint := u.restTotalConstraint }

/-! ## 3. Rollbacks -/

omit [Crypto] [PBTransactionSerializer] [BlockSerializer] [Ride] in
/-- The blocks that a rollback takes off, the lowest first. -/
def discardedBlocks (w : LevelDBWriter) (targetBlockId : BlockId) : List Block :=
  match w.db.heightOf targetBlockId with
  | none => []
  | some targetHeight =>
    (rangeInclusive (targetHeight + 1) w.height).filterMap w.db.discardedBlock

omit [Ride] in
/-- `removeAfter`: the state it leaves, also where the database refuses, and the blocks that
were removed. -/
def removeAfter (s : StoredUpdater) (blockId : BlockId) :
    StoredUpdater × Validation (List Block) :=
  if s.ngState.any fun ng => ng.contains blockId then (s, .ok [])
  else
    let discardedNgBlock := (s.ngState.map NgState.bestLiquidBlock).toList
    let s := { s with ngState := none }
    match s.blockchain.rollbackTo blockId with
    | .ok w =>
      ({ s with blockchain := w }, .ok (discardedBlocks s.blockchain blockId ++ discardedNgBlock))
    | .error err => (s, .fail (.GenericError err))

/-! ## 4. Runs -/

/-- What happens to a node. -/
inductive Event where
  | processBlock (block : Block)
  | processMicroBlock (microBlock : MicroBlock)
  | removeAfter (blockId : BlockId)
  | load (key : LevelDBWriter.CacheKey)
  | evict (key : LevelDBWriter.CacheKey)
  | restart

/-- The nodes an event leads to: one, or none where it is not accepted. -/
def Event.Leads (s s' : StoredUpdater) : Event → Prop
  | .processBlock block => ∃ discarded, s.processBlock block = .ok (s', discarded)
  | .processMicroBlock microBlock => s.processMicroBlock microBlock = .ok s'
  | .removeAfter blockId => (s.removeAfter blockId).1 = s'
  | .load key => { s with blockchain := s.blockchain.load key } = s'
  | .evict key => { s with blockchain := s.blockchain.evict key } = s'
  | .restart => start s.blockchain.restart s.autoShutdownOnUnsupportedFeature = s'

/-- What a node can be in: it starts on an empty database and takes verified blocks and
micro-blocks and removes blocks, in any order, while its caches load and drop what they like.
Every event meets a condition on it and on the node before it. -/
inductive Reachable (Q : StoredUpdater → Event → Prop) (settings : BlockchainSettings)
    (dbSettings : DBSettings) : StoredUpdater → Prop where
  | start (autoShutdown : Bool) :
    Reachable Q settings dbSettings (start (.empty settings dbSettings) autoShutdown)
  | step {s s' : StoredUpdater} {e : Event} :
    Reachable Q settings dbSettings s → Q s e → e.Leads s s' → Reachable Q settings dbSettings s'

theorem Reachable.mono {Q Q' : StoredUpdater → Event → Prop} (hQ : ∀ s e, Q s e → Q' s e)
    {settings : BlockchainSettings} {dbSettings : DBSettings} {s : StoredUpdater}
    (h : Reachable Q settings dbSettings s) : Reachable Q' settings dbSettings s := by
  induction h with
  | start autoShutdown => exact .start autoShutdown
  | step _ hstep hleads ih => exact .step ih (hQ _ _ hstep) hleads

/-- The node after a block. -/
def afterBlock (s : StoredUpdater) (block : Block) : Validation StoredUpdater :=
  Prod.fst <$> s.processBlock block

theorem Reachable.afterBlock {Q : StoredUpdater → Event → Prop} {settings : BlockchainSettings}
    {dbSettings : DBSettings} {s s' : StoredUpdater} {block : Block}
    (h : Reachable Q settings dbSettings s) (hQ : Q s (.processBlock block))
    (hblock : s.afterBlock block = .ok s') : Reachable Q settings dbSettings s' := by
  obtain ⟨⟨s'', discarded⟩, hs', rfl⟩ := Validation.map_eq_ok.mp hblock
  exact .step h hQ ⟨discarded, hs'⟩

/-! ## 5. What a step can do -/

/-- The database and the reward that a block which is taken leaves, with the differ's result:
it is the first on the persisted chain; or it takes the place of the liquid block; or it
continues it. -/
inductive Taken (s : StoredUpdater) (block : Block) :
    LevelDBWriter → BlockDiffer.Result → Option Long → Prop
  | first {height : ℕ} {r : BlockDiffer.Result} :
    s.ngState = none →
    BlockDiffer.fromBlock
      (CompositeBlockchain s.blockchain.blockchain none none s.blockchain.blockchain.carryFee
        s.updater.nextReward)
      s.blockchain.lastBlock block (MiningConstraints.total s.blockchain.blockchain height) =
      .ok r →
    Taken s block s.blockchain r s.updater.nextReward
  | competitor {ng : NgState} {height : ℕ} {r : BlockDiffer.Result} :
    s.ngState = some ng → ng.base.header.reference = block.header.reference →
    BlockDiffer.fromBlock
      (CompositeBlockchain s.blockchain.blockchain none none s.blockchain.blockchain.carryFee
        ng.reward)
      s.blockchain.lastBlock block (MiningConstraints.total s.blockchain.blockchain height) =
      .ok r →
    Taken s block s.blockchain r ng.reward
  | next {ng : NgState} {forged : Block} {diff : Diff} {carry fee : Long}
      {discarded : List MicroBlock} {height : ℕ} {r : BlockDiffer.Result} :
    s.ngState = some ng → ng.base.header.reference ≠ block.header.reference →
    ng.forgeBlock block.header.reference = some (forged, discarded) →
    ng.diffFor block.header.reference = .ok (diff, carry, fee) →
    forged.signaturesValid = .ok () →
    BlockDiffer.fromBlock
      (CompositeBlockchain s.blockchain.blockchain (some (ng.cancelExpiredLeases diff))
        (some forged) carry s.updater.nextReward)
      (some forged) block (MiningConstraints.total s.blockchain.blockchain height) = .ok r →
    Taken s block (s.blockchain.append (ng.cancelExpiredLeases diff) carry ng.reward forged) r
      s.updater.nextReward

/-- A block on the persisted chain itself. -/
theorem takeOnPersisted_eq_ok {b : Blockchain} {block : Block} {height : ℕ}
    {reward : Option Long} {discarded : List Transaction} {verify : Bool}
    {taken : BlockchainUpdaterImpl.TakenBlock}
    (h : BlockchainUpdaterImpl.takeOnPersisted b block height reward discarded verify =
      .ok (some taken)) :
    BlockDiffer.fromBlock (CompositeBlockchain b none none b.carryFee reward) b.lastBlock block
      (MiningConstraints.total b height) verify = .ok taken.result ∧ taken.reward = reward := by
  unfold BlockchainUpdaterImpl.takeOnPersisted at h
  obtain ⟨r, hr, h⟩ := Validation.bind_eq_ok.mp h
  cases h
  exact ⟨hr, rfl⟩

/-- **What a taken block leaves** is one of the three. -/
theorem taken_of_takeBlock {s : StoredUpdater} {block : Block}
    {taken : BlockchainUpdaterImpl.TakenBlock} {w : LevelDBWriter}
    (htake : s.updater.takeBlock block true = .ok (some taken)) (hw : s.persisted block = .ok w) :
    s.Taken block w taken.result taken.reward := by
  unfold BlockchainUpdaterImpl.takeBlock at htake
  unfold persisted at hw
  rcases hng : s.ngState with _ | ng
  · -- there is no liquid block
    rw [hng] at hw
    cases hw
    have hliquid : s.updater.ngState = none := hng
    rw [hliquid] at htake
    dsimp only at htake
    have htaken : ∃ height, BlockchainUpdaterImpl.takeOnPersisted s.updater.blockchain block
        height s.updater.nextReward [] true = .ok (some taken) := by
      split at htake
      · split at htake
        · cases htake
        · obtain ⟨height, -, htake⟩ := Validation.bind_eq_ok.mp htake
          exact ⟨height, htake⟩
      · exact ⟨0, htake⟩
    obtain ⟨height, htaken⟩ := htaken
    obtain ⟨hr, hreward⟩ := takeOnPersisted_eq_ok htaken
    rw [hreward]
    exact .first hng hr
  · rw [hng] at hw
    have hliquid : s.updater.ngState = some ng := hng
    rw [hliquid] at htake
    dsimp only at htake hw
    by_cases href : ng.base.header.reference = block.header.reference
    · -- a competitor of the liquid block, or another version of it
      rw [if_pos href] at htake hw
      cases hw
      obtain ⟨newScore, -, htake⟩ := Validation.bind_eq_ok.mp htake
      obtain ⟨oldScore, -, htake⟩ := Validation.bind_eq_ok.mp htake
      have htaken : ∃ height discarded, BlockchainUpdaterImpl.takeOnPersisted
          s.updater.blockchain block height ng.reward discarded true = .ok (some taken) := by
        split at htake
        · obtain ⟨height, -, htake⟩ := Validation.bind_eq_ok.mp htake
          exact ⟨height, _, htake⟩
        · split at htake
          · split at htake
            · cases htake
            · obtain ⟨height, -, htake⟩ := Validation.bind_eq_ok.mp htake
              exact ⟨height, _, htake⟩
          · cases htake
      obtain ⟨height, discarded, htaken⟩ := htaken
      obtain ⟨hr, hreward⟩ := takeOnPersisted_eq_ok htaken
      rw [hreward]
      exact .competitor hng href hr
    · -- a block on the liquid block
      rw [if_neg href] at htake hw
      unfold BlockchainUpdaterImpl.takeOnLiquid at htake
      rw [NgState.totalDiffOf] at htake hw
      rcases hforge : ng.forgeBlock block.header.reference with _ | ⟨forged, discarded⟩
      · rw [hforge] at htake
        cases htake
      · rw [hforge, Option.map_some] at htake hw
        dsimp only at htake hw
        obtain ⟨total, htotal, htake⟩ := Validation.bind_eq_ok.mp htake
        obtain ⟨⟨diff, carry, fee⟩, hdiff, htotal⟩ := Validation.bind_eq_ok.mp htotal
        cases htotal
        rw [hdiff] at hw
        cases hw
        dsimp only at htake
        rw [if_pos rfl] at htake
        obtain ⟨_, hsignature, htake⟩ := Validation.bind_eq_ok.mp htake
        obtain ⟨r, hr, htake⟩ := Validation.bind_eq_ok.mp htake
        cases htake
        exact .next hng href hforge hdiff (Validation.leftMap_eq_ok.mp hsignature) hr

/-- **What a block can do**: nothing, or it is taken and is the liquid block now. -/
theorem processBlock_eq_ok {s s' : StoredUpdater} {block : Block}
    {discarded : Option (List Transaction)} (h : s.processBlock block = .ok (s', discarded)) :
    s' = s ∨ ∃ w r reward, s.Taken block w r reward ∧
      s' = { s with
        blockchain := w
        restTotalConstraint := r.constraint
        ngState := some (Node.keyBlock w.blockchain block r reward) } := by
  unfold processBlock at h
  obtain ⟨-, -, h⟩ := Validation.bind_eq_ok.mp h
  obtain ⟨taken, htake, h⟩ := Validation.bind_eq_ok.mp h
  rcases taken with _ | taken
  · cases h
    exact .inl rfl
  · obtain ⟨w, hw, h⟩ := Validation.bind_eq_ok.mp h
    cases h
    exact .inr ⟨w, taken.result, taken.reward, taken_of_takeBlock htake hw, rfl⟩

/-- **What a micro-block can do**: it is put on the liquid block. -/
theorem processMicroBlock_eq_ok {s s' : StoredUpdater} {microBlock : MicroBlock}
    (h : s.processMicroBlock microBlock = .ok s') :
    ∃ ng ledger r, s.ngState = some ng ∧ ng.bestLiquidBlockId = microBlock.prevResBlockSig ∧
      s.updater.ledger = .ok ledger ∧
      BlockDiffer.fromMicroBlock ledger s.updater.blockchain.lastBlockTimestamp microBlock
        s.restTotalConstraint = .ok r ∧
      s' = { s with
        restTotalConstraint := r.constraint
        ngState := some (ng.append microBlock r.diff r.carry r.totalFee) } := by
  unfold processMicroBlock at h
  obtain ⟨u, hu, h⟩ := Validation.bind_eq_ok.mp h
  cases h
  rcases hng : s.ngState with _ | ng
  · unfold BlockchainUpdaterImpl.processMicroBlock at hu
    have hliquid : s.updater.ngState = none := hng
    rw [hliquid] at hu
    cases hu
  · have hliquid : s.updater.ngState = some ng := hng
    by_cases hsender : ng.base.sender.toAddress ≠ microBlock.sender.toAddress
    · unfold BlockchainUpdaterImpl.processMicroBlock at hu
      rw [hliquid] at hu
      dsimp only at hu
      rw [if_pos hsender] at hu
      cases hu
    · rw [Node.processMicroBlock_eq hliquid hsender] at hu
      obtain ⟨_, href, hu⟩ := Validation.bind_eq_ok.mp hu
      obtain ⟨-, -, hu⟩ := Validation.bind_eq_ok.mp hu
      obtain ⟨ledger, hledger, hu⟩ := Validation.bind_eq_ok.mp hu
      obtain ⟨r, hr, hu⟩ := Validation.bind_eq_ok.mp hu
      cases hu
      refine ⟨ng, ledger, r, rfl, ?_, hledger, hr, rfl⟩
      rw [NgState.bestLiquidBlockId]
      unfold Node.checkReference NgState.lastMicroBlock at href
      rcases hlast : ng.microBlocks.head? with _ | prevMicro
      · rw [hlast] at href
        exact of_decide_eq_true (Validation.cond_eq_ok.mp href)
      · rw [hlast] at href
        exact of_decide_eq_true (Validation.cond_eq_ok.mp href)

omit [Ride] in
/-- **What a removal can do**: it leaves the liquid block, or drops it, and with it the
blocks that the database takes off. -/
theorem removeAfter_cases (s : StoredUpdater) (blockId : BlockId) :
    (s.removeAfter blockId).1 = s ∨
      (s.removeAfter blockId).1 = { s with ngState := none } ∨
      ∃ w, s.ngState.any (fun ng => ng.contains blockId) = false ∧
        s.blockchain.rollbackTo blockId = .ok w ∧
        (s.removeAfter blockId).1 = { s with ngState := none, blockchain := w } := by
  unfold removeAfter
  split
  · exact .inl rfl
  · rename_i hcontains
    dsimp only
    rcases hroll : s.blockchain.rollbackTo blockId with err | w
    · exact .inr (.inl rfl)
    · exact .inr (.inr ⟨w, eq_false_of_ne_true hcontains, rfl, rfl⟩)

/-- What the database of a step is made into. -/
inductive Written (w : LevelDBWriter) : LevelDBWriter → Prop
  | same : Written w w
  | append (d : Diff) (carry : Long) (reward : Option Long) (block : Block) :
    Written w (w.append d carry reward block)
  | rollbackTo {v : LevelDBWriter} {id : BlockId} : w.rollbackTo id = .ok v → Written w v
  | load (key : LevelDBWriter.CacheKey) : Written w (w.load key)
  | evict (key : LevelDBWriter.CacheKey) : Written w (w.evict key)
  | restart : Written w w.restart

theorem Taken.written {s : StoredUpdater} {block : Block} {w : LevelDBWriter}
    {r : BlockDiffer.Result} {reward : Option Long} (h : s.Taken block w r reward) :
    Written s.blockchain w := by
  cases h with
  | first => exact .same
  | competitor => exact .same
  | next => exact .append _ _ _ _

theorem Event.Leads.written {s s' : StoredUpdater} {e : Event} (h : e.Leads s s') :
    Written s.blockchain s'.blockchain := by
  cases e with
  | processBlock block =>
    obtain ⟨discarded, h⟩ := h
    rcases processBlock_eq_ok h with rfl | ⟨w, r, reward, htaken, rfl⟩
    · exact .same
    · exact htaken.written
  | processMicroBlock microBlock =>
    obtain ⟨ng, ledger, r, -, -, -, -, rfl⟩ := processMicroBlock_eq_ok h
    exact .same
  | removeAfter blockId =>
    cases h
    rcases removeAfter_cases s blockId with hs | hs | ⟨w, -, hroll, hs⟩
    · rw [hs]
      exact .same
    · rw [hs]
      exact .same
    · rw [hs]
      exact .rollbackTo hroll
  | load key =>
    cases h
    exact .load key
  | evict key =>
    cases h
    exact .evict key
  | restart =>
    cases h
    exact .restart

end

/-! ## 6. The persisted chain -/

section

variable [Crypto] [PBTransactionSerializer]

open LevelDBWriter

/-- What holds of the database in every run: there is a block at every height up to the last
and at no other, the last one is the one in memory, and so are the features. -/
structure Chained (settings : BlockchainSettings) (w : LevelDBWriter) : Prop where
  sound : Sound w
  settings_eq : w.settings = settings
  blocks : ∀ h, (w.db.blockInfoAt h).isSome = true ↔ 1 ≤ h ∧ h ≤ w.height
  lastBlock : w.lastBlock.map Block.header = (w.db.blockInfoAt w.height).map BlockInfo.header
  rewards : ∀ h, (w.db.blockReward h).isSome = true → 1 ≤ h ∧ h ≤ w.height
  features : FeaturesCached settings w

/-- What the rounds of a rollback leave of a value that is kept for each height. -/
theorem discardBlocks_heights {β : Type} {f : Keys → ℕ → Option β}
    (hf : ∀ (w : LevelDBWriter) (n h : ℕ),
      f (w.discardKeys n) h = if h = n then none else f w.db h) (targetHeight : ℕ) :
    ∀ (n : ℕ) (w : LevelDBWriter) (h : ℕ), f (discardBlocks targetHeight n w).db h =
      if targetHeight < h ∧ h ≤ targetHeight + n then none else f w.db h
  | 0, w, h => by
    rw [if_neg (by omega)]
    rfl
  | n + 1, w, h => by
    rw [discardBlocks, discardBlocks_heights hf targetHeight n]
    have hround : f (w.discardBlock (targetHeight + n + 1)).db h =
        if h = targetHeight + n + 1 then none else f w.db h := hf w _ h
    rw [hround]
    by_cases hin : targetHeight < h ∧ h ≤ targetHeight + n
    · rw [if_pos hin, if_pos (by omega)]
    · rw [if_neg hin]
      by_cases hlast : h = targetHeight + n + 1
      · rw [if_pos hlast, if_pos (by omega)]
      · rw [if_neg hlast, if_neg (by omega)]

variable {settings : BlockchainSettings} {w v : LevelDBWriter}

/-- What an accepted rollback leaves of the chain. -/
structure RolledBack (w v : LevelDBWriter) : Prop where
  height_le : v.height ≤ w.height
  settings_eq : v.settings = w.settings
  approvedFeatures : v.db.approvedFeatures = w.db.approvedFeatures
  activatedFeatures : v.db.activatedFeatures = w.db.activatedFeatures
  blockInfoAt : ∀ h, v.db.blockInfoAt h = if h ≤ v.height then w.db.blockInfoAt h else none
  blockReward : ∀ h, v.db.blockReward h = if h ≤ v.height then w.db.blockReward h else none

theorem Chained.rolledBack (hw : Chained settings w) {id : BlockId}
    (h : w.rollbackTo id = .ok v) : RolledBack w v := by
  rw [rollbackTo_eq_ok h]
  have habove : ∀ h, w.height < h → w.db.blockInfoAt h = none ∧ w.db.blockReward h = none := by
    intro h hh
    constructor
    · rw [← Option.not_isSome_iff_eq_none]
      intro hsome
      have := (hw.blocks h).mp hsome
      omega
    · rw [← Option.not_isSome_iff_eq_none]
      intro hsome
      have := hw.rewards h hsome
      omega
  -- a rollback of no rounds
  have hstay : w.db.height = w.height ∧
      (∀ h, w.db.blockInfoAt h = if h ≤ w.height then w.db.blockInfoAt h else none) ∧
      ∀ h, w.db.blockReward h = if h ≤ w.height then w.db.blockReward h else none := by
    refine ⟨hw.sound.height, ?_, ?_⟩
    · intro h
      by_cases hh : h ≤ w.height
      · rw [if_pos hh]
      · rw [if_neg hh]
        exact (habove h (by omega)).1
    · intro h
      by_cases hh : h ≤ w.height
      · rw [if_pos hh]
      · rw [if_neg hh]
        exact (habove h (by omega)).2
  obtain ⟨hheight, hinfo, hreward⟩ := hstay
  rw [doRollback]
  rcases hid : w.db.heightOf id with _ | targetHeight
  · exact ⟨Nat.le_of_eq hheight, rfl, rfl, rfl, by rw [← hheight] at hinfo; exact hinfo,
      by rw [← hheight] at hreward; exact hreward⟩
  · dsimp only
    by_cases ht : targetHeight ≤ w.height
    · have hrounds : targetHeight + (w.height - targetHeight) = w.height := by omega
      have hend := height_discardBlocks targetHeight w (w.height - targetHeight) (by omega)
      obtain ⟨hsettings, happroved, hactivated, hblocks⟩ :=
        discardBlocks_frame targetHeight (w.height - targetHeight) w (by
          intro h hsome
          have := (hw.blocks h).mp hsome
          omega)
      refine ⟨by dsimp only; omega, hsettings, happroved, hactivated, ?_, ?_⟩
      · dsimp only
        rw [hend]
        exact hblocks
      · intro h
        dsimp only
        rw [hend, discardBlocks_heights (f := Keys.blockReward) (fun _ _ _ => rfl), hrounds]
        by_cases hh : h ≤ targetHeight
        · rw [if_neg (by omega), if_pos hh]
        · rw [if_neg hh]
          by_cases hlast : h ≤ w.height
          · rw [if_pos (by omega)]
          · rw [if_neg (by omega)]
            exact (habove h (by omega)).2
    · have hzero : w.height - targetHeight = 0 := by omega
      rw [hzero]
      exact ⟨Nat.le_of_eq hheight, rfl, rfl, rfl, by rw [← hheight] at hinfo; exact hinfo,
        by rw [← hheight] at hreward; exact hreward⟩

omit [Crypto] [PBTransactionSerializer] in
theorem chained_empty (settings : BlockchainSettings) (dbSettings : DBSettings) :
    Chained settings (.empty settings dbSettings) where
  sound := by
    refine ⟨rfl, ?_⟩
    intro id h hid
    cases hid
  settings_eq := rfl
  blocks h := by
    constructor
    · intro hsome
      cases hsome
    · intro hh
      have hle : h ≤ 0 := hh.2
      omega
  lastBlock := rfl
  rewards h hsome := by cases hsome
  features := ⟨rfl, (FiniteMap.empty_append _).symm⟩

theorem Chained.append (hw : Chained settings w) (d : Diff) (carry : Long)
    (reward : Option Long) (block : Block) :
    Chained settings (w.append d carry reward block) where
  sound := hw.sound.append d carry reward block
  settings_eq := hw.settings_eq
  blocks h := by
    change (if h = w.height + 1 then _ else w.db.blockInfoAt h).isSome = true ↔
      1 ≤ h ∧ h ≤ w.height + 1
    by_cases hh : h = w.height + 1
    · rw [if_pos hh]
      exact ⟨fun _ => by omega, fun _ => rfl⟩
    · rw [if_neg hh, hw.blocks h]
      omega
  lastBlock := by
    change some block.header =
      (if w.height + 1 = w.height + 1 then some _ else w.db.blockInfoAt (w.height + 1)).map
        BlockInfo.header
    rw [if_pos rfl]
    rfl
  rewards h hsome := by
    change (if h = w.height + 1 then _ else w.db.blockReward h).isSome = true at hsome
    change 1 ≤ h ∧ h ≤ w.height + 1
    by_cases hh : h = w.height + 1
    · omega
    · rw [if_neg hh] at hsome
      have := hw.rewards h hsome
      omega
  features := hw.features.append hw.settings_eq d carry reward block

theorem Chained.rollbackTo (hw : Chained settings w) {id : BlockId}
    (h : w.rollbackTo id = .ok v) : Chained settings v := by
  have hback := hw.rolledBack h
  have hv := rollbackTo_eq_ok h
  refine ⟨?_, hback.settings_eq.trans hw.settings_eq, ?_, ?_, ?_, ?_⟩
  · rw [hv]
    exact ⟨rfl, hw.sound.doRollback id⟩
  · intro h
    have hle := hback.height_le
    rw [hback.blockInfoAt h]
    by_cases hh : h ≤ v.height
    · rw [if_pos hh, hw.blocks h]
      omega
    · rw [if_neg hh]
      constructor
      · intro hsome
        cases hsome
      · intro hin
        exact absurd hin.2 hh
  · rw [hv]
    dsimp only
    rw [Keys.loadBlock, Option.map_map]
    rfl
  · intro h hsome
    rw [hback.blockReward h] at hsome
    by_cases hh : h ≤ v.height
    · rw [if_pos hh] at hsome
      exact ⟨(hw.rewards h hsome).1, hh⟩
    · rw [if_neg hh] at hsome
      cases hsome
  · have hsettings : v.settings = settings := hback.settings_eq.trans hw.settings_eq
    rw [hv] at hsettings ⊢
    refine ⟨rfl, ?_⟩
    rw [← hsettings]

/-- **The persisted chain** is one after every step. -/
theorem Chained.written (hw : Chained settings w) (h : Written w v) : Chained settings v := by
  cases h with
  | same => exact hw
  | append d carry reward block => exact hw.append d carry reward block
  | rollbackTo hroll => exact hw.rollbackTo hroll
  | load key =>
    cases key <;> exact ⟨⟨hw.sound.height, hw.sound.heightOf_pos⟩, hw.settings_eq, hw.blocks,
      hw.lastBlock, hw.rewards, ⟨hw.features.approved, hw.features.activated⟩⟩
  | evict key =>
    cases key <;> exact ⟨⟨hw.sound.height, hw.sound.heightOf_pos⟩, hw.settings_eq, hw.blocks,
      hw.lastBlock, hw.rewards, ⟨hw.features.approved, hw.features.activated⟩⟩
  | restart =>
    have hheight : w.restart.height = w.height := hw.sound.height
    refine ⟨⟨rfl, hw.sound.heightOf_pos⟩, hw.settings_eq, ?_, ?_, ?_, rfl, ?_⟩
    · intro h
      rw [hheight]
      exact hw.blocks h
    · change (w.db.loadBlock w.db.height).map Block.header =
        (w.db.blockInfoAt w.db.height).map BlockInfo.header
      rw [Keys.loadBlock, Option.map_map]
      rfl
    · intro h hsome
      rw [hheight]
      exact hw.rewards h hsome
    · rw [← hw.settings_eq]
      rfl

omit [Crypto] [PBTransactionSerializer] in
/-- A block's header is the same in memory and among the keys. -/
theorem Chained.blockInfo_header (hw : Chained settings w) (h : ℕ) :
    (w.blockInfo h).map BlockInfo.header = (w.db.blockInfoAt h).map BlockInfo.header := by
  unfold LevelDBWriter.blockInfo
  by_cases hh : h = w.height
  · rw [if_pos hh, hh, ← hw.lastBlock, Option.map_map]
    rfl
  · rw [if_neg hh]

theorem Chained.featureVotes_eq (hw : Chained settings w) (h : ℕ) :
    w.blockchain.featureVotes h = w.db.featureVotes w.settings h := by
  have hvotes : (fun k => ((w.blockInfo k).map fun info => info.header.featureVotes).getD []) =
      fun k => ((w.db.blockInfoAt k).map fun info => info.header.featureVotes).getD [] := by
    funext k
    have hheader := congrArg (Option.map BlockHeader.featureVotes) (hw.blockInfo_header k)
    rw [Option.map_map, Option.map_map] at hheader
    exact congrArg (fun votes => Option.getD votes []) hheader
  have hwindow : (w.settings.functionalitySettings.activationWindow h).flatMap
      (fun k => ((w.blockInfo k).map fun info => info.header.featureVotes).getD []) =
      (w.settings.functionalitySettings.activationWindow h).flatMap
        (fun k => ((w.db.blockInfoAt k).map fun info => info.header.featureVotes).getD []) := by
    rw [hvotes]
  exact congrArg (fun votes => FiniteMap.ofFinset votes.toFinset votes.count) hwindow

variable [Ride] [BlockSerializer]

theorem Reachable.chained {Q : StoredUpdater → Event → Prop} {dbSettings : DBSettings}
    {s : StoredUpdater} (h : Reachable Q settings dbSettings s) :
    Chained settings s.blockchain := by
  induction h with
  | start autoShutdown => exact chained_empty settings dbSettings
  | step _ _ hleads ih => exact ih.written hleads.written

end

end StoredUpdater

end WavesNode
