/-
The stream of update events.

A consumer that follows the events keeps identifiers with the heights the events state: a
block goes on top and makes the block below it final under its last identifier, a micro-block
goes on top at the same height, and a rollback takes off what is above its target. It ends up
with the identifiers of the node, except where the node announces what it does not do:
`processBlock` announces the rollback of micro-blocks before the differ has taken the block
that takes their place, `removeAfter` announces one for every micro-block of the liquid block
and drops none, and where the database refuses a rollback the liquid block is dropped and
nothing is announced. The rollback to the parent of a liquid block that is replaced states the
height of the block that goes.
-/
import WavesNode.LiquidChain

set_option autoImplicit false

namespace WavesNode

section

variable [Crypto] [PBTransactionSerializer] [BlockSerializer] [Ride]

/-! ## 1. The node and its events -/

/-- The node on its database, and what it has published, the latest event last. -/
structure StoredNode where
  updater : StoredUpdater
  published : List BlockchainUpdated

namespace StoredNode

/-- What is called of a node. -/
inductive Call where
  | processBlock (block : Block)
  | processMicroBlock (microBlock : MicroBlock)
  | removeAfter (blockId : BlockId)
  | load (key : LevelDBWriter.CacheKey)
  | evict (key : LevelDBWriter.CacheKey)

omit [BlockSerializer] [Ride] in
def start (w : LevelDBWriter) (autoShutdownOnUnsupportedFeature : Bool) : StoredNode :=
  ⟨.start w autoShutdownOnUnsupportedFeature, []⟩

/-- `processBlock`: what is published is published also where the block is rejected. -/
def processBlock (n : StoredNode) (block : Block) : StoredNode where
  updater :=
    match n.updater.processBlock block with
    | .ok (s, _) => s
    | .error _ => n.updater
  published := ((Node.processBlock block).exec ⟨n.updater.updater, n.published⟩).2.published

def processMicroBlock (n : StoredNode) (microBlock : MicroBlock) : StoredNode where
  updater :=
    match n.updater.processMicroBlock microBlock with
    | .ok s => s
    | .error _ => n.updater
  published :=
    ((Node.processMicroBlock microBlock).exec ⟨n.updater.updater, n.published⟩).2.published

omit [Ride] in
/-- `removeAfter`: nothing is published where the database refuses. -/
def removeAfter (n : StoredNode) (blockId : BlockId) : StoredNode :=
  let (s, result) := n.updater.removeAfter blockId
  { updater := s
    published := n.published ++
      if n.updater.ngState.any fun ng => ng.contains blockId then
        [.MicroBlockRollbackCompleted blockId (n.updater.blockchain.height + 1)]
      else
        match result with
        | .ok _ => [.RollbackCompleted blockId s.blockchain.height]
        | .error _ => [] }

/-- The node after a call, accepted or not. -/
def after (n : StoredNode) : Call → StoredNode
  | .processBlock block => n.processBlock block
  | .processMicroBlock microBlock => n.processMicroBlock microBlock
  | .removeAfter blockId => n.removeAfter blockId
  | .load key =>
    { n with updater := { n.updater with blockchain := n.updater.blockchain.load key } }
  | .evict key =>
    { n with updater := { n.updater with blockchain := n.updater.blockchain.evict key } }

/-- The nodes of all runs whose calls meet a condition. -/
inductive Reachable (Q : StoredNode → Call → Prop) (settings : BlockchainSettings)
    (dbSettings : DBSettings) : StoredNode → Prop where
  | start (autoShutdown : Bool) :
    Reachable Q settings dbSettings (start (.empty settings dbSettings) autoShutdown)
  | call {n : StoredNode} {c : Call} :
    Reachable Q settings dbSettings n → Q n c → Reachable Q settings dbSettings (n.after c)

end StoredNode

end

/-! ## 2. The consumer -/

/-- Identifiers of blocks and micro-blocks with their heights, the latest first. -/
abbrev ChainIds := List (BlockId × ℕ)

namespace ChainIds

def height (chain : ChainIds) : ℕ := (chain.head?.map Prod.snd).getD 0

/-- The block on top is final: it is known by its last identifier. -/
def finalise : ChainIds → ChainIds
  | [] => []
  | (id, height) :: chain => (id, height) :: chain.dropWhile fun entry => entry.2 = height

/-- An event, where it fits what the consumer has: a block is one height above, a micro-block
at the height of the block it is of, and the target of a rollback is there at the height the
event states. -/
def follow (chain : ChainIds) : BlockchainUpdated → Option ChainIds
  | .BlockAppended block height _ =>
    if height = chain.height + 1 then some ((block.uniqueId, height) :: finalise chain) else none
  | .MicroBlockAppended microBlock height _ =>
    if height = chain.height then some ((microBlock.totalResBlockSig, height) :: chain) else none
  | .RollbackCompleted to_ height => rollback chain to_ height
  | .MicroBlockRollbackCompleted to_ height => rollback chain to_ height
where
  rollback (chain : ChainIds) (to_ : BlockId) (height : ℕ) : Option ChainIds :=
    let rest := chain.dropWhile fun entry => entry.1 ≠ to_
    if rest.head? = some (to_, height) then some rest else none

/-- What a consumer makes of a stream, from nothing. -/
def ofEvents (events : List BlockchainUpdated) : Option ChainIds := events.foldlM follow []

theorem ofEvents_append (events more : List BlockchainUpdated) :
    ofEvents (events ++ more) = (ofEvents events).bind fun chain => more.foldlM follow chain := by
  unfold ofEvents
  rw [List.foldlM_append]
  rfl

end ChainIds

/-! ## 3. The identifiers of a node -/

/-- The identifiers of the persisted blocks up to a height. -/
def LevelDBWriter.idsUpTo (w : LevelDBWriter) : ℕ → ChainIds
  | 0 => []
  | n + 1 => ((w.db.blockInfoAt (n + 1)).map fun info => (info.signature, n + 1)).toList ++
    w.idsUpTo n

/-- The identifiers of a liquid block at a height. -/
def NgState.ids (ng : NgState) (height : ℕ) : ChainIds :=
  (ng.microBlocks.map MicroBlock.totalResBlockSig ++ [ng.base.uniqueId]).map fun id => (id, height)

def StoredUpdater.ids (s : StoredUpdater) : ChainIds :=
  ((s.ngState.map fun ng => ng.ids (s.blockchain.height + 1)).getD []) ++
    s.blockchain.idsUpTo s.blockchain.height

/-! ## 4. What a call publishes -/

section

variable [Crypto] [PBTransactionSerializer] [BlockSerializer] [Ride]

namespace StoredUpdater

omit [Ride] in
/-- A block that replaces the liquid block if it is valid: of a better score, or a longer
version of it. -/
def replaces (ng : NgState) (block : Block) : Bool :=
  match BlockchainUpdaterImpl.blockScore block, BlockchainUpdaterImpl.blockScore ng.base with
  | .ok newScore, .ok oldScore =>
    newScore > oldScore || BlockchainUpdaterImpl.areVersionsOfSameBlock block ng.base &&
      !decide (block.transactionData.length ≤ ng.transactions.length)
  | _, _ => false

/-- The differ takes a block on the liquid block up to its reference, where that discards
micro-blocks. -/
def DiscardsFor (s : StoredUpdater) (ng : NgState) (block : Block) : Prop :=
  ∀ forged diff carry fee discarded,
    ng.totalDiffOf block.header.reference = some (.ok (forged, diff, carry, fee, discarded)) →
    forged.signaturesValid.toBool = true → discarded ≠ [] →
    (BlockDiffer.fromBlock
      (CompositeBlockchain s.blockchain.blockchain (some (ng.cancelExpiredLeases diff))
        (some forged) carry s.updater.nextReward)
      (some forged) block
      (MiningConstraints.total s.blockchain.blockchain
        ((s.blockchain.heightOf forged.header.reference).getD 0)) true).toBool = true

variable {s : StoredUpdater} {ng : NgState} {block : Block}

omit [Ride] in
theorem announced_replaces (hng : s.ngState = some ng)
    (href : ng.base.header.reference = block.header.reference) (hnot : replaces ng block = false) :
    Node.announced s.updater block true = [] := by
  have hng' : s.updater.ngState = some ng := hng
  unfold Node.announced
  rw [hng']
  dsimp only
  rw [if_pos href]
  unfold replaces at hnot
  rcases hnew : BlockchainUpdaterImpl.blockScore block with e | newScore
  · rfl
  · rcases hold : BlockchainUpdaterImpl.blockScore ng.base with e | oldScore
    · rfl
    · rw [hnew, hold] at hnot
      rcases s.updater.blockchain.unsafeHeightOf ng.base.header.reference with e | height
      · rfl
      · dsimp only at hnot ⊢
        refine if_neg fun hbetter => ?_
        rw [Bool.or_eq_false_iff, decide_eq_false_iff_not] at hnot
        rcases hbetter with hscore | ⟨hversion, hlength⟩
        · exact hnot.1 hscore
        · rw [hversion, Bool.true_and, Bool.not_eq_false', decide_eq_true_eq] at hnot
          exact hlength hnot.2

omit [Ride] in
/-- What is announced of a block on the liquid one, where that can be forged. -/
theorem announced_forged {forged : Block} {diff : Diff} {carry fee : Long}
    {discarded : List MicroBlock} (hng : s.ngState = some ng)
    (href : ng.base.header.reference ≠ block.header.reference)
    (htotal : ng.totalDiffOf block.header.reference =
      some (.ok (forged, diff, carry, fee, discarded))) :
    Node.announced s.updater block true =
      if (forged.signaturesValid.toBool && !discarded.isEmpty) = true then
        [.MicroBlockRollbackCompleted forged.uniqueId
          ((s.blockchain.heightOf forged.header.reference).getD 0 + 1)]
      else [] := by
  have hng' : s.updater.ngState = some ng := hng
  unfold Node.announced
  rw [hng']
  dsimp only
  rw [if_neg href, htotal]
  rfl

omit [Ride] in
/-- What is announced of a block on the liquid one. -/
theorem announced_next (hng : s.ngState = some ng)
    (href : ng.base.header.reference ≠ block.header.reference) :
    Node.announced s.updater block true = [] ∨
      ∃ forged diff carry fee discarded,
        ng.totalDiffOf block.header.reference = some (.ok (forged, diff, carry, fee, discarded)) ∧
        forged.signaturesValid.toBool = true ∧ discarded ≠ [] := by
  rcases htotal : ng.totalDiffOf block.header.reference with
    _ | (e | ⟨forged, diff, carry, fee, discarded⟩)
  · left
    have hng' : s.updater.ngState = some ng := hng
    unfold Node.announced
    rw [hng']
    dsimp only
    rw [if_neg href, htotal]
  · left
    have hng' : s.updater.ngState = some ng := hng
    unfold Node.announced
    rw [hng']
    dsimp only
    rw [if_neg href, htotal]
  · rw [announced_forged hng href htotal]
    split
    · rename_i hannounced
      rw [Bool.and_eq_true, Bool.not_eq_true', List.isEmpty_eq_false_iff] at hannounced
      exact .inr ⟨forged, diff, carry, fee, discarded, rfl, hannounced.1, hannounced.2⟩
    · exact .inl rfl

/-- Where the differ takes what was announced, the block is taken. -/
theorem takeBlock_of_announced (hng : s.ngState = some ng)
    (href : ng.base.header.reference ≠ block.header.reference) (hvalid : s.DiscardsFor ng block)
    (hannounced : Node.announced s.updater block true ≠ []) :
    ∃ taken, s.updater.takeBlock block true = .ok (some taken) := by
  rcases announced_next hng href with hnone |
    ⟨forged, diff, carry, fee, discarded, htotal, hsignatures, hdiscarded⟩
  · exact absurd hnone hannounced
  · have hr := hvalid forged diff carry fee discarded htotal hsignatures hdiscarded
    have hng' : s.updater.ngState = some ng := hng
    unfold BlockchainUpdaterImpl.takeBlock
    rw [hng']
    dsimp only
    rw [if_neg href]
    unfold BlockchainUpdaterImpl.takeOnLiquid
    rw [htotal]
    dsimp only
    rw [Validation.ok_bind]
    dsimp only
    rw [if_pos rfl]
    rcases hverified : forged.signaturesValid with e | ⟨⟩
    · rw [hverified] at hsignatures
      cases hsignatures
    · rcases hdiffer : BlockDiffer.fromBlock
        (CompositeBlockchain s.blockchain.blockchain (some (ng.cancelExpiredLeases diff))
          (some forged) carry s.updater.nextReward)
        (some forged) block
        (MiningConstraints.total s.blockchain.blockchain
          ((s.blockchain.heightOf forged.header.reference).getD 0)) true with e | r
      · rw [hdiffer] at hr
        cases hr
      · change ∃ taken, (BlockDiffer.fromBlock
          (CompositeBlockchain s.blockchain.blockchain (some (ng.cancelExpiredLeases diff))
            (some forged) carry s.updater.nextReward)
          (some forged) block
          (MiningConstraints.total s.blockchain.blockchain
            ((s.blockchain.heightOf forged.header.reference).getD 0)) true >>= _) =
          .ok (some taken)
        rw [hdiffer]
        exact ⟨_, rfl⟩

/-- A block that is taken in the place of the liquid one replaces it. -/
theorem replaces_of_takeBlock {taken : BlockchainUpdaterImpl.TakenBlock} (hng : s.ngState = some ng)
    (href : ng.base.header.reference = block.header.reference)
    (h : s.updater.takeBlock block true = .ok (some taken)) : replaces ng block = true := by
  have hng' : s.updater.ngState = some ng := hng
  unfold BlockchainUpdaterImpl.takeBlock at h
  rw [hng'] at h
  dsimp only at h
  rw [if_pos href] at h
  obtain ⟨newScore, hnew, h⟩ := Validation.bind_eq_ok.mp h
  obtain ⟨oldScore, hold, h⟩ := Validation.bind_eq_ok.mp h
  unfold replaces
  rw [hnew, hold]
  dsimp only
  rw [Bool.or_eq_true, decide_eq_true_eq, Bool.and_eq_true, Bool.not_eq_true',
    decide_eq_false_iff_not]
  split at h
  · rename_i hbetter
    exact .inl hbetter
  · split at h
    · rename_i hversion
      split at h
      · cases h
      · rename_i hlength
        exact .inr ⟨hversion, hlength⟩
    · cases h

/-- A block that is taken on the liquid block: what is forged for it. -/
theorem forged_of_takeBlock {taken : BlockchainUpdaterImpl.TakenBlock} (hng : s.ngState = some ng)
    (href : ng.base.header.reference ≠ block.header.reference)
    (h : s.updater.takeBlock block true = .ok (some taken)) :
    ∃ forged diff carry fee discarded,
      ng.totalDiffOf block.header.reference = some (.ok (forged, diff, carry, fee, discarded)) ∧
        forged.signaturesValid.toBool = true := by
  have hng' : s.updater.ngState = some ng := hng
  unfold BlockchainUpdaterImpl.takeBlock at h
  rw [hng'] at h
  dsimp only at h
  rw [if_neg href] at h
  unfold BlockchainUpdaterImpl.takeOnLiquid at h
  rcases htotal : ng.totalDiffOf block.header.reference with _ | total
  · rw [htotal] at h
    cases h
  · rw [htotal] at h
    dsimp only at h
    obtain ⟨⟨forged, diff, carry, fee, discarded⟩, hok, h⟩ := Validation.bind_eq_ok.mp h
    dsimp only at h
    rw [if_pos rfl] at h
    obtain ⟨_, hverified, -⟩ := Validation.bind_eq_ok.mp h
    refine ⟨forged, diff, carry, fee, discarded, by rw [hok], ?_⟩
    rcases hsignatures : forged.signaturesValid with (e | m) | ⟨⟩
    · rw [hsignatures] at hverified
      cases hverified
    · rw [hsignatures] at hverified
      cases hverified
    · rfl

/-- A block that is taken is persisted on. -/
theorem persisted_of_takeBlock {taken : BlockchainUpdaterImpl.TakenBlock}
    (h : s.updater.takeBlock block true = .ok (some taken)) :
    ∃ w, s.persisted block = .ok w ∧ w.height = taken.blockchain.height := by
  unfold BlockchainUpdaterImpl.takeBlock at h
  unfold persisted
  have hpersisted : ∀ {height : ℕ} {reward : Option Long} {discarded : List Transaction},
      BlockchainUpdaterImpl.takeOnPersisted s.updater.blockchain block height reward discarded
        true = .ok (some taken) → s.blockchain.height = taken.blockchain.height := by
    intro height reward discarded htaken
    obtain ⟨r, -, htaken⟩ := Validation.bind_eq_ok.mp htaken
    cases htaken
    rfl
  rcases hng : s.ngState with _ | ng
  · have hng' : s.updater.ngState = none := hng
    rw [hng'] at h
    dsimp only at h ⊢
    refine ⟨_, rfl, ?_⟩
    split at h
    · split at h
      · cases h
      · obtain ⟨height, -, h⟩ := Validation.bind_eq_ok.mp h
        exact hpersisted h
    · exact hpersisted h
  · have hng' : s.updater.ngState = some ng := hng
    rw [hng'] at h
    dsimp only at h ⊢
    by_cases href : ng.base.header.reference = block.header.reference
    · rw [if_pos href] at h ⊢
      refine ⟨_, rfl, ?_⟩
      obtain ⟨newScore, -, h⟩ := Validation.bind_eq_ok.mp h
      obtain ⟨oldScore, -, h⟩ := Validation.bind_eq_ok.mp h
      split at h
      · obtain ⟨height, -, h⟩ := Validation.bind_eq_ok.mp h
        exact hpersisted h
      · split at h
        · split at h
          · cases h
          · obtain ⟨height, -, h⟩ := Validation.bind_eq_ok.mp h
            exact hpersisted h
        · cases h
    · rw [if_neg href] at h ⊢
      unfold BlockchainUpdaterImpl.takeOnLiquid at h
      rcases htotal : ng.totalDiffOf block.header.reference with _ | total
      · rw [htotal] at h
        cases h
      · rw [htotal] at h
        dsimp only at h ⊢
        obtain ⟨⟨forged, diff, carry, fee, discarded⟩, hok, h⟩ := Validation.bind_eq_ok.mp h
        rw [hok]
        refine ⟨_, rfl, ?_⟩
        dsimp only at h
        rw [if_pos rfl] at h
        obtain ⟨_, -, h⟩ := Validation.bind_eq_ok.mp h
        obtain ⟨r, -, h⟩ := Validation.bind_eq_ok.mp h
        cases h
        rfl

end StoredUpdater

end

/-! ## 5. Lists of identifiers -/

section

variable {w v : LevelDBWriter} {n : ℕ}

theorem LevelDBWriter.mem_idsUpTo {entry : BlockId × ℕ} (h : entry ∈ w.idsUpTo n) :
    entry.2 ≤ n ∧ (w.db.blockInfoAt entry.2).map BlockInfo.signature = some entry.1 := by
  induction n with
  | zero => cases h
  | succ n ih =>
    rw [idsUpTo, List.mem_append, Option.mem_toList] at h
    rcases h with h | h
    · obtain ⟨info, hinfo, rfl⟩ := Option.map_eq_some_iff.mp h
      exact ⟨Nat.le_refl _, by rw [hinfo]; rfl⟩
    · exact ⟨Nat.le_succ_of_le (ih h).1, (ih h).2⟩

theorem LevelDBWriter.idsUpTo_congr
    (h : ∀ k ≤ n, v.db.blockInfoAt k = w.db.blockInfoAt k) : v.idsUpTo n = w.idsUpTo n := by
  induction n with
  | zero => rfl
  | succ n ih =>
    rw [idsUpTo, idsUpTo, h (n + 1) (Nat.le_refl _), ih fun k hk => h k (by omega)]

/-- The chain ends with the block of its height. -/
theorem LevelDBWriter.idsUpTo_succ {info : BlockInfo} (h : w.db.blockInfoAt (n + 1) = some info) :
    w.idsUpTo (n + 1) = (info.signature, n + 1) :: w.idsUpTo n := by
  rw [idsUpTo, h]
  rfl

theorem LevelDBWriter.dropWhile_idsUpTo (height : ℕ) (h : n < height) :
    (w.idsUpTo n).dropWhile (fun entry => entry.2 = height) = w.idsUpTo n := by
  rcases hids : w.idsUpTo n with _ | ⟨entry, rest⟩
  · rfl
  · have hle := (mem_idsUpTo (w := w) (n := n) (by rw [hids]; exact List.mem_cons_self)).1
    rw [List.dropWhile_cons_of_neg]
    rw [decide_eq_true_eq]
    omega

/-- What is taken off down to an identifier, where no block above has it. -/
theorem LevelDBWriter.dropWhile_ne_idsUpTo {id : BlockId} {m : ℕ} {info : BlockInfo}
    (hinfo : w.db.blockInfoAt m = some info) (hid : info.signature = id) (hpos : 1 ≤ m)
    (habove : ∀ k, m < k → (w.db.blockInfoAt k).map BlockInfo.signature ≠ some id) :
    ∀ d, (w.idsUpTo (m + d)).dropWhile (fun entry => entry.1 ≠ id) = w.idsUpTo m
  | 0 => by
    obtain ⟨k, rfl⟩ : ∃ k, m = k + 1 := ⟨m - 1, by omega⟩
    rw [Nat.add_zero, idsUpTo_succ hinfo, List.dropWhile_cons_of_neg]
    rw [decide_eq_true_eq, not_not]
    exact hid
  | d + 1 => by
    rw [← Nat.add_assoc, idsUpTo]
    rcases hk : w.db.blockInfoAt (m + d + 1) with _ | other
    · exact dropWhile_ne_idsUpTo hinfo hid hpos habove d
    · have hne := habove (m + d + 1) (by omega)
      rw [hk] at hne
      rw [Option.map_some, Option.toList_some, List.singleton_append, List.dropWhile_cons_of_pos]
      · exact dropWhile_ne_idsUpTo hinfo hid hpos habove d
      · rw [decide_eq_true_eq]
        exact fun heq => hne (congrArg some heq)

variable {ng : NgState} {height : ℕ}

theorem NgState.mem_ids {entry : BlockId × ℕ} (h : entry ∈ ng.ids height) :
    entry.2 = height ∧
      entry.1 ∈ ng.microBlocks.map MicroBlock.totalResBlockSig ++ [ng.base.uniqueId] := by
  obtain ⟨id, hid, rfl⟩ := List.mem_map.mp h
  exact ⟨rfl, hid⟩

/-- The liquid block ends with its best identifier. -/
theorem NgState.ids_eq_cons (ng : NgState) (height : ℕ) :
    ∃ rest, ng.ids height = (ng.bestLiquidBlockId, height) :: rest := by
  unfold ids bestLiquidBlockId
  rcases ng.microBlocks with _ | ⟨m, ms⟩
  · exact ⟨[], rfl⟩
  · exact ⟨_, rfl⟩

/-- What is left of a liquid block down to one of its identifiers. -/
theorem NgState.dropWhile_ids (height : ℕ) {id : BlockId}
    (hid : id ∈ ng.microBlocks.map MicroBlock.totalResBlockSig ++ [ng.base.uniqueId]) :
    ∃ rest, (ng.ids height).dropWhile (fun entry => entry.1 ≠ id) = (id, height) :: rest ∧
      ∀ entry ∈ rest, entry.2 = height := by
  unfold ids
  generalize ng.microBlocks.map MicroBlock.totalResBlockSig ++ [ng.base.uniqueId] = ids at hid ⊢
  induction ids with
  | nil => cases hid
  | cons first ids ih =>
    rw [List.map_cons]
    by_cases hfirst : first = id
    · rw [hfirst, List.dropWhile_cons_of_neg]
      · refine ⟨_, rfl, fun entry hentry => ?_⟩
        obtain ⟨other, -, rfl⟩ := List.mem_map.mp hentry
        rfl
      · rw [decide_eq_true_eq, not_not]
    · rw [List.dropWhile_cons_of_pos]
      · exact ih ((List.mem_cons.mp hid).resolve_left fun heq => hfirst heq.symm)
      · rw [decide_eq_true_eq]
        exact hfirst

/-- A block on top of entries of one height, and of a chain below. -/
theorem ChainIds.finalise_append {id : BlockId} {rest : ChainIds}
    (hrest : ∀ entry ∈ rest, entry.2 = n + 1) :
    finalise ((id, n + 1) :: rest ++ w.idsUpTo n) = (id, n + 1) :: w.idsUpTo n := by
  rw [List.cons_append, finalise, List.dropWhile_append_of_pos fun entry hentry =>
    decide_eq_true (hrest entry hentry), LevelDBWriter.dropWhile_idsUpTo _ (Nat.lt_succ_self n)]

/-- A persisted chain is final. -/
theorem ChainIds.finalise_idsUpTo : finalise (w.idsUpTo n) = w.idsUpTo n := by
  induction n with
  | zero => rfl
  | succ n ih =>
    rw [LevelDBWriter.idsUpTo]
    rcases w.db.blockInfoAt (n + 1) with _ | info
    · exact ih
    · rw [Option.map_some, Option.toList_some, List.singleton_append, finalise,
        LevelDBWriter.dropWhile_idsUpTo _ (Nat.lt_succ_self n)]

variable [BlockSerializer]

/-- A forged block that discards nothing is up to the last identifier. -/
theorem NgState.bestLiquidBlockId_of_forgeBlock {id : BlockId} {forged : Block}
    (h : ng.forgeBlock id = some (forged, [])) : ng.bestLiquidBlockId = id := by
  -- the walk that found its micro-block last
  have hfound : ∀ (micros : List MicroBlock) (txs : List Transaction) (sig : ByteStr)
      (rest : List MicroBlock),
      (micros.foldl (forgeStep id) (txs, some (sig, rest))).2 = some (sig, micros.reverse ++ rest) := by
    intro micros
    induction micros with
    | nil => exact fun _ _ _ => rfl
    | cons m micros ih =>
      intro txs sig rest
      rw [List.foldl_cons, List.reverse_cons, List.append_assoc]
      exact ih txs sig (m :: rest)
  have hlast : ∀ (micros : List MicroBlock) (txs : List Transaction) (sig : ByteStr),
      (micros.foldl (forgeStep id) (txs, none)).2 = some (sig, []) →
      micros.getLast?.map MicroBlock.totalResBlockSig = some id := by
    intro micros
    induction micros with
    | nil =>
      intro txs sig hnone
      cases hnone
    | cons m micros ih =>
      intro txs sig hsome
      rw [List.foldl_cons, forgeStep] at hsome
      by_cases hm : m.totalResBlockSig = id
      · rw [if_pos hm, hfound, List.append_nil] at hsome
        have hempty := (Prod.mk.inj (Option.some.inj hsome)).2
        rw [List.reverse_eq_nil_iff.mp hempty, List.getLast?_singleton, Option.map_some, hm]
      · rw [if_neg hm] at hsome
        have hrest := ih _ sig hsome
        rcases micros with _ | ⟨m', micros⟩
        · cases hrest
        · rw [List.getLast?_cons_cons]
          exact hrest
  unfold forgeBlock at h
  dsimp only at h
  unfold bestLiquidBlockId
  split at h
  · rename_i hbase
    have hempty := (Prod.mk.inj (Option.some.inj h)).2
    rw [List.reverse_eq_nil_iff.mp hempty]
    exact hbase
  · split at h
    · cases h
    · obtain ⟨⟨sig, discarded⟩, hsome, hforged⟩ := Option.map_eq_some_iff.mp h
      have hdiscarded := (Prod.mk.inj hforged).2
      dsimp only at hdiscarded
      rw [hdiscarded] at hsome
      have hhead := hlast _ _ sig hsome
      rw [List.getLast?_reverse] at hhead
      rw [hhead, Option.getD_some]

end

/-! ## 6. The stream and the node -/

section

variable [Crypto] [PBTransactionSerializer] [BlockSerializer] [Ride]

namespace StoredNode

/-- The condition on a call. Of a block: it has a fresh identifier if it is taken, it does not
replace the liquid block, and the differ takes it where micro-blocks are discarded for it. Of
a micro-block: it has a fresh identifier if it is taken. Of a rollback, with a liquid block: to
its last identifier, or to a block that the database can roll back to. -/
def Told (n : StoredNode) : Call → Prop
  | .processBlock block =>
    StoredUpdater.FreshIds n.updater (.processBlock block) ∧
      ∀ ng, n.updater.ngState = some ng →
        (ng.base.header.reference = block.header.reference →
          StoredUpdater.replaces ng block = false) ∧
        n.updater.DiscardsFor ng block
  | .processMicroBlock microBlock =>
    ∀ s', n.updater.processMicroBlock microBlock = .ok s' →
      StoredUpdater.FreshIds n.updater (.processMicroBlock microBlock)
  | .removeAfter blockId => ∀ ng, n.updater.ngState = some ng →
    (ng.contains blockId = true → blockId = ng.bestLiquidBlockId) ∧
      (ng.contains blockId = false → ∃ h, n.updater.blockchain.heightOf blockId = some h ∧
        n.updater.blockchain.db.safeRollbackHeight < h)
  | _ => True

/-- What holds of the updater in every run with fresh identifiers. -/
structure Sound (settings : BlockchainSettings) (s : StoredUpdater) : Prop where
  chained : StoredUpdater.Chained settings s.blockchain
  indexed : StoredUpdater.Indexed s.blockchain
  threaded : StoredUpdater.Threaded s.blockchain
  linked : StoredUpdater.Linked s
  identified : StoredUpdater.Identified s

variable {settings : BlockchainSettings} {dbSettings : DBSettings} {n : StoredNode}

theorem sound_reachable {s : StoredUpdater}
    (h : StoredUpdater.Reachable StoredUpdater.FreshIds settings dbSettings s) :
    Sound settings s where
  chained := h.chained
  indexed := StoredUpdater.indexed_reachable h
  threaded := StoredUpdater.threaded_reachable h
  linked := StoredUpdater.linked_reachable h
  identified := StoredUpdater.identified_reachable h

omit [BlockSerializer] [Ride] in
/-- The height of the identifiers is that of the node. -/
theorem height_ids {s : StoredUpdater} (hs : StoredUpdater.Chained settings s.blockchain) :
    s.ids.height = s.height := by
  unfold StoredUpdater.ids ChainIds.height
  rcases hng : s.ngState with _ | ng
  · rw [StoredUpdater.height_of_none hng, Option.map_none, Option.getD_none, List.nil_append]
    rcases hheight : s.blockchain.height with _ | k
    · rfl
    · have hsome := (hs.blocks (k + 1)).mpr ⟨by omega, by omega⟩
      obtain ⟨info, hinfo⟩ := Option.isSome_iff_exists.mp hsome
      rw [LevelDBWriter.idsUpTo_succ hinfo]
      rfl
  · obtain ⟨rest, hrest⟩ := NgState.ids_eq_cons ng (s.blockchain.height + 1)
    rw [StoredUpdater.height_of_some hng, Option.map_some, Option.getD_some, hrest]
    rfl

omit [Crypto] [PBTransactionSerializer] [BlockSerializer] [Ride] in
/-- A rollback to a liquid identifier, as a consumer makes it. -/
theorem rollback_liquid {s : StoredUpdater} {ng : NgState} (hng : s.ngState = some ng)
    (hs : StoredUpdater.Identified s) {id : BlockId} (hid : ng.contains id = true) :
    ∃ rest : ChainIds, (∀ entry ∈ rest, entry.2 = s.blockchain.height + 1) ∧
      ChainIds.follow.rollback s.ids id (s.blockchain.height + 1) =
        some ((id, s.blockchain.height + 1) :: rest ++
          s.blockchain.idsUpTo s.blockchain.height) := by
  obtain ⟨rest, hdrop, hrest⟩ := NgState.dropWhile_ids (s.blockchain.height + 1)
    ((hs.liquid ng hng).contains_iff.mp hid)
  refine ⟨rest, hrest, ?_⟩
  have hids : s.ids.dropWhile (fun entry => entry.1 ≠ id) =
      (id, s.blockchain.height + 1) :: rest ++ s.blockchain.idsUpTo s.blockchain.height := by
    unfold StoredUpdater.ids
    rw [hng, Option.map_some, Option.getD_some, List.dropWhile_append, hdrop]
    rfl
  unfold ChainIds.follow.rollback
  dsimp only
  rw [hids]
  exact if_pos rfl

omit [Crypto] [PBTransactionSerializer] [BlockSerializer] [Ride] in
/-- A block that is taken, as a consumer follows it. -/
theorem follow_taken {w : LevelDBWriter} {block : Block} {diff : BlockDiffer.DetailedDiff}
    {chain : ChainIds} (hheight : chain.height = w.height)
    (hfinal : ChainIds.finalise chain = w.idsUpTo w.height) :
    [BlockchainUpdated.BlockAppended block (w.height + 1) diff].foldlM ChainIds.follow chain =
      some ((block.uniqueId, w.height + 1) :: w.idsUpTo w.height) := by
  rw [List.foldlM_cons, ChainIds.follow, if_pos (by rw [hheight]), hfinal]
  rfl

/-- A call adds events that a consumer follows to the identifiers after it. -/
def Followed (n n' : StoredNode) : Prop :=
  ∃ events, n'.published = n.published ++ events ∧
    events.foldlM ChainIds.follow n.updater.ids = some n'.updater.ids

/-- A consumer follows a block that is taken: it ends with the block on the chain that was
persisted for it. -/
theorem followed_taken {s : StoredUpdater} {w : LevelDBWriter} {block : Block}
    {taken : BlockchainUpdaterImpl.TakenBlock} (hs : Sound settings s)
    (hreplaces : ∀ ng, s.ngState = some ng → ng.base.header.reference = block.header.reference →
      StoredUpdater.replaces ng block = false)
    (htake : s.updater.takeBlock block true = .ok (some taken))
    (hpersisted : s.persisted block = .ok w) (diff : BlockDiffer.DetailedDiff) :
    (Node.announced s.updater block true ++
        [BlockchainUpdated.BlockAppended block (w.height + 1) diff]).foldlM
      ChainIds.follow s.ids = some ((block.uniqueId, w.height + 1) :: w.idsUpTo w.height) := by
  unfold StoredUpdater.persisted at hpersisted
  rcases hng : s.ngState with _ | ng
  · -- on the last persisted block
    have hsilent : Node.announced s.updater block true = [] := by
      have hng' : s.updater.ngState = none := hng
      unfold Node.announced
      rw [hng']
    rw [hng] at hpersisted
    have hsame : s.blockchain = w := Except.ok.inj hpersisted
    have hheight := height_ids hs.chained
    rw [StoredUpdater.height_of_none hng, hsame] at hheight
    rw [hsilent, List.nil_append]
    refine follow_taken hheight ?_
    unfold StoredUpdater.ids
    rw [hng, Option.map_none, Option.getD_none, List.nil_append, hsame,
      ChainIds.finalise_idsUpTo]
  · by_cases href : ng.base.header.reference = block.header.reference
    · -- it would replace the liquid block
      have hnot := hreplaces ng hng href
      rw [StoredUpdater.replaces_of_takeBlock hng href htake] at hnot
      cases hnot
    · obtain ⟨forged, d, carry, fee, discarded, htotal, hsignatures⟩ :=
        StoredUpdater.forged_of_takeBlock hng href htake
      have hforge : ng.forgeBlock block.header.reference = some (forged, discarded) := by
        unfold NgState.totalDiffOf at htotal
        obtain ⟨⟨forged', discarded'⟩, hforge, htotal⟩ := Option.map_eq_some_iff.mp htotal
        obtain ⟨r, -, hr⟩ := Validation.bind_eq_ok.mp htotal
        cases hr
        exact hforge
      obtain ⟨hforged, hparent⟩ := StoredUpdater.forgeBlock_eq_some hforge
      have hcontains := StoredUpdater.contains_of_forgeBlock (hs.identified.liquid ng hng)
        (by rw [hforge]; rfl)
      rw [hng] at hpersisted
      dsimp only at hpersisted
      rw [if_neg href, htotal] at hpersisted
      have hw : s.blockchain.append (ng.cancelExpiredLeases d) carry ng.reward forged =
        w := Except.ok.inj hpersisted
      have hheight : w.height = s.blockchain.height + 1 := by rw [← hw]; rfl
      have hchain : w.idsUpTo w.height =
          (forged.uniqueId, s.blockchain.height + 1) ::
            s.blockchain.idsUpTo s.blockchain.height := by
        obtain ⟨info, hinfo, hsignature⟩ : ∃ info,
            w.db.blockInfoAt (s.blockchain.height + 1) = some info ∧
              info.signature = forged.uniqueId := by
          rw [← hw]
          exact ⟨_, if_pos rfl, rfl⟩
        rw [hheight, LevelDBWriter.idsUpTo_succ hinfo, hsignature]
        congr 1
        refine LevelDBWriter.idsUpTo_congr fun k hk => ?_
        rw [← hw]
        exact if_neg (by omega)
      rw [StoredUpdater.announced_forged hng href htotal, hsignatures, Bool.true_and]
      rcases hdiscarded : discarded with _ | ⟨micro, micros⟩
      · -- the block is on the last micro-block
        have hnone : ¬ (!([] : List MicroBlock).isEmpty) = true := Bool.false_ne_true
        rw [if_neg hnone, List.nil_append]
        rw [hdiscarded] at hforge
        have hbest := NgState.bestLiquidBlockId_of_forgeBlock hforge
        obtain ⟨rest, hrest⟩ := NgState.ids_eq_cons ng (s.blockchain.height + 1)
        have hcut : s.ids = (forged.uniqueId, s.blockchain.height + 1) :: rest ++
            s.blockchain.idsUpTo s.blockchain.height := by
          unfold StoredUpdater.ids
          rw [hng, Option.map_some, Option.getD_some, hrest, hbest, hforged]
        have hsame : ∀ entry ∈ rest, entry.2 = s.blockchain.height + 1 := by
          intro entry hentry
          have hmem : entry ∈ ng.ids (s.blockchain.height + 1) := by
            rw [hrest]
            exact List.mem_cons_of_mem _ hentry
          exact (NgState.mem_ids hmem).1
        refine follow_taken ?_ ?_
        · rw [hcut, hheight]
          rfl
        · rw [hcut, ChainIds.finalise_append hsame, hchain]
      · -- micro-blocks above its reference are taken off first
        obtain ⟨rest, hsame, hrollback⟩ := rollback_liquid hng hs.identified hcontains
        have hlimit : (s.blockchain.heightOf forged.header.reference).getD 0 =
            s.blockchain.height := by
          have hlimit := StoredUpdater.limitHeight_eq hs.chained hs.indexed hs.linked
          unfold StoredUpdater.limitHeight at hlimit
          rw [hng] at hlimit
          rw [hparent]
          exact hlimit
        have hsome : (!(micro :: micros).isEmpty) = true := rfl
        rw [if_pos hsome, List.singleton_append, List.foldlM_cons, hlimit, ChainIds.follow, hforged,
          hrollback]
        change List.foldlM ChainIds.follow _ _ = _
        rw [hforged] at hchain
        refine follow_taken ?_ ?_
        · rw [hheight]
          rfl
        · rw [ChainIds.finalise_append hsame, hchain]

theorem followed_processBlock {block : Block} (hs : Sound settings n.updater)
    (hQ : Told n (.processBlock block)) : Followed n (n.processBlock block) := by
  have hexec := Node.exec_processBlock ⟨n.updater.updater, n.published⟩ block true
  unfold Followed processBlock
  dsimp only at hexec ⊢
  rw [hexec]
  unfold StoredUpdater.processBlock
  rcases Node.checkImplemented n.updater.updater with e | u
  · -- no block is taken any more
    exact ⟨[], (List.append_nil _).symm, rfl⟩
  · dsimp only
    rw [Validation.ok_bind]
    -- what is not taken has not been announced
    have hsilent : (∀ taken, n.updater.updater.takeBlock block true ≠ .ok (some taken)) →
        Node.announced n.updater.updater block true = [] := by
      intro hnot
      rcases hng : n.updater.ngState with _ | ng
      · have hng' : n.updater.updater.ngState = none := hng
        unfold Node.announced
        rw [hng']
      · obtain ⟨hreplaces, hvalid⟩ := hQ.2 ng hng
        by_cases href : ng.base.header.reference = block.header.reference
        · exact StoredUpdater.announced_replaces hng href (hreplaces href)
        · by_contra hannounced
          obtain ⟨taken, htaken⟩ :=
            StoredUpdater.takeBlock_of_announced hng href hvalid hannounced
          exact hnot taken htaken
    rcases htake : n.updater.updater.takeBlock block true with e | (_ | taken)
    · have hnone := hsilent fun taken htaken => by rw [htake] at htaken; cases htaken
      rw [hnone]
      exact ⟨[], rfl, rfl⟩
    · have hnone := hsilent fun taken htaken => by rw [htake] at htaken; cases htaken
      rw [hnone]
      exact ⟨[], rfl, rfl⟩
    · obtain ⟨w, hw, hheight⟩ := StoredUpdater.persisted_of_takeBlock htake
      rw [Validation.ok_bind]
      dsimp only
      rw [hw, Validation.ok_bind, ← hheight]
      dsimp only
      refine ⟨_, List.append_assoc .., ?_⟩
      exact followed_taken hs (fun ng hng href => (hQ.2 ng hng).1 href) htake hw _

theorem followed_processMicroBlock {microBlock : MicroBlock}
    (hs : StoredUpdater.Chained settings n.updater.blockchain) :
    Followed n (n.processMicroBlock microBlock) := by
  have hexec := Node.exec_processMicroBlock ⟨n.updater.updater, n.published⟩ microBlock true
  unfold Followed processMicroBlock StoredUpdater.processMicroBlock
  dsimp only at hexec ⊢
  rcases hstep : n.updater.updater.processMicroBlock microBlock true with e | u
  · rw [hstep] at hexec
    dsimp only at hexec
    rw [hexec]
    exact ⟨[], (List.append_nil _).symm, rfl⟩
  · rw [hstep] at hexec
    obtain ⟨diff, hexec⟩ := hexec
    rw [hexec]
    -- the micro-block is on the liquid block
    have hcall : n.updater.processMicroBlock microBlock =
        .ok { n.updater with ngState := u.ngState, restTotalConstraint := u.restTotalConstraint } := by
      unfold StoredUpdater.processMicroBlock
      rw [hstep]
      rfl
    obtain ⟨ng, ledger, r, hng, -, -, -, hs'⟩ := StoredUpdater.processMicroBlock_eq_ok hcall
    have hliquid : u.ngState = some (ng.append microBlock r.diff r.carry r.totalFee) :=
      congrArg StoredUpdater.ngState hs'
    refine ⟨_, rfl, ?_⟩
    have hheight : n.updater.updater.blockchain.height + 1 = n.updater.ids.height := by
      rw [height_ids hs, StoredUpdater.height_of_some hng]
      rfl
    rw [List.foldlM_cons, ChainIds.follow, if_pos hheight, Validation.ok_bind]
    dsimp only
    unfold StoredUpdater.ids
    rw [hng, hliquid]
    rfl

theorem followed_removeAfter {blockId : BlockId} (hs : Sound settings n.updater)
    (hQ : Told n (.removeAfter blockId)) : Followed n (n.removeAfter blockId) := by
  unfold Followed removeAfter StoredUpdater.removeAfter
  by_cases hcontains : (n.updater.ngState.any fun ng => ng.contains blockId) = true
  · -- the whole liquid block stays
    rw [if_pos hcontains]
    dsimp only
    rw [if_pos hcontains]
    refine ⟨_, rfl, ?_⟩
    obtain ⟨ng, hng, hid⟩ := (Option.any_eq_true ..).mp hcontains
    have hbest := (hQ ng hng).1 hid
    obtain ⟨rest, hrest⟩ := NgState.ids_eq_cons ng (n.updater.blockchain.height + 1)
    have hids : n.updater.ids = (blockId, n.updater.blockchain.height + 1) ::
        (rest ++ n.updater.blockchain.idsUpTo n.updater.blockchain.height) := by
      unfold StoredUpdater.ids
      rw [hng, Option.map_some, Option.getD_some, hrest, hbest, List.cons_append]
    have hstays : ChainIds.follow.rollback n.updater.ids blockId
        (n.updater.blockchain.height + 1) = some n.updater.ids := by
      unfold ChainIds.follow.rollback
      dsimp only
      rw [hids, List.dropWhile_cons_of_neg (by rw [decide_eq_true_eq, not_not])]
      exact if_pos rfl
    rw [List.foldlM_cons, ChainIds.follow, hstays]
    rfl
  · rw [if_neg hcontains]
    dsimp only
    rw [if_neg hcontains]
    rcases hroll : n.updater.blockchain.rollbackTo blockId with err | w
    · -- the database refuses: there is no liquid block to drop
      dsimp only
      refine ⟨[], rfl, ?_⟩
      rcases hng : n.updater.ngState with _ | ng
      · unfold StoredUpdater.ids
        rw [hng]
        rfl
      · have hunknown : ng.contains blockId = false := by
          rw [hng, Option.any_some] at hcontains
          exact Bool.eq_false_iff.mpr hcontains
        obtain ⟨h, hheight, hsafe⟩ := (hQ ng hng).2 hunknown
        unfold LevelDBWriter.rollbackTo at hroll
        rw [hheight] at hroll
        dsimp only at hroll
        rw [if_pos hsafe] at hroll
        cases hroll
    · dsimp only
      refine ⟨_, rfl, ?_⟩
      have hheightOf := StoredUpdater.heightOf_eq hs.threaded hs.identified.unrepeated blockId
      obtain ⟨m, hm⟩ : ∃ m, n.updater.blockchain.heightOf blockId = some m := by
        unfold LevelDBWriter.rollbackTo at hroll
        rcases hid : n.updater.blockchain.heightOf blockId with _ | m
        · rw [hid] at hroll
          cases hroll
        · exact ⟨m, rfl⟩
      obtain ⟨info, hinfo, hsignature⟩ := Option.map_eq_some_iff.mp
        (hs.indexed blockId m (hheightOf ▸ hm))
      have hbounds := (hs.chained.blocks m).mp (by rw [hinfo]; rfl)
      obtain ⟨-, hend⟩ := StoredUpdater.rollbackTo_at hs.chained.sound hm (hheightOf ▸ hm)
        hbounds.2 hroll
      have hback := hs.chained.rolledBack hroll
      -- no block above has the identifier, and no liquid one
      have habove : ∀ k, m < k →
          (n.updater.blockchain.db.blockInfoAt k).map BlockInfo.signature ≠ some blockId := by
        intro k hk heq
        obtain ⟨other, hother, hsame⟩ := Option.map_eq_some_iff.mp heq
        have hat := hs.identified.unrepeated k other hother
        rw [hsame, ← hheightOf, hm] at hat
        have := Option.some.inj hat
        omega
      have hdrop : n.updater.ids.dropWhile (fun entry => entry.1 ≠ blockId) =
          n.updater.blockchain.idsUpTo m := by
        obtain ⟨d, hd⟩ : ∃ d, n.updater.blockchain.height = m + d :=
          ⟨n.updater.blockchain.height - m, by omega⟩
        unfold StoredUpdater.ids
        rw [List.dropWhile_append_of_pos, hd]
        · exact LevelDBWriter.dropWhile_ne_idsUpTo hinfo hsignature hbounds.1 habove d
        · intro entry hentry
          rcases hng : n.updater.ngState with _ | ng
          · rw [hng] at hentry
            cases hentry
          · rw [hng, Option.map_some, Option.getD_some] at hentry
            rw [hng, Option.any_some] at hcontains
            rw [decide_eq_true_eq]
            intro heq
            refine hcontains ((hs.identified.liquid ng hng).contains_iff.mpr ?_)
            rw [← heq]
            exact (NgState.mem_ids hentry).2
      have hids : (⟨w, none, n.updater.restTotalConstraint,
          n.updater.autoShutdownOnUnsupportedFeature⟩ : StoredUpdater).ids =
          n.updater.blockchain.idsUpTo m := by
        unfold StoredUpdater.ids
        rw [Option.map_none, Option.getD_none, List.nil_append]
        dsimp only
        rw [hend]
        refine LevelDBWriter.idsUpTo_congr fun k hk => ?_
        rw [hback.blockInfoAt, if_pos (by omega)]
      have hrollback : ChainIds.follow.rollback n.updater.ids blockId w.height =
          some (n.updater.blockchain.idsUpTo m) := by
        unfold ChainIds.follow.rollback
        dsimp only
        rw [hdrop, hend]
        obtain ⟨k, rfl⟩ : ∃ k, m = k + 1 := ⟨m - 1, by omega⟩
        rw [LevelDBWriter.idsUpTo_succ hinfo, hsignature]
        exact if_pos rfl
      rw [List.foldlM_cons, ChainIds.follow, hrollback, hids]
      rfl

theorem followed_call {c : Call} (hs : Sound settings n.updater) (hQ : Told n c) :
    Followed n (n.after c) := by
  cases c with
  | processBlock block => exact followed_processBlock hs hQ
  | processMicroBlock microBlock => exact followed_processMicroBlock hs.chained
  | removeAfter blockId => exact followed_removeAfter hs hQ
  | load key =>
    refine ⟨[], (List.append_nil _).symm, ?_⟩
    have hids : ∀ k, (n.updater.blockchain.load key).idsUpTo k = n.updater.blockchain.idsUpTo k :=
      fun k => LevelDBWriter.idsUpTo_congr fun h _ => by rw [LevelDBWriter.db_load]
    change some n.updater.ids = some _
    unfold StoredUpdater.ids after
    dsimp only
    rw [LevelDBWriter.height_load, hids]
  | evict key =>
    refine ⟨[], (List.append_nil _).symm, ?_⟩
    have hids : ∀ k, (n.updater.blockchain.evict key).idsUpTo k = n.updater.blockchain.idsUpTo k :=
      fun k => LevelDBWriter.idsUpTo_congr fun h _ => by rw [LevelDBWriter.db_evict]
    change some n.updater.ids = some _
    unfold StoredUpdater.ids after
    dsimp only
    rw [LevelDBWriter.height_evict, hids]

/-- The updater of a node that publishes is one of a run with fresh identifiers. -/
theorem reachable_after {c : Call}
    (hs : StoredUpdater.Reachable StoredUpdater.FreshIds settings dbSettings n.updater)
    (hQ : Told n c) :
    StoredUpdater.Reachable StoredUpdater.FreshIds settings dbSettings (n.after c).updater := by
  cases c with
  | processBlock block =>
    change StoredUpdater.Reachable _ _ _ (n.processBlock block).updater
    unfold processBlock
    dsimp only
    split
    · rename_i s' discarded hstep
      exact .step hs hQ.1 ⟨discarded, hstep⟩
    · exact hs
  | processMicroBlock microBlock =>
    change StoredUpdater.Reachable _ _ _ (n.processMicroBlock microBlock).updater
    unfold processMicroBlock
    dsimp only
    split
    · rename_i s' hstep
      exact .step hs (hQ s' hstep) hstep
    · exact hs
  | removeAfter blockId =>
    exact .step (e := .removeAfter blockId) hs trivial rfl
  | load key => exact .step (e := .load key) hs trivial rfl
  | evict key => exact .step (e := .evict key) hs trivial rfl

/-- **The stream of events**, in every run that meets the condition: a consumer that follows it
has the identifiers of the node, at the heights the events state. -/
theorem events_faithful (h : Reachable Told settings dbSettings n) :
    ChainIds.ofEvents n.published = some n.updater.ids := by
  suffices hrun : ChainIds.ofEvents n.published = some n.updater.ids ∧
      StoredUpdater.Reachable StoredUpdater.FreshIds settings dbSettings n.updater from hrun.1
  induction h with
  | start autoShutdown => exact ⟨rfl, .start autoShutdown⟩
  | call _ hQ ih =>
    obtain ⟨hfollows, hs⟩ := ih
    obtain ⟨events, hpublished, hevents⟩ := followed_call (sound_reachable hs) hQ
    refine ⟨?_, reachable_after hs hQ⟩
    rw [hpublished, ChainIds.ofEvents_append, hfollows]
    exact hevents

end StoredNode

end

/-! ## 7. A rollback that is refused

The second block is liquid. The database does not know the block of the rollback and refuses,
and the liquid block is gone. -/

section
open Devnet StoredNode

local instance eventsCrypto : Crypto := firstBlocks.crypto
local instance eventsSerializer : PBTransactionSerializer := pbTransactionSerializer
local instance eventsBlocks : BlockSerializer := firstBlocks.blockSerializer
local instance eventsRide : Ride := firstBlocks.ride

namespace Devnet

def eventsStart : StoredNode := .start (.empty (settings []) dbSettings) true

def eventsGenesis : StoredNode := eventsStart.after (.processBlock genesisBlock)

def eventsSecond : StoredNode := eventsGenesis.after (.processBlock emptyBlock)

/-- A rollback to what no block has for an identifier. -/
def eventsRefused : StoredNode := eventsSecond.after (.removeAfter [1])

/-- The condition on a block, as it can be computed: it discards no micro-block. -/
def toldBlock (s : StoredUpdater) (block : Block) : Bool :=
  (s.persisted block).toOption.all (fun w => decide (StoredUpdater.Fresh w block.uniqueId)) &&
    s.ngState.all fun ng =>
      (decide (ng.base.header.reference ≠ block.header.reference) ||
        !StoredUpdater.replaces ng block) &&
      match ng.totalDiffOf block.header.reference with
      | some (.ok (_, _, _, _, discarded)) => discarded.isEmpty
      | _ => true

end Devnet

theorem told_of_toldBlock {n : StoredNode} {block : Block}
    (h : toldBlock n.updater block = true) : Told n (.processBlock block) := by
  unfold toldBlock at h
  rw [Bool.and_eq_true] at h
  refine ⟨StoredUpdater.freshIds_processBlock h.1, fun ng hng => ?_⟩
  have hliquid := h.2
  rw [hng, Option.all_some, Bool.and_eq_true, Bool.or_eq_true, decide_eq_true_eq,
    Bool.not_eq_true'] at hliquid
  refine ⟨fun href => hliquid.1.resolve_left fun hne => hne href, ?_⟩
  intro forged diff carry fee discarded htotal _ hdiscarded
  have hnone := hliquid.2
  rw [htotal] at hnone
  exact absurd (List.isEmpty_iff.mp hnone) hdiscarded

theorem events_run :
    (toldBlock eventsStart.updater genesisBlock ∧ toldBlock eventsGenesis.updater emptyBlock) ∧
      eventsSecond.updater.ids = [(emptyBlock.uniqueId, 2), (genesisBlock.uniqueId, 1)] ∧
      ChainIds.ofEvents eventsRefused.published =
        some [(emptyBlock.uniqueId, 2), (genesisBlock.uniqueId, 1)] ∧
      eventsRefused.updater.ids = [(genesisBlock.uniqueId, 1)] := by
  decide +kernel

/-- Two blocks, and what a consumer has of them. -/
theorem events_faithful_second :
    ChainIds.ofEvents eventsSecond.published =
      some [(emptyBlock.uniqueId, 2), (genesisBlock.uniqueId, 1)] := by
  obtain ⟨⟨hgenesis, hsecond⟩, hids, -⟩ := events_run
  have hfirst : Reachable Told (settings []) dbSettings eventsGenesis :=
    .call (.start true) (told_of_toldBlock hgenesis)
  have hreachable : Reachable Told (settings []) dbSettings eventsSecond :=
    .call hfirst (told_of_toldBlock hsecond)
  rw [← hids]
  exact events_faithful hreachable

/-- After the refused rollback the consumer still has the second block. -/
theorem events_not_faithful :
    ¬∀ (settings : BlockchainSettings) (dbSettings : DBSettings) (n : StoredNode),
      Reachable (fun n c => match c with
        | .processBlock block => StoredUpdater.FreshIds n.updater (.processBlock block)
        | .processMicroBlock microBlock =>
          StoredUpdater.FreshIds n.updater (.processMicroBlock microBlock)
        | _ => True) settings dbSettings n →
      ChainIds.ofEvents n.published = some n.updater.ids := by
  intro hclaim
  obtain ⟨⟨hgenesis, hsecond⟩, -, hconsumer, hnode⟩ := events_run
  have hsame := hclaim (settings []) dbSettings eventsRefused
    (.call (.call (.call (.start true) (told_of_toldBlock hgenesis).1)
      (told_of_toldBlock hsecond).1) trivial)
  rw [hconsumer, hnode] at hsame
  cases hsame

end

end WavesNode
