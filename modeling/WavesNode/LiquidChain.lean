/-
How the liquid block stands on the persisted chain.

The liquid block references the last persisted block, and so does every block that may take
its place; a block that continues it references the block that is forged from it
(`linked_reachable`). What the updater looks up by a reference (`limitHeight`, the height the
mining constraints are taken at) is therefore the height of the persisted chain.
-/
import WavesNode.StoredUpdater
import WavesNode.BlockRewards

set_option autoImplicit false

namespace WavesNode

namespace StoredUpdater

variable [Crypto] [PBTransactionSerializer]

/-! ## 1. The last persisted block -/

section

variable {settings : BlockchainSettings} {w v : LevelDBWriter}

/-- The index of the blocks leads to blocks. -/
def Indexed (w : LevelDBWriter) : Prop :=
  ∀ id h, w.db.heightOf id = some h → (w.db.blockInfoAt h).map BlockInfo.signature = some id

theorem Indexed.discardBlocks {targetHeight : ℕ} :
    ∀ (n : ℕ) {w : LevelDBWriter}, Indexed w →
      Indexed (LevelDBWriter.discardBlocks targetHeight n w)
  | 0, _, hw => hw
  | n + 1, w, hw => by
    refine Indexed.discardBlocks n fun id h hid => ?_
    change (if (w.db.blockInfoAt (targetHeight + n + 1)).any
      (fun info => info.signature = id) then none else w.db.heightOf id) = some h at hid
    change (if h = targetHeight + n + 1 then none else w.db.blockInfoAt h).map _ = some id
    split at hid
    · cases hid
    · rename_i hother
      have hsame := hw id h hid
      by_cases hh : h = targetHeight + n + 1
      · -- the block of that height is the one that goes
        subst hh
        obtain ⟨info, hinfo, hsignature⟩ := Option.map_eq_some_iff.mp hsame
        rw [hinfo, Option.any_some, decide_eq_true_eq] at hother
        exact absurd hsignature hother
      · rw [if_neg hh]
        exact hsame

theorem Indexed.written (hw : Chained settings w) (hindexed : Indexed w) (h : Written w v) :
    Indexed v := by
  cases h with
  | same => exact hindexed
  | append d carry reward block =>
    intro id h hid
    change (if id = block.uniqueId then some (w.height + 1) else w.db.heightOf id) = some h at hid
    change (if h = w.height + 1 then some _ else w.db.blockInfoAt h).map _ = some id
    split at hid
    · rename_i hnew
      rw [if_pos (Option.some.inj hid).symm, Option.map_some, hnew]
      rfl
    · have hold := hindexed id h hid
      have hsome : (w.db.blockInfoAt h).isSome = true := by
        obtain ⟨info, hinfo, -⟩ := Option.map_eq_some_iff.mp hold
        rw [hinfo]
        rfl
      have hle := (hw.blocks h).mp hsome
      rw [if_neg (by omega)]
      exact hold
  | rollbackTo hroll =>
    rw [LevelDBWriter.rollbackTo_eq_ok hroll, LevelDBWriter.doRollback]
    split
    · exact hindexed
    · exact Indexed.discardBlocks _ hindexed
  | load key =>
    unfold Indexed
    rw [LevelDBWriter.db_load]
    exact hindexed
  | evict key =>
    unfold Indexed
    rw [LevelDBWriter.db_evict]
    exact hindexed
  | restart => exact hindexed

omit [Crypto] [PBTransactionSerializer]

theorem Chained.lastBlock_eq_none (hw : Chained settings w) :
    w.lastBlock = none ↔ w.height = 0 := by
  have hblocks := hw.blocks w.height
  have hlast := hw.lastBlock
  constructor
  · intro hnone
    rw [hnone, Option.map_none] at hlast
    by_contra hpos
    have hsome := hblocks.mpr ⟨by omega, Nat.le_refl _⟩
    rw [Option.isSome_iff_exists] at hsome
    obtain ⟨info, hinfo⟩ := hsome
    rw [hinfo] at hlast
    cases hlast
  · intro hzero
    rcases hblock : w.lastBlock with _ | block
    · rfl
    · rw [hblock, Option.map_some] at hlast
      have hsome : (w.db.blockInfoAt w.height).isSome = true := by
        rcases hinfo : w.db.blockInfoAt w.height with _ | info
        · rw [hinfo] at hlast
          cases hlast
        · rfl
      have := hblocks.mp hsome
      omega

theorem heightOf_lastBlock {block : Block} (h : w.lastBlock = some block) :
    w.heightOf block.uniqueId = some w.height := by
  unfold LevelDBWriter.heightOf
  rw [h, Option.any_some, if_pos (decide_eq_true rfl)]

end

/-! ## 2. Where a block goes -/

/-- The height at which `processBlock` takes the mining constraints: that of the last persisted
block, or of the block that the liquid one references. -/
def limitHeight (s : StoredUpdater) : ℕ :=
  match s.ngState with
  | none => (s.blockchain.blockchain.lastBlockId.bind s.blockchain.heightOf).getD 0
  | some ng => (s.blockchain.heightOf ng.base.header.reference).getD 0

section

variable [BlockSerializer]

omit [Crypto] [PBTransactionSerializer] in
/-- A forged block has the identifier that was asked for, on the same parent. -/
theorem forgeBlock_eq_some {ng : NgState} {id : BlockId} {forged : Block}
    {discarded : List MicroBlock} (h : ng.forgeBlock id = some (forged, discarded)) :
    forged.uniqueId = id ∧ forged.header.reference = ng.base.header.reference := by
  obtain ⟨root, hroot⟩ := header_forgeBlock h
  refine ⟨?_, by rw [hroot]⟩
  unfold NgState.forgeBlock at h
  dsimp only at h
  split at h
  · rename_i hbase
    cases h
    exact hbase
  · split at h
    · cases h
    · -- what the walk finds carries the signature it looked for
      have hfound : ∀ (micros : List MicroBlock) (acc : List Transaction)
          (found : Option (ByteStr × List MicroBlock)),
          (∀ f, found = some f → f.1 = id) →
          ∀ f, (micros.foldl (NgState.forgeStep id) (acc, found)).2 = some f → f.1 = id := by
        intro micros
        induction micros with
        | nil => exact fun _ _ hf => hf
        | cons micro micros ih =>
          intro acc found hf
          rw [List.foldl_cons]
          rcases found with _ | ⟨sig, rest⟩
          · refine ih _ _ fun f hsome => ?_
            split at hsome
            · rename_i hsig
              cases hsome
              exact hsig
            · cases hsome
          · refine ih _ _ fun f hsome => ?_
            cases hsome
            exact hf (sig, rest) rfl
      obtain ⟨found, hsome, hforged⟩ := Option.map_eq_some_iff.mp h
      cases hforged
      exact hfound _ _ none (fun f hf => by cases hf) found hsome

variable [Ride]

/-- **Where a taken block goes**: on the last persisted block, or on the liquid one up to some
micro-block; and the constraint of which height it is held against. -/
theorem takeBlock_eq_ok {s : StoredUpdater} {block : Block}
    {taken : BlockchainUpdaterImpl.TakenBlock} {verify : Bool}
    (h : s.updater.takeBlock block verify = .ok (some taken)) :
    ((s.ngState = none ∧
          ∀ b, s.blockchain.lastBlock = some b → b.uniqueId = block.header.reference) ∨
        ∃ ng, s.ngState = some ng ∧ (ng.base.header.reference = block.header.reference ∨
          ∃ forged discarded, ng.forgeBlock block.header.reference = some (forged, discarded))) ∧
      ∃ b prev, BlockDiffer.fromBlock b prev block
        (MiningConstraints.total s.blockchain.blockchain s.limitHeight) verify =
          .ok taken.result := by
  unfold BlockchainUpdaterImpl.takeBlock at h
  unfold limitHeight
  -- the height that is looked up is there
  have hlooked : ∀ {id : BlockId} {height : ℕ},
      s.updater.blockchain.unsafeHeightOf id = .ok height →
      (s.blockchain.heightOf id).getD 0 = height := by
    intro id height hheight
    have hsome : s.blockchain.heightOf id = some height := Validation.get_eq_ok.mp hheight
    rw [hsome, Option.getD_some]
  have hpersisted : ∀ {height : ℕ} {reward : Option Long} {discarded : List Transaction},
      BlockchainUpdaterImpl.takeOnPersisted s.updater.blockchain block height reward discarded
        verify = .ok (some taken) →
      ∃ b prev, BlockDiffer.fromBlock b prev block
        (MiningConstraints.total s.blockchain.blockchain height) verify = .ok taken.result :=
    fun htaken => ⟨_, _, (takeOnPersisted_eq_ok htaken).1⟩
  rcases hng : s.ngState with _ | ng
  · have hliquid : s.updater.ngState = none := hng
    rw [hliquid] at h
    dsimp only at h
    split at h
    · rename_i uniqueId hlast
      split at h
      · cases h
      · rename_i href
        obtain ⟨height, hheight, h⟩ := Validation.bind_eq_ok.mp h
        have hid : s.blockchain.blockchain.lastBlockId = some uniqueId := hlast
        have hsame := hlooked hheight
        dsimp only
        rw [hid, Option.bind_some, hsame]
        refine ⟨.inl ⟨rfl, fun b hb => ?_⟩, hpersisted h⟩
        have hb' : s.blockchain.blockchain.lastBlockId = some b.uniqueId :=
          congrArg (Option.map Block.uniqueId) hb
        rw [hid] at hb'
        rw [← Option.some.inj hb']
        exact not_not.mp href
    · rename_i hlast
      have hid : s.blockchain.blockchain.lastBlockId = none := hlast
      dsimp only
      rw [hid, Option.bind_none, Option.getD_none]
      refine ⟨.inl ⟨rfl, fun b hb => ?_⟩, hpersisted h⟩
      have hb' : s.blockchain.blockchain.lastBlockId = some b.uniqueId :=
        congrArg (Option.map Block.uniqueId) hb
      rw [hid] at hb'
      cases hb'
  · have hliquid : s.updater.ngState = some ng := hng
    rw [hliquid] at h
    dsimp only at h ⊢
    by_cases href : ng.base.header.reference = block.header.reference
    · rw [if_pos href] at h
      obtain ⟨newScore, -, h⟩ := Validation.bind_eq_ok.mp h
      obtain ⟨oldScore, -, h⟩ := Validation.bind_eq_ok.mp h
      have htaken : ∃ height discarded,
          s.updater.blockchain.unsafeHeightOf ng.base.header.reference = .ok height ∧
          BlockchainUpdaterImpl.takeOnPersisted s.updater.blockchain block height ng.reward
            discarded verify = .ok (some taken) := by
        split at h
        · obtain ⟨height, hheight, h⟩ := Validation.bind_eq_ok.mp h
          exact ⟨height, _, hheight, h⟩
        · split at h
          · split at h
            · cases h
            · obtain ⟨height, hheight, h⟩ := Validation.bind_eq_ok.mp h
              exact ⟨height, _, hheight, h⟩
          · cases h
      obtain ⟨height, discarded, hheight, htaken⟩ := htaken
      rw [hlooked hheight]
      exact ⟨.inr ⟨ng, rfl, .inl href⟩, hpersisted htaken⟩
    · rw [if_neg href] at h
      unfold BlockchainUpdaterImpl.takeOnLiquid at h
      rw [NgState.totalDiffOf] at h
      rcases hforge : ng.forgeBlock block.header.reference with _ | ⟨forged, discarded⟩
      · rw [hforge] at h
        cases h
      · rw [hforge, Option.map_some] at h
        dsimp only at h
        obtain ⟨total, htotal, h⟩ := Validation.bind_eq_ok.mp h
        obtain ⟨⟨diff, carry, fee⟩, -, htotal⟩ := Validation.bind_eq_ok.mp htotal
        cases htotal
        dsimp only at h
        -- the forged block is only verified where the blocks are
        have hrest : ∃ b prev, BlockDiffer.fromBlock b prev block
            (MiningConstraints.total s.blockchain.blockchain
              ((s.blockchain.heightOf forged.header.reference).getD 0)) verify =
                .ok taken.result := by
          cases verify with
          | true =>
            rw [if_pos rfl] at h
            obtain ⟨_, -, h⟩ := Validation.bind_eq_ok.mp h
            obtain ⟨r, hr, h⟩ := Validation.bind_eq_ok.mp h
            cases h
            exact ⟨_, _, hr⟩
          | false =>
            rw [if_neg Bool.false_ne_true] at h
            obtain ⟨_, -, h⟩ := Validation.bind_eq_ok.mp h
            obtain ⟨r, hr, h⟩ := Validation.bind_eq_ok.mp h
            cases h
            exact ⟨_, _, hr⟩
        rw [(forgeBlock_eq_some hforge).2] at hrest
        exact ⟨.inr ⟨ng, rfl, .inr ⟨forged, discarded, hforge⟩⟩, hrest⟩

/-- What a block that is taken leaves, and what it was held against. -/
theorem processBlock_taken {s s' : StoredUpdater} {block : Block} {discarded : List Transaction}
    {verify : Bool} (h : s.processBlock block verify = .ok (s', some discarded)) :
    ∃ taken, s.updater.takeBlock block verify = .ok (some taken) ∧
      s.persisted block = .ok s'.blockchain ∧
      s' = { s with
        blockchain := s'.blockchain
        restTotalConstraint := taken.result.constraint
        ngState := some
          (Node.keyBlock s'.blockchain.blockchain block taken.result taken.reward) } ∧
      taken.discarded = discarded := by
  unfold processBlock at h
  obtain ⟨_, -, h⟩ := Validation.bind_eq_ok.mp h
  obtain ⟨taken, htake, h⟩ := Validation.bind_eq_ok.mp h
  rcases taken with _ | taken
  · cases h
  · obtain ⟨w, hw, h⟩ := Validation.bind_eq_ok.mp h
    cases h
    exact ⟨taken, htake, hw, rfl, rfl⟩

/-- A block that is not taken changes nothing. -/
theorem processBlock_ignored {s s' : StoredUpdater} {block : Block} {verify : Bool}
    (h : s.processBlock block verify = .ok (s', none)) : s' = s := by
  unfold processBlock at h
  obtain ⟨_, -, h⟩ := Validation.bind_eq_ok.mp h
  obtain ⟨taken, htake, h⟩ := Validation.bind_eq_ok.mp h
  rcases taken with _ | taken
  · cases h
    rfl
  · obtain ⟨w, hw, h⟩ := Validation.bind_eq_ok.mp h
    cases h

/-! ## 3. The liquid block references the last persisted one -/

omit [Crypto] [PBTransactionSerializer] [BlockSerializer] [Ride] in
/-- The liquid block is one on the last persisted block. -/
def Linked (s : StoredUpdater) : Prop :=
  ∀ ng, s.ngState = some ng → ∀ b, s.blockchain.lastBlock = some b →
    b.uniqueId = ng.base.header.reference

theorem Linked.processBlock {s s' : StoredUpdater} {block : Block} {discarded : List Transaction}
    {verify : Bool} (hs : Linked s) (h : s.processBlock block verify = .ok (s', some discarded)) :
    Linked s' := by
  obtain ⟨taken, htake, hw, heq, -⟩ := processBlock_taken h
  have hplace := (takeBlock_eq_ok htake).1
  intro ng' hng' b hb
  have hbase : ng'.base = block := by
    rw [heq] at hng'
    cases hng'
    rfl
  rw [hbase]
  unfold persisted at hw
  rcases hplace with ⟨hnone, hlast⟩ | ⟨ng, hng, href | ⟨forged, micros, hforge⟩⟩
  · rw [hnone] at hw
    rw [← Except.ok.inj hw] at hb
    exact hlast b hb
  · rw [hng] at hw
    dsimp only at hw
    rw [if_pos href] at hw
    rw [← Except.ok.inj hw] at hb
    rw [← href]
    exact hs ng hng b hb
  · rw [hng] at hw
    dsimp only at hw
    by_cases href : ng.base.header.reference = block.header.reference
    · rw [if_pos href] at hw
      rw [← Except.ok.inj hw] at hb
      rw [← href]
      exact hs ng hng b hb
    · -- what was forged is the last persisted block now
      rw [if_neg href, NgState.totalDiffOf, hforge, Option.map_some] at hw
      dsimp only at hw
      obtain ⟨total, htotal, hw⟩ := Validation.bind_eq_ok.mp hw
      obtain ⟨⟨diff, carry, fee⟩, -, htotal⟩ := Validation.bind_eq_ok.mp htotal
      cases htotal
      rw [← Except.ok.inj hw] at hb
      have hforged : b = forged := (Option.some.inj hb).symm
      rw [hforged]
      exact (forgeBlock_eq_some hforge).1

theorem Linked.leads {s s' : StoredUpdater} {e : Event} (hs : Linked s) (h : e.Leads s s') :
    Linked s' := by
  cases e with
  | processBlock block =>
    obtain ⟨discarded, h⟩ := h
    rcases discarded with _ | discarded
    · rw [processBlock_ignored h]
      exact hs
    · exact hs.processBlock h
  | processMicroBlock microBlock =>
    obtain ⟨ng, ledger, r, hng, -, -, -, rfl⟩ := processMicroBlock_eq_ok h
    intro ng' hng'
    cases hng'
    exact hs ng hng
  | removeAfter blockId =>
    cases h
    rcases removeAfter_cases s blockId with heq | heq | ⟨w, -, -, heq⟩
    · rw [heq]
      exact hs
    · rw [heq]
      intro ng hng
      cases hng
    · rw [heq]
      intro ng hng
      cases hng
  | load key =>
    cases h
    cases key <;> exact hs
  | evict key =>
    cases h
    cases key <;> exact hs
  | restart =>
    cases h
    intro ng hng
    cases hng

theorem linked_reachable {Q : StoredUpdater → Event → Prop} {settings : BlockchainSettings}
    {dbSettings : DBSettings} {s : StoredUpdater} (h : Reachable Q settings dbSettings s) :
    Linked s := by
  induction h with
  | start autoShutdown =>
    intro ng hng
    cases hng
  | step _ _ hleads ih => exact ih.leads hleads

omit [Crypto] [PBTransactionSerializer] [BlockSerializer] [Ride] in
/-- The last block is the one of the last height, and every block references the one below. -/
structure Threaded (w : LevelDBWriter) : Prop where
  last : ∀ b, w.lastBlock = some b → ∃ info, w.db.blockInfoAt w.height = some info ∧
    info.header = b.header ∧ info.signature = b.uniqueId
  reference : ∀ h below info, w.db.blockInfoAt h = some below →
    w.db.blockInfoAt (h + 1) = some info → info.header.reference = below.signature

omit [BlockSerializer] [Ride] in
theorem Threaded.append {settings : BlockchainSettings} {w : LevelDBWriter}
    (hchained : Chained settings w) (hw : Threaded w) (d : Diff) (carry : Long)
    (reward : Option Long) {block : Block}
    (hon : ∀ b, w.lastBlock = some b → b.uniqueId = block.header.reference) :
    Threaded (w.append d carry reward block) where
  last b hb := by
    rw [← Option.some.inj hb]
    exact ⟨_, if_pos rfl, rfl, rfl⟩
  reference h below info hbelow hinfo := by
    change (if h = w.height + 1 then some _ else w.db.blockInfoAt h) = some below at hbelow
    change (if h + 1 = w.height + 1 then some _ else w.db.blockInfoAt (h + 1)) = some info at hinfo
    have hbound : ∀ k i, w.db.blockInfoAt k = some i → 1 ≤ k ∧ k ≤ w.height := by
      intro k i hk
      refine (hchained.blocks k).mp ?_
      rw [hk]
      rfl
    by_cases hlast : h = w.height
    · -- the new block is on the last one
      rw [if_neg (by omega)] at hbelow
      rw [if_pos (by omega)] at hinfo
      rw [← Option.some.inj hinfo]
      have hpos := (hbound h below hbelow).1
      rcases hb : w.lastBlock with _ | b
      · have := hchained.lastBlock_eq_none.mp hb
        omega
      · obtain ⟨last, hat, -, hsignature⟩ := hw.last b hb
        rw [hlast, hat] at hbelow
        rw [← Option.some.inj hbelow, hsignature]
        exact (hon b hb).symm
    · rw [if_neg (by omega)] at hinfo
      have hle := hbound (h + 1) info hinfo
      rw [if_neg (by omega)] at hbelow
      exact hw.reference h below info hbelow hinfo

omit [BlockSerializer] [Ride] in
/-- A rollback adds no block. -/
theorem blockInfoAt_of_rollbackTo {w v : LevelDBWriter} {blockId : BlockId}
    (hroll : w.rollbackTo blockId = .ok v) {h : ℕ} {info : BlockInfo}
    (hinfo : v.db.blockInfoAt h = some info) : w.db.blockInfoAt h = some info := by
  rw [LevelDBWriter.rollbackTo_eq_ok hroll] at hinfo
  change (w.doRollback blockId).db.blockInfoAt h = some info at hinfo
  rw [LevelDBWriter.doRollback] at hinfo
  split at hinfo
  · exact hinfo
  · rw [discardBlocks_heights (f := fun db h => db.blockInfoAt h) (fun _ _ _ => rfl)] at hinfo
    split at hinfo
    · cases hinfo
    · exact hinfo

omit [Crypto] [PBTransactionSerializer] [BlockSerializer] [Ride] in
/-- What is loaded as the last block is the block of the last height. -/
theorem Threaded.loaded {w : LevelDBWriter}
    (hlast : w.lastBlock = w.db.loadBlock w.height)
    (hreference : ∀ h below info, w.db.blockInfoAt h = some below →
      w.db.blockInfoAt (h + 1) = some info → info.header.reference = below.signature) :
    Threaded w where
  last b hb := by
    rw [hlast] at hb
    obtain ⟨info, hinfo, rfl⟩ := Option.map_eq_some_iff.mp hb
    exact ⟨info, hinfo, rfl, rfl⟩
  reference := hreference

theorem Threaded.leads {settings : BlockchainSettings} {s s' : StoredUpdater} {e : Event}
    (hchained : Chained settings s.blockchain) (hlinked : Linked s)
    (hs : Threaded s.blockchain) (h : e.Leads s s') : Threaded s'.blockchain := by
  cases e with
  | processBlock block =>
    obtain ⟨discarded, h⟩ := h
    rcases processBlock_eq_ok h with rfl | ⟨w, r, reward, htaken, rfl⟩
    · exact hs
    · cases htaken with
      | first => exact hs
      | competitor => exact hs
      | next hng _ hforge =>
        refine hs.append hchained _ _ _ fun b hb => ?_
        rw [(forgeBlock_eq_some hforge).2]
        exact hlinked _ hng b hb
  | processMicroBlock microBlock =>
    obtain ⟨ng, ledger, r, -, -, -, -, rfl⟩ := processMicroBlock_eq_ok h
    exact hs
  | removeAfter blockId =>
    cases h
    rcases removeAfter_cases s blockId with heq | heq | ⟨w, -, hroll, heq⟩
    · rw [heq]
      exact hs
    · rw [heq]
      exact hs
    · rw [heq]
      have hloaded : w.lastBlock = w.db.loadBlock w.height := by
        rw [LevelDBWriter.rollbackTo_eq_ok hroll]
      exact .loaded hloaded fun h below info hbelow hinfo =>
        hs.reference h below info (blockInfoAt_of_rollbackTo hroll hbelow)
          (blockInfoAt_of_rollbackTo hroll hinfo)
  | load key =>
    cases h
    exact ⟨by cases key <;> exact hs.last, by cases key <;> exact hs.reference⟩
  | evict key =>
    cases h
    exact ⟨by cases key <;> exact hs.last, by cases key <;> exact hs.reference⟩
  | restart =>
    cases h
    exact .loaded rfl hs.reference

theorem threaded_reachable {Q : StoredUpdater → Event → Prop} {settings : BlockchainSettings}
    {dbSettings : DBSettings} {s : StoredUpdater} (h : Reachable Q settings dbSettings s) :
    Threaded s.blockchain := by
  induction h with
  | start autoShutdown =>
    refine ⟨?_, ?_⟩
    · intro b hb
      cases hb
    · intro h below info hbelow
      cases hbelow
  | step hrun _ hleads ih => exact ih.leads hrun.chained (linked_reachable hrun) hleads

theorem indexed_reachable {Q : StoredUpdater → Event → Prop} {settings : BlockchainSettings}
    {dbSettings : DBSettings} {s : StoredUpdater} (h : Reachable Q settings dbSettings s) :
    Indexed s.blockchain := by
  induction h with
  | start autoShutdown =>
    intro id h hid
    cases hid
  | step hrun _ hleads ih => exact ih.written hrun.chained hleads.written

omit [BlockSerializer] [Ride] in
/-- Whatever is looked up by a reference is at the height of the persisted chain. -/
theorem limitHeight_eq {settings : BlockchainSettings} {s : StoredUpdater}
    (hs : Chained settings s.blockchain) (hindexed : Indexed s.blockchain) (hlinked : Linked s) :
    s.limitHeight = s.blockchain.height := by
  unfold limitHeight
  rcases hlast : s.blockchain.lastBlock with _ | b
  · have hnone : ∀ id, s.blockchain.heightOf id = none := by
      intro id
      unfold LevelDBWriter.heightOf
      rw [hlast, Option.any_none, if_neg Bool.false_ne_true]
      rcases hid : s.blockchain.db.heightOf id with _ | h
      · rfl
      · have hsome : (s.blockchain.db.blockInfoAt h).isSome = true := by
          obtain ⟨info, hinfo, -⟩ := Option.map_eq_some_iff.mp (hindexed id h hid)
          rw [hinfo]
          rfl
        have hle := (hs.blocks h).mp hsome
        have hzero := hs.lastBlock_eq_none.mp hlast
        omega
    rw [hs.lastBlock_eq_none.mp hlast]
    have hid : s.blockchain.blockchain.lastBlockId = none := congrArg (Option.map _) hlast
    rcases hng : s.ngState with _ | ng
    · dsimp only
      rw [hid]
      rfl
    · dsimp only
      rw [hnone]
      rfl
  · have hid : s.blockchain.blockchain.lastBlockId = some b.uniqueId := congrArg (Option.map _) hlast
    rcases hng : s.ngState with _ | ng
    · dsimp only
      rw [hid, Option.bind_some, heightOf_lastBlock hlast]
      rfl
    · dsimp only
      rw [← hlinked ng hng b hlast, heightOf_lastBlock hlast]
      rfl

/-! ## 4. Identifiers

Nothing in the node keeps two blocks from having one identifier: an identifier is a signature.
Where none is repeated, the index finds every block, and the liquid block's identifiers are
none of the persisted blocks'. -/

omit [Crypto] [PBTransactionSerializer] [BlockSerializer] [Ride] in
/-- An identifier that no block of the database has, and that the first one does not
reference. -/
structure Fresh (w : LevelDBWriter) (id : BlockId) : Prop where
  nonempty : id ≠ []
  unknown : w.db.heightOf id = none
  unreferenced : ∀ info, w.db.blockInfoAt 1 = some info → info.header.reference ≠ id

omit [Crypto] [PBTransactionSerializer] [BlockSerializer] [Ride] in
theorem fresh_iff {w : LevelDBWriter} {id : BlockId} :
    id ≠ [] ∧ w.db.heightOf id = none ∧
        (w.db.blockInfoAt 1).all (fun info => decide (info.header.reference ≠ id)) = true ↔
      Fresh w id := by
  constructor
  · rintro ⟨hnonempty, hunknown, hfirst⟩
    refine ⟨hnonempty, hunknown, fun info hinfo => ?_⟩
    rw [hinfo, Option.all_some, decide_eq_true_eq] at hfirst
    exact hfirst
  · intro h
    refine ⟨h.nonempty, h.unknown, ?_⟩
    rcases hinfo : w.db.blockInfoAt 1 with _ | info
    · rfl
    · rw [Option.all_some, decide_eq_true_eq]
      exact h.unreferenced info hinfo

instance (w : LevelDBWriter) (id : BlockId) : Decidable (Fresh w id) :=
  decidable_of_iff _ fresh_iff

/-- The condition on a run: a block that is taken, or a micro-block, has the identifier of
nothing below it. -/
def FreshIds (s : StoredUpdater) : Event → Prop
  | .processBlock block => ∀ s' discarded w, s.processBlock block = .ok (s', some discarded) →
    s.persisted block = .ok w → Fresh w block.uniqueId
  | .processMicroBlock microBlock =>
    Fresh s.blockchain microBlock.totalResBlockSig ∧
      ∀ ng, s.ngState = some ng → ng.contains microBlock.totalResBlockSig = false
  | _ => True

/-- The condition for a block, as it can be computed. -/
theorem freshIds_processBlock {s : StoredUpdater} {block : Block}
    (h : (s.persisted block).toOption.all (fun w => decide (Fresh w block.uniqueId)) = true) :
    FreshIds s (.processBlock block) := by
  intro s' discarded w _ hw
  rw [hw] at h
  exact of_decide_eq_true h

omit [Crypto] [PBTransactionSerializer] [BlockSerializer] [Ride] in
theorem Fresh.of_db {w v : LevelDBWriter} {id : BlockId} (h : Fresh w id) (hdb : v.db = w.db) :
    Fresh v id where
  nonempty := h.nonempty
  unknown := by
    rw [hdb]
    exact h.unknown
  unreferenced := by
    rw [hdb]
    exact h.unreferenced

omit [Crypto] [PBTransactionSerializer] [BlockSerializer] [Ride] in
/-- Every block is found by its identifier. -/
def Unrepeated (w : LevelDBWriter) : Prop :=
  ∀ h info, w.db.blockInfoAt h = some info → w.db.heightOf info.signature = some h

omit [Crypto] [PBTransactionSerializer] [BlockSerializer] [Ride] in
/-- The block in memory is where the index has it. -/
theorem heightOf_eq {w : LevelDBWriter} (hthreaded : Threaded w) (hunrepeated : Unrepeated w)
    (id : BlockId) : w.heightOf id = w.db.heightOf id := by
  unfold LevelDBWriter.heightOf
  split
  · rename_i hlast
    obtain ⟨b, hb, hid⟩ := (Option.any_eq_true ..).mp hlast
    obtain ⟨info, hinfo, -, hsignature⟩ := hthreaded.last b hb
    rw [← of_decide_eq_true hid, ← hsignature]
    exact (hunrepeated _ info hinfo).symm
  · rfl

omit [BlockSerializer] [Ride] in
/-- A rollback to a height that is there ends at it, and it may be made. -/
theorem rollbackTo_at {w v : LevelDBWriter} {id : BlockId} {m : ℕ} (hw : LevelDBWriter.Sound w)
    (hid : w.heightOf id = some m) (hid' : w.db.heightOf id = some m) (hle : m ≤ w.height)
    (hroll : w.rollbackTo id = .ok v) : w.db.safeRollbackHeight < m ∧ v.height = m := by
  constructor
  · unfold LevelDBWriter.rollbackTo at hroll
    rw [hid] at hroll
    dsimp only at hroll
    split at hroll
    · assumption
    · cases hroll
  · rw [LevelDBWriter.rollbackTo_eq_ok hroll]
    change (w.doRollback id).db.height = m
    rw [LevelDBWriter.doRollback, hid']
    exact LevelDBWriter.height_discardBlocks m w (w.height - m) (by rw [hw.height]; omega)

omit [BlockSerializer] [Ride] in
theorem Unrepeated.append {w : LevelDBWriter} (hw : Unrepeated w) (d : Diff) (carry : Long)
    (reward : Option Long) {block : Block} (hfresh : w.db.heightOf block.uniqueId = none) :
    Unrepeated (w.append d carry reward block) := by
  intro h info hinfo
  change (if h = w.height + 1 then some _ else w.db.blockInfoAt h) = some info at hinfo
  change (if info.signature = block.uniqueId then some (w.height + 1)
    else w.db.heightOf info.signature) = some h
  by_cases hh : h = w.height + 1
  · rw [if_pos hh] at hinfo
    have hsignature : info.signature = block.uniqueId := by
      rw [← Option.some.inj hinfo]
      rfl
    rw [if_pos hsignature, hh]
  · rw [if_neg hh] at hinfo
    have hold := hw h info hinfo
    rw [if_neg fun hsame => ?_]
    · exact hold
    · rw [hsame, hfresh] at hold
      cases hold

omit [BlockSerializer] [Ride] in
theorem Unrepeated.discardBlocks {targetHeight : ℕ} :
    ∀ (n : ℕ) {w : LevelDBWriter}, Unrepeated w →
      Unrepeated (LevelDBWriter.discardBlocks targetHeight n w)
  | 0, _, hw => hw
  | n + 1, w, hw => by
    refine Unrepeated.discardBlocks n fun h info hinfo => ?_
    change (if h = targetHeight + n + 1 then none else w.db.blockInfoAt h) = some info at hinfo
    change (if (w.db.blockInfoAt (targetHeight + n + 1)).any
      (fun other => other.signature = info.signature) then none
      else w.db.heightOf info.signature) = some h
    split at hinfo
    · cases hinfo
    · rename_i hother
      have hold := hw h info hinfo
      rw [if_neg fun hsame => ?_]
      · exact hold
      · -- the block that goes would be the one that stays
        obtain ⟨other, hlast, hsignature⟩ := (Option.any_eq_true ..).mp hsame
        have hheight := hw _ other hlast
        rw [of_decide_eq_true hsignature, hold] at hheight
        exact hother (Option.some.inj hheight)

section
omit [Crypto] [PBTransactionSerializer] [BlockSerializer] [Ride]

/-- Each micro-block is on the one before it, the first on the key block. -/
def Stacked (baseId : BlockId) : List MicroBlock → Prop
  | [] => True
  | m :: ms =>
    m.prevResBlockSig = (ms.head?.map MicroBlock.totalResBlockSig).getD baseId ∧ Stacked baseId ms

/-- The identifiers of a liquid block: of its key block and of its micro-blocks, all
different, and one diff for each micro-block. -/
structure LiquidIds (ng : NgState) : Prop where
  nodup : (ng.microBlocks.map MicroBlock.totalResBlockSig ++ [ng.base.uniqueId]).Nodup
  diffs : ∀ id, ng.microDiffs.contains id = true ↔
    id ∈ ng.microBlocks.map MicroBlock.totalResBlockSig
  stacked : Stacked ng.base.uniqueId ng.microBlocks

namespace LiquidIds

variable {ng : NgState}

theorem contains_iff (h : LiquidIds ng) {id : BlockId} :
    ng.contains id = true ↔
      id ∈ ng.microBlocks.map MicroBlock.totalResBlockSig ++ [ng.base.uniqueId] := by
  unfold NgState.contains
  rw [Bool.or_eq_true, decide_eq_true_eq, h.diffs, List.mem_append, List.mem_singleton]
  constructor
  · rintro (hbase | hmicro)
    · exact .inr hbase.symm
    · exact .inl hmicro
  · rintro (hmicro | hbase)
    · exact .inr hmicro
    · exact .inl hbase.symm

/-- A key block alone. -/
theorem base (hmicros : ng.microBlocks = []) (hdiffs : ng.microDiffs = ∅) : LiquidIds ng where
  nodup := by
    rw [hmicros]
    exact List.nodup_singleton _
  diffs id := by
    rw [hmicros, hdiffs]
    constructor
    · intro h
      cases h
    · intro h
      cases h
  stacked := by
    rw [hmicros]
    trivial

/-- A micro-block on the last one. -/
theorem append (h : LiquidIds ng) {m : MicroBlock} (hon : ng.bestLiquidBlockId = m.prevResBlockSig)
    (hfresh : ng.contains m.totalResBlockSig = false) (d : Diff) (carry totalFee : Long) :
    LiquidIds (ng.append m d carry totalFee) where
  nodup := by
    change (m.totalResBlockSig :: (ng.microBlocks.map MicroBlock.totalResBlockSig ++
      [ng.base.uniqueId])).Nodup
    rw [List.nodup_cons]
    refine ⟨fun hmem => ?_, h.nodup⟩
    rw [h.contains_iff.mpr hmem] at hfresh
    cases hfresh
  diffs id := by
    change (ng.microDiffs.insert m.totalResBlockSig _).contains id = true ↔
      id ∈ m.totalResBlockSig :: ng.microBlocks.map MicroBlock.totalResBlockSig
    rw [FiniteMap.contains, FiniteMap.get?_insert, List.mem_cons]
    by_cases hid : id = m.totalResBlockSig
    · rw [if_pos hid]
      exact ⟨fun _ => .inl hid, fun _ => rfl⟩
    · rw [if_neg hid, ← FiniteMap.contains, h.diffs]
      exact ⟨.inr, fun hmem => hmem.resolve_left hid⟩
  stacked := ⟨hon.symm, h.stacked⟩

end LiquidIds

end

omit [Crypto] [PBTransactionSerializer] [Ride] in
/-- What can be forged is what the liquid block contains. -/
theorem contains_of_forgeBlock {ng : NgState} (h : LiquidIds ng) {id : BlockId} :
    (ng.forgeBlock id).isSome = true → ng.contains id = true := by
  intro hforge
  rw [h.contains_iff, List.mem_append, List.mem_singleton]
  unfold NgState.forgeBlock at hforge
  dsimp only at hforge
  split at hforge
  · rename_i hbase
    exact .inr hbase.symm
  · split at hforge
    · cases hforge
    · rename_i hany
      rw [Bool.not_eq_true', Bool.not_eq_false, List.any_eq_true] at hany
      obtain ⟨m, hm, hid⟩ := hany
      exact .inl (List.mem_map.mpr ⟨m, List.mem_reverse.mp hm, of_decide_eq_true hid⟩)

/-- What holds of the identifiers in every run with fresh ones. -/
structure Identified (s : StoredUpdater) : Prop where
  unrepeated : Unrepeated s.blockchain
  nonempty : ∀ h info, s.blockchain.db.blockInfoAt h = some info → info.signature ≠ []
  liquid : ∀ ng, s.ngState = some ng → LiquidIds ng
  apart : ∀ ng, s.ngState = some ng → ∀ id, ng.contains id = true → Fresh s.blockchain id

variable {settings : BlockchainSettings} {s s' : StoredUpdater}

theorem Identified.processBlock (hs : Identified s) {block : Block} {discarded : List Transaction}
    (hQ : FreshIds s (.processBlock block))
    (h : s.processBlock block = .ok (s', some discarded)) : Identified s' := by
  obtain ⟨taken, -, hw, heq, -⟩ := processBlock_taken h
  have hng' : s'.ngState = some (Node.keyBlock s'.blockchain.blockchain block taken.result
    taken.reward) := by rw [heq]
  have hpersisted : Unrepeated s'.blockchain ∧
      ∀ h info, s'.blockchain.db.blockInfoAt h = some info → info.signature ≠ [] := by
    -- what is persisted is the liquid block up to the reference
    rcases processBlock_eq_ok h with rfl | ⟨w, r, reward, htaken, hs'⟩
    · exact ⟨hs.unrepeated, hs.nonempty⟩
    · have hw' : s'.blockchain = w := by rw [hs']
      rw [hw']
      cases htaken with
      | first => exact ⟨hs.unrepeated, hs.nonempty⟩
      | competitor => exact ⟨hs.unrepeated, hs.nonempty⟩
      | next hng _ hforge =>
        rename_i forged _ _ _ _ _ _
        have hfresh := hs.apart _ hng _
          (contains_of_forgeBlock (hs.liquid _ hng) (by rw [hforge]; rfl))
        rw [← (forgeBlock_eq_some hforge).1] at hfresh
        refine ⟨hs.unrepeated.append _ _ _ hfresh.unknown, fun h info hinfo => ?_⟩
        change (if h = s.blockchain.height + 1 then some _ else s.blockchain.db.blockInfoAt h) =
          some info at hinfo
        split at hinfo
        · rw [← Option.some.inj hinfo]
          exact hfresh.nonempty
        · exact hs.nonempty h info hinfo
  refine ⟨hpersisted.1, hpersisted.2, ?_, ?_⟩
  · intro ng hng
    rw [hng'] at hng
    obtain rfl := Option.some.inj hng
    exact .base rfl rfl
  · intro ng hng id hid
    rw [hng'] at hng
    obtain rfl := Option.some.inj hng
    have hbase : block.uniqueId = id := by
      rw [LiquidIds.contains_iff (.base rfl rfl)] at hid
      exact (List.mem_singleton.mp hid).symm
    rw [← hbase]
    exact hQ s' discarded _ h hw

theorem Identified.leads {e : Event} (hs : Identified s) (hQ : FreshIds s e) (h : e.Leads s s') : Identified s' := by
  cases e with
  | processBlock block =>
    obtain ⟨discarded, h⟩ := h
    rcases discarded with _ | discarded
    · rw [processBlock_ignored h]
      exact hs
    · exact hs.processBlock hQ h
  | processMicroBlock microBlock =>
    obtain ⟨ng, ledger, r, hng, hon, -, -, rfl⟩ := processMicroBlock_eq_ok h
    have hfresh := hQ.2 ng hng
    refine ⟨hs.unrepeated, hs.nonempty, ?_, ?_⟩
    · intro ng' hng'
      cases hng'
      exact (hs.liquid ng hng).append hon hfresh _ _ _
    · intro ng' hng' id hid
      cases hng'
      rw [((hs.liquid ng hng).append hon hfresh r.diff r.carry r.totalFee).contains_iff] at hid
      rcases List.mem_cons.mp hid with hnew | hold
      · rw [hnew]
        exact hQ.1
      · exact hs.apart ng hng id ((hs.liquid ng hng).contains_iff.mpr hold)
  | removeAfter blockId =>
    cases h
    rcases removeAfter_cases s blockId with heq | heq | ⟨w, -, hroll, heq⟩
    · rw [heq]
      exact hs
    · rw [heq]
      refine ⟨hs.unrepeated, hs.nonempty, ?_, ?_⟩
      · intro ng hng
        cases hng
      · intro ng hng
        cases hng
    · rw [heq]
      refine ⟨?_, ?_, ?_, ?_⟩
      · rw [LevelDBWriter.rollbackTo_eq_ok hroll, LevelDBWriter.doRollback]
        split
        · exact hs.unrepeated
        · exact Unrepeated.discardBlocks _ hs.unrepeated
      · intro h info hinfo
        exact hs.nonempty h info (blockInfoAt_of_rollbackTo hroll hinfo)
      · intro ng hng
        cases hng
      · intro ng hng
        cases hng
  | load key =>
    cases h
    refine ⟨?_, ?_, hs.liquid, fun ng hng id hid => ?_⟩
    · unfold Unrepeated
      rw [LevelDBWriter.db_load]
      exact hs.unrepeated
    · rw [LevelDBWriter.db_load]
      exact hs.nonempty
    · exact (hs.apart ng hng id hid).of_db (LevelDBWriter.db_load _ _)
  | evict key =>
    cases h
    refine ⟨?_, ?_, hs.liquid, fun ng hng id hid => ?_⟩
    · unfold Unrepeated
      rw [LevelDBWriter.db_evict]
      exact hs.unrepeated
    · rw [LevelDBWriter.db_evict]
      exact hs.nonempty
    · exact (hs.apart ng hng id hid).of_db (LevelDBWriter.db_evict _ _)
  | restart =>
    cases h
    refine ⟨hs.unrepeated, hs.nonempty, ?_, ?_⟩
    · intro ng hng
      cases hng
    · intro ng hng
      cases hng

theorem identified_reachable {dbSettings : DBSettings}
    (h : Reachable FreshIds settings dbSettings s) : Identified s := by
  induction h with
  | start autoShutdown =>
    refine ⟨?_, ?_, ?_, ?_⟩
    · intro h info hinfo
      cases hinfo
    · intro h info hinfo
      cases hinfo
    · intro ng hng
      cases hng
    · intro ng hng
      cases hng
  | step _ hQ hleads ih => exact ih.leads hQ hleads

end

end StoredUpdater

end WavesNode
