/-
What a node says of the features, while a block is liquid and after.

The features that a block approves are worked out twice: by the updater when the block is
taken (`featuresApprovedWithBlock`), and by the database when it is persisted
(`newlyApprovedFeatures`). Only the second leaves out the features that are active from the
start. Where no such feature has the votes, both are what the votes of the chain give
(`approvedAt`), liquid block and all, and so a node's features are a function of its blocks:
`Reachable.voting` says so of every run whose rollbacks keep the blocks that approved
something, and `features_agree` reads off it that persisting a block changes nothing, that
every approval had its votes, and that it is final.
-/
import WavesNode.BlockRewards

set_option autoImplicit false

namespace WavesNode

namespace LevelDBWriter

/-! ## 1. Votes and approvals -/

section

variable {settings : BlockchainSettings} {votes : ℕ → List Short}

variable (settings votes) in
/-- How many blocks of the window of a height vote for a feature. -/
def votesFor (height : ℕ) (featureId : Short) : ℕ :=
  (settings.functionalitySettings.activationWindow height).countP fun k =>
    decide (featureId ∈ votes k)

/-- At the end of a window the height is the last one of it. -/
theorem activationWindow_of_end (fs : FunctionalitySettings) {height : ℕ} (hpos : 1 ≤ height)
    (hend : height % fs.activationWindowSize height = 0) :
    ∃ heights, fs.activationWindow height = heights ++ [height] ∧ ∀ k ∈ heights, k < height := by
  have hws := fs.activationWindowSize_pos height
  unfold FunctionalitySettings.activationWindow
  rw [if_neg (by omega)]
  dsimp only
  set ws := fs.activationWindowSize height with hwsdef
  obtain ⟨m, hm⟩ := Nat.dvd_of_mod_eq_zero hend
  -- the height is the end of the last of `m` windows
  have hmpos : 1 ≤ m := by
    by_contra hzero
    rw [show m = 0 by omega, Nat.mul_zero] at hm
    omega
  obtain ⟨n, rfl⟩ : ∃ n, m = n + 1 := ⟨m - 1, by omega⟩
  have hlast : (n + 1) * ws = height := by rw [hm, Nat.mul_comm]
  have hexpand : (n + 1) * ws = n * ws + ws := by rw [Nat.add_mul, Nat.one_mul]
  have hdiv : (height - 1) / ws = n := by
    refine Nat.div_eq_of_lt_le ?_ ?_
    · omega
    · omega
  rw [hdiv, hlast, rangeInclusive]
  refine ⟨List.range' (n * ws + 1) (ws - 1), ?_, ?_⟩
  · have hlength : height + 1 - (n * ws + 1) = (ws - 1) + 1 := by omega
    have hheight : n * ws + 1 + (ws - 1) = height := by omega
    rw [hlength, List.range'_1_concat, hheight]
  · intro k hk
    rw [List.mem_range'_1] at hk
    omega

/-- Where nobody votes twice, the votes of some blocks are the blocks that vote. -/
theorem count_flatMap_of_nodup (hnodup : ∀ k, (votes k).Nodup) (featureId : Short) :
    ∀ heights : List ℕ, (heights.flatMap votes).count featureId =
      heights.countP fun k => decide (featureId ∈ votes k)
  | [] => rfl
  | k :: heights => by
    rw [List.flatMap_cons, List.count_append, count_flatMap_of_nodup hnodup featureId heights,
      List.countP_cons, (hnodup k).count, Nat.add_comm]
    by_cases hmem : featureId ∈ votes k
    · rw [if_pos hmem, if_pos (decide_eq_true hmem)]
    · rw [if_neg hmem, if_neg (by rw [decide_eq_true_eq]; exact hmem)]

/-- What is counted at the end of a window: the votes before the last block, and its own. -/
theorem count_votesBefore (hnodup : ∀ k, (votes k).Nodup) (featureId : Short) {height : ℕ}
    (hpos : 1 ≤ height)
    (hend : height % settings.functionalitySettings.activationWindowSize height = 0) :
    (votesBefore settings votes height).count featureId +
        (if featureId ∈ votes height then 1 else 0) = votesFor settings votes height featureId := by
  obtain ⟨heights, hwindow, hlow⟩ :=
    activationWindow_of_end settings.functionalitySettings hpos hend
  have hbefore : votesBefore settings votes height = heights.flatMap votes := by
    unfold votesBefore
    rw [hwindow, List.flatMap_append, List.flatMap_singleton, if_neg (Nat.lt_irrefl _),
      List.append_nil, List.flatMap_def, List.flatMap_def]
    exact congrArg List.flatten (List.map_congr_left fun k hk => if_pos (hlow k hk))
  rw [hbefore, count_flatMap_of_nodup hnodup, votesFor, hwindow, List.countP_append,
    List.countP_singleton]
  by_cases hmem : featureId ∈ votes height
  · rw [if_pos hmem, if_pos (decide_eq_true hmem)]
  · rw [if_neg hmem, if_neg (by rw [decide_eq_true_eq]; exact hmem)]

/-- **An approval has its votes.** -/
theorem approvals_votes (hnodup : ∀ k, (votes k).Nodup) {featureId : Short} {height h : ℕ}
    (hpos : 1 ≤ height) (hget : (approvals settings votes height).get? featureId = some h) :
    height % settings.functionalitySettings.activationWindowSize height = 0 ∧
      settings.functionalitySettings.preActivatedFeatures.contains featureId = false ∧
      settings.functionalitySettings.blocksForFeatureActivationAt height ≤
        votesFor settings votes height featureId := by
  unfold approvals at hget
  dsimp only at hget
  split at hget
  · rename_i hend
    obtain ⟨voteCount, hvotes, hget⟩ := Option.bind_eq_some_iff.mp hget
    have hcounted : voteCount = (votesBefore settings votes height).count featureId := by
      rw [FiniteMap.get?_ofFinset] at hvotes
      split at hvotes
      · exact (Option.some.inj hvotes).symm
      · cases hvotes
    dsimp only at hget
    by_cases hpre : settings.functionalitySettings.preActivatedFeatures.contains featureId = true
    · rw [if_pos hpre] at hget
      cases hget
    · rw [if_neg hpre] at hget
      by_cases hcount : voteCount + (if featureId ∈ votes height then 1 else 0) ≥
          settings.functionalitySettings.blocksForFeatureActivationAt height
      · rw [hcounted, count_votesBefore hnodup featureId hpos hend] at hcount
        exact ⟨hend, eq_false_of_ne_true hpre, hcount⟩
      · rw [if_neg hcount] at hget
        cases hget
  · cases hget

/-- What is approved was approved by the block of its height. -/
theorem approvedAt_eq_some {n h : ℕ} {featureId : Short}
    (hget : (approvedAt settings votes n).get? featureId = some h) :
    1 ≤ h ∧ h ≤ n ∧ (approvals settings votes h).get? featureId = some h := by
  induction n with
  | zero => cases hget
  | succ n ih =>
    rw [approvedAt, FiniteMap.get?_append] at hget
    rcases hold : (approvedAt settings votes n).get? featureId with _ | h'
    · rw [hold, Option.none_or] at hget
      obtain rfl := approvals_eq_some hget
      exact ⟨by omega, Nat.le_refl _, hget⟩
    · rw [hold, Option.some_or] at hget
      obtain rfl := Option.some.inj hget
      obtain ⟨hpos, hle, hnew⟩ := ih hold
      exact ⟨hpos, by omega, hnew⟩

/-- A feature is activated one window after its approval. -/
theorem get?_activatedAt (n : ℕ) (featureId : Short) :
    (activatedAt settings votes n).get? featureId =
      ((approvedAt settings votes n).get? featureId).map fun h =>
        h + settings.functionalitySettings.activationWindowSize h := by
  induction n with
  | zero => rfl
  | succ n ih =>
    rw [activatedAt, approvedAt, FiniteMap.get?_append, FiniteMap.get?_append,
      FiniteMap.get?_mapVal, ih]
    rcases (approvedAt settings votes n).get? featureId with _ | h
    · rw [Option.map_none, Option.none_or, Option.none_or]
      rcases hnew : (approvals settings votes (n + 1)).get? featureId with _ | h
      · rfl
      · rw [approvals_eq_some hnew]
        rfl
    · rfl

/-- The blocks up to a height decide what is approved there. -/
theorem approvedAt_below {n m h : ℕ} (hmn : m ≤ n) (hm : h ≤ m) {featureId : Short}
    (hget : (approvedAt settings votes n).get? featureId = some h) :
    (approvedAt settings votes m).get? featureId = some h := by
  have hle : ∀ k, (approvedAt settings votes n).get? featureId = some k → k ≤ m := by
    intro k hk
    rw [hget] at hk
    obtain rfl := Option.some.inj hk
    exact hm
  rw [← (get?_features_of_le hmn hle).1]
  exact hget

end

end LevelDBWriter

namespace BlockchainUpdaterImpl

variable [Crypto] [PBTransactionSerializer]

/-- `approvedFeatures`. -/
def approvedFeatures (u : BlockchainUpdaterImpl) : FiniteMap Short ℕ :=
  u.newlyApprovedFeatures ++ u.blockchain.approvedFeatures

end BlockchainUpdaterImpl

namespace StoredUpdater

variable [Crypto] [PBTransactionSerializer]

open LevelDBWriter

variable {settings : BlockchainSettings} {s s' : StoredUpdater}

/-! ## 2. The features of the liquid block -/

/-- No feature that is active from the start has the votes to be approved by a block on the
persisted chain. -/
def PreActivatedShort (w : LevelDBWriter) (block : Block) : Prop :=
  let height := w.height + 1
  let fs := w.settings.functionalitySettings
  height % fs.activationWindowSize height = 0 →
    ∀ featureId votes, fs.preActivatedFeatures.contains featureId = true →
      (w.blockchain.featureVotes height).get? featureId = some votes →
      votes + (if featureId ∈ block.header.featureVotes then 1 else 0) <
        fs.blocksForFeatureActivationAt height

theorem PreActivatedShort.not_mem {w : LevelDBWriter} {block : Block}
    (h : PreActivatedShort w block) {featureId : Short}
    (hpre : w.settings.functionalitySettings.preActivatedFeatures.contains featureId = true) :
    featureId ∉ BlockchainUpdaterImpl.featuresApprovedWithBlock w.blockchain block := by
  intro hmem
  unfold BlockchainUpdaterImpl.featuresApprovedWithBlock at hmem
  dsimp only at hmem
  split at hmem
  · rename_i hend
    rw [mem_dom_filter] at hmem
    rcases hvotes : (w.blockchain.featureVotes (w.height + 1)).get? featureId with _ | votes
    · have hnone : (w.blockchain.featureVotes (w.blockchain.height + 1)).get? featureId = none :=
        hvotes
      rw [hnone] at hmem
      cases hmem
    · have hsome : (w.blockchain.featureVotes (w.blockchain.height + 1)).get? featureId =
          some votes := hvotes
      rw [hsome, Option.any_some, decide_eq_true_eq] at hmem
      have hshort := h hend featureId votes hpre hvotes
      have hcount : votes + (if featureId ∈ block.header.featureVotes then 1 else 0) =
          if featureId ∈ block.header.featureVotes then votes + 1 else votes := by
        split <;> rfl
      rw [hcount] at hshort
      exact absurd hshort (Nat.not_lt.mpr hmem)
  · exact absurd hmem (Finset.notMem_empty _)

/-- What holds of a node in every run: the features of its database are what the votes of the
persisted blocks give, no block votes twice for a feature, and the liquid block approves none
of the features that are active from the start. -/
structure Voting (settings : BlockchainSettings) (s : StoredUpdater) : Prop where
  sane : Sane settings s
  replayed : FeaturesReplayed settings s.blockchain s.blockchain.height
  nodup : ∀ k, (s.featureVotesAt k).Nodup
  short : ∀ ng, s.ngState = some ng → ∀ featureId,
    settings.functionalitySettings.preActivatedFeatures.contains featureId = true →
    featureId ∉ ng.approvedFeatures

omit [Crypto] [PBTransactionSerializer] in
theorem featureVotesAt_persisted {k : ℕ} (hk : k ≤ s.blockchain.height) :
    s.featureVotesAt k = votesOf s.blockchain.db k := by
  rw [featureVotesAt, headerAt, if_neg (by omega), Option.map_map, votesOf]
  rfl

omit [Crypto] [PBTransactionSerializer] in
theorem featureVotesAt_liquid {ng : NgState} (hng : s.ngState = some ng) :
    s.featureVotesAt (s.blockchain.height + 1) = ng.base.header.featureVotes := by
  rw [featureVotesAt, headerAt, if_pos rfl, hng]
  rfl

theorem featureVotesAt_above (hs : Sane settings s) {k : ℕ} (hk : s.height < k) :
    s.featureVotesAt k = [] := by
  have hle := s.height_le
  have hdb : s.blockchain.db.blockInfoAt k = none := by
    rw [← Option.not_isSome_iff_eq_none]
    intro hsome
    have := (hs.chained.blocks k).mp hsome
    omega
  rw [featureVotesAt, headerAt, hdb]
  split
  · rcases hng : s.ngState with _ | ng
    · rfl
    · have := height_of_some hng
      omega
  · rfl

namespace Voting

theorem newlyApprovedFeatures_of_none (hng : s.ngState = none) :
    s.updater.newlyApprovedFeatures = ∅ := by
  unfold BlockchainUpdaterImpl.newlyApprovedFeatures
  have hliquid : s.updater.ngState = none := hng
  rw [hliquid]

/-- **The liquid block approves what it will have approved.** -/
theorem newlyApprovedFeatures_liquid (hs : Voting settings s) {ng : NgState}
    (hng : s.ngState = some ng) {forged : Block}
    (hvotes : forged.header.featureVotes = ng.base.header.featureVotes) :
    s.updater.newlyApprovedFeatures = s.blockchain.newlyApprovedFeatures forged := by
  have hliquid : s.updater.ngState = some ng := hng
  ext featureId : 1
  rw [newlyApprovedFeatures_get? hs.sane.chained hvotes, ← hs.sane.approved ng hng,
    hs.sane.chained.settings_eq]
  unfold BlockchainUpdaterImpl.newlyApprovedFeatures
  rw [hliquid]
  dsimp only
  rw [FiniteMap.get?_ofFinset]
  by_cases hpre :
      settings.functionalitySettings.preActivatedFeatures.contains featureId = true
  · rw [if_pos hpre, if_neg (hs.short ng hng featureId hpre)]
  · rw [if_neg hpre]
    exact if_congr Iff.rfl (congrArg some (height_of_some hng)) rfl

/-- The features of a node are what the votes of its blocks give, liquid block and all. -/
theorem features_eq (hs : Voting settings s) :
    s.updater.approvedFeatures = approvedAt settings s.featureVotesAt s.height ∧
      s.updater.activatedFeatures = activatedAt settings s.featureVotesAt s.height ++
        settings.functionalitySettings.preActivatedFeatures := by
  have hold : ∀ k ≤ s.blockchain.height, s.featureVotesAt k = votesOf s.blockchain.db k :=
    fun k hk => featureVotesAt_persisted hk
  obtain ⟨happroved, hactivated⟩ := features_congr settings hold
  have hcached := hs.sane.chained.features
  have hpersisted : s.updater.blockchain.approvedFeatures =
      approvedAt settings s.featureVotesAt s.blockchain.height := by
    rw [happroved, ← hs.replayed.approved]
    exact hcached.approved
  have hpersisted' : s.updater.blockchain.activatedFeatures =
      activatedAt settings s.featureVotesAt s.blockchain.height ++
        settings.functionalitySettings.preActivatedFeatures := by
    rw [hactivated, ← hs.replayed.activated]
    exact hcached.activated
  unfold BlockchainUpdaterImpl.approvedFeatures BlockchainUpdaterImpl.activatedFeatures
  rw [hpersisted, hpersisted']
  rcases hng : s.ngState with _ | ng
  · rw [newlyApprovedFeatures_of_none hng, height_of_none hng, FiniteMap.empty_append]
    refine ⟨rfl, ?_⟩
    have hmap : (∅ : FiniteMap Short ℕ).mapVal (· +
        s.updater.blockchain.settings.functionalitySettings.activationWindowSize
          s.updater.height) = ∅ := by
      ext featureId : 1
      rfl
    rw [hmap, FiniteMap.empty_append]
  · -- the votes of the last block are those of the liquid one
    have hnew : s.updater.newlyApprovedFeatures =
        approvals settings s.featureVotesAt (s.blockchain.height + 1) := by
      rw [hs.newlyApprovedFeatures_liquid hng rfl]
      exact newlyApprovedFeatures_eq hs.sane.chained.settings_eq
        (fun h => (hs.sane.chained.blocks h).mp) hold (featureVotesAt_liquid hng)
    have hheight : s.updater.height = s.blockchain.height + 1 := height_of_some hng
    have hsettings : s.updater.blockchain.settings = settings := hs.sane.chained.settings_eq
    rw [hnew, height_of_some hng, hheight, hsettings, approvedAt, activatedAt,
      FiniteMap.append_assoc]
    exact ⟨rfl, rfl⟩

/-- **Persisting the liquid block**, up to whichever micro-block, changes none of the
features. -/
theorem append (hs : Voting settings s) {ng : NgState} (hng : s.ngState = some ng)
    {forged : Block} (hvotes : forged.header.featureVotes = ng.base.header.featureVotes)
    (d : Diff) (carry : Long) (reward : Option Long) :
    (s.blockchain.append d carry reward forged).approvedFeatures = s.updater.approvedFeatures ∧
      (s.blockchain.append d carry reward forged).activatedFeatures =
        s.updater.activatedFeatures := by
  have hcached := hs.sane.chained.features
  have hcached' := (hs.sane.chained.append d carry reward forged).features
  have hheight : s.updater.height = s.blockchain.height + 1 := height_of_some hng
  rw [hcached'.approved, hcached'.activated]
  unfold BlockchainUpdaterImpl.approvedFeatures BlockchainUpdaterImpl.activatedFeatures
  rw [hs.newlyApprovedFeatures_liquid hng hvotes, hheight]
  constructor
  · change s.blockchain.newlyApprovedFeatures forged ++ s.blockchain.db.approvedFeatures = _
    rw [← hcached.approved]
    rfl
  · change (s.blockchain.newlyApprovedFeatures forged).mapVal _ ++
      s.blockchain.db.activatedFeatures ++ _ = _
    rw [FiniteMap.append_assoc, ← hcached.activated]
    rfl

end Voting

/-! ## 3. Runs -/

variable [BlockSerializer] [Ride]

/-- The condition on a run: a block that is taken leaves every feature that is active from the
start short of the votes, and a rollback keeps the blocks that approved something. Blocks are
those that `validateBlock` lets pass: none votes twice for a feature. -/
def VotesFollowed (s : StoredUpdater) : Event → Prop
  | .processBlock block =>
    block.header.featureVotes.Nodup ∧ ∀ s' discarded w,
      s.processBlock block = .ok (s', some discarded) → s.persisted block = .ok w →
        PreActivatedShort w block
  | .removeAfter blockId => ∀ w, s.ngState.any (fun ng => ng.contains blockId) = false →
    s.blockchain.rollbackTo blockId = .ok w →
    ∀ featureId h, s.blockchain.db.approvedFeatures.get? featureId = some h → h ≤ w.height
  | _ => True

/-- A block that is not taken changes nothing, and below one that is taken stands what was
persisted for it. -/
theorem blockchain_of_processBlock {block : Block} {discarded : Option (List Transaction)}
    (h : s.processBlock block = .ok (s', discarded)) :
    discarded = none ∧ s' = s ∨
      (∃ txs, discarded = some txs) ∧ s.persisted block = .ok s'.blockchain := by
  unfold StoredUpdater.processBlock at h
  obtain ⟨_, -, h⟩ := Validation.bind_eq_ok.mp h
  obtain ⟨taken, -, h⟩ := Validation.bind_eq_ok.mp h
  rcases taken with _ | taken
  · cases h
    exact .inl ⟨rfl, rfl⟩
  · obtain ⟨w, hw, h⟩ := Validation.bind_eq_ok.mp h
    cases h
    exact .inr ⟨⟨_, rfl⟩, hw⟩

/-- The features of the database after a step are what the votes give. -/
theorem replayed_leads {e : Event} (hs : Voting settings s) (hQ : VotesFollowed s e)
    (h : e.Leads s s') : FeaturesReplayed settings s'.blockchain s'.blockchain.height := by
  have hw := hs.replayed
  cases e with
  | processBlock block =>
    obtain ⟨discarded, h⟩ := h
    rcases processBlock_eq_ok h with rfl | ⟨w, r, reward, htaken, rfl⟩
    · exact hw
    · cases htaken with
      | first => exact hw
      | competitor => exact hw
      | next => exact hw.append _ _ _ _
  | processMicroBlock microBlock =>
    obtain ⟨ng, ledger, r, -, -, -, -, rfl⟩ := processMicroBlock_eq_ok h
    exact hw
  | removeAfter blockId =>
    cases h
    rcases removeAfter_cases s blockId with heq | heq | ⟨w, hng, hroll, heq⟩
    · rw [heq]
      exact hw
    · rw [heq]
      exact hw
    · rw [heq]
      have hback := hs.sane.chained.rolledBack hroll
      exact hw.mono_blocks hback.height_le (hQ w hng hroll) hback.settings_eq
        hback.approvedFeatures hback.activatedFeatures hback.blockInfoAt
  | load key =>
    cases h
    cases key <;> exact ⟨hw.settings_eq, hw.blocks, hw.approved, hw.activated⟩
  | evict key =>
    cases h
    cases key <;> exact ⟨hw.settings_eq, hw.blocks, hw.approved, hw.activated⟩
  | restart =>
    cases h
    have hheight : s.blockchain.restart.height = s.blockchain.height :=
      hs.sane.chained.sound.height
    have happroved := hw.approved
    have hactivated := hw.activated
    have hblocks := hw.blocks
    rw [← hheight] at happroved hactivated hblocks
    exact ⟨hw.settings_eq, hblocks, happroved, hactivated⟩

/-- Nobody votes twice after a step: a block is one of before, or the one that was taken. -/
theorem nodup_leads {e : Event} (hs : Voting settings s) (hQ : VotesFollowed s e)
    (h : e.Leads s s') (k : ℕ) : (s'.featureVotesAt k).Nodup := by
  have hs' := hs.sane.leads h
  by_cases hpersisted : k ≤ s'.blockchain.height
  · rw [(h.sameAt hs.sane hpersisted).featureVotes]
    exact hs.nodup k
  · by_cases hlast : k = s'.blockchain.height + 1
    · rcases hng' : s'.ngState with _ | ng'
      · rw [featureVotesAt_above hs' (by rw [height_of_none hng']; omega)]
        exact List.nodup_nil
      · rw [hlast, featureVotesAt_liquid hng']
        have hsame : ∀ ng, s.ngState = some ng → ng.base.header.featureVotes.Nodup := by
          intro ng hng
          rw [← featureVotesAt_liquid hng]
          exact hs.nodup _
        cases e with
        | processBlock block =>
          obtain ⟨discarded, h⟩ := h
          rcases processBlock_eq_ok h with rfl | ⟨w, r, reward, htaken, rfl⟩
          · exact hsame ng' hng'
          · cases hng'
            exact hQ.1
        | processMicroBlock microBlock =>
          obtain ⟨ng, ledger, r, hng, -, -, -, rfl⟩ := processMicroBlock_eq_ok h
          cases hng'
          exact hsame ng hng
        | removeAfter blockId =>
          cases h
          rcases removeAfter_cases s blockId with heq | heq | ⟨w, -, -, heq⟩
          · rw [heq] at hng'
            exact hsame ng' hng'
          · rw [heq] at hng'
            cases hng'
          · rw [heq] at hng'
            cases hng'
        | load key =>
          cases h
          exact hsame ng' hng'
        | evict key =>
          cases h
          exact hsame ng' hng'
        | restart =>
          cases h
          cases hng'
    · have hle := s'.height_le
      rw [featureVotesAt_above hs' (by omega)]
      exact List.nodup_nil

theorem Voting.leads {e : Event} (hs : Voting settings s) (hQ : VotesFollowed s e)
    (h : e.Leads s s') : Voting settings s' := by
  refine ⟨hs.sane.leads h, replayed_leads hs hQ h, nodup_leads hs hQ h, ?_⟩
  cases e with
  | processBlock block =>
    obtain ⟨discarded, h⟩ := h
    rcases blockchain_of_processBlock h with ⟨-, rfl⟩ | ⟨⟨txs, rfl⟩, hw⟩
    · exact hs.short
    · rcases processBlock_eq_ok h with rfl | ⟨w, r, reward, htaken, rfl⟩
      · exact hs.short
      · intro ng hng featureId hpre
        cases hng
        -- what the block approves was worked out on the chain below it
        have hsettings : w.settings = settings := (hs.sane.chained.written htaken.written).settings_eq
        exact (hQ.2 _ txs w h hw).not_mem (by rw [hsettings]; exact hpre)
  | processMicroBlock microBlock =>
    obtain ⟨ng, ledger, r, hng, -, -, -, rfl⟩ := processMicroBlock_eq_ok h
    intro ng' hng'
    cases hng'
    exact hs.short ng hng
  | removeAfter blockId =>
    cases h
    rcases removeAfter_cases s blockId with heq | heq | ⟨w, -, -, heq⟩
    · rw [heq]
      exact hs.short
    · rw [heq]
      intro ng hng
      cases hng
    · rw [heq]
      intro ng hng
      cases hng
  | load key =>
    cases h
    exact hs.short
  | evict key =>
    cases h
    exact hs.short
  | restart =>
    cases h
    intro ng hng
    cases hng

theorem Reachable.voting {dbSettings : DBSettings}
    (h : Reachable VotesFollowed settings dbSettings s) : Voting settings s := by
  induction h with
  | start autoShutdown =>
    refine ⟨⟨chained_empty settings dbSettings, ?_⟩, ⟨rfl, ?_, rfl, rfl⟩, ?_, ?_⟩
    · intro ng hng
      cases hng
    · intro h hsome
      cases hsome
    · intro k
      rw [featureVotesAt, headerAt]
      split
      · exact List.nodup_nil
      · exact List.nodup_nil
    · intro ng hng
      cases hng
  | step _ hQ hleads ih => exact ih.leads hQ hleads

/-! ## 4. Feature voting -/

/-- The nodes that a node can become. -/
inductive Continues (Q : StoredUpdater → Event → Prop) (s : StoredUpdater) : StoredUpdater → Prop
  | refl : Continues Q s s
  | step {s' s'' : StoredUpdater} {e : Event} :
    Continues Q s s' → Q s' e → e.Leads s' s'' → Continues Q s s''

omit [BlockSerializer] [Ride] in
/-- Nothing takes an approval out of the database. -/
theorem Written.approved {w v : LevelDBWriter} (hw : Chained settings w) (h : Written w v)
    {featureId : Short} :
    (∀ k, w.db.approvedFeatures.get? featureId = some k →
        v.db.approvedFeatures.get? featureId = some k) ∧
      ∀ a, w.db.activatedFeatures.get? featureId = some a →
        v.db.activatedFeatures.get? featureId = some a := by
  cases h with
  | same => exact ⟨fun _ hk => hk, fun _ ha => ha⟩
  | append d carry reward block =>
    constructor
    · intro k hk
      change (w.newlyApprovedFeatures block ++ w.db.approvedFeatures).get? featureId = some k
      rw [FiniteMap.get?_append, hk, Option.some_or]
    · intro a ha
      change ((w.newlyApprovedFeatures block).mapVal _ ++ w.db.activatedFeatures).get? featureId =
        some a
      rw [FiniteMap.get?_append, ha, Option.some_or]
  | rollbackTo hroll =>
    have hback := hw.rolledBack hroll
    rw [hback.approvedFeatures, hback.activatedFeatures]
    exact ⟨fun _ hk => hk, fun _ ha => ha⟩
  | load key =>
    rw [LevelDBWriter.db_load]
    exact ⟨fun _ hk => hk, fun _ ha => ha⟩
  | evict key =>
    rw [LevelDBWriter.db_evict]
    exact ⟨fun _ hk => hk, fun _ ha => ha⟩
  | restart => exact ⟨fun _ hk => hk, fun _ ha => ha⟩

/-- What the database of a node says of the features stays in every node it becomes. -/
theorem Continues.features {Q : StoredUpdater → Event → Prop} (h : Continues Q s s')
    (hs : Sane settings s) {featureId : Short} :
    Sane settings s' ∧
      (∀ k, s.blockchain.approvedFeatures.get? featureId = some k →
        s'.updater.approvedFeatures.get? featureId = some k) ∧
      ∀ a, s.blockchain.activatedFeatures.get? featureId = some a →
        s'.updater.activatedFeatures.get? featureId = some a := by
  have hrun : Sane settings s' ∧
      (∀ k, s.blockchain.db.approvedFeatures.get? featureId = some k →
        s'.blockchain.db.approvedFeatures.get? featureId = some k) ∧
      ∀ a, s.blockchain.db.activatedFeatures.get? featureId = some a →
        s'.blockchain.db.activatedFeatures.get? featureId = some a := by
    induction h with
    | refl => exact ⟨hs, fun _ hk => hk, fun _ ha => ha⟩
    | step _ _ hleads ih =>
      obtain ⟨hsane, happroved, hactivated⟩ := ih
      have hwritten := hleads.written
      obtain ⟨hstep, hstep'⟩ := @Written.approved _ _ _ _ _ hsane.chained hwritten featureId
      exact ⟨hsane.leads hleads, fun k hk => hstep k (happroved k hk),
        fun a ha => hstep' a (hactivated a ha)⟩
  obtain ⟨hs', happroved, hactivated⟩ := hrun
  refine ⟨hs', ?_, ?_⟩
  · intro k hk
    rw [hs.chained.features.approved] at hk
    have hk' : s'.blockchain.approvedFeatures.get? featureId = some k := by
      rw [hs'.chained.features.approved]
      exact happroved k hk
    unfold BlockchainUpdaterImpl.approvedFeatures
    rw [FiniteMap.get?_append]
    exact congrArg (Option.or · _) hk'
  · intro a ha
    rw [hs.chained.features.activated, FiniteMap.get?_append] at ha
    have ha' : s'.blockchain.activatedFeatures.get? featureId = some a := by
      rw [hs'.chained.features.activated, FiniteMap.get?_append]
      -- what is active from the start comes first
      rcases hpre : settings.functionalitySettings.preActivatedFeatures.get? featureId with _ | a'
      · rw [hpre, Option.none_or] at ha
        rw [Option.none_or]
        exact hactivated a ha
      · rw [hpre, Option.some_or] at ha
        rw [Option.some_or]
        exact ha
    unfold BlockchainUpdaterImpl.activatedFeatures
    rw [FiniteMap.get?_append]
    exact congrArg (Option.or · _) ha'

/-- What a node says of the features agrees with what it will say once the liquid block is
persisted, whichever of its micro-blocks are; every approval had its votes; and it is final,
with the activation that follows from it: for ever once the block of the vote is persisted,
and until then on every node whose blocks up to there have these votes. -/
structure FeaturesAgree (settings : BlockchainSettings) (s : StoredUpdater) : Prop where
  persisted : ∀ (ng : NgState) (id : BlockId) (forged : Block) (discarded : List MicroBlock)
    (d : Diff) (carry : Long), s.ngState = some ng → ng.forgeBlock id = some (forged, discarded) →
    (s.blockchain.append d carry ng.reward forged).blockchain.approvedFeatures =
        s.updater.approvedFeatures ∧
      (s.blockchain.append d carry ng.reward forged).blockchain.activatedFeatures =
        s.updater.activatedFeatures
  voted : ∀ featureId h, s.updater.approvedFeatures.get? featureId = some h →
    1 ≤ h ∧ h ≤ s.height ∧
      h % settings.functionalitySettings.activationWindowSize h = 0 ∧
      settings.functionalitySettings.blocksForFeatureActivationAt h ≤
        votesFor settings s.featureVotesAt h featureId
  stays : ∀ s', Continues (fun _ _ => True) s s' → ∀ featureId,
    (∀ h, s.blockchain.approvedFeatures.get? featureId = some h →
        s'.updater.approvedFeatures.get? featureId = some h) ∧
      ∀ a, s.blockchain.activatedFeatures.get? featureId = some a →
        s'.updater.activatedFeatures.get? featureId = some a
  final : ∀ (dbSettings : DBSettings) (s' : StoredUpdater),
    Reachable VotesFollowed settings dbSettings s' →
    ∀ featureId h, s.updater.approvedFeatures.get? featureId = some h → h ≤ s'.height →
      (∀ k ≤ h, s'.featureVotesAt k = s.featureVotesAt k) →
      s'.updater.approvedFeatures.get? featureId = some h ∧
        s'.updater.activatedFeatures.get? featureId = s.updater.activatedFeatures.get? featureId

/-- **Feature voting**, in every run in which no feature that is active from the start gets the
votes and no rollback takes off a block that approved something. -/
theorem features_agree {dbSettings : DBSettings}
    (h : Reachable VotesFollowed settings dbSettings s) : FeaturesAgree settings s := by
  have hs := h.voting
  obtain ⟨happroved, hactivated⟩ := hs.features_eq
  refine ⟨?_, ?_, ?_, ?_⟩
  · intro ng id forged discarded d carry hng hforge
    obtain ⟨root, hroot⟩ := header_forgeBlock hforge
    exact hs.append hng (by rw [hroot]) d carry ng.reward
  · intro featureId k hk
    rw [happroved] at hk
    obtain ⟨hpos, hle, hnew⟩ := approvedAt_eq_some hk
    obtain ⟨hend, -, hvotes⟩ := approvals_votes hs.nodup hpos hnew
    exact ⟨hpos, hle, hend, hvotes⟩
  · intro s' hrun featureId
    exact (hrun.features hs.sane).2
  · intro dbSettings' s' h' featureId k hk hle hvotes
    obtain ⟨happroved', hactivated'⟩ := h'.voting.features_eq
    rw [happroved] at hk
    have hbound := (approvedAt_eq_some hk).2.1
    have hbelow := approvedAt_below hbound (Nat.le_refl k) hk
    -- the same votes up to the approval
    rw [← (features_congr settings hvotes).1] at hbelow
    have hk' := approvedAt_mono hle hbelow
    refine ⟨by rw [happroved', hk'], ?_⟩
    rw [hactivated, hactivated', FiniteMap.get?_append, FiniteMap.get?_append, get?_activatedAt,
      get?_activatedAt, hk, hk']

/-- What is missing from the database was missing from the liquid block. -/
theorem FeaturesAgree.get?_eq_none (h : FeaturesAgree settings s) {id : BlockId}
    {featureId : Short}
    (hnone : s.ngState.any (fun ng => (ng.forgeBlock id).any fun forged =>
      (s.blockchain.append Diff.empty 0 ng.reward forged.1).blockchain.approvedFeatures.get?
        featureId = none) = true) : s.updater.approvedFeatures.get? featureId = none := by
  rcases hng : s.ngState with _ | ng
  · rw [hng] at hnone
    cases hnone
  · rw [hng, Option.any_some] at hnone
    rcases hforge : ng.forgeBlock id with _ | ⟨forged, discarded⟩
    · rw [hforge] at hnone
      cases hnone
    · rw [hforge, Option.any_some, decide_eq_true_eq] at hnone
      obtain ⟨hsame, -⟩ := h.persisted ng id forged discarded Diff.empty 0 hng hforge
      rw [← hsame]
      exact hnone

end StoredUpdater

/-! ## 5. A vote for what is active already

With windows of three blocks the third block approves what the second voted for. Where that
is active from the start, the block only approves it as long as it is liquid. -/

namespace Devnet

/-- The feature that is voted for is active from the start. -/
def activeVoteSettings : BlockchainSettings :=
  { settings [(BlockchainFeatures.MassTransfer, 0)] with
    functionalitySettings :=
      { functionalitySettings [(BlockchainFeatures.MassTransfer, 0)] with
        featureCheckBlocksPeriod := 3
        featureCheckBlocksPeriod_pos := three_pos
        blocksForFeatureActivation_le := one_le_three } }

end Devnet

section
open Devnet StoredUpdater

local instance votingCrypto : Crypto := voteAnswers.crypto
local instance votingSerializer : PBTransactionSerializer := pbTransactionSerializer
local instance votingBlocks : BlockSerializer := voteAnswers.blockSerializer
local instance votingRide : Ride := voteAnswers.ride

namespace Devnet

section

variable (settings : BlockchainSettings)

def votingStart : StoredUpdater := .start (.empty settings dbSettings) true

def votingGenesis : StoredUpdater :=
  ((votingStart settings).afterBlock genesisBlock).toOption.getD (votingStart settings)

def votingVote : StoredUpdater :=
  ((votingGenesis settings).afterBlock voteBlock).toOption.getD (votingStart settings)

def votingApproval : StoredUpdater :=
  ((votingVote settings).afterBlock approvalBlock).toOption.getD (votingStart settings)

/-- The three blocks are accepted. -/
def VotingRun : Prop :=
  ((votingStart settings).afterBlock genesisBlock).toOption.isSome ∧
    ((votingGenesis settings).afterBlock voteBlock).toOption.isSome ∧
    ((votingVote settings).afterBlock approvalBlock).toOption.isSome

end

end Devnet

/-- Both runs, and what they say of the feature: the liquid block and, once it is persisted,
the database. -/
theorem voting_run :
    (VotingRun voteSettings ∧
        (votingApproval voteSettings).updater.approvedFeatures.get?
          BlockchainFeatures.MassTransfer.id = some 3) ∧
      VotingRun activeVoteSettings ∧
      (votingApproval activeVoteSettings).updater.approvedFeatures.get?
        BlockchainFeatures.MassTransfer.id = some 3 ∧
      (votingApproval activeVoteSettings).ngState.any (fun ng =>
        (ng.forgeBlock approvalBlock.signature).any fun forged =>
          ((votingApproval activeVoteSettings).blockchain.append Diff.empty 0 ng.reward
            forged.1).blockchain.approvedFeatures.get? BlockchainFeatures.MassTransfer.id =
              none) = true := by
  unfold VotingRun
  decide +kernel

/-- Blocks that are processed one after the other, none of which votes twice. -/
theorem reachable_votingRun {Q : StoredUpdater → Event → Prop} {settings : BlockchainSettings}
    (h : VotingRun settings)
    (hQ : ∀ s, Reachable Q settings dbSettings s → ∀ block : Block,
      block.header.featureVotes.Nodup → Q s (.processBlock block)) :
    Reachable Q settings dbSettings (votingApproval settings) := by
  obtain ⟨hgenesis, hvote, happroval⟩ := h
  have hstart : Reachable Q settings dbSettings (votingStart settings) := .start _
  have hfirst : Reachable Q settings dbSettings (votingGenesis settings) :=
    hstart.afterBlock (hQ _ hstart _ (by decide)) (Validation.eq_ok_getD hgenesis)
  have hsecond : Reachable Q settings dbSettings (votingVote settings) :=
    hfirst.afterBlock (hQ _ hfirst _ (by decide)) (Validation.eq_ok_getD hvote)
  exact hsecond.afterBlock (hQ _ hsecond _ (by decide)) (Validation.eq_ok_getD happroval)

/-- Nothing is active from the start, and the third block approves what was voted for. -/
theorem features_agree_approvalBlock :
    FeaturesAgree voteSettings (votingApproval voteSettings) ∧
      (votingApproval voteSettings).updater.approvedFeatures.get?
        BlockchainFeatures.MassTransfer.id = some 3 := by
  suffices hrun : Reachable VotesFollowed voteSettings dbSettings (votingApproval voteSettings) from
    ⟨features_agree hrun, voting_run.1.2⟩
  refine reachable_votingRun voting_run.1.1 fun s hs block hnodup => ⟨hnodup, ?_⟩
  intro s' discarded w hblock hw _ featureId votes hpre
  have hsettings : w.settings = voteSettings := by
    rcases blockchain_of_processBlock hblock with ⟨hnone, -⟩ | ⟨-, hw'⟩
    · cases hnone
    · have hleads : Event.Leads s s' (.processBlock block) := ⟨_, hblock⟩
      rw [hw] at hw'
      rw [Except.ok.inj hw']
      exact (hs.chained.written hleads.written).settings_eq
  rw [hsettings] at hpre
  cases hpre

/-- The liquid block reports an approval that the database does not. -/
theorem features_disagree_activeVote :
    ¬∀ (settings : BlockchainSettings) (dbSettings : DBSettings) (s : StoredUpdater),
      Reachable (fun _ e => match e with
        | .processBlock block => block.header.featureVotes.Nodup
        | _ => True) settings dbSettings s →
      FeaturesAgree settings s := by
  intro hclaim
  obtain ⟨-, hrun, hliquid, hpersisted⟩ := voting_run
  have hreachable := reachable_votingRun (Q := fun _ e => match e with
    | .processBlock block => block.header.featureVotes.Nodup
    | _ => True) hrun fun _ _ _ hnodup => hnodup
  have hagree := hclaim _ _ _ hreachable
  exact absurd (hliquid.symm.trans (hagree.get?_eq_none hpersisted)) (Option.some_ne_none _)

end

end WavesNode
