/-
The rewards of a node's blocks follow the law.

The reward of a block is set when the block is taken (`nextReward`), from the blocks below
it: the last of them is still liquid then, and the rest is persisted. It is carried by the
liquid block until that is persisted too. Here it is what `RewardsSettings.Schedule` says of
the votes of the whole chain, liquid block and all, in every run in which no raise leaves the
range of the rewards (`reward_schedule`). The one fact about the features that it needs is
that a liquid block never approves a feature for the very next height
(`liquidActivation_above`).
-/
import WavesNode.StoredUpdater
import WavesNode.RewardSchedule

set_option autoImplicit false

namespace WavesNode

namespace StoredUpdater

variable [Crypto] [PBTransactionSerializer]

/-! ## 1. What a node says of its chain -/

section
omit [Crypto] [PBTransactionSerializer]

/-- The header of the block of a height; the liquid block keeps that of its key block. -/
def headerAt (s : StoredUpdater) (h : ℕ) : Option BlockHeader :=
  if h = s.blockchain.height + 1 then s.ngState.map fun ng => ng.base.header
  else (s.blockchain.db.blockInfoAt h).map BlockInfo.header

def voteAt (s : StoredUpdater) (h : ℕ) : Option Long := (s.headerAt h).map BlockHeader.rewardVote

def featureVotesAt (s : StoredUpdater) (h : ℕ) : List Short :=
  ((s.headerAt h).map BlockHeader.featureVotes).getD []

/-- `blockReward`. -/
def rewardAt (s : StoredUpdater) (h : ℕ) : Option Long :=
  (s.blockchain.db.blockReward h).or
    (if h = s.blockchain.height + 1 then s.ngState.bind NgState.reward else none)

/-- The height at which rewards are activated, as far as the persisted blocks know. -/
def persistedActivation (w : LevelDBWriter) : Option ℕ :=
  w.activatedFeatures.get? BlockchainFeatures.BlockReward.id

end

/-- The height at which rewards are activated. -/
def rewardsActivatedAt (s : StoredUpdater) : Option ℕ :=
  s.updater.activatedFeatures.get? BlockchainFeatures.BlockReward.id

/-- The height at which the liquid block activates rewards. -/
def liquidActivation (s : StoredUpdater) : Option ℕ :=
  s.ngState.bind fun ng =>
    if BlockchainFeatures.BlockReward.id ∈ ng.approvedFeatures then
      some (s.height + s.blockchain.settings.functionalitySettings.activationWindowSize s.height)
    else none

theorem height_of_none {s : StoredUpdater} (hng : s.ngState = none) :
    s.height = s.blockchain.height := by
  change s.blockchain.height + (if s.ngState.isSome then 1 else 0) = s.blockchain.height
  rw [hng]
  rfl

theorem height_of_some {s : StoredUpdater} {ng : NgState} (hng : s.ngState = some ng) :
    s.height = s.blockchain.height + 1 := by
  change s.blockchain.height + (if s.ngState.isSome then 1 else 0) = s.blockchain.height + 1
  rw [hng]
  rfl

theorem height_le (s : StoredUpdater) :
    s.blockchain.height ≤ s.height ∧ s.height ≤ s.blockchain.height + 1 := by
  rcases hng : s.ngState with _ | ng
  · rw [height_of_none hng]
    omega
  · rw [height_of_some hng]
    omega

omit [Crypto] [PBTransactionSerializer] in
theorem rewardAt_persisted {s : StoredUpdater} {h : ℕ} (hh : h ≤ s.blockchain.height) :
    s.rewardAt h = s.blockchain.db.blockReward h := by
  unfold rewardAt
  rw [if_neg (by omega), Option.or_none]

theorem rewardsActivatedAt_eq (s : StoredUpdater) :
    s.rewardsActivatedAt = (persistedActivation s.blockchain).or s.liquidActivation := by
  unfold rewardsActivatedAt BlockchainUpdaterImpl.activatedFeatures
  rw [FiniteMap.get?_append, FiniteMap.get?_mapVal]
  change (persistedActivation s.blockchain).or _ = _
  congr 1
  unfold BlockchainUpdaterImpl.newlyApprovedFeatures liquidActivation
  rcases hng : s.ngState with _ | ng
  · have hliquid : s.updater.ngState = none := hng
    rw [hliquid]
    rfl
  · have hliquid : s.updater.ngState = some ng := hng
    rw [hliquid, Option.bind_some]
    dsimp only
    rw [FiniteMap.get?_ofFinset]
    by_cases hmem : BlockchainFeatures.BlockReward.id ∈ ng.approvedFeatures
    · rw [if_pos hmem, if_pos hmem]
      rfl
    · rw [if_neg hmem, if_neg hmem]
      rfl

/-! ## 2. The features of the liquid block -/

variable {settings : BlockchainSettings} {w : LevelDBWriter}

/-- Only what had a vote before the block in its window is approved, so no window of one
block approves anything. -/
theorem activationWindowSize_of_approved (hw : Chained settings w) {block : Block} {f : Short}
    (hf : f ∈ BlockchainUpdaterImpl.featuresApprovedWithBlock w.blockchain block) :
    2 ≤ w.settings.functionalitySettings.activationWindowSize (w.height + 1) := by
  by_contra hsmall
  unfold BlockchainUpdaterImpl.featuresApprovedWithBlock at hf
  dsimp only at hf
  have hpos := w.settings.functionalitySettings.activationWindowSize_pos (w.height + 1)
  have hone : w.settings.functionalitySettings.activationWindowSize (w.height + 1) = 1 := by omega
  have hwindow : w.settings.functionalitySettings.activationWindow (w.height + 1) =
      [w.height + 1] := by
    unfold FunctionalitySettings.activationWindow rangeInclusive
    rw [if_neg (by omega), hone]
    dsimp only
    rw [Nat.add_sub_cancel, Nat.div_one, Nat.mul_one, Nat.mul_one, Nat.add_sub_cancel_left]
    rfl
  have hnone : w.db.blockInfoAt (w.height + 1) = none := by
    rw [← Option.not_isSome_iff_eq_none]
    intro hsome
    have := (hw.blocks _).mp hsome
    omega
  have hvotes : (w.blockchain.featureVotes (w.height + 1)).dom = ∅ := by
    rw [hw.featureVotes_eq]
    unfold Keys.featureVotes
    rw [hwindow, List.flatMap_cons, List.flatMap_nil, hnone]
    rfl
  split at hf
  · obtain ⟨v, hv⟩ := Option.isSome_iff_exists.mp ((FiniteMap.mem_dom _ _).mp hf)
    have hv' : ((w.blockchain.featureVotes (w.height + 1)).filter _).get? f = some v := hv
    rw [FiniteMap.get?_filter] at hv'
    obtain ⟨hget, -⟩ := Option.filter_eq_some_iff.mp hv'
    have hmem := FiniteMap.mem_dom_of_get? hget
    rw [hvotes] at hmem
    exact absurd hmem (Finset.notMem_empty f)
  · exact absurd hf (Finset.notMem_empty f)

omit [Crypto] [PBTransactionSerializer] in
theorem mem_dom_filter {κ υ : Type} [DecidableEq κ] {m : FiniteMap κ υ} {p : κ → υ → Bool}
    {k : κ} : k ∈ (m.filter p).dom ↔ (m.get? k).any (p k) = true := by
  rw [FiniteMap.mem_dom, FiniteMap.get?_filter, Option.isSome_filter]

/-- The features that a block approves once it is persisted are those that it approved as the
liquid block, less the ones that were active from the start. -/
theorem newlyApprovedFeatures_get? (hw : Chained settings w) {block forged : Block}
    (hvotes : forged.header.featureVotes = block.header.featureVotes) (f : Short) :
    (w.newlyApprovedFeatures forged).get? f =
      if w.settings.functionalitySettings.preActivatedFeatures.contains f = true then none
      else if f ∈ BlockchainUpdaterImpl.featuresApprovedWithBlock w.blockchain block then
        some (w.height + 1)
      else none := by
  unfold LevelDBWriter.newlyApprovedFeatures BlockchainUpdaterImpl.featuresApprovedWithBlock
  change _ = if _ then none else if f ∈ (if (w.height + 1) %
    w.settings.functionalitySettings.activationWindowSize (w.height + 1) = 0 then
      ((w.blockchain.featureVotes (w.height + 1)).filter fun feature votes =>
        (if feature ∈ block.header.featureVotes then votes + 1 else votes) ≥
          w.settings.functionalitySettings.blocksForFeatureActivationAt (w.height + 1)).dom
    else ∅) then some (w.height + 1) else none
  rw [hw.featureVotes_eq, hvotes]
  dsimp only
  by_cases hend : (w.height + 1) %
      w.settings.functionalitySettings.activationWindowSize (w.height + 1) = 0
  · rw [if_pos hend, if_pos hend, FiniteMap.get?_filterMap]
    by_cases hpre : w.settings.functionalitySettings.preActivatedFeatures.contains f = true
    · rw [if_pos hpre]
      rcases (w.db.featureVotes w.settings (w.height + 1)).get? f with _ | count
      · rfl
      · exact if_pos hpre
    · rw [if_neg hpre]
      rcases hget : (w.db.featureVotes w.settings (w.height + 1)).get? f with _ | count
      · rw [Option.bind_none, if_neg fun hmem => ?_]
        rw [mem_dom_filter, hget] at hmem
        cases hmem
      · rw [Option.bind_some, if_neg hpre]
        have hcount : count + (if f ∈ block.header.featureVotes then 1 else 0) =
            if f ∈ block.header.featureVotes then count + 1 else count := by
          split <;> rfl
        rw [hcount]
        refine if_congr ?_ rfl rfl
        rw [mem_dom_filter, hget, Option.any_some, decide_eq_true_eq]
  · rw [if_neg hend, if_neg hend]
    split
    · rfl
    · rw [if_neg (Finset.notMem_empty f)]
      rfl

/-- **What is persisted of a liquid block** activates rewards at the height that it did. -/
theorem persistedActivation_append (hw : Chained settings w) (block : Block) {forged : Block}
    (d : Diff) (carry : Long) (reward : Option Long)
    (hvotes : forged.header.featureVotes = block.header.featureVotes) :
    persistedActivation (w.append d carry reward forged) =
      (persistedActivation w).or
        (if BlockchainFeatures.BlockReward.id ∈
            BlockchainUpdaterImpl.featuresApprovedWithBlock w.blockchain block then
          some (w.height + 1 +
            w.settings.functionalitySettings.activationWindowSize (w.height + 1))
        else none) := by
  have hnew := (hw.append d carry reward forged).features.activated
  unfold persistedActivation
  rw [hnew, hw.features.activated, FiniteMap.get?_append, FiniteMap.get?_append]
  change (Option.or _ ((((w.newlyApprovedFeatures forged).mapVal
    (· + w.settings.functionalitySettings.activationWindowSize (w.height + 1))) ++
      w.db.activatedFeatures).get? _)) = _
  rw [FiniteMap.get?_append, FiniteMap.get?_mapVal, newlyApprovedFeatures_get? hw hvotes,
    ← hw.settings_eq, FiniteMap.contains]
  rcases w.settings.functionalitySettings.preActivatedFeatures.get?
    BlockchainFeatures.BlockReward.id with _ | a
  · rw [Option.none_or, Option.none_or, Option.isSome_none, if_neg Bool.false_ne_true]
    split <;> rfl
  · rw [Option.some_or, Option.some_or, Option.some_or]

/-! ## 3. The next reward -/

/-- No vote counts where rewards are not activated. -/
theorem blockRewardVotes_of_inactive {s : StoredUpdater} {h : ℕ}
    (hinactive : ∀ a, s.rewardsActivatedAt = some a → h < a) :
    s.updater.blockRewardVotes h = [] := by
  unfold BlockchainUpdaterImpl.blockRewardVotes
  have hactivated : s.updater.activatedFeatures.get? BlockchainFeatures.BlockReward.id =
      s.rewardsActivatedAt := rfl
  rcases ha : s.rewardsActivatedAt with _ | a
  · rw [hactivated, ha]
  · have hlow := hinactive a ha
    rw [hactivated, ha]
    exact if_neg (by omega)

/-- What holds of a node in every run, the law apart. -/
structure Sane (settings : BlockchainSettings) (s : StoredUpdater) : Prop where
  chained : Chained settings s.blockchain
  approved : ∀ ng, s.ngState = some ng → ng.approvedFeatures =
    BlockchainUpdaterImpl.featuresApprovedWithBlock s.blockchain.blockchain ng.base

/-- A raise of the reward stays in its range. -/
def RaiseFits (settings : BlockchainSettings) (s : StoredUpdater) : Prop :=
  let rs := settings.rewardsSettings
  ∀ a reward, s.rewardsActivatedAt = some a → rs.TermEnds a (s.height + 1) →
    s.rewardAt s.height = some reward →
    rs.Majority ((rs.votesCast s.voteAt (s.height + 1)).countP (reward < ·)) →
    Long.InRange (reward.toInt + rs.minIncrement.toInt)

namespace Sane

variable {s : StoredUpdater}

theorem liquidActivation_eq (hs : Sane settings s) {ng : NgState} (hng : s.ngState = some ng) :
    s.liquidActivation =
      if BlockchainFeatures.BlockReward.id ∈
          BlockchainUpdaterImpl.featuresApprovedWithBlock s.blockchain.blockchain ng.base then
        some (s.blockchain.height + 1 +
          s.blockchain.settings.functionalitySettings.activationWindowSize
            (s.blockchain.height + 1))
      else none := by
  rw [liquidActivation, hng, Option.bind_some, hs.approved ng hng, height_of_some hng]

/-- **A liquid block activates nothing for the next height.** -/
theorem liquidActivation_above (hs : Sane settings s) {a : ℕ}
    (ha : s.liquidActivation = some a) : s.height + 1 < a := by
  rcases hng : s.ngState with _ | ng
  · rw [liquidActivation, hng] at ha
    cases ha
  · rw [hs.liquidActivation_eq hng] at ha
    have hheight := height_of_some hng
    split at ha
    · rename_i hmem
      have hwindow := activationWindowSize_of_approved hs.chained hmem
      have heq := Option.some.inj ha
      omega
    · cases ha

theorem rewardsActivatedAt_iff (hs : Sane settings s) {a : ℕ} (ha : a ≤ s.height + 1) :
    s.rewardsActivatedAt = some a ↔ persistedActivation s.blockchain = some a := by
  rw [rewardsActivatedAt_eq]
  rcases hp : persistedActivation s.blockchain with _ | a'
  · rw [Option.none_or]
    constructor
    · intro hl
      have := hs.liquidActivation_above hl
      omega
    · intro h
      cases h
  · rw [Option.some_or]

/-- No block below the first and none above the last. -/
theorem rewardAt_eq_none (hs : Sane settings s) {h : ℕ} (hh : h = 0 ∨ s.height < h) :
    s.rewardAt h = none := by
  have hle := s.height_le
  have hdb : s.blockchain.db.blockReward h = none := by
    rw [← Option.not_isSome_iff_eq_none]
    intro hsome
    have := hs.chained.rewards h hsome
    omega
  unfold rewardAt
  rw [hdb, Option.none_or]
  split
  · rcases hng : s.ngState with _ | ng
    · rfl
    · have := height_of_some hng
      omega
  · rfl

theorem rewardAt_liquid (hs : Sane settings s) {ng : NgState} (hng : s.ngState = some ng) :
    s.rewardAt (s.blockchain.height + 1) = ng.reward := by
  have hdb : s.blockchain.db.blockReward (s.blockchain.height + 1) = none := by
    rw [← Option.not_isSome_iff_eq_none]
    intro hsome
    have := hs.chained.rewards _ hsome
    omega
  unfold rewardAt
  rw [hdb, Option.none_or, if_pos rfl, hng, Option.bind_some]

/-- The reward that the next one starts from is the last one. -/
theorem lastBlockReward_eq (hs : Sane settings s)
    (hlaw : settings.rewardsSettings.Schedule (persistedActivation s.blockchain) s.voteAt
      s.rewardAt s.height) : s.updater.lastBlockReward = s.rewardAt s.height := by
  change (s.ngState.bind NgState.reward).or
    (s.blockchain.db.blockReward s.blockchain.height) = _
  rcases hng : s.ngState with _ | ng
  · rw [height_of_none hng, rewardAt_persisted (Nat.le_refl _)]
    rfl
  · rw [Option.bind_some]
    have hheight := height_of_some hng
    rw [hheight, hs.rewardAt_liquid hng]
    rcases hreward : ng.reward with _ | reward
    · -- without a reward now there was none before
      rw [Option.none_or]
      have hnow : s.rewardAt s.height = none := by rw [hheight, hs.rewardAt_liquid hng, hreward]
      rw [← rewardAt_persisted (Nat.le_refl _)]
      by_cases hzero : s.blockchain.height = 0
      · exact hs.rewardAt_eq_none (.inl hzero)
      · refine hlaw.eq_none ?_ (by omega) (by omega)
        intro a ha hactive
        obtain ⟨reward, hsome, -⟩ := hlaw.exists_reward hactive (k := s.height) (by omega)
          (Nat.le_refl _)
        rw [hnow] at hsome
        cases hsome
    · rw [Option.some_or]

/-- The votes that are counted are those of the blocks in the window, liquid block and all. -/
theorem blockRewardVotes_eq (hs : Sane settings s) {a h : ℕ}
    (ha : s.rewardsActivatedAt = some a) (hah : a ≤ h) (hh : h ≤ s.height) :
    s.updater.blockRewardVotes h =
      (settings.rewardsSettings.votingWindow a h).filterMap s.voteAt := by
  have hpersisted := (hs.rewardsActivatedAt_iff (by omega)).mp ha
  -- what the persisted chain answers
  have hinner : s.updater.blockchain.blockRewardVotes h =
      (settings.rewardsSettings.votingWindow a h).filterMap fun k =>
        (s.blockchain.db.blockInfoAt k).map fun info => info.header.rewardVote := by
    unfold Blockchain.blockRewardVotes
    have hactivated : s.updater.blockchain.activatedFeatures.get?
        BlockchainFeatures.BlockReward.id = some a := hpersisted
    rw [hactivated]
    dsimp only
    rw [if_pos hah]
    change (s.blockchain.settings.rewardsSettings.votingWindow a h).filterMap _ = _
    rw [hs.chained.settings_eq]
    refine List.filterMap_congr fun k _ => ?_
    have hheader := congrArg (Option.map BlockHeader.rewardVote)
      (hs.chained.blockInfo_header k)
    rw [Option.map_map, Option.map_map] at hheader
    exact hheader
  have hold : ∀ k ≤ s.blockchain.height,
      (s.blockchain.db.blockInfoAt k).map (fun info => info.header.rewardVote) = s.voteAt k := by
    intro k hk
    rw [voteAt, headerAt, if_neg (by omega), Option.map_map]
    rfl
  have hactivated : s.updater.activatedFeatures.get? BlockchainFeatures.BlockReward.id =
      some a := ha
  unfold BlockchainUpdaterImpl.blockRewardVotes
  rw [hactivated]
  dsimp only
  rw [if_pos hah, hinner]
  rcases hng : s.ngState with _ | ng
  · have hliquid : s.updater.ngState = none := hng
    rw [hliquid]
    refine List.filterMap_congr fun k hk => hold k ?_
    have hheight := height_of_none hng
    have := RewardsSettings.le_of_mem_votingWindow hk
    omega
  · have hliquid : s.updater.ngState = some ng := hng
    have hheight := height_of_some hng
    rw [hliquid]
    dsimp only
    change (if h = s.height ∧ h ∈ s.blockchain.settings.rewardsSettings.votingWindow a h
      then _ else _) = _
    rw [hs.chained.settings_eq]
    by_cases hlast : h = s.height ∧ h ∈ settings.rewardsSettings.votingWindow a h
    · rw [if_pos hlast]
      obtain ⟨rfl, hmem⟩ := hlast
      rw [hheight] at hmem ⊢
      obtain ⟨heights, hwindow, hlow⟩ := RewardsSettings.votingWindow_eq_append hmem
      have hnone : s.blockchain.db.blockInfoAt (s.blockchain.height + 1) = none := by
        rw [← Option.not_isSome_iff_eq_none]
        intro hsome
        have := (hs.chained.blocks _).mp hsome
        omega
      have hvote : s.voteAt (s.blockchain.height + 1) = some ng.base.header.rewardVote := by
        rw [voteAt, headerAt, if_pos rfl, hng]
        rfl
      rw [hwindow, List.filterMap_append, List.filterMap_append,
        List.filterMap_congr fun k hk => hold k (hlow k hk)]
      rw [List.filterMap_cons_none (by rw [hnone]; rfl), List.filterMap_nil, List.append_nil,
        List.filterMap_cons_some hvote, List.filterMap_nil]
    · rw [if_neg hlast]
      refine List.filterMap_congr fun k hk => hold k ?_
      have hle := RewardsSettings.le_of_mem_votingWindow hk
      by_contra hliquid
      -- the liquid block is in no window but that of its own height
      have hk' : k = s.height := by omega
      have hh' : h = s.height := by omega
      exact hlast ⟨hh', by rw [hk', ← hh'] at hk; exact hk⟩

/-- What `nextReward` computes, where rewards are activated. -/
theorem nextReward_eq {a : ℕ} (hs : Sane settings s)
    (ha : persistedActivation s.blockchain = some a) (hle : a ≤ s.height + 1) :
    s.updater.nextReward =
      ((match s.updater.lastBlockReward with
        | some reward =>
          if s.height + 1 - a > 0 ∧ (s.height + 1 - a) % settings.rewardsSettings.term = 0 then
            some ((s.updater.blockRewardVotes s.height).filter (· ≥ 0), reward)
          else none
        | none => some ([], settings.rewardsSettings.initial)).map fun entry : List Long × Long =>
          settings.rewardsSettings.moved entry.1 entry.2).or s.updater.lastBlockReward := by
  have hactivated : s.updater.blockchain.featureActivationHeight BlockchainFeatures.BlockReward =
      some a := ha
  unfold BlockchainUpdaterImpl.nextReward
  change ((((s.updater.blockchain.featureActivationHeight BlockchainFeatures.BlockReward).filter
    (· ≤ s.height + 1)).bind _).map _).or _ = _
  rw [hactivated, Option.filter_some, if_pos (decide_eq_true hle), Option.bind_some]
  have hsettings : s.updater.blockchain.settings.rewardsSettings = settings.rewardsSettings := by
    rw [← hs.chained.settings_eq]
    rfl
  rw [hsettings]
  rfl

variable (hlaw : settings.rewardsSettings.Schedule (persistedActivation s.blockchain) s.voteAt
  s.rewardAt s.height)

include hlaw

theorem nextReward_before (hs : Sane settings s)
    (hbefore : ∀ a, persistedActivation s.blockchain = some a → s.height + 1 < a) :
    s.updater.nextReward = none := by
  have hlast : s.updater.lastBlockReward = none := by
    rw [hs.lastBlockReward_eq hlaw]
    by_cases hzero : s.height = 0
    · exact hs.rewardAt_eq_none (.inl hzero)
    · refine hlaw.eq_none ?_ (Nat.le_refl _) (by omega)
      intro a ha hactive
      have := hbefore a hactive
      omega
  have hinactive : (s.updater.blockchain.featureActivationHeight
      BlockchainFeatures.BlockReward).filter (· ≤ s.height + 1) = none := by
    rw [Option.filter_eq_none_iff]
    intro a ha hle
    have := hbefore a ha
    have := of_decide_eq_true hle
    omega
  unfold BlockchainUpdaterImpl.nextReward
  change ((((s.updater.blockchain.featureActivationHeight BlockchainFeatures.BlockReward).filter
    (· ≤ s.height + 1)).bind _).map _).or _ = _
  rw [hinactive, hlast]
  rfl

theorem nextReward_first (hs : Sane settings s) {a : ℕ}
    (ha : persistedActivation s.blockchain = some a) (hfirst : max a 1 = s.height + 1) :
    s.updater.nextReward = some settings.rewardsSettings.initial := by
  have hlast : s.updater.lastBlockReward = none := by
    rw [hs.lastBlockReward_eq hlaw]
    by_cases hzero : s.height = 0
    · exact hs.rewardAt_eq_none (.inl hzero)
    · refine hlaw.eq_none ?_ (Nat.le_refl _) (by omega)
      intro a' ha' hactive
      rw [ha] at hactive
      have := Option.some.inj hactive
      omega
  rw [hs.nextReward_eq ha (by omega), hlast]
  -- nobody voted before
  have hmoved : settings.rewardsSettings.moved [] settings.rewardsSettings.initial =
      settings.rewardsSettings.initial := by
    unfold RewardsSettings.moved
    dsimp only
    rw [List.countP_nil, List.countP_nil, if_neg (by omega), if_neg (by omega)]
  exact congrArg some hmoved

theorem nextReward_later (hs : Sane settings s) {a : ℕ} {reward : Long}
    (ha : persistedActivation s.blockchain = some a) (hlater : max a 1 < s.height + 1)
    (hreward : s.rewardAt s.height = some reward) :
    (settings.rewardsSettings.TermEnds a (s.height + 1) → s.updater.nextReward =
      some (settings.rewardsSettings.moved
        (settings.rewardsSettings.votesCast s.voteAt (s.height + 1)) reward)) ∧
      (¬settings.rewardsSettings.TermEnds a (s.height + 1) →
        s.updater.nextReward = some reward) := by
  have hlast : s.updater.lastBlockReward = some reward := by
    rw [hs.lastBlockReward_eq hlaw, hreward]
  rw [hs.nextReward_eq ha (by omega), hlast]
  dsimp only
  constructor
  · intro hend
    have hactivated := (hs.rewardsActivatedAt_iff (by omega)).mpr ha
    have hmod := (RewardsSettings.termEnds_iff (by omega)).mp hend
    rw [if_pos ⟨by omega, hmod⟩, hs.blockRewardVotes_eq hactivated (by omega) (Nat.le_refl _),
      RewardsSettings.votingWindow_of_termEnds hend]
    rfl
  · intro hend
    rw [if_neg fun h => hend ((RewardsSettings.termEnds_iff (by omega)).mpr h.2)]
    rfl

/-- **The next reward** is what the law says. -/
theorem schedule_nextReward (hs : Sane settings s) (hfits : RaiseFits settings s)
    {votes rewards : ℕ → Option Long} (hvotes : ∀ k ≤ s.height, s.voteAt k = votes k)
    (hrewards : ∀ k ≤ s.height, 1 ≤ k → s.rewardAt k = rewards k)
    (hnext : rewards (s.height + 1) = s.updater.nextReward) :
    settings.rewardsSettings.Schedule s.rewardsActivatedAt votes rewards (s.height + 1) := by
  have hactivated : ∀ a, s.rewardsActivatedAt = some a → a ≤ s.height + 1 →
      persistedActivation s.blockchain = some a := fun a ha hle =>
    (hs.rewardsActivatedAt_iff hle).mp ha
  have hold : settings.rewardsSettings.Schedule s.rewardsActivatedAt votes rewards s.height :=
    (hlaw.congr (fun k hk => hvotes k (by omega)) hrewards).activated_congr fun a hle =>
      (hs.rewardsActivatedAt_iff (by omega)).symm
  refine hold.succ ?_ ?_ ?_
  · intro hbefore
    rw [hnext]
    refine nextReward_before hlaw hs fun a ha => ?_
    by_contra hle
    have := hbefore a ((hs.rewardsActivatedAt_iff (by omega)).mpr ha)
    omega
  · intro a ha hfirst
    rw [hnext]
    exact nextReward_first hlaw hs (hactivated a ha (by omega)) hfirst
  · intro a reward ha hlater hreward hnonneg
    rw [← hrewards _ (Nat.le_refl _) (by omega)] at hreward
    obtain ⟨hmoved, hkept⟩ := nextReward_later hlaw hs (hactivated a ha (by omega)) hlater hreward
    rw [hnext]
    by_cases hend : settings.rewardsSettings.TermEnds a (s.height + 1)
    · refine ⟨_, hmoved hend, fun _ => ?_, fun h => absurd hend h⟩
      rw [← RewardsSettings.Schedule.votesCast_congr (fun k hk => hvotes k (by omega))
        (by omega)]
      exact RewardsSettings.moves_moved hnonneg (RewardsSettings.length_votesCast _ _)
        (hfits a reward ha hend hreward)
    · exact ⟨_, hkept hend, fun h => absurd h hend, fun _ => rfl⟩

end Sane

/-! ## 4. Steps -/

variable [BlockSerializer]

omit [Crypto] [PBTransactionSerializer] in
/-- The header that a block is forged from. -/
theorem header_forgeBlock {ng : NgState} {id : BlockId} {forged : Block}
    {discarded : List MicroBlock} (h : ng.forgeBlock id = some (forged, discarded)) :
    ∃ root, forged.header = { ng.base.header with transactionsRoot := root } := by
  unfold NgState.forgeBlock at h
  dsimp only at h
  split at h
  · cases h
    exact ⟨_, rfl⟩
  · split at h
    · cases h
    · obtain ⟨found, -, hfound⟩ := Option.map_eq_some_iff.mp h
      cases hfound
      exact ⟨_, rfl⟩

/-- One height has the same votes and the same reward on two nodes. -/
structure SameAt (s s' : StoredUpdater) (k : ℕ) : Prop where
  vote : s'.voteAt k = s.voteAt k
  featureVotes : s'.featureVotesAt k = s.featureVotesAt k
  reward : s'.rewardAt k = s.rewardAt k

variable {s s' : StoredUpdater}

omit [Crypto] [PBTransactionSerializer] [BlockSerializer] in
theorem SameAt.of_persisted {k : ℕ} (hk : k ≤ s.blockchain.height)
    (hk' : k ≤ s'.blockchain.height)
    (hinfo : s'.blockchain.db.blockInfoAt k = s.blockchain.db.blockInfoAt k)
    (hreward : s'.blockchain.db.blockReward k = s.blockchain.db.blockReward k) :
    SameAt s s' k := by
  have hheader : s'.headerAt k = s.headerAt k := by
    rw [headerAt, headerAt, if_neg (by omega), if_neg (by omega), hinfo]
  refine ⟨by rw [voteAt, voteAt, hheader], by rw [featureVotesAt, featureVotesAt, hheader], ?_⟩
  rw [rewardAt_persisted hk, rewardAt_persisted hk', hreward]

omit [BlockSerializer] in
/-- A liquid block that is persisted keeps its votes and its reward. -/
theorem SameAt.of_append (hs : Sane settings s) {ng : NgState} (hng : s.ngState = some ng)
    {d : Diff} {carry : Long} {forged : Block} {k : ℕ}
    (hforged : ∃ root, forged.header = { ng.base.header with transactionsRoot := root })
    (hw : s'.blockchain = s.blockchain.append d carry ng.reward forged)
    (hk : k ≤ s'.blockchain.height) : SameAt s s' k := by
  have hheight : s'.blockchain.height = s.blockchain.height + 1 := by rw [hw]; rfl
  by_cases hlast : k = s.blockchain.height + 1
  · subst hlast
    obtain ⟨root, hroot⟩ := hforged
    have hheader : s'.headerAt (s.blockchain.height + 1) = some forged.header := by
      rw [headerAt, if_neg (by omega), hw]
      change (if s.blockchain.height + 1 = s.blockchain.height + 1 then some _ else _).map _ = _
      rw [if_pos rfl]
      rfl
    have hheader' : s.headerAt (s.blockchain.height + 1) = some ng.base.header := by
      rw [headerAt, if_pos rfl, hng]
      rfl
    refine ⟨?_, ?_, ?_⟩
    · rw [voteAt, voteAt, hheader, hheader', hroot]
      rfl
    · rw [featureVotesAt, featureVotesAt, hheader, hheader', hroot]
      rfl
    · rw [hs.rewardAt_liquid hng, rewardAt_persisted hk, hw]
      have hnone : s.blockchain.db.blockReward (s.blockchain.height + 1) = none := by
        rw [← Option.not_isSome_iff_eq_none]
        intro hsome
        have := hs.chained.rewards _ hsome
        omega
      change (if s.blockchain.height + 1 = s.blockchain.height + 1 then _ else _) = _
      rw [if_pos rfl, hnone, Option.or_none]
  · refine .of_persisted (by omega) hk ?_ ?_
    · rw [hw]
      exact if_neg hlast
    · rw [hw]
      exact if_neg hlast

variable [Ride]

/-- **What is persisted stays.** The blocks of the persisted chain that a step leaves are those
that were there, the liquid block among them, with their votes and their rewards. -/
theorem Event.Leads.sameAt {e : Event} (hs : Sane settings s) (h : e.Leads s s') {k : ℕ}
    (hk : k ≤ s'.blockchain.height) : SameAt s s' k := by
  cases e with
  | processBlock block =>
    obtain ⟨discarded, h⟩ := h
    rcases processBlock_eq_ok h with rfl | ⟨w, r, reward, htaken, rfl⟩
    · exact ⟨rfl, rfl, rfl⟩
    · cases htaken with
      | first => exact .of_persisted hk hk rfl rfl
      | competitor => exact .of_persisted hk hk rfl rfl
      | next hng _ hforge =>
        exact .of_append hs hng (header_forgeBlock hforge) rfl hk
  | processMicroBlock microBlock =>
    obtain ⟨ng, ledger, r, -, -, -, -, rfl⟩ := processMicroBlock_eq_ok h
    exact .of_persisted hk hk rfl rfl
  | removeAfter blockId =>
    cases h
    rcases removeAfter_cases s blockId with heq | heq | ⟨w, -, hroll, heq⟩
    · rw [heq]
      exact ⟨rfl, rfl, rfl⟩
    · rw [heq] at hk ⊢
      exact .of_persisted hk hk rfl rfl
    · rw [heq] at hk ⊢
      have hback := hs.chained.rolledBack hroll
      have hle := hback.height_le
      refine .of_persisted (Nat.le_trans hk hle) hk ?_ ?_
      · exact (hback.blockInfoAt k).trans (if_pos hk)
      · exact (hback.blockReward k).trans (if_pos hk)
  | load key =>
    cases h
    have hk' : k ≤ s.blockchain.height := by rw [← LevelDBWriter.height_load]; exact hk
    exact .of_persisted hk' hk (by rw [LevelDBWriter.db_load]) (by rw [LevelDBWriter.db_load])
  | evict key =>
    cases h
    have hk' : k ≤ s.blockchain.height := by rw [← LevelDBWriter.height_evict]; exact hk
    exact .of_persisted hk' hk (by rw [LevelDBWriter.db_evict]) (by rw [LevelDBWriter.db_evict])
  | restart =>
    cases h
    have hk' : k ≤ s.blockchain.height := by rw [← hs.chained.sound.height]; exact hk
    exact .of_persisted hk' hk rfl rfl

theorem Sane.leads {e : Event} (hs : Sane settings s) (h : e.Leads s s') : Sane settings s' := by
  refine ⟨hs.chained.written h.written, ?_⟩
  cases e with
  | processBlock block =>
    obtain ⟨discarded, h⟩ := h
    rcases processBlock_eq_ok h with rfl | ⟨w, r, reward, htaken, rfl⟩
    · exact hs.approved
    · intro ng hng
      cases hng
      rfl
  | processMicroBlock microBlock =>
    obtain ⟨ng, ledger, r, hng, -, -, -, rfl⟩ := processMicroBlock_eq_ok h
    intro ng' hng'
    cases hng'
    exact hs.approved ng hng
  | removeAfter blockId =>
    cases h
    rcases removeAfter_cases s blockId with heq | heq | ⟨w, -, hroll, heq⟩
    · rw [heq]
      exact hs.approved
    · rw [heq]
      intro ng hng
      cases hng
    · rw [heq]
      intro ng hng
      cases hng
  | load key =>
    cases h
    cases key <;> exact hs.approved
  | evict key =>
    cases h
    cases key <;> exact hs.approved
  | restart =>
    cases h
    intro ng hng
    cases hng

theorem Reachable.sane {Q : StoredUpdater → Event → Prop} {dbSettings : DBSettings}
    (h : Reachable Q settings dbSettings s) : Sane settings s := by
  induction h with
  | start autoShutdown =>
    refine ⟨chained_empty settings dbSettings, ?_⟩
    intro ng hng
    cases hng
  | step _ _ hleads ih => exact ih.leads hleads

/-! ## 5. The law in every run -/

/-- The law, of the chain of a node. -/
def Scheduled (settings : BlockchainSettings) (s : StoredUpdater) : Prop :=
  settings.rewardsSettings.Schedule (persistedActivation s.blockchain) s.voteAt s.rewardAt s.height

/-- The condition on a run: where a block continues the chain, a raise that its reward is due
stays in range. -/
def RaisesFit (settings : BlockchainSettings) (s : StoredUpdater) : Event → Prop
  | .processBlock block =>
    (∀ ng, s.ngState = some ng → ng.base.header.reference ≠ block.header.reference) →
      RaiseFits settings s
  | _ => True

omit [BlockSerializer] [Ride] in
/-- A step that drops the liquid block, or more. -/
theorem Scheduled.of_none (hlaw : Scheduled settings s) (hng : s'.ngState = none)
    (hheight : s'.blockchain.height ≤ s.height)
    (hactivated : persistedActivation s'.blockchain = persistedActivation s.blockchain)
    (hsame : ∀ k ≤ s'.blockchain.height, SameAt s s' k) : Scheduled settings s' := by
  unfold Scheduled
  rw [height_of_none hng, hactivated]
  exact (hlaw.mono hheight).congr (fun k hk => (hsame k (by omega)).vote.symm)
    fun k hk _ => (hsame k hk).reward.symm

/-- **One step.** -/
theorem Scheduled.leads {e : Event} (hs : Sane settings s) (hlaw : Scheduled settings s)
    (hQ : RaisesFit settings s e) (h : e.Leads s s') : Scheduled settings s' := by
  have hs' := hs.leads h
  have hsame : ∀ k ≤ s'.blockchain.height, SameAt s s' k := fun k hk => h.sameAt hs hk
  have hactivated : s'.blockchain.db.activatedFeatures = s.blockchain.db.activatedFeatures →
      persistedActivation s'.blockchain = persistedActivation s.blockchain := by
    intro hdb
    rw [persistedActivation, persistedActivation, hs'.chained.features.activated,
      hs.chained.features.activated, hdb]
  have hle := s.height_le
  cases e with
  | processBlock block =>
    obtain ⟨discarded, h⟩ := h
    rcases processBlock_eq_ok h with rfl | ⟨w, r, reward, htaken, hs'eq⟩
    · exact hlaw
    · have hng' : s'.ngState = some (Node.keyBlock w.blockchain block r reward) := by rw [hs'eq]
      have hw : s'.blockchain = w := by rw [hs'eq]
      have hheight' := height_of_some hng'
      have hreward := hs'.rewardAt_liquid hng'
      unfold Scheduled
      rw [hheight']
      cases htaken with
      | first hng _ =>
        have hheight := height_of_none hng
        have hfits := hQ fun ng hsome => by
          rw [hng] at hsome
          cases hsome
        rw [hw, ← hheight] at hreward ⊢
        refine (Sane.schedule_nextReward hlaw hs hfits (fun k hk => (hsame k ?_).vote.symm)
          (fun k hk _ => (hsame k ?_).reward.symm) hreward).activated_congr fun a ha => ?_
        · rw [hw]
          omega
        · rw [hw]
          omega
        · exact hs.rewardsActivatedAt_iff ha
      | competitor hng _ _ =>
        have hheight := height_of_some hng
        rw [hw, ← hheight]
        refine hlaw.congr (fun k hk => (hsame k ?_).vote.symm) fun k hk _ => ?_
        · rw [hw]
          omega
        · by_cases hlast : k = s.blockchain.height + 1
          · rw [hlast, hs.rewardAt_liquid hng]
            rw [hw] at hreward
            exact hreward.symm
          · refine (hsame k ?_).reward.symm
            rw [hw]
            omega
      | @next ng _ _ _ _ _ _ _ hng href hforge =>
        have hheight := height_of_some hng
        have hfits := hQ fun ng' hsome => by
          rw [hng] at hsome
          cases hsome
          exact href
        obtain ⟨root, hroot⟩ := header_forgeBlock hforge
        have hlast : s'.blockchain.height = s.height := by
          rw [hw, hheight]
          rfl
        rw [hlast] at hreward ⊢
        refine (Sane.schedule_nextReward hlaw hs hfits (fun k hk => (hsame k ?_).vote.symm)
          (fun k hk _ => (hsame k ?_).reward.symm) hreward).activated_congr fun a ha => ?_
        · omega
        · omega
        · -- what the liquid block approved is persisted with it
          rw [hw, persistedActivation_append hs.chained ng.base _ _ _ (by rw [hroot]),
            rewardsActivatedAt_eq, hs.liquidActivation_eq hng]
  | processMicroBlock microBlock =>
    obtain ⟨ng, ledger, r, hng, -, -, -, rfl⟩ := processMicroBlock_eq_ok h
    -- the key block stays, with its vote and its reward
    unfold Scheduled at hlaw ⊢
    rw [height_of_some hng] at hlaw
    refine (hlaw.congr (fun k _ => ?_) fun k _ _ => ?_)
    · rw [voteAt, headerAt, hng]
      rfl
    · rw [rewardAt, hng]
      rfl
  | removeAfter blockId =>
    cases h
    rcases removeAfter_cases s blockId with heq | heq | ⟨w, -, hroll, heq⟩
    · rw [heq]
      exact hlaw
    · refine hlaw.of_none (by rw [heq]) ?_ (hactivated (by rw [heq])) hsame
      rw [heq]
      exact hle.1
    · have hback := hs.chained.rolledBack hroll
      refine hlaw.of_none (by rw [heq]) ?_ (hactivated ?_) hsame
      · rw [heq]
        exact Nat.le_trans hback.height_le hle.1
      · rw [heq]
        exact hback.activatedFeatures
  | load key =>
    cases h
    cases key <;> exact hlaw
  | evict key =>
    cases h
    cases key <;> exact hlaw
  | restart =>
    cases h
    refine hlaw.of_none rfl ?_ (hactivated rfl) hsame
    exact Nat.le_trans (Nat.le_of_eq hs.chained.sound.height) hle.1

theorem Reachable.scheduled {dbSettings : DBSettings}
    (h : Reachable (RaisesFit settings) settings dbSettings s) : Scheduled settings s := by
  induction h with
  | start autoShutdown => exact RewardsSettings.Schedule.zero
  | step hrun hQ hleads ih => exact ih.leads hrun.sane hQ hleads

/-! ## 6. The activation of rewards

The approvals that a rollback takes off stay in the database. Where none of them is the
approval of the rewards, these are activated by the blocks that are there. -/

/-- The condition on a run: a rollback keeps the block that approved the rewards. -/
def ApprovalKept (s : StoredUpdater) : Event → Prop
  | .removeAfter blockId => ∀ w, s.ngState.any (fun ng => ng.contains blockId) = false →
    s.blockchain.rollbackTo blockId = .ok w →
    ∀ h, s.blockchain.db.approvedFeatures.get? BlockchainFeatures.BlockReward.id = some h →
      h ≤ w.height
  | _ => True

open LevelDBWriter in
/-- The rewards are approved and activated by the votes of the persisted blocks. -/
structure Voted (settings : BlockchainSettings) (w : LevelDBWriter) : Prop where
  approved : w.db.approvedFeatures.get? BlockchainFeatures.BlockReward.id =
    (approvedAt settings (votesOf w.db) w.height).get? BlockchainFeatures.BlockReward.id
  activated : w.db.activatedFeatures.get? BlockchainFeatures.BlockReward.id =
    (activatedAt settings (votesOf w.db) w.height).get? BlockchainFeatures.BlockReward.id

section
omit [BlockSerializer] [Ride]
open LevelDBWriter

theorem Voted.append (hw : Chained settings w) (hvoted : Voted settings w) (d : Diff)
    (carry : Long) (reward : Option Long) (block : Block) :
    Voted settings (w.append d carry reward block) := by
  have hold : ∀ h ≤ w.height, votesOf (w.doAppend d carry reward block) h = votesOf w.db h :=
    fun h hh => votesOf_doAppend hh
  have happrovals := newlyApprovedFeatures_eq hw.settings_eq (fun h => (hw.blocks h).mp) hold
    (votesOf_doAppend_last d carry reward block)
  obtain ⟨happroved, hactivated⟩ := features_congr settings hold
  constructor
  · change (w.newlyApprovedFeatures block ++ w.db.approvedFeatures).get? _ =
      (approvedAt settings (votesOf (w.doAppend d carry reward block)) (w.height + 1)).get? _
    rw [approvedAt, happroved, happrovals, FiniteMap.get?_append, FiniteMap.get?_append,
      hvoted.approved]
  · change ((w.newlyApprovedFeatures block).mapVal
        (· + w.settings.functionalitySettings.activationWindowSize (w.height + 1)) ++
      w.db.activatedFeatures).get? _ =
        (activatedAt settings (votesOf (w.doAppend d carry reward block)) (w.height + 1)).get? _
    rw [activatedAt, hactivated, happrovals, FiniteMap.get?_append, FiniteMap.get?_append,
      hvoted.activated, hw.settings_eq]

omit [Crypto] [PBTransactionSerializer] in
theorem Voted.rolledBack {v : LevelDBWriter} (hvoted : Voted settings w) (hback : RolledBack w v)
    (hkept : ∀ h, w.db.approvedFeatures.get? BlockchainFeatures.BlockReward.id = some h →
      h ≤ v.height) : Voted settings v := by
  have hvotes : ∀ h ≤ v.height, votesOf v.db h = votesOf w.db h := by
    intro h hh
    rw [votesOf, votesOf, hback.blockInfoAt h, if_pos hh]
  obtain ⟨happroved, hactivated⟩ := features_congr settings hvotes
  rw [hvoted.approved] at hkept
  obtain ⟨hle, hle'⟩ := get?_features_of_le hback.height_le hkept
  constructor
  · rw [hback.approvedFeatures, hvoted.approved, hle, happroved]
  · rw [hback.activatedFeatures, hvoted.activated, hle', hactivated]

omit [Crypto] [PBTransactionSerializer] in
/-- The votes up to a height decide which rewards are activated right above it or below. -/
theorem Voted.persistedActivation_congr {w' : LevelDBWriter} {n a : ℕ} (hw : Chained settings w)
    (hw' : Chained settings w') (hvoted : Voted settings w) (hvoted' : Voted settings w')
    (hn : n ≤ w.height) (hn' : n ≤ w'.height)
    (hvotes : ∀ k ≤ n, votesOf w'.db k = votesOf w.db k) (ha : a ≤ n + 1)
    (hactive : persistedActivation w = some a) : persistedActivation w' = some a := by
  rw [persistedActivation, hw.features.activated, FiniteMap.get?_append] at hactive
  rw [persistedActivation, hw'.features.activated, FiniteMap.get?_append]
  rcases hpre : settings.functionalitySettings.preActivatedFeatures.get?
    BlockchainFeatures.BlockReward.id with _ | a'
  · rw [hpre, Option.none_or, hvoted.activated] at hactive
    have hbelow := activatedAt_below hn ha hactive
    rw [← (features_congr settings hvotes).2] at hbelow
    rw [Option.none_or, hvoted'.activated]
    exact activatedAt_mono hn' hbelow
  · rw [hpre] at hactive
    exact hactive

end

theorem Voted.leads {e : Event} (hs : Sane settings s) (hvoted : Voted settings s.blockchain)
    (hQ : ApprovalKept s e) (h : e.Leads s s') : Voted settings s'.blockchain := by
  cases e with
  | processBlock block =>
    obtain ⟨discarded, h⟩ := h
    rcases processBlock_eq_ok h with rfl | ⟨w, r, reward, htaken, rfl⟩
    · exact hvoted
    · cases htaken with
      | first => exact hvoted
      | competitor => exact hvoted
      | next => exact hvoted.append hs.chained _ _ _ _
  | processMicroBlock microBlock =>
    obtain ⟨ng, ledger, r, -, -, -, -, rfl⟩ := processMicroBlock_eq_ok h
    exact hvoted
  | removeAfter blockId =>
    cases h
    rcases removeAfter_cases s blockId with heq | heq | ⟨w, hng, hroll, heq⟩
    · rw [heq]
      exact hvoted
    · rw [heq]
      exact hvoted
    · rw [heq]
      exact hvoted.rolledBack (hs.chained.rolledBack hroll) (hQ w hng hroll)
  | load key =>
    cases h
    cases key <;> exact ⟨hvoted.approved, hvoted.activated⟩
  | evict key =>
    cases h
    cases key <;> exact ⟨hvoted.approved, hvoted.activated⟩
  | restart =>
    cases h
    have hheight : s.blockchain.restart.height = s.blockchain.height := hs.chained.sound.height
    refine ⟨?_, ?_⟩
    · change s.blockchain.db.approvedFeatures.get? _ = (LevelDBWriter.approvedAt settings
        (LevelDBWriter.votesOf s.blockchain.db) s.blockchain.restart.height).get? _
      rw [hheight]
      exact hvoted.approved
    · change s.blockchain.db.activatedFeatures.get? _ = (LevelDBWriter.activatedAt settings
        (LevelDBWriter.votesOf s.blockchain.db) s.blockchain.restart.height).get? _
      rw [hheight]
      exact hvoted.activated

theorem Reachable.voted {dbSettings : DBSettings}
    (h : Reachable ApprovalKept settings dbSettings s) : Voted settings s.blockchain := by
  induction h with
  | start autoShutdown => exact ⟨rfl, rfl⟩
  | step hrun hQ hleads ih => exact ih.leads hrun.sane hQ hleads

/-- Two nodes whose blocks have the same votes up to a height agree on an activation up to
there. -/
theorem rewardsActivatedAt_congr {dbSettings dbSettings' : DBSettings} {n a : ℕ}
    (h : Reachable ApprovalKept settings dbSettings s)
    (h' : Reachable ApprovalKept settings dbSettings' s') (hn : n ≤ s.height)
    (hn' : n ≤ s'.height) (hvotes : ∀ k ≤ n, s'.featureVotesAt k = s.featureVotesAt k)
    (ha : a ≤ n) (hactive : s.rewardsActivatedAt = some a) : s'.rewardsActivatedAt = some a := by
  have hs := h.sane
  have hs' := h'.sane
  have hle := s.height_le
  have hle' := s'.height_le
  have hpersisted := (hs.rewardsActivatedAt_iff (by omega)).mp hactive
  -- the block right below the height is persisted on both
  refine (hs'.rewardsActivatedAt_iff (by omega)).mpr (h.voted.persistedActivation_congr
    (n := n - 1) hs.chained hs'.chained h'.voted (by omega) (by omega) (fun k hk => ?_)
    (by omega) hpersisted)
  have hsame := hvotes k (by omega)
  rw [featureVotesAt, featureVotesAt, headerAt, headerAt, if_neg (by omega), if_neg (by omega),
    Option.map_map, Option.map_map] at hsame
  exact hsame

/-! ## 7. Block rewards -/

end StoredUpdater

/-! ## 8. A raise out of range

Every block is the last of its term, and one vote is a majority. The second block votes for a
raise, and the raise of the third does not fit: the settings only ask that it be positive. -/

namespace Devnet

def raiseBlock : Block :=
  { emptyBlock with
    header := { emptyBlock.header with version := 4, rewardVote := 700000000 }
    signature := bytes 64
      0x65a7bd63124c1a3a40bd0b69eecfd0bd60020ce0eb8b9946e5e64bf818a98898f8f37e21029ea382f2dc9810809e71cffbcf3224961479b2e65d794e4e7ea086 }

def raiseBlockBytes : ByteStr :=
  bytes 169 0x040000015d3ef6fbc0813668d47528909acf62aeeba30294f9418c2e97172d3ba7c6b151db7b59017729e5dcdad233de6207ec6c23997c1e53e839c715225de43d375043d5b398e688000000280000000009299ff340328d507794ee8ca0f9169b6e221a1409677d18dc99c0d1674574ccf69aceb90000000400000000000000000000000029b927001885844ed84c86501cd2221627f1d16cd4c60530e5415e1bf6cab037b054f150

def raisedBlock : Block where
  header :=
    { emptyBlock.header with
      version := 4
      timestamp := 1500000020000
      reference := raiseBlock.signature
      generationSignature :=
        bytes 32 0xfaa1c63cbeee360372abcb14ffbdcb21d7fc5037a4b833c914fbafc77919e07b }
  signature := bytes 64
    0x8183f7fdde09bf4d816128e5d90874a9f4f34aedfacaffaeafaeaaa6c9623a1ecbbe9817bd0dc183a847da955fc01d398a27b1afd05e2c5f6770c4fb9844d689
  transactionData := []

def raisedBlockBytes : ByteStr :=
  bytes 169 0x040000015d3ef7e62065a7bd63124c1a3a40bd0b69eecfd0bd60020ce0eb8b9946e5e64bf818a98898f8f37e21029ea382f2dc9810809e71cffbcf3224961479b2e65d794e4e7ea086000000280000000009299ff3faa1c63cbeee360372abcb14ffbdcb21d7fc5037a4b833c914fbafc77919e07b000000040000000000000000ffffffffffffffff1885844ed84c86501cd2221627f1d16cd4c60530e5415e1bf6cab037b054f150

/-- The platform that knows the block that votes and the one after it. -/
def raiseAnswers : KnownAnswers :=
  firstBlocks.and
    { signatures :=
        [⟨miner.publicKey, raiseBlockBytes, raiseBlock.signature⟩,
          ⟨miner.publicKey, raisedBlockBytes, raisedBlock.signature⟩]
      blocks := [(raiseBlock, raiseBlockBytes), (raisedBlock, raisedBlockBytes)] }

/-- Rewards from the start, a term of one block, and an increment as large as there is. -/
def raiseSettings : BlockchainSettings :=
  { settings [(BlockchainFeatures.BlockReward, 0)] with
    rewardsSettings :=
      { term := 1
        initial := 600000000
        minIncrement := Long.MaxValue
        votingInterval := 1
        initial_nonneg := rewardsSettings.initial_nonneg
        minIncrement_pos := Long.MaxValue_pos
        term_pos := one_pos
        votingInterval_pos := one_pos
        votingInterval_le := one_le } }

end Devnet

section
open Devnet StoredUpdater

local instance raiseCrypto : Crypto := raiseAnswers.crypto
local instance raiseSerializer : PBTransactionSerializer := pbTransactionSerializer
local instance raiseBlocks : BlockSerializer := raiseAnswers.blockSerializer
local instance raiseRide : Ride := raiseAnswers.ride

namespace Devnet

def raiseStart : StoredUpdater :=
  .start (.empty raiseSettings dbSettings) true

def raiseGenesis : StoredUpdater := (raiseStart.afterBlock genesisBlock).toOption.getD raiseStart

def raiseVoted : StoredUpdater := (raiseGenesis.afterBlock raiseBlock).toOption.getD raiseStart

def raised : StoredUpdater := (raiseVoted.afterBlock raisedBlock).toOption.getD raiseStart

end Devnet

/-- The run, and the votes and rewards of its blocks. -/
theorem raise_run :
    ((raiseStart.afterBlock genesisBlock).toOption.isSome ∧
        (raiseGenesis.afterBlock raiseBlock).toOption.isSome ∧
        (raiseVoted.afterBlock raisedBlock).toOption.isSome) ∧
      (raiseStart.rewardAt raiseStart.height = none ∧
        raiseSettings.rewardsSettings.votesCast raiseGenesis.voteAt (raiseGenesis.height + 1) =
          []) ∧
      raised.height = 3 ∧ raised.rewardsActivatedAt = some 0 ∧
      raised.rewardAt 2 = some 600000000 ∧
      raiseSettings.rewardsSettings.votesCast raised.voteAt 3 = [700000000] := by
  decide +kernel

end

end WavesNode
