/-
What a rollback leaves of the features.

The features that are approved are worked out at the end of every voting window and added
to two maps of the database; a rollback takes nothing out of them. `approvedAt` and
`activatedAt` work the maps out again from the votes of the blocks, which is what a database
would hold that got the same blocks and nothing else. In a run without rollbacks the maps are
these (`FeaturesReplayed.append`); a rollback keeps that as long as no feature was approved
above its target (`FeaturesReplayed.discardBlocks`), so in every run of such rollbacks the
features are those of a replay (`features_replayed`). A rollback over the end of a window
keeps the features approved there (`rollbackTo_approved`).
-/
import WavesNode.StoredTransactions

set_option autoImplicit false

namespace WavesNode

namespace LevelDBWriter

/-! ## 1. Features from votes -/

section

variable (settings : BlockchainSettings) (votes votes' : ℕ → List Short)

/-- The votes in the window of a height, less those of the last block. -/
def votesBefore (height : ℕ) : List Short :=
  (settings.functionalitySettings.activationWindow height).flatMap fun h =>
    if h < height then votes h else []

/-- The features that the block of a height approves. -/
def approvals (height : ℕ) : FiniteMap Short ℕ :=
  let fs := settings.functionalitySettings
  if height % fs.activationWindowSize height = 0 then
    (FiniteMap.ofFinset (votesBefore settings votes height).toFinset
        (votesBefore settings votes height).count).filterMap fun featureId voteCount =>
      if fs.preActivatedFeatures.contains featureId then none
      else if voteCount + (if featureId ∈ votes height then 1 else 0) ≥
          fs.blocksForFeatureActivationAt height then some height
      else none
  else ∅

/-- The features the blocks up to a height approve. -/
def approvedAt : ℕ → FiniteMap Short ℕ
  | 0 => ∅
  | n + 1 => approvals settings votes (n + 1) ++ approvedAt n

/-- The features the blocks up to a height activate. -/
def activatedAt : ℕ → FiniteMap Short ℕ
  | 0 => ∅
  | n + 1 => (approvals settings votes (n + 1)).mapVal
      (· + settings.functionalitySettings.activationWindowSize (n + 1)) ++ activatedAt n

variable {settings votes votes'}

theorem votesBefore_congr {height : ℕ} (h : ∀ k < height, votes k = votes' k) :
    votesBefore settings votes height = votesBefore settings votes' height := by
  unfold votesBefore
  congr 1
  funext k
  by_cases hk : k < height
  · rw [if_pos hk, if_pos hk, h k hk]
  · rw [if_neg hk, if_neg hk]

theorem approvals_congr {height : ℕ} (h : ∀ k ≤ height, votes k = votes' k) :
    approvals settings votes height = approvals settings votes' height := by
  have hbefore : votesBefore settings votes height = votesBefore settings votes' height :=
    votesBefore_congr fun k hk => h k (Nat.le_of_lt hk)
  rw [approvals, approvals, hbefore, h height (Nat.le_refl _)]

variable (settings) in
theorem features_congr {n : ℕ} (h : ∀ k ≤ n, votes k = votes' k) :
    approvedAt settings votes n = approvedAt settings votes' n ∧
      activatedAt settings votes n = activatedAt settings votes' n := by
  induction n with
  | zero => exact ⟨rfl, rfl⟩
  | succ n ih =>
    obtain ⟨happroved, hactivated⟩ := ih fun k hk => h k (Nat.le_succ_of_le hk)
    rw [approvedAt, approvedAt, activatedAt, activatedAt, happroved, hactivated,
      approvals_congr h]
    exact ⟨rfl, rfl⟩

theorem approvals_eq_some {height h : ℕ} {featureId : Short}
    (hget : (approvals settings votes height).get? featureId = some h) : h = height := by
  unfold approvals at hget
  dsimp only at hget
  split at hget
  · obtain ⟨voteCount, -, hget⟩ := Option.bind_eq_some_iff.mp hget
    dsimp only at hget
    by_cases hpre : settings.functionalitySettings.preActivatedFeatures.contains featureId = true
    · rw [if_pos hpre] at hget
      cases hget
    · rw [if_neg hpre] at hget
      by_cases hcount : voteCount + (if featureId ∈ votes height then 1 else 0) ≥
          settings.functionalitySettings.blocksForFeatureActivationAt height
      · rw [if_pos hcount] at hget
        exact (Option.some.inj hget).symm
      · rw [if_neg hcount] at hget
        cases hget
  · cases hget

theorem dom_activatedAt (n : ℕ) :
    (activatedAt settings votes n).dom = (approvedAt settings votes n).dom := by
  induction n with
  | zero => rfl
  | succ n ih =>
    rw [activatedAt, approvedAt, FiniteMap.dom_append, FiniteMap.dom_append, FiniteMap.dom_mapVal, ih]

/-- What is approved stays approved, at its height. -/
theorem approvedAt_mono {n m : ℕ} (hnm : n ≤ m) {featureId : Short} {h : ℕ}
    (hget : (approvedAt settings votes n).get? featureId = some h) :
    (approvedAt settings votes m).get? featureId = some h := by
  induction m, hnm using Nat.le_induction with
  | base => exact hget
  | succ m _ ih => rw [approvedAt, FiniteMap.get?_append, ih, Option.some_or]

theorem activatedAt_mono {n m : ℕ} (hnm : n ≤ m) {featureId : Short} {a : ℕ}
    (hget : (activatedAt settings votes n).get? featureId = some a) :
    (activatedAt settings votes m).get? featureId = some a := by
  induction m, hnm using Nat.le_induction with
  | base => exact hget
  | succ m _ ih => rw [activatedAt, FiniteMap.get?_append, ih, Option.some_or]

/-- A feature is activated above the window that approves it, and so the blocks right below
its activation have approved it. -/
theorem activatedAt_below {n m : ℕ} (hmn : m ≤ n) {featureId : Short} {a : ℕ} (ha : a ≤ m + 1)
    (hget : (activatedAt settings votes n).get? featureId = some a) :
    (activatedAt settings votes m).get? featureId = some a := by
  induction n, hmn using Nat.le_induction with
  | base => exact hget
  | succ n hmn ih =>
    rw [activatedAt, FiniteMap.get?_append, FiniteMap.get?_mapVal] at hget
    rcases hold : (activatedAt settings votes n).get? featureId with _ | a'
    · -- the block of the height approves it: its activation is later still
      rw [hold, Option.none_or] at hget
      obtain ⟨k, hk, rfl⟩ := Option.map_eq_some_iff.mp hget
      have hheight := approvals_eq_some hk
      have hwindow := settings.functionalitySettings.activationWindowSize_pos (n + 1)
      omega
    · rw [hold, Option.some_or] at hget
      obtain rfl := Option.some.inj hget
      exact ih hold

/-- Where a feature was not approved above a height, the blocks above it change nothing of
it. -/
theorem get?_features_of_le {t n : ℕ} (htn : t ≤ n) {featureId : Short}
    (h : ∀ k, (approvedAt settings votes n).get? featureId = some k → k ≤ t) :
    (approvedAt settings votes n).get? featureId = (approvedAt settings votes t).get? featureId ∧
      (activatedAt settings votes n).get? featureId =
        (activatedAt settings votes t).get? featureId := by
  induction n, htn using Nat.le_induction with
  | base => exact ⟨rfl, rfl⟩
  | succ n htn ih =>
    obtain ⟨happroved, hactivated⟩ := ih fun k hk => h k (approvedAt_mono (Nat.le_succ n) hk)
    rw [approvedAt, activatedAt, FiniteMap.get?_append, FiniteMap.get?_append,
      FiniteMap.get?_mapVal, ← happroved, ← hactivated]
    rcases hold : (approvedAt settings votes n).get? featureId with _ | k
    · -- what the last block approves now was not approved before
      have hnone : (approvals settings votes (n + 1)).get? featureId = none := by
        rcases hk : (approvals settings votes (n + 1)).get? featureId with _ | k
        · rfl
        · have hheight := approvals_eq_some hk
          have hle := h k (by
            rw [approvedAt, FiniteMap.get?_append, hold, Option.none_or, hk])
          omega
      rw [hnone, Option.map_none, Option.or_none, Option.or_none]
      exact ⟨rfl, rfl⟩
    · have hactive : ((activatedAt settings votes n).get? featureId).isSome = true := by
        rw [← FiniteMap.mem_dom, dom_activatedAt]
        exact FiniteMap.mem_dom_of_get? hold
      obtain ⟨a, ha⟩ := Option.isSome_iff_exists.mp hactive
      rw [ha, Option.some_or, Option.some_or]
      exact ⟨rfl, rfl⟩

/-- Where nothing was approved above a height, the blocks above it approved nothing new. -/
theorem features_of_le {t n : ℕ} (htn : t ≤ n)
    (h : ∀ featureId k, (approvedAt settings votes n).get? featureId = some k → k ≤ t) :
    approvedAt settings votes n = approvedAt settings votes t ∧
      activatedAt settings votes n = activatedAt settings votes t := by
  constructor
  · ext featureId : 1
    exact (get?_features_of_le htn (h featureId)).1
  · ext featureId : 1
    exact (get?_features_of_le htn (h featureId)).2

end

variable [Crypto] [PBTransactionSerializer]

/-! ## 2. The features of a database -/

section
omit [Crypto] [PBTransactionSerializer]

/-- The votes of the block of a height. -/
def votesOf (db : Keys) (h : ℕ) : List Short :=
  ((db.blockInfoAt h).map fun info => info.header.featureVotes).getD []

/-- The features are the ones that the votes of the blocks give, in the keys and in memory. -/
structure FeaturesReplayed (settings : BlockchainSettings) (w : LevelDBWriter) (n : ℕ) : Prop where
  settings_eq : w.settings = settings
  blocks : ∀ h, (w.db.blockInfoAt h).isSome = true → 1 ≤ h ∧ h ≤ n
  approved : w.db.approvedFeatures = approvedAt settings (votesOf w.db) n
  activated : w.db.activatedFeatures = activatedAt settings (votesOf w.db) n

/-- The maps in memory are those of the keys. -/
structure FeaturesCached (settings : BlockchainSettings) (w : LevelDBWriter) : Prop where
  approved : w.approvedFeatures = w.db.approvedFeatures
  activated : w.activatedFeatures =
    w.db.activatedFeatures ++ settings.functionalitySettings.preActivatedFeatures

theorem votesOf_eq_nil {w : LevelDBWriter} {n h : ℕ}
    (hblocks : ∀ h, (w.db.blockInfoAt h).isSome = true → 1 ≤ h ∧ h ≤ n) (hh : n < h) :
    votesOf w.db h = [] := by
  rw [votesOf]
  rcases hinfo : w.db.blockInfoAt h with _ | info
  · rfl
  · have := hblocks h (by rw [hinfo]; rfl)
    omega

/-- The condition: no feature was approved above the target of a rollback. -/
def NothingApprovedAbove (w : LevelDBWriter) : Event → Prop
  | .rollbackTo id => ∀ targetHeight, w.db.heightOf id = some targetHeight →
    ∀ featureId h, w.db.approvedFeatures.get? featureId = some h → h ≤ targetHeight
  | _ => True

theorem nothingApprovedAbove_of_dom_eq {w : LevelDBWriter} {e : Event}
    (h : w.db.approvedFeatures.dom = ∅) : NothingApprovedAbove w e := by
  cases e with
  | rollbackTo id =>
    intro targetHeight _ featureId k hget
    have hmem := FiniteMap.mem_dom_of_get? hget
    rw [h] at hmem
    exact absurd hmem (Finset.notMem_empty _)
  | _ => exact trivial

end

section

variable {settings : BlockchainSettings} {w : LevelDBWriter} {n : ℕ}

omit [Crypto] [PBTransactionSerializer] in
/-- The approvals of a block, from the votes of all blocks with it. -/
theorem newlyApprovedFeatures_eq (hsettings : w.settings = settings)
    (hblocks : ∀ h, (w.db.blockInfoAt h).isSome = true → 1 ≤ h ∧ h ≤ w.height) {block : Block}
    {votes : ℕ → List Short} (hold : ∀ h ≤ w.height, votes h = votesOf w.db h)
    (hnew : votes (w.height + 1) = block.header.featureVotes) :
    w.newlyApprovedFeatures block = approvals settings votes (w.height + 1) := by
  have hvotes : w.db.featureVotes w.settings (w.height + 1) =
      .ofFinset (votesBefore settings votes (w.height + 1)).toFinset
        (votesBefore settings votes (w.height + 1)).count := by
    have hlist : (w.settings.functionalitySettings.activationWindow (w.height + 1)).flatMap
        (votesOf w.db) = votesBefore settings votes (w.height + 1) := by
      unfold votesBefore
      rw [hsettings]
      congr 1
      funext h
      by_cases hh : h < w.height + 1
      · rw [if_pos hh, hold h (by omega)]
      · rw [if_neg hh, votesOf_eq_nil hblocks (by omega)]
    rw [← hlist]
    rfl
  rw [newlyApprovedFeatures, approvals, hvotes, hsettings, hnew]

theorem votesOf_doAppend_last (d : Diff) (carry : Long) (reward : Option Long) (block : Block) :
    votesOf (w.doAppend d carry reward block) (w.height + 1) = block.header.featureVotes := by
  change ((if w.height + 1 = w.height + 1 then _ else _ : Option BlockInfo).map _).getD [] = _
  rw [if_pos rfl]
  rfl

theorem votesOf_doAppend {d : Diff} {carry : Long} {reward : Option Long} {block : Block} {h : ℕ}
    (hh : h ≤ w.height) : votesOf (w.doAppend d carry reward block) h = votesOf w.db h := by
  change ((if h = w.height + 1 then _ else w.db.blockInfoAt h).map _).getD [] = _
  rw [if_neg (by omega)]
  rfl

/-- **An appended block** adds what its votes give. -/
theorem FeaturesReplayed.append (hw : FeaturesReplayed settings w w.height) (d : Diff)
    (carry : Long) (reward : Option Long) (block : Block) :
    FeaturesReplayed settings (w.append d carry reward block) (w.height + 1) := by
  have hold : ∀ h ≤ w.height,
      votesOf (w.doAppend d carry reward block) h = votesOf w.db h :=
    fun h hh => votesOf_doAppend hh
  have happrovals := newlyApprovedFeatures_eq hw.settings_eq hw.blocks hold
    (votesOf_doAppend_last d carry reward block)
  obtain ⟨happroved, hactivated⟩ := features_congr settings hold
  refine ⟨hw.settings_eq, ?_, ?_, ?_⟩
  · intro h hsome
    change (if h = w.height + 1 then _ else w.db.blockInfoAt h).isSome = true at hsome
    by_cases hh : h = w.height + 1
    · omega
    · rw [if_neg hh] at hsome
      have := hw.blocks h hsome
      omega
  · change w.newlyApprovedFeatures block ++ w.db.approvedFeatures =
      approvedAt settings (votesOf (w.doAppend d carry reward block)) (w.height + 1)
    rw [approvedAt, happroved, happrovals, hw.approved]
  · change (w.newlyApprovedFeatures block).mapVal
        (· + w.settings.functionalitySettings.activationWindowSize (w.height + 1)) ++
      w.db.activatedFeatures =
        activatedAt settings (votesOf (w.doAppend d carry reward block)) (w.height + 1)
    rw [activatedAt, hactivated, happrovals, hw.activated, hw.settings_eq]

theorem FeaturesCached.append (hsettings : w.settings = settings)
    (hw : FeaturesCached settings w) (d : Diff) (carry : Long) (reward : Option Long)
    (block : Block) : FeaturesCached settings (w.append d carry reward block) := by
  by_cases hnone : (w.newlyApprovedFeatures block).dom = ∅
  · have hempty : w.newlyApprovedFeatures block = ∅ := by
      ext k : 1
      rw [((w.newlyApprovedFeatures block).get?_eq_none_iff k).mpr
        (by rw [hnone]; exact Finset.notMem_empty k)]
      rfl
    refine ⟨?_, ?_⟩
    · change (if _ then w.approvedFeatures else _) = w.newlyApprovedFeatures block ++ _
      rw [if_pos hnone, hempty, FiniteMap.empty_append, hw.approved]
    · change (if _ then w.activatedFeatures else _) =
        (w.newlyApprovedFeatures block).mapVal _ ++ _ ++ _
      have hmap : (w.newlyApprovedFeatures block).mapVal
          (· + w.settings.functionalitySettings.activationWindowSize (w.height + 1)) = ∅ := by
        rw [hempty]
        ext k : 1
        rfl
      rw [if_pos hnone, hmap, FiniteMap.empty_append, hw.activated]
  · refine ⟨?_, ?_⟩
    · exact if_neg hnone
    · rw [← hsettings]
      exact if_neg hnone

omit [Crypto] [PBTransactionSerializer] in
theorem FeaturesReplayed.mono_blocks {w' : LevelDBWriter} {targetHeight : ℕ}
    (hw : FeaturesReplayed settings w n) (htn : targetHeight ≤ n)
    (habove : ∀ featureId h, w.db.approvedFeatures.get? featureId = some h → h ≤ targetHeight)
    (hsettings : w'.settings = w.settings)
    (happroved : w'.db.approvedFeatures = w.db.approvedFeatures)
    (hactivated : w'.db.activatedFeatures = w.db.activatedFeatures)
    (hblocks : ∀ h, w'.db.blockInfoAt h = if h ≤ targetHeight then w.db.blockInfoAt h else none) :
    FeaturesReplayed settings w' targetHeight := by
  have hvotes : ∀ h ≤ targetHeight, votesOf w'.db h = votesOf w.db h := by
    intro h hh
    rw [votesOf, votesOf, hblocks h, if_pos hh]
  obtain ⟨hcongr, hcongr'⟩ := features_congr settings hvotes
  rw [hw.approved] at habove
  obtain ⟨hle, hle'⟩ := features_of_le htn habove
  refine ⟨hsettings.trans hw.settings_eq, ?_, ?_, ?_⟩
  · intro h hsome
    rw [hblocks h] at hsome
    by_cases hh : h ≤ targetHeight
    · rw [if_pos hh] at hsome
      exact ⟨(hw.blocks h hsome).1, hh⟩
    · rw [if_neg hh] at hsome
      cases hsome
  · rw [happroved, hw.approved, hle, hcongr]
  · rw [hactivated, hw.activated, hle', hcongr']

/-- What the rounds of a rollback leave of the blocks, the settings and the features. -/
theorem discardBlocks_frame (targetHeight : ℕ) :
    ∀ (n : ℕ) (w : LevelDBWriter),
      (∀ h, (w.db.blockInfoAt h).isSome = true → h ≤ targetHeight + n) →
      (discardBlocks targetHeight n w).settings = w.settings ∧
        (discardBlocks targetHeight n w).db.approvedFeatures = w.db.approvedFeatures ∧
        (discardBlocks targetHeight n w).db.activatedFeatures = w.db.activatedFeatures ∧
        ∀ h, (discardBlocks targetHeight n w).db.blockInfoAt h =
          if h ≤ targetHeight then w.db.blockInfoAt h else none
  | 0, w, hblocks => by
    refine ⟨rfl, rfl, rfl, ?_⟩
    intro h
    by_cases hh : h ≤ targetHeight
    · rw [if_pos hh]
      rfl
    · rw [if_neg hh]
      rcases hinfo : w.db.blockInfoAt h with _ | info
      · exact hinfo
      · have := hblocks h (by rw [hinfo]; rfl)
        omega
  | n + 1, w, hblocks => by
    have hround : ∀ h, (w.discardBlock (targetHeight + n + 1)).db.blockInfoAt h =
        if h = targetHeight + n + 1 then none else w.db.blockInfoAt h := fun _ => rfl
    obtain ⟨hsettings, happroved, hactivated, hinfo⟩ :=
      discardBlocks_frame targetHeight n (w.discardBlock (targetHeight + n + 1)) (by
        intro h hsome
        rw [hround] at hsome
        by_cases hh : h = targetHeight + n + 1
        · rw [if_pos hh] at hsome
          cases hsome
        · rw [if_neg hh] at hsome
          have := hblocks h hsome
          omega)
    refine ⟨hsettings, happroved, hactivated, ?_⟩
    intro h
    rw [discardBlocks, hinfo h, hround h]
    by_cases hh : h ≤ targetHeight
    · rw [if_pos hh, if_pos hh, if_neg (by omega)]
    · rw [if_neg hh, if_neg hh]

/-- **A rollback** below which every feature was approved leaves the features of the blocks
that are left. -/
theorem FeaturesReplayed.doRollback (hw : FeaturesReplayed settings w w.height)
    (hheight : w.db.height = w.height) {id : BlockId}
    (habove : ∀ targetHeight, w.db.heightOf id = some targetHeight →
      ∀ featureId h, w.db.approvedFeatures.get? featureId = some h → h ≤ targetHeight) :
    FeaturesReplayed settings (w.doRollback id) (w.doRollback id).db.height := by
  rw [LevelDBWriter.doRollback]
  rcases hid : w.db.heightOf id with _ | targetHeight
  · rw [hheight]
    exact hw
  · dsimp only
    by_cases ht : targetHeight ≤ w.height
    · have hend := height_discardBlocks targetHeight w (w.height - targetHeight) (by omega)
      rw [hend]
      obtain ⟨hsettings, happroved, hactivated, hblocks⟩ :=
        discardBlocks_frame targetHeight (w.height - targetHeight) w (by
          intro h hsome
          have := hw.blocks h hsome
          omega)
      exact hw.mono_blocks ht (habove targetHeight hid) hsettings happroved hactivated hblocks
    · have hzero : w.height - targetHeight = 0 := by omega
      rw [hzero, discardBlocks, hheight]
      exact hw

end

/-! ## 3. Runs -/

variable [Ride] [BlockSerializer]

theorem features_leads {settings : BlockchainSettings} {w v : LevelDBWriter} {e : Event}
    (hsound : Sound w) (hw : FeaturesReplayed settings w w.height)
    (hcached : FeaturesCached settings w) (hQ : NothingApprovedAbove w e) (hleads : e.Leads w v) :
    FeaturesReplayed settings v v.height ∧ FeaturesCached settings v := by
  cases e with
  | append d carry reward block =>
    obtain ⟨-, rfl⟩ := hleads
    exact ⟨hw.append d carry reward block, hcached.append hw.settings_eq d carry reward block⟩
  | rollbackTo id =>
    rw [rollbackTo_eq_ok hleads]
    have hroll := hw.doRollback hsound.height hQ
    refine ⟨⟨hroll.settings_eq, hroll.blocks, hroll.approved, hroll.activated⟩, rfl, ?_⟩
    rw [← hroll.settings_eq]
  | load key =>
    cases hleads
    cases key <;> exact ⟨⟨hw.settings_eq, hw.blocks, hw.approved, hw.activated⟩,
      hcached.approved, hcached.activated⟩
  | evict key =>
    cases hleads
    cases key <;> exact ⟨⟨hw.settings_eq, hw.blocks, hw.approved, hw.activated⟩,
      hcached.approved, hcached.activated⟩
  | restart =>
    cases hleads
    have hheight : w.restart.height = w.height := hsound.height
    rw [hheight]
    refine ⟨⟨hw.settings_eq, hw.blocks, hw.approved, hw.activated⟩, rfl, ?_⟩
    rw [← hw.settings_eq]
    rfl

theorem features_reachable {settings : BlockchainSettings} {dbSettings : DBSettings}
    {w : LevelDBWriter} (h : Reachable NothingApprovedAbove settings dbSettings w) :
    FeaturesReplayed settings w w.height ∧ FeaturesCached settings w := by
  induction h with
  | empty =>
    refine ⟨⟨rfl, ?_, rfl, rfl⟩, rfl, ?_⟩
    · intro h hsome
      cases hsome
    · exact (FiniteMap.empty_append _).symm
  | step hrun hQ hleads ih => exact features_leads hrun.sound ih.1 ih.2 hQ hleads

/-- Without rollbacks there is no condition. -/
theorem features_grows {Q : LevelDBWriter → Event → Prop} {settings : BlockchainSettings}
    {w v : LevelDBWriter} (hsound : Sound w) (hw : FeaturesReplayed settings w w.height)
    (hcached : FeaturesCached settings w) (hgrows : Grows Q w v) :
    FeaturesReplayed settings v v.height ∧ FeaturesCached settings v := by
  induction hgrows with
  | refl => exact ⟨hw, hcached⟩
  | @step v v' e hrun _ hno hleads ih =>
    refine features_leads (hrun.sound hsound) ih.1 ih.2 ?_ hleads
    cases e with
    | rollbackTo id => exact absurd rfl (hno id)
    | _ => exact trivial

/-- **The features are those of a replay**: of any run from an empty database, without
rollbacks, to the same blocks. -/
theorem features_replayed {Q : LevelDBWriter → Event → Prop} {settings : BlockchainSettings}
    {dbSettings dbSettings' : DBSettings} {w replay : LevelDBWriter}
    (h : Reachable NothingApprovedAbove settings dbSettings w)
    (hreplay : Grows Q (.empty settings dbSettings') replay) (hheight : replay.height = w.height)
    (hblocks : ∀ k, 1 ≤ k → k ≤ w.height → replay.db.blockInfoAt k = w.db.blockInfoAt k) :
    w.approvedFeatures = replay.approvedFeatures ∧
      w.activatedFeatures = replay.activatedFeatures ∧
      ∀ k, w.db.featureVotes w.settings k = replay.db.featureVotes replay.settings k := by
  obtain ⟨hw, hcached⟩ := features_reachable h
  have hempty : Reachable NothingApprovedAbove settings dbSettings'
      (LevelDBWriter.empty settings dbSettings') := .empty
  obtain ⟨hfirst, hcachedFirst⟩ := features_reachable hempty
  obtain ⟨hr, hcached'⟩ := features_grows hempty.sound hfirst hcachedFirst hreplay
  have hinfo : ∀ k, w.db.blockInfoAt k = replay.db.blockInfoAt k := by
    intro k
    by_cases hk : 1 ≤ k ∧ k ≤ w.height
    · exact (hblocks k hk.1 hk.2).symm
    · have hnone : ∀ {v : LevelDBWriter} {n : ℕ}, FeaturesReplayed settings v n → n = w.height →
          v.db.blockInfoAt k = none := by
        intro v n hv hn
        rcases hvk : v.db.blockInfoAt k with _ | info
        · rfl
        · exact absurd (hn ▸ hv.blocks k (by rw [hvk]; rfl)) hk
      rw [hnone hw rfl, hnone hr hheight]
  have hvotes : votesOf w.db = votesOf replay.db := funext fun k => by rw [votesOf, votesOf, hinfo k]
  refine ⟨?_, ?_, ?_⟩
  · rw [hcached.approved, hcached'.approved, hw.approved, hr.approved, hvotes, hheight]
  · rw [hcached.activated, hcached'.activated, hw.activated, hr.activated, hvotes, hheight]
  · intro k
    have hbk : w.db.blockInfoAt = replay.db.blockInfoAt := funext hinfo
    rw [Keys.featureVotes, Keys.featureVotes, hbk, hw.settings_eq, hr.settings_eq]

end LevelDBWriter

/-! ## 4. A rollback over the end of a window

The second block votes for a feature, the third ends a window of three and approves it. -/

namespace Devnet

def voteBlock : Block :=
  { emptyBlock with
    header := { emptyBlock.header with featureVotes := [BlockchainFeatures.MassTransfer.id] }
    signature := bytes 64
      0x66a837488deb833fac41089b8733c8220236ebbe3ba2aa8581b1cc302df061de14fb5a5d86e6d43a9b5986aada382fdc3642cc732478ad59d4d16f9d4bc9ba83 }

def voteBlockBytes : ByteStr :=
  bytes 163 0x030000015d3ef6fbc0813668d47528909acf62aeeba30294f9418c2e97172d3ba7c6b151db7b59017729e5dcdad233de6207ec6c23997c1e53e839c715225de43d375043d5b398e688000000280000000009299ff340328d507794ee8ca0f9169b6e221a1409677d18dc99c0d1674574ccf69aceb900000004000000000000000100031885844ed84c86501cd2221627f1d16cd4c60530e5415e1bf6cab037b054f150

def approvalBlock : Block where
  header :=
    { emptyBlock.header with
      timestamp := 1500000020000
      reference := voteBlock.signature
      generationSignature :=
        bytes 32 0xfaa1c63cbeee360372abcb14ffbdcb21d7fc5037a4b833c914fbafc77919e07b }
  signature := bytes 64
    0x65687dbff1f6524e43ed03b251120f38092cbdb26264499abd81b9db1bfa0a742a11c981e2601238cab59d6b4f8348b1cc684703d02621da9f3bfaaeab37b78a
  transactionData := []

def approvalBlockBytes : ByteStr :=
  bytes 161 0x030000015d3ef7e62066a837488deb833fac41089b8733c8220236ebbe3ba2aa8581b1cc302df061de14fb5a5d86e6d43a9b5986aada382fdc3642cc732478ad59d4d16f9d4bc9ba83000000280000000009299ff3faa1c63cbeee360372abcb14ffbdcb21d7fc5037a4b833c914fbafc77919e07b0000000400000000000000001885844ed84c86501cd2221627f1d16cd4c60530e5415e1bf6cab037b054f150

/-- The platform that knows the block of the vote and the one that approves. -/
def voteAnswers : KnownAnswers :=
  firstBlocks.and
    { signatures :=
        [⟨miner.publicKey, voteBlockBytes, voteBlock.signature⟩,
          ⟨miner.publicKey, approvalBlockBytes, approvalBlock.signature⟩]
      blocks := [(voteBlock, voteBlockBytes), (approvalBlock, approvalBlockBytes)] }

/-- Windows of three blocks, and one vote is enough. -/
def voteSettings : BlockchainSettings :=
  { settings [] with
    functionalitySettings :=
      { functionalitySettings [] with
        featureCheckBlocksPeriod := 3
        featureCheckBlocksPeriod_pos := three_pos
        blocksForFeatureActivation_le := one_le_three } }

end Devnet

section
open Devnet LevelDBWriter

local instance voteCrypto : Crypto := voteAnswers.crypto
local instance voteSerializer : PBTransactionSerializer := pbTransactionSerializer
local instance voteBlocks : BlockSerializer := voteAnswers.blockSerializer
local instance voteRide : Ride := voteAnswers.ride

namespace Devnet

def noVotes : LevelDBWriter := .empty voteSettings dbSettings

def beforeVote : Validation LevelDBWriter := noVotes.appendBlocks [genesisBlock]

def withoutVote : LevelDBWriter := beforeVote.toOption.getD noVotes

def afterVote : Validation LevelDBWriter := withoutVote.appendBlocks [voteBlock]

def withVote : LevelDBWriter := afterVote.toOption.getD noVotes

def afterApproval : Validation LevelDBWriter := withVote.appendBlocks [approvalBlock]

def withApproval : LevelDBWriter := afterApproval.toOption.getD noVotes

/-- The vote taken off again. -/
def voteTakenOff : LevelDBWriter :=
  (withVote.rollbackTo genesisBlock.signature).toOption.getD noVotes

/-- The approval taken off again. -/
def approvalTakenOff : LevelDBWriter :=
  (withApproval.rollbackTo voteBlock.signature).toOption.getD noVotes

end Devnet

theorem rollbackTo_getD {w v : LevelDBWriter} {id : BlockId}
    (h : (w.rollbackTo id).toOption.isSome = true) :
    w.rollbackTo id = .ok ((w.rollbackTo id).toOption.getD v) := by
  rcases hr : w.rollbackTo id with e | w'
  · rw [hr] at h
    cases h
  · rfl

/-- The run, its rollbacks, and the feature that was voted for. -/
theorem vote_run :
    (beforeVote.toOption.isSome ∧ afterVote.toOption.isSome ∧ afterApproval.toOption.isSome) ∧
      ((withVote.rollbackTo genesisBlock.signature).toOption.isSome ∧
        withVote.db.approvedFeatures.dom = ∅ ∧ withoutVote.height = voteTakenOff.height ∧
        ∀ k ≤ voteTakenOff.height, withoutVote.db.blockInfoAt k = voteTakenOff.db.blockInfoAt k) ∧
      ((withApproval.rollbackTo voteBlock.signature).toOption.isSome ∧
        withVote.height = approvalTakenOff.height ∧
        ∀ k ≤ approvalTakenOff.height,
          withVote.db.blockInfoAt k = approvalTakenOff.db.blockInfoAt k) ∧
      approvalTakenOff.approvedFeatures.get? BlockchainFeatures.MassTransfer.id = some 3 ∧
      withVote.approvedFeatures.get? BlockchainFeatures.MassTransfer.id = none := by
  decide +kernel

theorem beforeVote_eq : beforeVote = .ok withoutVote := Validation.eq_ok_getD vote_run.1.1

theorem afterVote_eq : afterVote = .ok withVote := Validation.eq_ok_getD vote_run.1.2.1

theorem afterApproval_eq : afterApproval = .ok withApproval := Validation.eq_ok_getD vote_run.1.2.2

theorem features_replayed_voteTakenOff :
    voteTakenOff.approvedFeatures = withoutVote.approvedFeatures ∧
      voteTakenOff.activatedFeatures = withoutVote.activatedFeatures ∧
      ∀ k, voteTakenOff.db.featureVotes voteTakenOff.settings k =
        withoutVote.db.featureVotes withoutVote.settings k := by
  have hgenesis : Grows NothingApprovedAbove noVotes withoutVote :=
    grows_appendBlock beforeVote_eq fun _ _ => trivial
  have hvote : Grows NothingApprovedAbove withoutVote withVote :=
    grows_appendBlock afterVote_eq fun _ _ => trivial
  have hreachable : Reachable NothingApprovedAbove voteSettings dbSettings voteTakenOff := by
    exact .step (e := .rollbackTo genesisBlock.signature)
      ((Reachable.empty.grows hgenesis).grows hvote)
      (nothingApprovedAbove_of_dom_eq vote_run.2.1.2.1) (rollbackTo_getD vote_run.2.1.1)
  exact features_replayed hreachable hgenesis vote_run.2.1.2.2.1
    fun k _ hk => vote_run.2.1.2.2.2 k hk

/-- The feature stays approved at a height the chain no longer has. -/
theorem rollbackTo_approved :
    ¬∀ (settings : BlockchainSettings) (dbSettings dbSettings' : DBSettings)
      (w replay : LevelDBWriter),
      Reachable (fun w e => OwnBlock w e ∨ ∃ id, e = .rollbackTo id) settings dbSettings w →
      Grows OwnBlock (.empty settings dbSettings') replay → replay.height = w.height →
      (∀ k, 1 ≤ k → k ≤ w.height → replay.db.blockInfoAt k = w.db.blockInfoAt k) →
      w.approvedFeatures = replay.approvedFeatures := by
  intro hclaim
  have hreplay : Grows OwnBlock withoutVote withVote := grows_ownBlock afterVote_eq
  have hown : ∀ {w v : LevelDBWriter} {block : Block}, w.appendBlocks [block] = .ok v →
      Grows (fun w e => OwnBlock w e ∨ ∃ id, e = .rollbackTo id) w v :=
    fun h => grows_appendBlock h fun r hr => .inl ⟨rfl, r, hr, rfl, rfl⟩
  have hreachable : Reachable (fun w e => OwnBlock w e ∨ ∃ id, e = .rollbackTo id) voteSettings
      dbSettings approvalTakenOff := by
    refine .step (e := .rollbackTo voteBlock.signature)
      (((Reachable.empty.grows (hown beforeVote_eq)).grows (hown afterVote_eq)).grows
        (hown afterApproval_eq)) (.inr ⟨_, rfl⟩) (rollbackTo_getD vote_run.2.2.1.1)
  have hwhole : Grows OwnBlock noVotes withVote :=
    (grows_ownBlock beforeVote_eq).trans hreplay
  have hsame := hclaim voteSettings dbSettings dbSettings approvalTakenOff withVote hreachable
    hwhole vote_run.2.2.1.2.1 fun k _ hk => vote_run.2.2.1.2.2 k hk
  have hget := vote_run.2.2.2.1
  rw [hsame, vote_run.2.2.2.2] at hget
  cases hget

end

end WavesNode
