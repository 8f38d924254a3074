/-
The law of block rewards.

A schedule says what the reward of every height is, from the height at which rewards are
activated and the votes of the blocks: the first reward is the initial one; it stays what it
is for a term; and at the end of every term the votes of the last blocks of the term raise
it, lower it or leave it. `Schedule` states that of any votes and rewards; it is kept from
one height to the next (`Schedule.succ`), and it leaves no choice (`Schedule.unique`).
-/
import WavesNode.Settings

set_option autoImplicit false

namespace WavesNode

namespace RewardsSettings

variable (rs : RewardsSettings)

/-! ## 1. Votes -/

/-- The votes cast in the voting interval that ends just before a height; a block that does
not vote has a negative vote. -/
def votesCast (votes : ℕ → Option Long) (height : ℕ) : List Long :=
  ((rangeInclusive (height - rs.votingInterval) (height - 1)).filterMap votes).filter (0 ≤ ·)

/-- More than half of the voting interval. -/
def Majority (count : ℕ) : Prop := rs.votingInterval < 2 * count

instance (count : ℕ) : Decidable (rs.Majority count) := Nat.decLt _ _

/-- The votes of an interval make a reward into the next one. -/
structure Moves (votes : List Long) (reward next : Long) : Prop where
  raised : rs.Majority (votes.countP (reward < ·)) →
    next.toInt = reward.toInt + rs.minIncrement.toInt
  lowered : rs.Majority (votes.countP (· < reward)) →
    next.toInt = max (reward.toInt - rs.minIncrement.toInt) 0
  kept : ¬rs.Majority (votes.countP (reward < ·)) → ¬rs.Majority (votes.countP (· < reward)) →
    next = reward

/-- What `nextReward` makes of the votes. -/
def moved (votes : List Long) (reward : Long) : Long :=
  let lt := votes.countP (· < reward)
  let gt := votes.countP (· > reward)
  let threshold := rs.votingInterval / 2 + 1
  if lt ≥ threshold then max (reward - rs.minIncrement) 0
  else if gt ≥ threshold then reward + rs.minIncrement
  else reward

variable {rs}

theorem majority_iff {count : ℕ} : rs.Majority count ↔ count ≥ rs.votingInterval / 2 + 1 := by
  unfold Majority
  omega

theorem length_votesCast (votes : ℕ → Option Long) (height : ℕ) :
    (rs.votesCast votes height).length ≤ rs.votingInterval := by
  have hfilter : (rs.votesCast votes height).length ≤
      ((rangeInclusive (height - rs.votingInterval) (height - 1)).filterMap votes).length :=
    List.length_filter_le _ _
  have hmap : ((rangeInclusive (height - rs.votingInterval) (height - 1)).filterMap votes).length ≤
      (rangeInclusive (height - rs.votingInterval) (height - 1)).length :=
    List.length_filterMap_le _ _
  have hrange : (rangeInclusive (height - rs.votingInterval) (height - 1)).length =
      height - 1 + 1 - (height - rs.votingInterval) := List.length_range'
  have hpos := rs.votingInterval_pos
  omega

/-- Not both sides have a majority. -/
theorem not_majority_both {votes : List Long} {reward : Long}
    (hlength : votes.length ≤ rs.votingInterval)
    (hup : rs.Majority (votes.countP (reward < ·)))
    (hdown : rs.Majority (votes.countP (· < reward))) : False := by
  have hsplit := List.length_eq_countP_add_countP (fun v => decide (reward < v)) (l := votes)
  have hother : votes.countP (· < reward) ≤
      votes.countP fun v => decide ¬decide (reward < v) = true := by
    refine List.countP_mono_left fun v _ hv => ?_
    have hlt : v < reward := of_decide_eq_true hv
    refine decide_eq_true fun hv' => ?_
    have hlt' : reward < v := of_decide_eq_true hv'
    rw [Long.lt_iff] at hlt hlt'
    omega
  unfold Majority at hup hdown
  omega

/-- What the source computes moves the reward, where a raise fits. -/
theorem moves_moved {votes : List Long} {reward : Long} (hnonneg : 0 ≤ reward)
    (hlength : votes.length ≤ rs.votingInterval)
    (hfits : rs.Majority (votes.countP (reward < ·)) →
      Long.InRange (reward.toInt + rs.minIncrement.toInt)) :
    rs.Moves votes reward (rs.moved votes reward) := by
  have hincrement := Long.pos_iff.mp rs.minIncrement_pos
  rw [Long.nonneg_iff] at hnonneg
  unfold moved
  dsimp only
  by_cases hdown : rs.Majority (votes.countP (· < reward))
  · rw [if_pos (majority_iff.mp hdown)]
    refine ⟨fun hup => (not_majority_both hlength hup hdown).elim, fun _ => ?_,
      fun _ h => absurd hdown h⟩
    -- neither number is negative, so the difference fits
    have hrange := Long.inRange_toInt reward
    have hrange' := Long.inRange_toInt rs.minIncrement
    have hsub : (reward - rs.minIncrement).toInt = reward.toInt - rs.minIncrement.toInt :=
      Long.toInt_sub ⟨by have := hrange'.2; have := hrange.1; omega, by have := hrange.2; omega⟩
    rw [Long.toInt_max, hsub, Long.toInt_zero]
  · rw [if_neg fun h => hdown (majority_iff.mpr h)]
    by_cases hup : rs.Majority (votes.countP (reward < ·))
    · rw [if_pos (majority_iff.mp hup)]
      exact ⟨fun _ => Long.toInt_add (hfits hup), fun h => absurd h hdown,
        fun h => absurd hup h⟩
    · rw [if_neg fun h => hup (majority_iff.mpr h)]
      exact ⟨fun h => absurd h hup, fun h => absurd h hdown, fun _ _ => rfl⟩

/-- The votes leave no choice. -/
theorem Moves.unique {votes : List Long} {reward next next' : Long}
    (h : rs.Moves votes reward next) (h' : rs.Moves votes reward next') : next = next' := by
  by_cases hup : rs.Majority (votes.countP (reward < ·))
  · exact Long.toInt_inj ((h.raised hup).trans (h'.raised hup).symm)
  · by_cases hdown : rs.Majority (votes.countP (· < reward))
    · exact Long.toInt_inj ((h.lowered hdown).trans (h'.lowered hdown).symm)
    · exact (h.kept hup hdown).trans (h'.kept hup hdown).symm

/-- A reward is never negative. -/
theorem Moves.nonneg {votes : List Long} {reward next : Long} (h : rs.Moves votes reward next)
    (hnonneg : 0 ≤ reward) : 0 ≤ next := by
  have hincrement := Long.pos_iff.mp rs.minIncrement_pos
  rw [Long.nonneg_iff] at hnonneg ⊢
  by_cases hup : rs.Majority (votes.countP (reward < ·))
  · rw [h.raised hup]
    omega
  · by_cases hdown : rs.Majority (votes.countP (· < reward))
    · rw [h.lowered hdown]
      omega
    · rw [h.kept hup hdown]
      exact hnonneg

/-! ## 2. Schedules -/

variable (rs) in
/-- The heights at which the votes move the reward: the activation and a number of terms. -/
def TermEnds (activatedAt height : ℕ) : Prop := ∃ k, 1 ≤ k ∧ height = activatedAt + k * rs.term

/-- **The law**, up to a height: nothing before the activation, then the initial reward, and
from one height to the next what the votes make of it. -/
structure Schedule (rs : RewardsSettings) (activatedAt : Option ℕ) (votes rewards : ℕ → Option Long)
    (n : ℕ) : Prop where
  before : ∀ h ≤ n, 1 ≤ h → (∀ a, activatedAt = some a → h < a) → rewards h = none
  first : ∀ a, activatedAt = some a → max a 1 ≤ n → rewards (max a 1) = some rs.initial
  later : ∀ a h, activatedAt = some a → max a 1 < h → h ≤ n →
    ∃ reward next, rewards (h - 1) = some reward ∧ rewards h = some next ∧
      (rs.TermEnds a h → rs.Moves (rs.votesCast votes h) reward next) ∧
      (¬rs.TermEnds a h → next = reward)

/-- Whether votes move the reward of a height is one remainder. -/
theorem termEnds_iff {a h : ℕ} (hah : a < h) : rs.TermEnds a h ↔ (h - a) % rs.term = 0 := by
  constructor
  · rintro ⟨k, -, rfl⟩
    rw [Nat.add_sub_cancel_left]
    exact Nat.mul_mod_left k rs.term
  · intro hmod
    obtain ⟨k, hk⟩ := Nat.dvd_of_mod_eq_zero hmod
    have hpos : 1 ≤ k := by
      rcases Nat.eq_zero_or_pos k with rfl | hpos
      · rw [Nat.mul_zero] at hk
        omega
      · exact hpos
    refine ⟨k, hpos, ?_⟩
    rw [Nat.mul_comm k, ← hk]
    omega

namespace Schedule

variable {activatedAt activatedAt' : Option ℕ} {votes votes' rewards rewards' : ℕ → Option Long}
  {n : ℕ}

theorem zero : rs.Schedule activatedAt votes rewards 0 where
  before h hn hpos _ := by omega
  first a _ hn := by omega
  later a h _ hlow hn := by omega

theorem mono {m : ℕ} (h : rs.Schedule activatedAt votes rewards n) (hmn : m ≤ n) :
    rs.Schedule activatedAt votes rewards m where
  before k hk := h.before k (Nat.le_trans hk hmn)
  first a ha hm := h.first a ha (Nat.le_trans hm hmn)
  later a k ha hlow hk := h.later a k ha hlow (Nat.le_trans hk hmn)

theorem votesCast_congr {h : ℕ} (hvotes : ∀ k < h, votes k = votes' k) (hpos : 1 ≤ h) :
    rs.votesCast votes h = rs.votesCast votes' h := by
  unfold votesCast
  congr 1
  refine List.filterMap_congr fun k hk => hvotes k ?_
  have hmem := List.mem_range'_1.mp hk
  omega

/-- Only the votes below the height and the rewards up to it matter. -/
theorem congr (h : rs.Schedule activatedAt votes rewards n)
    (hvotes : ∀ k < n, votes k = votes' k) (hrewards : ∀ k ≤ n, 1 ≤ k → rewards k = rewards' k) :
    rs.Schedule activatedAt votes' rewards' n where
  before k hk hpos hlow := by
    rw [← hrewards k hk hpos]
    exact h.before k hk hpos hlow
  first a ha hn := by
    rw [← hrewards _ hn (Nat.le_max_right a 1)]
    exact h.first a ha hn
  later a k ha hlow hk := by
    rw [← hrewards k hk (by omega), ← hrewards (k - 1) (by omega) (by omega),
      ← votesCast_congr (fun i hi => hvotes i (by omega)) (by omega)]
    exact h.later a k ha hlow hk

/-- An activation above the height is none yet. -/
theorem activated_congr (h : rs.Schedule activatedAt votes rewards n)
    (hnow : ∀ a ≤ n, activatedAt = some a ↔ activatedAt' = some a) :
    rs.Schedule activatedAt' votes rewards n where
  before k hk hpos hlow := by
    refine h.before k hk hpos fun a ha => ?_
    by_cases han : a ≤ n
    · exact hlow a ((hnow a han).mp ha)
    · omega
  first a ha hn := h.first a ((hnow a (by omega)).mpr ha) hn
  later a k ha hlow hk := h.later a k ((hnow a (by omega)).mpr ha) hlow hk

/-- Nothing is paid where there is no activation yet. -/
theorem eq_none (h : rs.Schedule activatedAt votes rewards n)
    (hnone : ∀ a ≤ n, activatedAt ≠ some a) {k : ℕ} (hk : k ≤ n) (hpos : 1 ≤ k) :
    rewards k = none := by
  refine h.before k hk hpos fun a ha => ?_
  by_contra hle
  exact hnone a (by omega) ha

/-- From the activation on there is a reward, and it is not negative. -/
theorem exists_reward (h : rs.Schedule activatedAt votes rewards n) {a k : ℕ}
    (ha : activatedAt = some a) (hak : max a 1 ≤ k) (hk : k ≤ n) :
    ∃ reward, rewards k = some reward ∧ 0 ≤ reward := by
  induction k, hak using Nat.le_induction with
  | base => exact ⟨rs.initial, h.first a ha hk, rs.initial_nonneg⟩
  | succ k hak ih =>
    obtain ⟨reward, hreward, hnonneg⟩ := ih (by omega)
    obtain ⟨reward', next, hreward', hnext, hmoves, hkept⟩ := h.later a (k + 1) ha (by omega) hk
    rw [Nat.add_sub_cancel, hreward] at hreward'
    obtain rfl := Option.some.inj hreward'
    refine ⟨next, hnext, ?_⟩
    by_cases hend : rs.TermEnds a (k + 1)
    · exact (hmoves hend).nonneg hnonneg
    · rw [hkept hend]
      exact hnonneg

/-- **One height more.** -/
theorem succ (h : rs.Schedule activatedAt votes rewards n)
    (hbefore : (∀ a, activatedAt = some a → n + 1 < a) → rewards (n + 1) = none)
    (hfirst : ∀ a, activatedAt = some a → max a 1 = n + 1 → rewards (n + 1) = some rs.initial)
    (hlater : ∀ a reward, activatedAt = some a → max a 1 < n + 1 → rewards n = some reward →
      0 ≤ reward → ∃ next, rewards (n + 1) = some next ∧
        (rs.TermEnds a (n + 1) → rs.Moves (rs.votesCast votes (n + 1)) reward next) ∧
        (¬rs.TermEnds a (n + 1) → next = reward)) :
    rs.Schedule activatedAt votes rewards (n + 1) where
  before k hk hpos hlow := by
    by_cases hlast : k = n + 1
    · subst hlast
      exact hbefore hlow
    · exact h.before k (by omega) hpos hlow
  first a ha hn := by
    by_cases hlast : max a 1 = n + 1
    · rw [hlast]
      exact hfirst a ha hlast
    · exact h.first a ha (by omega)
  later a k ha hlow hk := by
    by_cases hlast : k = n + 1
    · subst hlast
      obtain ⟨reward, hreward, hnonneg⟩ := h.exists_reward ha (k := n) (by omega) (Nat.le_refl n)
      obtain ⟨next, hnext⟩ := hlater a reward ha hlow hreward hnonneg
      exact ⟨reward, next, hreward, hnext⟩
    · exact h.later a k ha hlow (by omega)

/-- **The law leaves no choice**: the same votes give the same rewards. -/
theorem unique (h : rs.Schedule activatedAt votes rewards n)
    (h' : rs.Schedule activatedAt' votes' rewards' n)
    (hnow : ∀ a ≤ n, activatedAt = some a ↔ activatedAt' = some a)
    (hvotes : ∀ k < n, votes k = votes' k) {k : ℕ} (hk : k ≤ n) (hpos : 1 ≤ k) :
    rewards k = rewards' k := by
  by_cases hactive : ∃ a, activatedAt = some a ∧ a ≤ k
  · obtain ⟨a, ha, hak⟩ := hactive
    have ha' := (hnow a (by omega)).mp ha
    have hmax : max a 1 ≤ k := by omega
    induction k, hmax using Nat.le_induction with
    | base => rw [h.first a ha hk, h'.first a ha' hk]
    | succ k hmax ih =>
      have hsame := ih (by omega) (by omega) (by omega)
      obtain ⟨reward, next, hreward, hnext, hmoves, hkept⟩ := h.later a (k + 1) ha (by omega) hk
      obtain ⟨reward', next', hreward', hnext', hmoves', hkept'⟩ :=
        h'.later a (k + 1) ha' (by omega) hk
      rw [Nat.add_sub_cancel] at hreward hreward'
      rw [hreward, hreward'] at hsame
      obtain rfl := Option.some.inj hsame
      rw [hnext, hnext']
      congr 1
      by_cases hend : rs.TermEnds a (k + 1)
      · have hmoves' := hmoves' hend
        rw [← votesCast_congr (fun i hi => hvotes i (by omega)) (by omega)] at hmoves'
        exact (hmoves hend).unique hmoves'
      · rw [hkept hend, hkept' hend]
  · -- no activation up to the height, on either side
    have hlow : ∀ a, activatedAt = some a → k < a := fun a ha => by
      by_contra hle
      exact hactive ⟨a, ha, by omega⟩
    have hlow' : ∀ a, activatedAt' = some a → k < a := fun a ha => by
      by_contra hle
      exact hactive ⟨a, (hnow a (by omega)).mpr ha, by omega⟩
    rw [h.before k hk hpos hlow, h'.before k hk hpos hlow']

end Schedule

/-! ## 3. The window of a voting -/

/-- At the last height of a term the voting window is the whole voting interval. -/
theorem votingWindow_of_termEnds {a h : ℕ} (hend : rs.TermEnds a (h + 1)) :
    rs.votingWindow a h = rangeInclusive (h + 1 - rs.votingInterval) h := by
  obtain ⟨k, hk, hh⟩ := hend
  have hterm := rs.term_pos
  have hpos := rs.votingInterval_pos
  have hwhole : 1 ≤ k * rs.term := Nat.mul_pos hk hterm
  have hmul : (h - a + 1 + rs.term - 1) / rs.term = k := by
    have hdiff : h - a + 1 + rs.term - 1 = rs.term - 1 + k * rs.term := by omega
    rw [hdiff, Nat.add_mul_div_right _ _ hterm, Nat.div_eq_of_lt (by omega), Nat.zero_add]
  have hterms : rs.nearestTermEnd a h = h := by
    unfold nearestTermEnd
    dsimp only
    rw [hmul]
    omega
  unfold votingWindow
  dsimp only
  rw [hterms, if_pos (by omega)]

theorem le_of_mem_votingWindow {a h k : ℕ} (hk : k ∈ rs.votingWindow a h) : k ≤ h := by
  unfold votingWindow at hk
  dsimp only at hk
  split at hk
  · have := List.mem_range'_1.mp hk
    omega
  · cases hk

/-- The last height of a window is its own last entry. -/
theorem votingWindow_eq_append {a h : ℕ} (hmem : h + 1 ∈ rs.votingWindow a (h + 1)) :
    ∃ heights, rs.votingWindow a (h + 1) = heights ++ [h + 1] ∧ ∀ k ∈ heights, k ≤ h := by
  unfold votingWindow at hmem ⊢
  dsimp only at hmem ⊢
  split at hmem
  · rename_i hstart
    rw [if_pos hstart]
    refine ⟨rangeInclusive (rs.nearestTermEnd a (h + 1) + 1 - rs.votingInterval) h, ?_, ?_⟩
    · unfold rangeInclusive
      have hlength : h + 1 + 1 - (rs.nearestTermEnd a (h + 1) + 1 - rs.votingInterval) =
          h + 1 - (rs.nearestTermEnd a (h + 1) + 1 - rs.votingInterval) + 1 := by omega
      rw [hlength, List.range'_1_concat]
      congr 2
      omega
    · intro k hk
      have := List.mem_range'_1.mp hk
      omega
  · cases hmem

end RewardsSettings

end WavesNode
