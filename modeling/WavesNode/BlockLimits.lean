/-
The limits of a liquid block.

A constraint is a list of what is left in each dimension. Every transaction that is accepted
takes its amounts off (`Accounts`), in the key block and in the micro-blocks on it, and what is
left never falls below nothing; so the amounts of all the liquid block's transactions stay
within the constraint that the key block started from (`Accounts.total_le`).

That constraint is looked up at the height of the persisted chain as it was before the block
(`limitHeight_eq`), also where the block makes the liquid block before it final and so stands
two heights above it. Where the limits are the same at the block's own height, the remaining
budget is the limit of the liquid block's height less the amounts of its transactions
(`limits_hold`).
-/
import WavesNode.LiquidChain
import WavesNode.BlockDifferSpecs
import WavesNode.RollbackFeatures

set_option autoImplicit false

namespace WavesNode

section

variable [Crypto] [PBTransactionSerializer]

/-! ## 1. The dimensions of a constraint -/

namespace MiningConstraint

omit [Crypto] [PBTransactionSerializer] in
mutual

/-- What is left in each dimension, and what it is measured by. -/
def dimensions : MiningConstraint → List (Long × TxEstimator)
  | Unlimited => []
  | OneDimensional rest estimator _ => [(rest, estimator)]
  | MultiDimensional constraints => dimensionsOf constraints

def dimensionsOf : List MiningConstraint → List (Long × TxEstimator)
  | [] => []
  | c :: cs => dimensions c ++ dimensionsOf cs

end

mutual

theorem dimensions_put (tx : Transaction) (d : Diff) :
    ∀ c : MiningConstraint, (put tx d c).dimensions =
      c.dimensions.map fun dim => (dim.1 - dim.2.estimate tx d, dim.2)
  | Unlimited => rfl
  | OneDimensional _ _ _ => rfl
  | MultiDimensional constraints => dimensionsOf_putAll tx d constraints

theorem dimensionsOf_putAll (tx : Transaction) (d : Diff) :
    ∀ cs : List MiningConstraint, dimensionsOf (putAll tx d cs) =
      (dimensionsOf cs).map fun dim => (dim.1 - dim.2.estimate tx d, dim.2)
  | [] => rfl
  | c :: cs => by
    rw [putAll, dimensionsOf, dimensionsOf, List.map_append, dimensions_put tx d c,
      dimensionsOf_putAll tx d cs]

end

omit [Crypto] [PBTransactionSerializer] in
mutual

theorem isOverfilled_eq :
    ∀ c : MiningConstraint, c.isOverfilled = c.dimensions.any fun dim => dim.1 < 0
  | Unlimited => rfl
  | OneDimensional rest estimator description => by
    rw [isOverfilled, dimensions, List.any_cons, List.any_nil, Bool.or_false]
  | MultiDimensional constraints => anyOverfilled_eq constraints

theorem anyOverfilled_eq :
    ∀ cs : List MiningConstraint, anyOverfilled cs = (dimensionsOf cs).any fun dim => dim.1 < 0
  | [] => rfl
  | c :: cs => by
    rw [anyOverfilled, dimensionsOf, List.any_append, isOverfilled_eq c, anyOverfilled_eq cs]

end

/-! ## 2. Accounts -/

/-- What is left of a constraint after some transactions. -/
def spend (c : MiningConstraint) (spent : List (Transaction × Diff)) : MiningConstraint :=
  spent.foldl (fun c p => c.put p.1 p.2) c

theorem spend_nil (c : MiningConstraint) : c.spend [] = c := rfl

theorem spend_append (c : MiningConstraint) (spent spent' : List (Transaction × Diff)) :
    c.spend (spent ++ spent') = (c.spend spent).spend spent' := List.foldl_append ..

variable [Ride]

/-- What is left of a constraint after some transactions, each with the diff that the differ
made of it; none of them overfilled it. -/
inductive Accounts (c : MiningConstraint) : List (Transaction × Diff) → MiningConstraint → Prop
  | nil : Accounts c [] c
  | snoc {spent : List (Transaction × Diff)} {rest : MiningConstraint} {tx : Transaction}
    {d : Diff} {prevBlockTimestamp : Option Long} {timestamp : Long} {b : Blockchain} :
    Accounts c spent rest →
    TransactionDiffer.apply prevBlockTimestamp timestamp true b tx = .ok d →
    (rest.put tx d).isOverfilled = false → Accounts c (spent ++ [(tx, d)]) (rest.put tx d)

namespace Accounts

variable {c rest rest' : MiningConstraint} {spent spent' : List (Transaction × Diff)}

theorem trans (h : Accounts c spent rest) (h' : Accounts rest spent' rest') :
    Accounts c (spent ++ spent') rest' := by
  induction h' with
  | nil =>
    rw [List.append_nil]
    exact h
  | snoc _ hdiff hfits ih =>
    rw [← List.append_assoc]
    exact .snoc ih hdiff hfits

/-- The budget that is left is the limit less the amounts. -/
theorem eq_spend (h : Accounts c spent rest) : rest = c.spend spent := by
  induction h with
  | nil => rfl
  | snoc _ _ _ ih =>
    rw [spend_append, ← ih]
    rfl

theorem applied (h : Accounts c spent rest) :
    ∀ p ∈ spent, ∃ prevBlockTimestamp timestamp b,
      TransactionDiffer.apply prevBlockTimestamp timestamp true b p.1 = .ok p.2 := by
  induction h with
  | nil =>
    intro p hp
    cases hp
  | snoc _ hdiff _ ih =>
    intro p hp
    rcases List.mem_append.mp hp with hp | hp
    · exact ih p hp
    · rw [List.mem_singleton.mp hp]
      exact ⟨_, _, _, hdiff⟩

/-- Nothing is ever overfilled. -/
theorem fits (h : Accounts c spent rest) (hc : c.isOverfilled = false) :
    rest.isOverfilled = false := by
  cases h with
  | nil => exact hc
  | snoc _ _ hfits => exact hfits

/-- What is left in a dimension is the limit less the amounts, also as whole numbers, as long
as no amount is negative. -/
theorem rest_eq (h : Accounts c spent rest) (hc : c.isOverfilled = false) {i : ℕ} {limit : Long}
    {estimator : TxEstimator} (hdim : c.dimensions[i]? = some (limit, estimator))
    (hnonneg : ∀ p ∈ spent, 0 ≤ (estimator.estimate p.1 p.2).toInt) :
    ∃ r, rest.dimensions[i]? = some (r, estimator) ∧
      r.toInt = limit.toInt - (spent.map fun p => (estimator.estimate p.1 p.2).toInt).sum := by
  induction h with
  | nil => exact ⟨limit, hdim, by rw [List.map_nil, List.sum_nil, Int.sub_zero]⟩
  | @snoc spent rest tx d _ _ _ hspent _ _ ih =>
    obtain ⟨r, hr, hsum⟩ := ih fun p hp => hnonneg p (List.mem_append_left _ hp)
    refine ⟨r - estimator.estimate tx d, ?_, ?_⟩
    · rw [dimensions_put, List.getElem?_map, hr]
      rfl
    · -- a non-negative amount off a non-negative rest stays in range
      have hrest : 0 ≤ r.toInt := by
        have hfits := hspent.fits hc
        rw [isOverfilled_eq, List.any_eq_false] at hfits
        have hnot := hfits _ (List.mem_of_getElem? hr)
        rw [decide_eq_true_eq, Long.lt_iff] at hnot
        exact Int.not_lt.mp hnot
      have hamount : 0 ≤ (estimator.estimate tx d).toInt :=
        hnonneg (tx, d) (List.mem_append_right _ (List.mem_singleton.mpr rfl))
      have hrange := Long.inRange_toInt r
      have hrange' := Long.inRange_toInt (estimator.estimate tx d)
      rw [Long.toInt_sub ⟨by unfold Long.InRange at hrange'; omega,
        by unfold Long.InRange at hrange; omega⟩, hsum, List.map_append, List.sum_append,
        List.map_singleton, List.sum_singleton]
      dsimp only
      omega

/-- **The amounts stay within the limit**, in every dimension. -/
theorem total_le (h : Accounts c spent rest) (hc : c.isOverfilled = false) {limit : Long}
    {estimator : TxEstimator} (hdim : (limit, estimator) ∈ c.dimensions)
    (hnonneg : ∀ p ∈ spent, 0 ≤ (estimator.estimate p.1 p.2).toInt) :
    (spent.map fun p => (estimator.estimate p.1 p.2).toInt).sum ≤ limit.toInt := by
  obtain ⟨i, hi⟩ := List.mem_iff_getElem?.mp hdim
  obtain ⟨r, hr, hsum⟩ := h.rest_eq hc hi hnonneg
  have hfits := h.fits hc
  rw [isOverfilled_eq, List.any_eq_false] at hfits
  have hnot := hfits _ (List.mem_of_getElem? hr)
  rw [decide_eq_true_eq, Long.lt_iff] at hnot
  have hleft : 0 ≤ r.toInt := Int.not_lt.mp hnot
  omega

end Accounts

end MiningConstraint

open MiningConstraint

/-- The quantities as the source's types have them: the length of an array and a counter are
`Int`s, and a complexity is not negative. -/
def Measured (tx : Transaction) (d : Diff) : Prop :=
  (TxSerializer.bytes tx).length ≤ Int.MaxValue ∧ d.scriptsRun ≤ Int.MaxValue ∧
    0 ≤ d.scriptsComplexity.toInt

theorem Measured.estimate_nonneg {tx : Transaction} {d : Diff} (h : Measured tx d)
    (estimator : TxEstimator) : 0 ≤ (estimator.estimate tx d).toInt := by
  have hnat : ∀ n : ℕ, n ≤ Int.MaxValue → (Int64.ofNat n).toInt = n := by
    intro n hn
    have hmax : Int.MaxValue = 2147483647 := rfl
    rw [← Int64.ofInt_eq_ofNat, Long.toInt_ofInt ⟨by omega, by omega⟩]
  cases estimator with
  | sizeInBytes =>
    rw [TxEstimator.estimate, hnat _ h.1]
    omega
  | one =>
    show 0 ≤ (1 : Long).toInt
    decide
  | scriptRunNumber =>
    rw [TxEstimator.estimate, hnat _ h.2.1]
    omega
  | scriptsComplexity => exact h.2.2

/-! ## 3. What a block and a micro-block take -/

namespace MiningConstraints

omit [Crypto] [PBTransactionSerializer]

/-- The limits are read off the features that are active. -/
theorem total_congr {b b' : Blockchain} {n n' : ℕ}
    (h : ∀ f ∈ [BlockchainFeatures.NG, BlockchainFeatures.MassTransfer,
      BlockchainFeatures.SmartAccounts, BlockchainFeatures.Ride4DApps],
      b.activatedFeaturesAt n f.id = b'.activatedFeaturesAt n' f.id) :
    total b n = total b' n' := by
  have hNG := h BlockchainFeatures.NG (by simp)
  have hMassTransfer := h BlockchainFeatures.MassTransfer (by simp)
  have hSmartAccounts := h BlockchainFeatures.SmartAccounts (by simp)
  have hRide4DApps := h BlockchainFeatures.Ride4DApps (by simp)
  unfold total
  dsimp only
  simp only [hNG, hMassTransfer, hSmartAccounts, hRide4DApps]

theorem total_of_activatedFeatures {b b' : Blockchain} (n : ℕ)
    (h : b.activatedFeatures = b'.activatedFeatures) : total b n = total b' n := by
  refine total_congr fun f _ => ?_
  unfold Blockchain.activatedFeaturesAt
  rw [h]

/-- No limit is below nothing. -/
theorem total_fits (b : Blockchain) (n : ℕ) : (total b n).isOverfilled = false := by
  rw [isOverfilled_eq]
  unfold total
  dsimp only
  split <;> split <;> (try split) <;> (try split) <;> rfl

end MiningConstraints

namespace BlockDiffer

variable [Ride] [BlockSerializer]

omit [BlockSerializer] in
theorem applyTx_constraint {b : Blockchain} {prevBlockTimestamp : Option Long} {timestamp : Long}
    {blockGenerator : Address} {hasSponsorship hasNg verify : Bool} {acc r : Result}
    {tx : Transaction}
    (h : applyTx b prevBlockTimestamp timestamp blockGenerator hasSponsorship hasNg verify acc tx =
      .ok r) :
    ∃ newDiff, TransactionDiffer.apply prevBlockTimestamp timestamp verify
        (CompositeBlockchain b (some acc.diff)) tx = .ok newDiff ∧
      (acc.constraint.put tx newDiff).isOverfilled = false ∧
      r.constraint = acc.constraint.put tx newDiff := by
  obtain ⟨newDiff, hdiff, h⟩ := Validation.bind_eq_ok.mp h
  dsimp only at h
  split at h
  · cases h
  · rename_i hfits
    obtain ⟨⟨curBlockFees, nextBlockFee⟩, -, h⟩ := Validation.bind_eq_ok.mp h
    cases h
    exact ⟨newDiff, hdiff, eq_false_of_ne_true hfits, rfl⟩

omit [BlockSerializer] in
/-- **The differ's account**: one entry for each transaction. -/
theorem apply_accounts {b : Blockchain} {constraint : MiningConstraint}
    {prevBlockTimestamp : Option Long} {initDiff : Diff} {hasNg : Bool} {txs : List Transaction}
    {r : Result} (h : apply b constraint prevBlockTimestamp initDiff hasNg txs true = .ok r) :
    ∃ spent, spent.map Prod.fst = txs ∧ Accounts constraint spent r.constraint := by
  obtain ⟨timestamp, lastBlock, result, -, -, hfold, hpatches⟩ := apply_eq_ok h
  have hresult : ∃ spent, spent.map Prod.fst = [] ++ txs ∧
      Accounts constraint spent result.constraint := by
    refine Validation.foldlM_induction (P := fun (x : Result) done =>
      ∃ spent, spent.map Prod.fst = done ∧ Accounts constraint spent x.constraint) ?_ hfold []
      ⟨[], rfl, .nil⟩
    intro acc tx acc' done _ hacc hacc'
    obtain ⟨spent, hdone, haccounts⟩ := hacc
    obtain ⟨newDiff, hdiff, hfits, hconstraint⟩ := applyTx_constraint hacc'
    refine ⟨spent ++ [(tx, newDiff)], ?_, ?_⟩
    · rw [List.map_append, hdone, List.map_singleton]
    · rw [hconstraint]
      exact .snoc haccounts hdiff hfits
  -- the patches cost nothing
  obtain ⟨⟨d, patchDiff⟩, -, hpatches⟩ := Validation.bind_eq_ok.mp hpatches
  cases hpatches
  rw [List.nil_append] at hresult
  exact hresult

theorem fromBlock_accounts {b : Blockchain} {prev : Option Block} {block : Block}
    {constraint : MiningConstraint} {r : Result} (h : fromBlock b prev block constraint = .ok r) :
    ∃ spent, spent.map Prod.fst = block.transactionData ∧
      Accounts constraint spent r.constraint := by
  unfold fromBlock at h
  obtain ⟨_, -, h⟩ := Validation.bind_eq_ok.mp h
  exact apply_accounts h

theorem fromMicroBlock_accounts {b : Blockchain} {prevBlockTimestamp : Option Long}
    {micro : MicroBlock} {constraint : MiningConstraint} {r : Result}
    (h : fromMicroBlock b prevBlockTimestamp micro constraint = .ok r) :
    ∃ spent, spent.map Prod.fst = micro.transactionData ∧
      Accounts constraint spent r.constraint := by
  unfold fromMicroBlock at h
  obtain ⟨_, -, h⟩ := Validation.bind_eq_ok.mp h
  obtain ⟨_, -, h⟩ := Validation.bind_eq_ok.mp h
  exact apply_accounts h

end BlockDiffer

namespace NgState

omit [Crypto] [PBTransactionSerializer] in
theorem transactions_append (ng : NgState) (m : MicroBlock) (d : Diff) (carry totalFee : Long) :
    (ng.append m d carry totalFee).transactions = ng.transactions ++ m.transactionData := by
  unfold NgState.transactions NgState.append
  rw [List.map_cons, List.reverse_cons, List.flatten_append, List.flatten_singleton,
    List.append_assoc]

end NgState

/-! ## 4. Runs -/

namespace StoredUpdater

/-- The limit of the liquid block's height. -/
def limit (s : StoredUpdater) : MiningConstraint :=
  MiningConstraints.total s.blockchain.blockchain s.height

variable [BlockSerializer] [Ride]

/-- The condition on a run: a block that is taken is under the same limits at its own height
as the persisted chain was before it. -/
def LimitsOfHeight (s : StoredUpdater) : Event → Prop
  | .processBlock block => ∀ s' discarded w, s.processBlock block = .ok (s', some discarded) →
    s.persisted block = .ok w →
    MiningConstraints.total s.blockchain.blockchain s.blockchain.height =
      MiningConstraints.total w.blockchain (w.height + 1)
  | _ => True

/-- The budget of a node's liquid block: what its transactions have left of the limit. -/
def Budgeted (s : StoredUpdater) : Prop :=
  ∀ ng, s.ngState = some ng → ∃ spent, spent.map Prod.fst = ng.transactions ∧
    Accounts s.limit spent s.restTotalConstraint

variable {settings : BlockchainSettings} {s s' : StoredUpdater}

omit [BlockSerializer] in
/-- The caches do not change the limits. -/
theorem Budgeted.of_features (hs : Budgeted s) (hng : s'.ngState = s.ngState)
    (hrest : s'.restTotalConstraint = s.restTotalConstraint)
    (hheight : s'.blockchain.height = s.blockchain.height)
    (hfeatures : s'.blockchain.activatedFeatures = s.blockchain.activatedFeatures) :
    Budgeted s' := by
  intro ng hng'
  rw [hng] at hng'
  obtain ⟨spent, htxs, haccounts⟩ := hs ng hng'
  refine ⟨spent, htxs, ?_⟩
  have hlimit : s'.limit = s.limit := by
    unfold limit
    rw [height_of_some (hng.trans hng'), height_of_some hng', hheight]
    exact MiningConstraints.total_of_activatedFeatures _ hfeatures
  rw [hlimit, hrest]
  exact haccounts

/-- **One step.** -/
theorem Budgeted.leads {e : Event} (hchained : Chained settings s.blockchain)
    (hindexed : Indexed s.blockchain) (hlinked : Linked s) (hs : Budgeted s)
    (hQ : LimitsOfHeight s e) (h : e.Leads s s') : Budgeted s' := by
  cases e with
  | processBlock block =>
    obtain ⟨discarded, h⟩ := h
    rcases discarded with _ | discarded
    · rw [processBlock_ignored h]
      exact hs
    · obtain ⟨taken, htake, hw, heq, -⟩ := processBlock_taken h
      obtain ⟨-, b, prev, hr⟩ := takeBlock_eq_ok htake
      obtain ⟨spent, htxs, haccounts⟩ := BlockDiffer.fromBlock_accounts hr
      rw [limitHeight_eq hchained hindexed hlinked, hQ s' discarded _ h hw] at haccounts
      have hng' : s'.ngState = some (Node.keyBlock s'.blockchain.blockchain block taken.result
          taken.reward) := by rw [heq]
      have hrest : s'.restTotalConstraint = taken.result.constraint := by rw [heq]
      intro ng hng
      rw [hng'] at hng
      obtain rfl := Option.some.inj hng
      refine ⟨spent, ?_, ?_⟩
      · -- no micro-blocks yet
        rw [htxs]
        exact (List.append_nil _).symm
      · rw [limit, height_of_some hng', hrest]
        exact haccounts
  | processMicroBlock microBlock =>
    obtain ⟨ng, ledger, r, hng, -, -, hr, rfl⟩ := processMicroBlock_eq_ok h
    obtain ⟨spent, htxs, haccounts⟩ := hs ng hng
    obtain ⟨spent', htxs', haccounts'⟩ := BlockDiffer.fromMicroBlock_accounts hr
    intro ng' hng'
    cases hng'
    refine ⟨spent ++ spent', ?_, ?_⟩
    · rw [List.map_append, htxs, htxs', NgState.transactions_append]
    · have hlimit : limit { s with
          restTotalConstraint := r.constraint
          ngState := some (ng.append microBlock r.diff r.carry r.totalFee) } = s.limit := by
        unfold limit
        rw [height_of_some rfl, height_of_some hng]
      rw [hlimit]
      exact haccounts.trans haccounts'
  | removeAfter blockId =>
    cases h
    rcases removeAfter_cases s blockId with heq | heq | ⟨w, -, -, heq⟩
    · rw [heq]
      exact hs
    · rw [heq]
      intro ng hng
      cases hng
    · rw [heq]
      intro ng hng
      cases hng
  | load key =>
    cases h
    exact hs.of_features rfl rfl (LevelDBWriter.height_load _ _) (by cases key <;> rfl)
  | evict key =>
    cases h
    exact hs.of_features rfl rfl (LevelDBWriter.height_evict _ _) (by cases key <;> rfl)
  | restart =>
    cases h
    intro ng hng
    cases hng

theorem budgeted_reachable {dbSettings : DBSettings}
    (h : Reachable LimitsOfHeight settings dbSettings s) : Budgeted s := by
  induction h with
  | start autoShutdown =>
    intro ng hng
    cases hng
  | step hrun hQ hleads ih =>
    exact ih.leads hrun.chained (indexed_reachable hrun) (linked_reachable hrun) hQ hleads

/-- What the limits of a liquid block say: the remaining budget is the limit of its height less
the amounts of its transactions, each measured on the diff that the differ made of it; nothing
is overfilled; and so the amounts stay within the limit in every dimension. -/
def LimitsHold (s : StoredUpdater) : Prop :=
  ∀ ng, s.ngState = some ng → ∃ spent : List (Transaction × Diff),
    spent.map Prod.fst = ng.transactions ∧
    (∀ p ∈ spent, ∃ prevBlockTimestamp timestamp b,
      TransactionDiffer.apply prevBlockTimestamp timestamp true b p.1 = .ok p.2) ∧
    s.restTotalConstraint = s.limit.spend spent ∧
    s.restTotalConstraint.isOverfilled = false ∧
    ((∀ p ∈ spent, Measured p.1 p.2) → ∀ limit estimator, (limit, estimator) ∈ s.limit.dimensions →
      (spent.map fun p => (estimator.estimate p.1 p.2).toInt).sum ≤ limit.toInt)

/-- **The limits hold** in every run whose blocks are under the same limits at their own height
as the persisted chain was before them. -/
theorem limits_hold {dbSettings : DBSettings}
    (h : Reachable LimitsOfHeight settings dbSettings s) : LimitsHold s := by
  intro ng hng
  obtain ⟨spent, htxs, haccounts⟩ := budgeted_reachable h ng hng
  have hfits : s.limit.isOverfilled = false := MiningConstraints.total_fits _ _
  refine ⟨spent, htxs, haccounts.applied, haccounts.eq_spend, haccounts.fits hfits, ?_⟩
  intro hmeasured limit estimator hdim
  exact haccounts.total_le hfits hdim fun p hp => (hmeasured p hp).estimate_nonneg estimator

end StoredUpdater

end

/-! ## 5. A block on the liquid block

Scripts are activated at the second height. The third block makes the second final, and is
held against the limits of the first height, under which no script runs are counted. -/

namespace Devnet

def scriptedSettings : BlockchainSettings := settings [(BlockchainFeatures.SmartAccounts, 2)]

end Devnet

section
open Devnet StoredUpdater

local instance limitsCrypto : Crypto := voteAnswers.crypto
local instance limitsSerializer : PBTransactionSerializer := pbTransactionSerializer
local instance limitsBlocks : BlockSerializer := voteAnswers.blockSerializer
local instance limitsRide : Ride := voteAnswers.ride

namespace Devnet

section

variable (settings : BlockchainSettings)

def limitsStart : StoredUpdater := .start (.empty settings dbSettings) true

def limitsGenesis : StoredUpdater :=
  ((limitsStart settings).afterBlock genesisBlock).toOption.getD (limitsStart settings)

def limitsSecond : StoredUpdater :=
  ((limitsGenesis settings).afterBlock voteBlock).toOption.getD (limitsStart settings)

def limitsThird : StoredUpdater :=
  ((limitsSecond settings).afterBlock approvalBlock).toOption.getD (limitsStart settings)

end

end Devnet

/-- The run, its last liquid block, and the dimensions that are left and that there should be. -/
theorem limits_run :
    (((limitsStart scriptedSettings).afterBlock genesisBlock).toOption.isSome ∧
        ((limitsGenesis scriptedSettings).afterBlock voteBlock).toOption.isSome ∧
        ((limitsSecond scriptedSettings).afterBlock approvalBlock).toOption.isSome) ∧
      (limitsThird scriptedSettings).ngState.any (fun ng => ng.transactions.isEmpty) = true ∧
      (limitsThird scriptedSettings).restTotalConstraint.dimensions.length = 1 ∧
      (limitsThird scriptedSettings).limit.dimensions.length = 2 ∧
      ((limitsStart (settings [])).afterBlock genesisBlock).toOption.isSome := by
  decide +kernel

/-- The genesis block is under the limits of the empty chain. -/
theorem limits_hold_genesis :
    ((limitsStart (settings [])).afterBlock genesisBlock).toOption.isSome ∧
      LimitsHold (limitsGenesis (settings [])) := by
  obtain ⟨-, -, -, -, hgenesis⟩ := limits_run
  have hstart : Reachable LimitsOfHeight (settings []) dbSettings (limitsStart (settings [])) :=
    .start _
  refine ⟨hgenesis, limits_hold
    (hstart.afterBlock (fun s' discarded w _ hw => ?_) (Validation.eq_ok_getD hgenesis))⟩
  -- nothing is persisted yet, and nothing is activated
  have hsame : (limitsStart (settings [])).blockchain = w := Except.ok.inj hw
  rw [← hsame]
  exact MiningConstraints.total_congr fun f _ => rfl

/-- The third block is not under the limits of its height. -/
theorem limits_missed_scripts :
    ¬∀ (settings : BlockchainSettings) (dbSettings : DBSettings) (s : StoredUpdater),
      Reachable (fun _ _ => True) settings dbSettings s → LimitsHold s := by
  intro hclaim
  obtain ⟨⟨hgenesis, hsecond, hthird⟩, hempty, hrest, hlimit, -⟩ := limits_run
  have hstart : Reachable (fun _ _ => True) scriptedSettings dbSettings
      (limitsStart scriptedSettings) := .start _
  have hrun : Reachable (fun _ _ => True) scriptedSettings dbSettings
      (limitsThird scriptedSettings) :=
    ((hstart.afterBlock trivial (Validation.eq_ok_getD hgenesis)).afterBlock trivial
      (Validation.eq_ok_getD hsecond)).afterBlock trivial (Validation.eq_ok_getD hthird)
  rcases hng : (limitsThird scriptedSettings).ngState with _ | ng
  · rw [hng] at hempty
    exact absurd hempty Bool.false_ne_true
  · rw [hng, Option.any_some, List.isEmpty_iff] at hempty
    obtain ⟨spent, htxs, -, hspend, -⟩ := hclaim _ _ _ hrun ng hng
    rw [hempty] at htxs
    rw [List.map_eq_nil_iff.mp htxs, MiningConstraint.spend_nil] at hspend
    rw [hspend, hlimit] at hrest
    omega

end

end WavesNode
