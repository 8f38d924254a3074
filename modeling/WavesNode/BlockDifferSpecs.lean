/-
What the block differ answers: the fold over the transactions, taken apart.

`BlockDiffer.apply` folds `applyTx` over the transactions and the patches over the result.
The inversion lemmas here name the pieces, and `foldlM_induction` is the rule by which a
property of the accumulated changes is proved of the whole fold: kept by one transaction,
by one patch, and so by all of them.
-/
import WavesNode.BlockDiffer

set_option autoImplicit false

namespace WavesNode

/-! ## 1. Folds that can fail -/

/-- **The induction rule of a fold that can fail**: a relation between what has come out
and the elements it was made of, kept by every step. -/
theorem Validation.foldlM_induction {α β : Type} {f : β → α → Validation β}
    {P : β → List α → Prop} {l : List α}
    (hstep : ∀ x a y done, a ∈ l → P x done → f x a = .ok y → P y (done ++ [a]))
    {x y : β} (h : l.foldlM f x = .ok y) (done : List α) (h0 : P x done) :
    P y (done ++ l) := by
  induction l generalizing x done with
  | nil =>
    cases h
    rwa [List.append_nil]
  | cons a rest ih =>
    rw [List.foldlM_cons] at h
    obtain ⟨x', hx', h⟩ := Validation.bind_eq_ok.mp h
    have hfirst : P x' (done ++ [a]) := hstep x a x' done List.mem_cons_self h0 hx'
    have hrest := ih (fun x a y done ha => hstep x a y done (List.mem_cons_of_mem _ ha)) h _ hfirst
    rwa [List.append_assoc] at hrest

/-! ## 2. The differ -/

namespace BlockDiffer

variable [Crypto] [PBTransactionSerializer] [Ride] [BlockSerializer]

omit [BlockSerializer] in
/-- A transaction's diff, the miner's part of its fee, and what they add to the result. -/
theorem applyTx_eq_ok {b : Blockchain} {prevBlockTimestamp : Option Long} {timestamp : Long}
    {blockGenerator : Address} {hasSponsorship hasNg verify : Bool} {acc r : Result}
    {tx : Transaction}
    (h : applyTx b prevBlockTimestamp timestamp blockGenerator hasSponsorship hasNg verify acc tx =
      .ok r) :
    ∃ newDiff curBlockFees nextBlockFee,
      TransactionDiffer.apply prevBlockTimestamp timestamp verify
        (CompositeBlockchain b (some acc.diff)) tx = .ok newDiff ∧
      clearSponsorship (CompositeBlockchain b (some acc.diff)) hasSponsorship hasNg tx =
        .ok (curBlockFees, nextBlockFee) ∧
      r.diff = acc.diff.combine
        (if hasNg then
          newDiff.combine { Diff.empty with portfolios := .single blockGenerator curBlockFees }
        else newDiff) ∧
      r.carry = (if hasNg then acc.carry + nextBlockFee else 0) ∧
      r.totalFee = acc.totalFee + curBlockFees.balance + nextBlockFee := by
  obtain ⟨newDiff, hdiff, h⟩ := Validation.bind_eq_ok.mp h
  dsimp only at h
  split at h
  · cases h
  · obtain ⟨⟨curBlockFees, nextBlockFee⟩, hfees, h⟩ := Validation.bind_eq_ok.mp h
    cases h
    refine ⟨newDiff, curBlockFees, nextBlockFee, hdiff, hfees, ?_, rfl, rfl⟩
    rcases hasNg with _ | _ <;> rfl

/-- The changes a patch makes, on top of what it finds. -/
def PatchStep (b : Blockchain) (d d' : Diff) : Prop :=
  d' = d ∨ ∃ p ∈ patches b, ∃ patchDiff,
    p.predicate (CompositeBlockchain b (some d)) = true ∧
    p.patch (CompositeBlockchain b (some d)) = .ok patchDiff ∧ d' = d.combine patchDiff

omit [Ride] [BlockSerializer] in
/-- The patches add their changes one after another and leave the rest of the result. -/
theorem applyPatches_induction {b : Blockchain} {result r : Result} {P : Diff → Prop}
    (h : applyPatches b result = .ok r) (h0 : P result.diff)
    (hstep : ∀ d d', PatchStep b d d' → P d → P d') :
    P r.diff ∧ r.carry = result.carry ∧ r.totalFee = result.totalFee := by
  obtain ⟨⟨d, patchDiff⟩, hfold, h⟩ := Validation.bind_eq_ok.mp h
  cases h
  refine ⟨?_, rfl, rfl⟩
  refine Validation.foldlM_induction (P := fun x _ => P x.1) ?_ hfold [] h0
  intro x p y done hp hx hy
  dsimp only at hy
  split at hy
  · rename_i hfires
    obtain ⟨pd, hpd, hy⟩ := Validation.bind_eq_ok.mp hy
    cases hy
    exact hstep _ _ (.inr ⟨p, hp, pd, hfires, hpd, rfl⟩) hx
  · cases hy
    exact hx

omit [BlockSerializer] in
/-- The fold and the patches of an accepted list of transactions. -/
theorem apply_eq_ok {b : Blockchain} {constraint : MiningConstraint}
    {prevBlockTimestamp : Option Long} {initDiff : Diff} {hasNg : Bool} {txs : List Transaction}
    {verify : Bool} {r : Result}
    (h : apply b constraint prevBlockTimestamp initDiff hasNg txs verify = .ok r) :
    ∃ timestamp lastBlock result, b.lastBlockTimestamp = some timestamp ∧
      b.lastBlock = some lastBlock ∧
      txs.foldlM (applyTx b prevBlockTimestamp timestamp lastBlock.sender.toAddress
        (b.height ≥ b.sponsoredFeesSwitchHeight) hasNg verify)
        ⟨initDiff, 0, 0, constraint, ⟨initDiff, []⟩⟩ = .ok result ∧
      applyPatches b result = .ok r := by
  obtain ⟨timestamp, htime, h⟩ := Validation.bind_eq_ok.mp h
  obtain ⟨lastBlock, hlast, h⟩ := Validation.bind_eq_ok.mp h
  obtain ⟨result, hfold, h⟩ := Validation.bind_eq_ok.mp h
  exact ⟨timestamp, lastBlock, result, Validation.get_eq_ok.mp htime,
    Validation.get_eq_ok.mp hlast, hfold, h⟩

omit [BlockSerializer] in
/-- **The induction rule of the block differ**: a relation between the changes and the
transactions they come from, kept by every transaction and every patch. -/
theorem apply_induction {b : Blockchain} {constraint : MiningConstraint}
    {prevBlockTimestamp : Option Long} {initDiff : Diff} {hasNg : Bool} {txs : List Transaction}
    {verify : Bool} {r : Result} {P : Diff → List Transaction → Prop}
    (h : apply b constraint prevBlockTimestamp initDiff hasNg txs verify = .ok r)
    (h0 : P initDiff [])
    (htx : ∀ timestamp acc done tx newDiff blockGenerator curBlockFees, tx ∈ txs → P acc done →
      TransactionDiffer.apply prevBlockTimestamp timestamp verify
        (CompositeBlockchain b (some acc)) tx = .ok newDiff →
      P (acc.combine
        (if hasNg then
          newDiff.combine { Diff.empty with portfolios := .single blockGenerator curBlockFees }
        else newDiff)) (done ++ [tx]))
    (hpatch : ∀ d d', PatchStep b d d' → P d txs → P d' txs) : P r.diff txs := by
  obtain ⟨timestamp, lastBlock, result, -, -, hfold, hpatches⟩ := apply_eq_ok h
  have hresult : P result.diff ([] ++ txs) := by
    refine Validation.foldlM_induction (P := fun x done => P x.diff done) ?_ hfold [] h0
    intro acc tx acc' done hmem hacc hacc'
    obtain ⟨newDiff, curBlockFees, nextBlockFee, hdiff, -, hd, -, -⟩ := applyTx_eq_ok hacc'
    rw [hd]
    exact htx timestamp acc.diff done tx newDiff _ curBlockFees hmem hacc hdiff
  exact (applyPatches_induction hpatches hresult hpatch).1

end BlockDiffer

end WavesNode
