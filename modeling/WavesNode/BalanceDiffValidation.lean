/-
The last check: no account of a diff may end with a negative balance.

Only the accounts in the diff are looked at. Waves are checked only where the diff
takes some; an asset is checked wherever the diff touches it. Both sums are plain
machine sums.
-/
import WavesNode.FeeValidation

set_option autoImplicit false

namespace WavesNode

namespace BalanceDiffValidation

/-- The Waves half of `check`: the text of the first thing wrong, if any. -/
def checkWaves (b : Blockchain) (acc : Address) (portfolioDiff : Portfolio) : Option String :=
  let balance := portfolioDiff.balance
  let oldWaves := b.balance acc .Waves
  let oldLease := b.leaseBalance acc
  let lease := oldLease.combine portfolioDiff.lease
  let show_ (w : Long) (l : LeaseBalance) := s!"({w},LeaseBalance({l.in_},{l.out}))"
  if balance < 0 then
    let newB := oldWaves + balance
    if newB < 0 then
      some s!"negative waves balance: {acc.stringRepr}, old: {oldWaves}, new: {newB}"
    else if newB < lease.out ∧
        b.height > b.settings.functionalitySettings.allowLeasedBalanceTransferUntilHeight then
      if newB + lease.in_ - lease.out < 0 then
        some s!"negative effective balance: {acc.stringRepr}, old: {show_ oldWaves oldLease}, new: {show_ newB lease}"
      else if portfolioDiff.lease.out = 0 then
        some s!"{acc.stringRepr} trying to spend leased money"
      else
        some s!"leased being more than own: {acc.stringRepr}, old: {show_ oldWaves oldLease}, new: {show_ newB lease}"
    else none
  else none

/-- `check` of one account. -/
def check (b : Blockchain) (acc : Address) (portfolioDiff : Portfolio) : Option String :=
  (checkWaves b acc portfolioDiff).or
    (if ∃ a ∈ portfolioDiff.assets.dom,
        b.balance acc (.issued a) + portfolioDiff.balanceOf (.issued a) < 0 then
      some s!"negative asset balance: {acc.stringRepr}"
    else none)

/-- `BalanceDiffValidation.apply`. -/
def apply (b : Blockchain) (d : Diff) : Validation Unit :=
  let positiveBalanceErrors := d.portfolios.filterMap (check b)
  if positiveBalanceErrors.dom = ∅ then .ok ()
  else .fail (.AccountBalanceError positiveBalanceErrors)

/-! ## What an accepted diff leaves behind -/

theorem check_eq_none {b : Blockchain} {d : Diff} {u : Unit} (h : apply b d = .ok u)
    {acc : Address} {p : Portfolio} (hp : d.portfolios.get? acc = some p) :
    check b acc p = none := by
  unfold apply at h
  by_cases hdom : (d.portfolios.filterMap (check b)).dom = ∅
  · have hnone : (d.portfolios.filterMap (check b)).get? acc = none := by
      rw [FiniteMap.get?_eq_none_iff, hdom]
      exact Finset.notMem_empty acc
    rwa [FiniteMap.get?_filterMap, hp, Option.bind_some] at hnone
  · simp [hdom] at h

/-- An account that an accepted diff takes Waves from keeps a non-negative balance. -/
theorem waves_nonneg {b : Blockchain} {d : Diff} {u : Unit} (h : apply b d = .ok u)
    (acc : Address) (hneg : (d.portfolios.of acc).balance < 0) :
    0 ≤ b.balance acc .Waves + (d.portfolios.of acc).balance := by
  cases hp : d.portfolios.get? acc with
  | none =>
    rw [Portfolios.of, FiniteMap.getOrElse, hp] at hneg
    exact absurd hneg (by decide)
  | some p =>
    have hof : d.portfolios.of acc = p := by rw [Portfolios.of, FiniteMap.getOrElse, hp]; rfl
    rw [hof] at hneg ⊢
    have hc := check_eq_none h hp
    rw [check, Option.or_eq_none_iff] at hc
    have hw := hc.1
    unfold checkWaves at hw
    by_contra hlt
    have hlt' : b.balance acc .Waves + p.balance < 0 := by
      rw [Long.neg_iff]
      rw [Long.nonneg_iff] at hlt
      omega
    simp [hneg, hlt'] at hw

/-- An asset balance that an accepted diff touches stays non-negative. -/
theorem asset_nonneg {b : Blockchain} {d : Diff} {u : Unit} (h : apply b d = .ok u)
    {acc : Address} {p : Portfolio} (hp : d.portfolios.get? acc = some p) {a : IssuedAsset}
    (ha : a ∈ p.assets.dom) : 0 ≤ b.balance acc (.issued a) + p.balanceOf (.issued a) := by
  have hc := check_eq_none h hp
  rw [check, Option.or_eq_none_iff] at hc
  have hnot := hc.2
  by_contra hlt
  have hlt' : b.balance acc (.issued a) + p.balanceOf (.issued a) < 0 := by
    rw [Long.neg_iff]
    rw [Long.nonneg_iff] at hlt
    omega
  rw [if_pos ⟨a, ha, hlt'⟩] at hnot
  cases hnot

end BalanceDiffValidation

end WavesNode
