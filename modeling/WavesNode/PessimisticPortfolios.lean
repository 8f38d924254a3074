/-
What the transactions of the pool may still take from an account.

The pool keeps, for each transaction, what its diff withdraws (`Portfolio.pessimistic`), and
for each address the identifiers of the transactions that withdraw from it. The first map
is overwritten whenever a transaction is added again; the second is extended only when the
identifier is new, and shrunk by what the first map holds when it goes.

So the two stay inverse of each other (`Consistent`), and an address's aggregate is the sum
over the transactions that are there (`run_exact`), as long as a transaction that is added
again withdraws from the same addresses as before. Its new diff need not: it was computed
on a newer state.
-/
import WavesNode.Devnet

set_option autoImplicit false

namespace WavesNode

/-! ## 1. Withdrawals -/

namespace Portfolio

/-- `portfolio == Portfolio.empty`. -/
def isEmpty (p : Portfolio) : Bool :=
  p.balance = 0 && p.lease = LeaseBalance.empty && p.assets.dom = ∅

theorem isEmpty_iff {p : Portfolio} : p.isEmpty = true ↔ p = empty := by
  unfold isEmpty
  rw [Bool.and_eq_true, Bool.and_eq_true, decide_eq_true_eq, decide_eq_true_eq, decide_eq_true_eq]
  constructor
  · rintro ⟨⟨hbalance, hlease⟩, hassets⟩
    refine Portfolio.ext hbalance hlease (FiniteMap.ext fun k => ?_)
    exact (p.assets.get?_eq_none_iff k).mpr (by rw [hassets]; exact Finset.notMem_empty k)
  · rintro rfl
    exact ⟨⟨rfl, rfl⟩, rfl⟩

def pessimistic (self : Portfolio) : Portfolio where
  balance := min self.balance 0
  lease := ⟨0, max self.lease.out 0⟩
  assets := self.assets.filter fun _ v => v < 0

def spendableBalance (self : Portfolio) : Long := self.balance - self.lease.out

def spendableBalanceOf (self : Portfolio) : Asset → Long
  | .Waves => self.spendableBalance
  | .issued asset => self.assets.getOrElse asset 0

end Portfolio

/-- An order in which the elements of a set are met: the source's sets have one, which is not
specified. -/
structure SetOrder (κ : Type) where
  toSeq : Finset κ → List κ
  nodup : ∀ s, (toSeq s).Nodup
  mem : ∀ s k, k ∈ toSeq s ↔ k ∈ s

/-! ## 2. The two maps -/

/-- `PessimisticPortfolios`. -/
structure PessimisticPortfolios where
  transactionPortfolios : FiniteMap ByteStr Portfolios
  transactions : FiniteMap Address (Finset ByteStr)

namespace PessimisticPortfolios

def empty : PessimisticPortfolios := ⟨∅, ∅⟩

/-- `nonEmptyPessimisticPortfolios`. -/
def nonEmptyPessimisticPortfolios (txDiff : Diff) : Portfolios :=
  (txDiff.portfolios.mapVal Portfolio.pessimistic).filter fun _ portfolio => !portfolio.isEmpty

def add (s : PessimisticPortfolios) (txId : ByteStr) (txDiff : Diff) : PessimisticPortfolios :=
  let portfolios := nonEmptyPessimisticPortfolios txDiff
  if portfolios.dom ≠ ∅ then
    { transactionPortfolios := s.transactionPortfolios.insert txId portfolios
      transactions :=
        match s.transactionPortfolios.get? txId with
        | none => .combineWith (· ∪ ·) s.transactions (portfolios.mapVal fun _ => {txId})
        | some _ => s.transactions }
  else s

def contains (s : PessimisticPortfolios) (txId : ByteStr) : Bool :=
  s.transactionPortfolios.contains txId

def getAggregated (s : PessimisticPortfolios) (order : SetOrder ByteStr) (accountAddr : Address) :
    Portfolio :=
  Portfolio.combineAll
    ((order.toSeq (s.transactions.getOrElse accountAddr ∅)).filterMap fun txId =>
      (s.transactionPortfolios.getOrElse txId ∅).get? accountAddr)

def remove (s : PessimisticPortfolios) (txId : ByteStr) : PessimisticPortfolios :=
  match s.transactionPortfolios.get? txId with
  | none => s
  | some txPortfolios =>
    { transactionPortfolios := s.transactionPortfolios.erase txId
      transactions := s.transactions.filterMap fun addr prevTxs =>
        some (if txPortfolios.contains addr then prevTxs.erase txId else prevTxs) }

/-! ## 3. What they are for

The transactions that are there, each with the diff it was last added with. -/

inductive Change where
  | add (txId : ByteStr) (txDiff : Diff)
  | remove (txId : ByteStr)

def change (s : PessimisticPortfolios) : Change → PessimisticPortfolios
  | .add txId txDiff => s.add txId txDiff
  | .remove txId => s.remove txId

/-- The diffs of the transactions that are there. -/
def Change.on (present : FiniteMap ByteStr Diff) : Change → FiniteMap ByteStr Diff
  | .add txId txDiff => present.insert txId txDiff
  | .remove txId => present.erase txId

/-- What a transaction that is there withdraws. -/
def withdrawals (present : FiniteMap ByteStr Diff) (txId : ByteStr) : Portfolios :=
  (present.get? txId).elim ∅ nonEmptyPessimisticPortfolios

/-- The transactions that withdraw from an address. -/
def withdrawing (present : FiniteMap ByteStr Diff) (addr : Address) : Finset ByteStr :=
  present.dom.filter fun txId => (withdrawals present txId).contains addr

/-- What the transactions that are there withdraw from an address. -/
def total (present : FiniteMap ByteStr Diff) (order : SetOrder ByteStr) (addr : Address) :
    Portfolio :=
  Portfolio.combineAll ((order.toSeq (withdrawing present addr)).map fun txId =>
    (withdrawals present txId).of addr)

/-- Aggregates are sums over the transactions that are there, and no address refers to another. -/
structure Exact (s : PessimisticPortfolios) (present : FiniteMap ByteStr Diff) : Prop where
  aggregated : ∀ order addr, s.getAggregated order addr = total present order addr
  indexed : ∀ addr, ∀ txId ∈ s.transactions.getOrElse addr ∅,
    txId ∈ present.dom ∧ s.contains txId = true

/-! ## 4. The invariant -/

/-- The two maps are inverse of each other, and hold what the transactions withdraw. -/
structure Consistent (s : PessimisticPortfolios) (present : FiniteMap ByteStr Diff) : Prop where
  portfolios : ∀ txId, s.transactionPortfolios.getOrElse txId ∅ = withdrawals present txId
  nonEmpty : ∀ txId ps, s.transactionPortfolios.get? txId = some ps → ps.dom ≠ ∅
  index : ∀ addr, s.transactions.getOrElse addr ∅ = withdrawing present addr

variable {s : PessimisticPortfolios} {present : FiniteMap ByteStr Diff}

theorem mem_withdrawing {txId : ByteStr} {addr : Address} :
    txId ∈ withdrawing present addr ↔ addr ∈ (withdrawals present txId).dom := by
  unfold withdrawing
  rw [Finset.mem_filter, FiniteMap.contains_iff_mem_dom]
  refine ⟨fun h => h.2, fun h => ⟨?_, h⟩⟩
  by_contra hnot
  rw [withdrawals, (present.get?_eq_none_iff txId).mpr hnot] at h
  exact Finset.notMem_empty addr h

theorem consistent_empty : Consistent empty ∅ where
  portfolios _ := rfl
  nonEmpty _ _ h := by cases h
  index _ := by
    ext txId
    rw [mem_withdrawing]
    exact iff_of_false (Finset.notMem_empty _) (Finset.notMem_empty _)

/-- **What consistency is for**. -/
theorem Consistent.exact (h : Consistent s present) : Exact s present where
  aggregated order addr := by
    unfold getAggregated total
    rw [h.index]
    refine congrArg Portfolio.combineAll ?_
    rw [← List.filterMap_eq_map]
    refine List.filterMap_congr fun txId hmem => ?_
    rw [order.mem, mem_withdrawing, FiniteMap.mem_dom] at hmem
    obtain ⟨p, hp⟩ := Option.isSome_iff_exists.mp hmem
    rw [h.portfolios, hp, Function.comp_apply, Portfolios.of, FiniteMap.getOrElse, hp]
    rfl
  indexed addr txId hmem := by
    rw [h.index, mem_withdrawing] at hmem
    constructor
    · by_contra hnot
      rw [withdrawals, (present.get?_eq_none_iff txId).mpr hnot] at hmem
      exact Finset.notMem_empty addr hmem
    · rw [← h.portfolios] at hmem
      rw [contains, FiniteMap.contains_iff_mem_dom]
      by_contra hnot
      rw [FiniteMap.getOrElse, (s.transactionPortfolios.get?_eq_none_iff txId).mpr hnot] at hmem
      exact Finset.notMem_empty addr hmem

/-- A transaction that is added while it is held withdraws from the same addresses as before. -/
def Matches (s : PessimisticPortfolios) : Change → Prop
  | .add txId txDiff =>
    ∀ ps, s.transactionPortfolios.get? txId = some ps →
      (nonEmptyPessimisticPortfolios txDiff).dom = ps.dom
  | .remove _ => True

theorem withdrawals_insert (txId id : ByteStr) (txDiff : Diff) :
    withdrawals (present.insert txId txDiff) id =
      if id = txId then nonEmptyPessimisticPortfolios txDiff else withdrawals present id := by
  unfold withdrawals
  rw [FiniteMap.get?_insert]
  split <;> rfl

theorem withdrawals_erase (txId id : ByteStr) :
    withdrawals (present.erase txId) id = if id = txId then ∅ else withdrawals present id := by
  unfold withdrawals
  rw [FiniteMap.get?_erase]
  split <;> rfl

theorem Consistent.congr {present' : FiniteMap ByteStr Diff} (h : Consistent s present)
    (hsame : ∀ txId, withdrawals present' txId = withdrawals present txId) :
    Consistent s present' where
  portfolios txId := by rw [hsame, h.portfolios]
  nonEmpty := h.nonEmpty
  index addr := by
    ext txId
    rw [h.index, mem_withdrawing, mem_withdrawing, hsame]

/-- A transaction that is not held withdraws nothing. -/
theorem Consistent.withdrawals_of_none (h : Consistent s present) {txId : ByteStr}
    (hnone : s.transactionPortfolios.get? txId = none) : withdrawals present txId = ∅ := by
  rw [← h.portfolios, FiniteMap.getOrElse, hnone]
  rfl

theorem Consistent.withdrawals_of_some (h : Consistent s present) {txId : ByteStr} {ps : Portfolios}
    (hsome : s.transactionPortfolios.get? txId = some ps) : withdrawals present txId = ps := by
  rw [← h.portfolios, FiniteMap.getOrElse, hsome]
  rfl

/-! ## 5. One change -/

theorem Consistent.add (h : Consistent s present) {txId : ByteStr} {txDiff : Diff}
    (hmatch : Matches s (.add txId txDiff)) :
    Consistent (s.add txId txDiff) (present.insert txId txDiff) := by
  unfold PessimisticPortfolios.add
  dsimp only
  by_cases hdom : (nonEmptyPessimisticPortfolios txDiff).dom ≠ ∅
  · rw [if_pos hdom]
    refine ⟨fun id => ?_, fun id ps hps => ?_, fun addr => ?_⟩
    · rw [withdrawals_insert, FiniteMap.getOrElse, FiniteMap.get?_insert]
      by_cases hid : id = txId
      · rw [if_pos hid, if_pos hid]
        rfl
      · rw [if_neg hid, if_neg hid]
        exact h.portfolios id
    · rw [FiniteMap.get?_insert] at hps
      by_cases hid : id = txId
      · rw [if_pos hid] at hps
        cases hps
        exact hdom
      · rw [if_neg hid] at hps
        exact h.nonEmpty id ps hps
    · ext id
      rw [mem_withdrawing, withdrawals_insert]
      have hold : id ∈ s.transactions.getOrElse addr ∅ ↔ addr ∈ (withdrawals present id).dom := by
        rw [h.index, mem_withdrawing]
      cases hheld : s.transactionPortfolios.get? txId with
      | none =>
        -- the first insertion extends the sets of the addresses it withdraws from
        have hset : (FiniteMap.combineWith (· ∪ ·) s.transactions
            ((nonEmptyPessimisticPortfolios txDiff).mapVal fun _ => {txId})).getOrElse addr ∅ =
            s.transactions.getOrElse addr ∅ ∪
              if addr ∈ (nonEmptyPessimisticPortfolios txDiff).dom then {txId} else ∅ := by
          simp only [FiniteMap.getOrElse, FiniteMap.get?_combineWith, FiniteMap.get?_mapVal,
            FiniteMap.mem_dom]
          cases s.transactions.get? addr <;>
            cases (nonEmptyPessimisticPortfolios txDiff).get? addr <;> simp
        dsimp only
        rw [hset, Finset.mem_union, hold]
        by_cases hid : id = txId
        · rw [if_pos hid, hid, h.withdrawals_of_none hheld]
          by_cases haddr : addr ∈ (nonEmptyPessimisticPortfolios txDiff).dom <;> simp [haddr]
        · rw [if_neg hid]
          by_cases haddr : addr ∈ (nonEmptyPessimisticPortfolios txDiff).dom <;> simp [haddr, hid]
      | some ps =>
        dsimp only
        rw [hold]
        by_cases hid : id = txId
        · rw [if_pos hid, hid, h.withdrawals_of_some hheld, hmatch ps hheld]
        · rw [if_neg hid]
  · rw [if_neg hdom]
    rw [not_not] at hdom
    have hempty : nonEmptyPessimisticPortfolios txDiff = ∅ := by
      refine FiniteMap.ext fun addr => ?_
      exact (FiniteMap.get?_eq_none_iff _ addr).mpr (by rw [hdom]; exact Finset.notMem_empty addr)
    have hheld : s.transactionPortfolios.get? txId = none := by
      cases hheld : s.transactionPortfolios.get? txId with
      | none => rfl
      | some ps => exact absurd ((hmatch ps hheld).symm.trans hdom) (h.nonEmpty txId ps hheld)
    refine h.congr fun id => ?_
    rw [withdrawals_insert, hempty]
    by_cases hid : id = txId
    · rw [if_pos hid, hid, h.withdrawals_of_none hheld]
    · rw [if_neg hid]

theorem Consistent.remove (h : Consistent s present) (txId : ByteStr) :
    Consistent (s.remove txId) (present.erase txId) := by
  unfold PessimisticPortfolios.remove
  cases hheld : s.transactionPortfolios.get? txId with
  | none =>
    refine h.congr fun id => ?_
    rw [withdrawals_erase]
    by_cases hid : id = txId
    · rw [if_pos hid, hid, h.withdrawals_of_none hheld]
    · rw [if_neg hid]
  | some ps =>
    dsimp only
    refine ⟨fun id => ?_, fun id qs hqs => ?_, fun addr => ?_⟩
    · rw [withdrawals_erase, FiniteMap.getOrElse, FiniteMap.get?_erase]
      by_cases hid : id = txId
      · rw [if_pos hid, if_pos hid]
        rfl
      · rw [if_neg hid, if_neg hid]
        exact h.portfolios id
    · rw [FiniteMap.get?_erase] at hqs
      by_cases hid : id = txId
      · rw [if_pos hid] at hqs
        cases hqs
      · rw [if_neg hid] at hqs
        exact h.nonEmpty id qs hqs
    · have hset : (s.transactions.filterMap fun addr prevTxs =>
          some (if ps.contains addr then prevTxs.erase txId else prevTxs)).getOrElse addr ∅ =
          if ps.contains addr then (s.transactions.getOrElse addr ∅).erase txId
          else s.transactions.getOrElse addr ∅ := by
        simp only [FiniteMap.getOrElse, FiniteMap.get?_filterMap]
        cases s.transactions.get? addr <;> simp
      ext id
      have hold : id ∈ s.transactions.getOrElse addr ∅ ↔ addr ∈ (withdrawals present id).dom := by
        rw [h.index, mem_withdrawing]
      rw [hset, mem_withdrawing, withdrawals_erase]
      by_cases hid : id = txId
      · -- it withdrew from the addresses of its portfolios, and from no other
        rw [hid, h.withdrawals_of_some hheld] at hold
        rw [if_pos hid, hid]
        refine iff_of_false ?_ (Finset.notMem_empty addr)
        by_cases haddr : ps.contains addr = true
        · rw [if_pos haddr]
          exact Finset.notMem_erase txId _
        · rw [if_neg haddr, hold, ← FiniteMap.contains_iff_mem_dom]
          exact haddr
      · rw [if_neg hid, ← hold]
        by_cases haddr : ps.contains addr = true
        · rw [if_pos haddr, Finset.mem_erase]
          exact ⟨fun hmem => hmem.2, fun hmem => ⟨hid, hmem⟩⟩
        · rw [if_neg haddr]

/-! ## 6. Whole runs -/

theorem Consistent.change (h : Consistent s present) {c : Change} (hmatch : Matches s c) :
    Consistent (s.change c) (c.on present) := by
  cases c with
  | add txId txDiff => exact h.add hmatch
  | remove txId => exact h.remove txId

def run (s : PessimisticPortfolios) (changes : List Change) : PessimisticPortfolios :=
  changes.foldl change s

def Change.onAll (present : FiniteMap ByteStr Diff) (changes : List Change) :
    FiniteMap ByteStr Diff :=
  changes.foldl Change.on present

/-- Every change of a run matches what is held before it. -/
def AllMatch (s : PessimisticPortfolios) : List Change → Prop
  | [] => True
  | c :: rest => Matches s c ∧ AllMatch (s.change c) rest

theorem Consistent.run {changes : List Change} (h : Consistent s present)
    (hmatch : AllMatch s changes) : Consistent (s.run changes) (Change.onAll present changes) := by
  induction changes generalizing s present with
  | nil => exact h
  | cons c rest ih => exact ih (h.change hmatch.1) hmatch.2

/-- **Aggregation is exact**: after every run in which a transaction that is added again while it
is held withdraws from the same addresses as before, each aggregate is the sum over the
transactions that are there, and no address refers to another one. -/
theorem run_exact (changes : List Change) (h : AllMatch empty changes) :
    Exact (empty.run changes) (Change.onAll ∅ changes) :=
  (consistent_empty.run h).exact

/-! ## 7. The sums as integers

Withdrawals have no positive amounts, so their saturating sum is the sum of the integers
whenever that fits the word, in whichever order it is taken. -/

theorem amountOf_pessimistic_nonpos (p : Portfolio) (a : Asset) :
    Portfolio.amountOf a p.pessimistic ≤ 0 := by
  cases a with
  | Waves =>
    have hmin : min p.balance 0 ≤ 0 := by
      rw [Std.min_le]
      exact .inr (Int64.le_refl 0)
    exact Int64.le_iff_toInt_le.mp hmin
  | issued t =>
    rw [Portfolio.amountOf, Portfolio.balanceOf, FiniteMap.getOrElse, Portfolio.pessimistic,
      FiniteMap.get?_filter]
    cases p.assets.get? t with
    | none => exact le_refl _
    | some v =>
      by_cases hv : v < 0
      · rw [Option.filter_some, if_pos (decide_eq_true hv)]
        exact le_of_lt (Int64.lt_iff_toInt_lt.mp hv)
      · rw [Option.filter_some, if_neg (by simp [hv])]
        exact le_refl _

theorem amountOf_withdrawals_nonpos (txId : ByteStr) (addr : Address) (a : Asset) :
    Portfolio.amountOf a ((withdrawals present txId).of addr) ≤ 0 := by
  have hnone : Portfolio.amountOf a Portfolio.empty ≤ 0 := (Portfolio.amountOf_empty a).le
  unfold withdrawals
  cases present.get? txId with
  | none => exact hnone
  | some txDiff =>
    change Portfolio.amountOf a ((nonEmptyPessimisticPortfolios txDiff).of addr) ≤ 0
    rw [Portfolios.of, FiniteMap.getOrElse, nonEmptyPessimisticPortfolios, FiniteMap.get?_filter,
      FiniteMap.get?_mapVal]
    cases txDiff.portfolios.get? addr with
    | none => exact hnone
    | some p =>
      rw [Option.map_some, Option.filter_some]
      split
      · exact amountOf_pessimistic_nonpos p a
      · exact hnone

theorem amountOf_combineAll {ps : List Portfolio} {a : Asset}
    (hps : ∀ p ∈ ps, Portfolio.amountOf a p ≤ 0)
    (hfits : Long.MinValue.toInt ≤ (ps.map (Portfolio.amountOf a)).sum) :
    Portfolio.amountOf a (Portfolio.combineAll ps) = (ps.map (Portfolio.amountOf a)).sum := by
  -- with what has been added up so far, from the first portfolio on
  have hfold : ∀ (ps : List Portfolio) (acc : Portfolio),
      (∀ p ∈ ps, Portfolio.amountOf a p ≤ 0) → Portfolio.amountOf a acc ≤ 0 →
      Long.MinValue.toInt ≤ Portfolio.amountOf a acc + (ps.map (Portfolio.amountOf a)).sum →
      Portfolio.amountOf a (ps.foldl Portfolio.combine acc) =
        Portfolio.amountOf a acc + (ps.map (Portfolio.amountOf a)).sum := by
    intro ps
    induction ps with
    | nil =>
      intro acc _ _ _
      simp
    | cons p rest ih =>
      intro acc hps hacc hfits
      rw [List.map_cons, List.sum_cons] at hfits ⊢
      have hp : Portfolio.amountOf a p ≤ 0 := hps p List.mem_cons_self
      have hrest : (rest.map (Portfolio.amountOf a)).sum ≤ 0 := by
        have := List.sum_le_sum (f := Portfolio.amountOf a) (g := fun _ => 0) fun q hq =>
          hps q (List.mem_cons_of_mem p hq)
        simpa using this
      have hstep : Portfolio.amountOf a (acc.combine p) =
          Portfolio.amountOf a acc + Portfolio.amountOf a p := by
        refine Portfolio.amountOf_combine ⟨?_, ?_⟩
        · rw [Long.toInt_MinValue] at hfits
          omega
        · omega
      rw [List.foldl_cons, ih _ (fun q hq => hps q (List.mem_cons_of_mem p hq)) (by omega)
        (by omega), hstep]
      omega
  have hempty : Portfolio.amountOf a Portfolio.empty = 0 := Portfolio.amountOf_empty a
  rw [Portfolio.combineAll, hfold ps Portfolio.empty hps (by omega) (by omega), hempty, zero_add]

/-- **The aggregate is a sum of integers**, one for each transaction, whenever that fits. -/
theorem amountOf_total (order : SetOrder ByteStr) (addr : Address) (a : Asset)
    (hfits : Long.MinValue.toInt ≤ ∑ txId ∈ withdrawing present addr,
      Portfolio.amountOf a ((withdrawals present txId).of addr)) :
    Portfolio.amountOf a (total present order addr) =
      ∑ txId ∈ withdrawing present addr,
        Portfolio.amountOf a ((withdrawals present txId).of addr) := by
  have hsum : ((order.toSeq (withdrawing present addr)).map fun txId =>
      Portfolio.amountOf a ((withdrawals present txId).of addr)).sum =
      ∑ txId ∈ withdrawing present addr,
        Portfolio.amountOf a ((withdrawals present txId).of addr) := by
    have hset : (order.toSeq (withdrawing present addr)).toFinset = withdrawing present addr := by
      ext txId
      rw [List.mem_toFinset, order.mem]
    rw [← List.sum_toFinset _ (order.nodup _), hset]
  rw [total, amountOf_combineAll, List.map_map]
  · exact hsum
  · intro p hp
    obtain ⟨txId, -, rfl⟩ := List.mem_map.mp hp
    exact amountOf_withdrawals_nonpos txId addr a
  · rw [List.map_map]
    exact hfits.trans hsum.ge

end PessimisticPortfolios

namespace Devnet

def ascendingOrder : SetOrder ByteStr :=
  ⟨FiniteMap.ascending, FiniteMap.nodup_ascending, fun _ _ => FiniteMap.mem_ascending⟩

def withdrawalFrom (a : Account) (amount : Long) : Diff :=
  { Diff.empty with portfolios := .single a.address (Portfolio.waves (-amount)) }

def pooledId : ByteStr := List.replicate 32 1

/-- A transaction is added again with another amount, and leaves. -/
def addedTwice : List PessimisticPortfolios.Change :=
  [.add pooledId (withdrawalFrom alice 1), .add pooledId (withdrawalFrom alice 2),
    .remove pooledId]

/-- A transaction is added again with a diff that takes from another account. -/
def addedElsewhere : List PessimisticPortfolios.Change :=
  [.add pooledId (withdrawalFrom alice 1), .add pooledId (withdrawalFrom bob 1)]

end Devnet

namespace PessimisticPortfolios

open Devnet

theorem run_exact_addedTwice :
    Exact (empty.run addedTwice) (Change.onAll ∅ addedTwice) := by
  refine run_exact addedTwice ⟨?_, ?_, trivial, trivial⟩
  · intro ps hps
    cases hps
  · intro ps hps
    obtain rfl := Option.some.inj hps
    decide

/-- An account that only the second diff takes from is not in the index. -/
theorem not_exact_addedElsewhere :
    ¬∀ changes : List Change, Exact (empty.run changes) (Change.onAll ∅ changes) := by
  intro h
  have hbob := congrArg Portfolio.balance ((h addedElsewhere).aggregated ascendingOrder bob.address)
  revert hbob
  decide +kernel

end PessimisticPortfolios

end WavesNode
