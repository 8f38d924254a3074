/-
Portfolios and the saturating sum they are combined with.

`safeSum` is the sum when it fits and `Long.MinValue` when it does not: an
overflowed balance is meant to be caught later as a negative one. It is *not*
associative, and a plain `+` elsewhere in the ledger wraps instead, so every law
below carries the range it needs.

`Portfolio.amountOf` reads a portfolio's Waves or asset amount as an integer. The
combination lemmas say when it is additive; conservation arguments sum it and
never look at a machine word.
-/
import WavesNode.TxValidationError
import Mathlib.Algebra.Order.BigOperators.Group.List

set_option autoImplicit false

namespace WavesNode

/-! ## 1. `safeSum` -/

/-- `Try(Math.addExact(x, y)).getOrElse(Long.MinValue)`. -/
def safeSum (x y : Long) : Long := (Long.addExact x y).getD Long.MinValue

theorem toInt_safeSum {x y : Long} (h : Long.InRange (x.toInt + y.toInt)) :
    (safeSum x y).toInt = x.toInt + y.toInt := by
  rw [safeSum, Long.addExact, if_pos h, Option.getD_some, Long.toInt_add h]

theorem safeSum_of_not_inRange {x y : Long} (h : ¬Long.InRange (x.toInt + y.toInt)) :
    safeSum x y = Long.MinValue := by
  rw [safeSum, Long.addExact, if_neg h, Option.getD_none]

theorem safeSum_comm (x y : Long) : safeSum x y = safeSum y x := by
  by_cases h : Long.InRange (x.toInt + y.toInt)
  · refine Long.toInt_inj ?_
    rw [toInt_safeSum h, toInt_safeSum (by rwa [add_comm]), add_comm]
  · rw [safeSum_of_not_inRange h, safeSum_of_not_inRange (by rwa [add_comm])]

@[simp] theorem safeSum_zero (x : Long) : safeSum x 0 = x := by
  have hx : Long.InRange (x.toInt + (0 : Long).toInt) := by
    rw [Long.toInt_zero, add_zero]
    exact Long.inRange_toInt x
  refine Long.toInt_inj ?_
  rw [toInt_safeSum hx, Long.toInt_zero, add_zero]

@[simp] theorem zero_safeSum (x : Long) : safeSum 0 x = x := by rw [safeSum_comm, safeSum_zero]

/-- The saturating sum is associative as long as neither partial sum leaves the
word: then both sides are the exact sum of the three. -/
theorem safeSum_assoc {x y z : Long} (hxy : Long.InRange (x.toInt + y.toInt))
    (hyz : Long.InRange (y.toInt + z.toInt)) :
    safeSum (safeSum x y) z = safeSum x (safeSum y z) := by
  by_cases h : Long.InRange (x.toInt + y.toInt + z.toInt)
  · refine Long.toInt_inj ?_
    rw [toInt_safeSum (by rwa [toInt_safeSum hxy]), toInt_safeSum hxy,
      toInt_safeSum (by rwa [toInt_safeSum hyz, ← add_assoc]), toInt_safeSum hyz, add_assoc]
  · rw [safeSum_of_not_inRange (by rwa [toInt_safeSum hxy]),
      safeSum_of_not_inRange (by rwa [toInt_safeSum hyz, ← add_assoc])]

/-- A saturating sum of non-negative words is the exact sum as long as that fits. -/
theorem toInt_foldl_safeSum {l : List Long} {init : Long} (hl : ∀ x ∈ l, 0 ≤ x.toInt)
    (hsum : init.toInt + (l.map Int64.toInt).sum ≤ Long.MaxValue.toInt) :
    (l.foldl safeSum init).toInt = init.toInt + (l.map Int64.toInt).sum := by
  induction l generalizing init with
  | nil => simp
  | cons x rest ih =>
    rw [Long.toInt_MaxValue] at hsum
    rw [List.map_cons, List.sum_cons] at hsum ⊢
    have hx : 0 ≤ x.toInt := hl x List.mem_cons_self
    have hrest : 0 ≤ (rest.map Int64.toInt).sum := by
      refine List.sum_nonneg ?_
      intro z hz
      obtain ⟨y, hy, rfl⟩ := List.mem_map.mp hz
      exact hl y (List.mem_cons_of_mem x hy)
    have hinit := (Long.inRange_toInt init).1
    have hstep : (safeSum init x).toInt = init.toInt + x.toInt :=
      toInt_safeSum ⟨by omega, by omega⟩
    rw [List.foldl_cons, ih (fun y hy => hl y (List.mem_cons_of_mem x hy))]
    · rw [hstep]
      ring
    · rw [hstep, Long.toInt_MaxValue]
      omega

/-- Leaving terms out of a saturating sum is summing zeros. -/
theorem foldl_safeSum_filter {α : Type} (l : List α) (p : α → Bool) (f : α → Long)
    (init : Long) :
    (l.map fun t => if p t then f t else 0).foldl safeSum init =
      ((l.filter p).map f).foldl safeSum init := by
  induction l generalizing init with
  | nil => rfl
  | cons t rest ih =>
    rw [List.map_cons, List.foldl_cons, ih]
    by_cases hp : p t = true
    · rw [if_pos hp, List.filter_cons_of_pos hp, List.map_cons, List.foldl_cons]
    · rw [if_neg hp, List.filter_cons_of_neg hp, safeSum_zero]

theorem foldl_safeSum_const_zero {α : Type} (l : List α) (init : Long) :
    (l.map fun _ => (0 : Long)).foldl safeSum init = init := by
  induction l generalizing init with
  | nil => rfl
  | cons t rest ih => rw [List.map_cons, List.foldl_cons, ih, safeSum_zero]

/-! ## 2. Lease balances and portfolios -/

structure LeaseBalance where
  in_ : Long
  out : Long
  deriving DecidableEq

namespace LeaseBalance

def empty : LeaseBalance := ⟨0, 0⟩

def combine (x y : LeaseBalance) : LeaseBalance := ⟨safeSum x.in_ y.in_, safeSum x.out y.out⟩

@[simp] theorem combine_empty (x : LeaseBalance) : combine x empty = x := by
  simp [combine, empty]

@[simp] theorem empty_combine (x : LeaseBalance) : combine empty x = x := by
  simp [combine, empty]

end LeaseBalance

/-- `Block.Fraction`: divide first, then multiply. -/
structure Fraction where
  dividend : Long
  divider : Long

namespace Fraction

def apply (f : Fraction) (l : Long) : Long := l / f.divider * f.dividend

end Fraction

/-- `Block.CurrentBlockFeePart`: two fifths of a fee go to the block's own miner. -/
def CurrentBlockFeePart : Fraction := ⟨2, 5⟩

@[ext]
structure Portfolio where
  balance : Long
  lease : LeaseBalance
  assets : FiniteMap IssuedAsset Long

namespace Portfolio

def empty : Portfolio := ⟨0, LeaseBalance.empty, ∅⟩

def build (a : Asset) (amount : Long) : Portfolio :=
  match a with
  | .Waves => ⟨amount, LeaseBalance.empty, ∅⟩
  | .issued t => ⟨0, LeaseBalance.empty, .single t amount⟩

def waves (amount : Long) : Portfolio := build .Waves amount

def balanceOf (p : Portfolio) : Asset → Long
  | .Waves => p.balance
  | .issued asset => p.assets.getOrElse asset 0

/-- The monoid's `combine`. -/
def combine (older newer : Portfolio) : Portfolio where
  balance := safeSum older.balance newer.balance
  lease := older.lease.combine newer.lease
  assets := .combineWith safeSum older.assets newer.assets

def combineAll (ps : List Portfolio) : Portfolio := ps.foldl combine empty

def multiply (p : Portfolio) (f : Fraction) : Portfolio :=
  ⟨f.apply p.balance, LeaseBalance.empty, p.assets.mapVal f.apply⟩

def minus (p other : Portfolio) : Portfolio where
  balance := p.balance - other.balance
  lease := LeaseBalance.empty
  assets := .combineWith safeSum p.assets (other.assets.mapVal fun x => -x)

def negate (p : Portfolio) : Portfolio := empty.minus p

def effectiveBalance (p : Portfolio) : Long := safeSum p.balance p.lease.in_ - p.lease.out

@[simp] theorem balance_build_waves (x : Long) : (build .Waves x).balance = x := rfl

@[simp] theorem balance_build_issued (t : IssuedAsset) (x : Long) :
    (build (.issued t) x).balance = 0 := rfl

@[simp] theorem lease_build (a : Asset) (x : Long) : (build a x).lease = LeaseBalance.empty := by
  cases a <;> rfl

@[simp] theorem combine_empty (p : Portfolio) : p.combine empty = p := by
  ext <;> simp [combine, empty]

@[simp] theorem empty_combine (p : Portfolio) : empty.combine p = p := by
  ext <;> simp [combine, empty]

/-! ## 3. Amounts as integers -/

/-- The amount of an asset a portfolio holds, as the integer it stands for. -/
def amountOf (a : Asset) (p : Portfolio) : ℤ := (p.balanceOf a).toInt

@[simp] theorem amountOf_empty (a : Asset) : amountOf a empty = 0 := by
  cases a <;> rfl

theorem amountOf_waves (p : Portfolio) : amountOf .Waves p = p.balance.toInt := rfl

theorem balanceOf_build (a b : Asset) (x : Long) :
    (build a x).balanceOf b = if a = b then x else 0 := by
  cases a with
  | Waves => cases b <;> rfl
  | issued t =>
    cases b with
    | Waves => rfl
    | issued u =>
      by_cases h : u = t
      · simp [build, balanceOf, FiniteMap.getOrElse, h]
      · simp [build, balanceOf, FiniteMap.getOrElse, FiniteMap.get?_single, h, Ne.symm h]

theorem amountOf_build (a b : Asset) (x : Long) :
    amountOf b (build a x) = if a = b then x.toInt else 0 := by
  rw [amountOf, balanceOf_build]
  split <;> rfl

/-- Every amount of a combination is the saturating sum of the amounts. -/
theorem balanceOf_combine (a : Asset) (p q : Portfolio) :
    (p.combine q).balanceOf a = safeSum (p.balanceOf a) (q.balanceOf a) := by
  cases a with
  | Waves => rfl
  | issued t =>
    simp only [balanceOf, combine, FiniteMap.getOrElse, FiniteMap.get?_combineWith]
    cases p.assets.get? t <;> cases q.assets.get? t <;> simp

/-- Combination adds amounts wherever the exact sum fits the word. -/
theorem amountOf_combine {a : Asset} {p q : Portfolio}
    (h : Long.InRange (amountOf a p + amountOf a q)) :
    amountOf a (p.combine q) = amountOf a p + amountOf a q := by
  rw [amountOf, balanceOf_combine]
  exact toInt_safeSum h

theorem lease_combine (p q : Portfolio) : (p.combine q).lease = p.lease.combine q.lease := rfl

end Portfolio

/-! ## 4. Portfolio maps

A diff holds one portfolio delta for each address it touches. -/

/-- The portfolio part of a diff. -/
abbrev Portfolios := FiniteMap Address Portfolio

namespace Portfolios

def combine (older newer : Portfolios) : Portfolios := .combineWith Portfolio.combine older newer

/-- The delta of an address: nothing where the diff has no entry. -/
def of (ps : Portfolios) (a : Address) : Portfolio := ps.getOrElse a Portfolio.empty

@[simp] theorem of_empty (a : Address) : of (∅ : Portfolios) a = Portfolio.empty := rfl

theorem of_single (a b : Address) (p : Portfolio) :
    of (.single a p) b = if b = a then p else Portfolio.empty := by
  unfold of FiniteMap.getOrElse
  rw [FiniteMap.get?_single]
  split <;> rfl

/-- The delta of a combined diff is the combination of the deltas. -/
@[simp] theorem of_combine (ps qs : Portfolios) (a : Address) :
    (ps.combine qs).of a = (ps.of a).combine (qs.of a) := by
  simp only [of, combine, FiniteMap.getOrElse, FiniteMap.get?_combineWith]
  cases ps.get? a <;> cases qs.get? a <;> simp

theorem dom_combine (ps qs : Portfolios) : (ps.combine qs).dom = ps.dom ∪ qs.dom := rfl

@[simp] theorem combine_empty (ps : Portfolios) : ps.combine ∅ = ps :=
  FiniteMap.combineWith_empty_right _ ps

@[simp] theorem empty_combine (ps : Portfolios) : combine ∅ ps = ps :=
  FiniteMap.combineWith_empty_left _ ps

theorem of_eq_empty_of_not_mem {ps : Portfolios} {a : Address} (h : a ∉ ps.dom) :
    ps.of a = Portfolio.empty := by
  rw [of, FiniteMap.getOrElse, (ps.get?_eq_none_iff a).mpr h]
  rfl

/-- What a diff adds to one balance. -/
def delta (ps : Portfolios) (a : Address) (x : Asset) : Long := (ps.of a).balanceOf x

@[simp] theorem delta_empty (a : Address) (x : Asset) : delta ∅ a x = 0 := by
  cases x <;> rfl

@[simp] theorem delta_combine (ps qs : Portfolios) (a : Address) (x : Asset) :
    (ps.combine qs).delta a x = safeSum (ps.delta a x) (qs.delta a x) := by
  rw [delta, of_combine, Portfolio.balanceOf_combine]
  rfl

theorem delta_single (a b : Address) (p : Portfolio) (x : Asset) :
    delta (.single a p) b x = if b = a then p.balanceOf x else 0 := by
  rw [delta, of_single]
  split
  · rfl
  · cases x <;> rfl

theorem delta_single_of_ne {a b : Address} (h : b ≠ a) (p : Portfolio) (x : Asset) :
    delta (.single a p) b x = 0 := by
  rw [delta_single, if_neg h]

theorem delta_ofList_pair (a b c : Address) (p q : Portfolio) (x : Asset) :
    delta (.ofList [(a, p), (b, q)]) c x =
      if c = b then q.balanceOf x else if c = a then p.balanceOf x else 0 := by
  rw [delta, of, FiniteMap.getOrElse, FiniteMap.get?_ofList_pair]
  by_cases hb : c = b
  · rw [if_pos hb, if_pos hb]
    rfl
  · rw [if_neg hb, if_neg hb]
    by_cases ha : c = a
    · rw [if_pos ha, if_pos ha]
      rfl
    · rw [if_neg ha, if_neg ha]
      cases x <;> rfl

/-- A fold of combinations adds up, one balance at a time. -/
theorem delta_foldl (l : List Portfolios) (init : Portfolios) (a : Address) (x : Asset) :
    (l.foldl combine init).delta a x =
      (l.map fun ps => ps.delta a x).foldl safeSum (init.delta a x) := by
  induction l generalizing init with
  | nil => rfl
  | cons ps rest ih => rw [List.foldl_cons, ih, delta_combine, List.map_cons, List.foldl_cons]

/-- The total amount of an asset over all addresses of a diff. -/
def totalOf (a : Asset) (ps : Portfolios) : ℤ := ps.total fun _ p => p.amountOf a

@[simp] theorem totalOf_empty (a : Asset) : totalOf a ∅ = 0 := rfl

@[simp] theorem totalOf_single (a : Asset) (addr : Address) (p : Portfolio) :
    totalOf a (.single addr p) = p.amountOf a :=
  FiniteMap.total_single _ addr p

/-- Totals add where every address's sum fits the word. -/
theorem totalOf_combine {a : Asset} {ps qs : Portfolios}
    (h : ∀ addr, Long.InRange ((ps.of addr).amountOf a + (qs.of addr).amountOf a)) :
    totalOf a (ps.combine qs) = totalOf a ps + totalOf a qs := by
  refine FiniteMap.total_combineWith _ _ ps qs ?_
  intro addr p q hp hq
  refine Portfolio.amountOf_combine ?_
  have := h addr
  rwa [of, of, FiniteMap.getOrElse, FiniteMap.getOrElse, hp, hq, Option.getD_some,
    Option.getD_some] at this

end Portfolios

end WavesNode
