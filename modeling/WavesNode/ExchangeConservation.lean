/-
What an exchange moves.

Six contributions make the portfolios of an exchange: the fees and the reward of the
matcher, the two order fees, and both sides of the price and of the amount. `due` is what an
address is owed by all six when nothing is bounded. The recorded change is `due` wherever
that fits the word; what does not fit is recorded as the least word, and then the books do
not balance. It can only happen in the price asset, whose amounts the checks of an order
bound by the word alone: amounts and fees stay below `MaxAmount`, and the eight of them that
can meet at one address are far from the edge.
-/
import WavesNode.ActionSequences

set_option autoImplicit false

namespace WavesNode

/-! ## 1. Totals by address -/

namespace Portfolios

/-- A total is the sum of the changes, over any addresses that include the entries. -/
theorem totalOf_eq_sum {ps : Portfolios} {s : Finset Address} (h : ps.dom ⊆ s) (x : Asset) :
    totalOf x ps = ∑ a ∈ s, (ps.delta a x).toInt := by
  rw [totalOf, FiniteMap.total_eq_sum_of_subset _ ps s h]
  refine Finset.sum_congr rfl ?_
  intro a _
  rw [delta, of, FiniteMap.getOrElse]
  cases ps.get? a with
  | none => exact (Portfolio.amountOf_empty x).symm
  | some p => rfl

end Portfolios

namespace ExchangeTransaction

def matcher [Crypto] (tx : ExchangeTransaction) : Address := tx.buyOrder.matcherPublicKey.toAddress

def buyer [Crypto] (tx : ExchangeTransaction) : Address := tx.buyOrder.senderPublicKey.toAddress

def seller [Crypto] (tx : ExchangeTransaction) : Address := tx.sellOrder.senderPublicKey.toAddress

end ExchangeTransaction

namespace ExchangeTransactionDiff

/-! ## 2. What an address is due -/

/-- An amount, for the one address it belongs to. -/
def share (who a : Address) (z : ℤ) : ℤ := if a = who then z else 0

/-- An amount, in the one asset it is of. -/
def inAsset (asset x : Asset) (z : ℤ) : ℤ := if asset = x then z else 0

section
variable [Crypto]

def feeDue (tx : ExchangeTransaction) (x : Asset) (a : Address) : ℤ :=
  share tx.matcher a
      (inAsset tx.buyOrder.matcherFeeAssetId x tx.buyMatcherFee.toInt +
        inAsset tx.sellOrder.matcherFeeAssetId x tx.sellMatcherFee.toInt -
        inAsset .Waves x tx.fee.toInt) -
    share tx.buyer a (inAsset tx.buyOrder.matcherFeeAssetId x tx.buyMatcherFee.toInt) -
    share tx.seller a (inAsset tx.sellOrder.matcherFeeAssetId x tx.sellMatcherFee.toInt)

def priceDue (tx : ExchangeTransaction) (spent : ℤ) (x : Asset) (a : Address) : ℤ :=
  inAsset tx.buyOrder.assetPair.priceAsset x (share tx.seller a spent - share tx.buyer a spent)

def amountDue (tx : ExchangeTransaction) (x : Asset) (a : Address) : ℤ :=
  inAsset tx.buyOrder.assetPair.amountAsset x
    (share tx.buyer a tx.amount.toInt - share tx.seller a tx.amount.toInt)

/-- What an exchange that costs the buyer `spent` changes of an asset at an address. -/
def due (tx : ExchangeTransaction) (spent : ℤ) (x : Asset) (a : Address) : ℤ :=
  feeDue tx x a + priceDue tx spent x a + amountDue tx x a

/-- The addresses of an exchange. -/
def parties (tx : ExchangeTransaction) : Finset Address := {tx.matcher, tx.buyer, tx.seller}

omit [Crypto] in
theorem sum_share {s : Finset Address} {who : Address} (h : who ∈ s) (z : ℤ) :
    ∑ a ∈ s, share who a z = z := by
  unfold share
  rw [Finset.sum_ite_eq' s who fun _ => z, if_pos h]

/-- What is due adds up: the fees and both sides of the trade cancel, the fee of the
transaction is left. -/
theorem sum_due (tx : ExchangeTransaction) (spent : ℤ) (x : Asset) :
    ∑ a ∈ parties tx, due tx spent x a = -inAsset .Waves x tx.fee.toInt := by
  have hmatcher : tx.matcher ∈ parties tx := by simp [parties]
  have hbuyer : tx.buyer ∈ parties tx := by simp [parties]
  have hseller : tx.seller ∈ parties tx := by simp [parties]
  have hprice : ∑ a ∈ parties tx, priceDue tx spent x a = 0 := by
    unfold priceDue inAsset
    split
    · rw [Finset.sum_sub_distrib, sum_share hseller, sum_share hbuyer]
      omega
    · exact Finset.sum_const_zero
  have hamount : ∑ a ∈ parties tx, amountDue tx x a = 0 := by
    unfold amountDue inAsset
    split
    · rw [Finset.sum_sub_distrib, sum_share hbuyer, sum_share hseller]
      omega
    · exact Finset.sum_const_zero
  unfold due
  rw [Finset.sum_add_distrib, Finset.sum_add_distrib, hprice, hamount]
  unfold feeDue
  rw [Finset.sum_sub_distrib, Finset.sum_sub_distrib, sum_share hmatcher, sum_share hbuyer,
    sum_share hseller]
  omega

/-! ## 3. What is recorded -/

theorem dom_portfolios (tx : ExchangeTransaction) (p q r s : Long) :
    (portfolios tx p q r s).dom ⊆ parties tx := by
  intro a ha
  unfold portfolios at ha
  simp only [Portfolios.dom_combine, FiniteMap.dom_single, Finset.mem_union,
    Finset.mem_singleton] at ha
  simp only [parties, Finset.mem_insert, Finset.mem_singleton, ExchangeTransaction.matcher,
    ExchangeTransaction.buyer, ExchangeTransaction.seller]
  tauto

/-- What the validator bounds, and the bound it leaves out: no fee of a matcher is as far below
zero as it may be above. -/
structure Bounded (tx : ExchangeTransaction) : Prop where
  amount : 0 < tx.amount.toInt ∧ tx.amount.toInt ≤ Order.MaxAmount.toInt
  price : 0 < tx.price.toInt
  fee : 0 < tx.fee.toInt ∧ tx.fee.toInt ≤ Order.MaxAmount.toInt
  buyFee : -Order.MaxAmount.toInt ≤ tx.buyMatcherFee.toInt ∧
    tx.buyMatcherFee.toInt ≤ Order.MaxAmount.toInt
  sellFee : -Order.MaxAmount.toInt ≤ tx.sellMatcherFee.toInt ∧
    tx.sellMatcherFee.toInt ≤ Order.MaxAmount.toInt
  assets : tx.buyOrder.assetPair.amountAsset ≠ tx.buyOrder.assetPair.priceAsset

omit [Crypto] in
theorem toInt_MaxAmount : Order.MaxAmount.toInt = 1000000000000000000 := by decide

/-- The contributions of the fees. -/
def feePortfolios (tx : ExchangeTransaction) : Portfolios :=
  (Portfolios.combine
      (.single tx.matcher (Portfolio.combineAll
        [getOrderFeePortfolio tx.buyOrder tx.buyMatcherFee,
          getOrderFeePortfolio tx.sellOrder tx.sellMatcherFee, .waves (-tx.fee)]))
      (.single tx.buyer (getOrderFeePortfolio tx.buyOrder (-tx.buyMatcherFee)))).combine
    (.single tx.seller (getOrderFeePortfolio tx.sellOrder (-tx.sellMatcherFee)))

/-- The contributions of the two sides of a trade, in one asset. -/
def sidePortfolios (tx : ExchangeTransaction) (asset : Asset) (buy sell : Long) : Portfolios :=
  Portfolios.combine (.single tx.buyer (.build asset buy)) (.single tx.seller (.build asset sell))

theorem portfolios_eq (tx : ExchangeTransaction) (p q r s : Long) :
    portfolios tx p q r s =
      ((feePortfolios tx).combine
        (sidePortfolios tx tx.buyOrder.assetPair.priceAsset p r)).combine
          (sidePortfolios tx tx.buyOrder.assetPair.amountAsset q s) := rfl

omit [Crypto] in
theorem toInt_share (who a : Address) (z : Long) :
    (if a = who then z else 0).toInt = share who a z.toInt := by
  unfold share
  split <;> rfl

omit [Crypto] in
theorem share_within (who a : Address) {lo hi z : ℤ} (hz : lo ≤ z ∧ z ≤ hi) (hlo : lo ≤ 0)
    (hhi : 0 ≤ hi) : lo ≤ share who a z ∧ share who a z ≤ hi := by
  unfold share
  split
  · exact hz
  · exact ⟨hlo, hhi⟩

omit [Crypto] in
theorem inAsset_within (asset x : Asset) {lo hi z : ℤ} (hz : lo ≤ z ∧ z ≤ hi) (hlo : lo ≤ 0)
    (hhi : 0 ≤ hi) : lo ≤ inAsset asset x z ∧ inAsset asset x z ≤ hi := by
  unfold inAsset
  split
  · exact hz
  · exact ⟨hlo, hhi⟩

omit [Crypto] in
theorem inAsset_neg (asset x : Asset) (z : ℤ) : inAsset asset x (-z) = -inAsset asset x z := by
  unfold inAsset
  split <;> omega

omit [Crypto] in
theorem share_neg (who a : Address) (z : ℤ) : share who a (-z) = -share who a z := by
  unfold share
  split <;> omega

omit [Crypto] in
theorem toInt_balanceOf_build (asset x : Asset) (z : Long) :
    ((Portfolio.build asset z).balanceOf x).toInt = inAsset asset x z.toInt :=
  Portfolio.amountOf_build asset x z

omit [Crypto] in
theorem toInt_delta_single (who a : Address) (p : Portfolio) (x : Asset) :
    (Portfolios.delta (.single who p) a x).toInt = share who a (p.balanceOf x).toInt := by
  rw [Portfolios.delta_single]
  exact toInt_share who a (p.balanceOf x)

omit [Crypto] in
theorem toInt_safeSum_of {u v : Long} {y z : ℤ} (hu : u.toInt = y) (hv : v.toInt = z)
    (h : Long.InRange (y + z)) : (safeSum u v).toInt = y + z := by
  subst hu hv
  exact toInt_safeSum h

/-- The fees fit the word at every step, so they are recorded as they are due. -/
theorem toInt_delta_feePortfolios {tx : ExchangeTransaction} (hb : Bounded tx) (a : Address)
    (x : Asset) :
    ((feePortfolios tx).delta a x).toInt = feeDue tx x a ∧
      -5000000000000000000 ≤ feeDue tx x a ∧ feeDue tx x a ≤ 4000000000000000000 := by
  obtain ⟨-, -, hfee, hbuy, hsell, -⟩ := hb
  rw [toInt_MaxAmount] at hfee hbuy hsell
  have hnegFee : (-tx.fee).toInt = -tx.fee.toInt := Long.toInt_neg_of_pos hfee.1
  have hnegBuy : (-tx.buyMatcherFee).toInt = -tx.buyMatcherFee.toInt :=
    Long.toInt_neg ⟨by omega, by omega⟩
  have hnegSell : (-tx.sellMatcherFee).toInt = -tx.sellMatcherFee.toInt :=
    Long.toInt_neg ⟨by omega, by omega⟩
  -- each amount as it stands in this asset
  have hu := inAsset_within tx.buyOrder.matcherFeeAssetId x hbuy (by omega) (by omega)
  have hv := inAsset_within tx.sellOrder.matcherFeeAssetId x hsell (by omega) (by omega)
  have hw := inAsset_within .Waves x ⟨hfee.1.le, hfee.2⟩ (by omega) (by omega)
  have hbuyer := inAsset_neg tx.buyOrder.matcherFeeAssetId x tx.buyMatcherFee.toInt
  have hseller := inAsset_neg tx.sellOrder.matcherFeeAssetId x tx.sellMatcherFee.toInt
  have hreward := inAsset_neg .Waves x tx.fee.toInt
  -- the matcher collects three of them
  have hmatcher : ((Portfolio.combineAll [getOrderFeePortfolio tx.buyOrder tx.buyMatcherFee,
      getOrderFeePortfolio tx.sellOrder tx.sellMatcherFee, .waves (-tx.fee)]).balanceOf x).toInt =
      inAsset tx.buyOrder.matcherFeeAssetId x tx.buyMatcherFee.toInt +
        inAsset tx.sellOrder.matcherFeeAssetId x tx.sellMatcherFee.toInt -
        inAsset .Waves x tx.fee.toInt := by
    rw [Portfolio.combineAll, List.foldl_cons, List.foldl_cons, List.foldl_cons, List.foldl_nil,
      Portfolio.empty_combine, Portfolio.balanceOf_combine, Portfolio.balanceOf_combine]
    have hfirst := toInt_balanceOf_build tx.buyOrder.matcherFeeAssetId x tx.buyMatcherFee
    have hsecond := toInt_balanceOf_build tx.sellOrder.matcherFeeAssetId x tx.sellMatcherFee
    have hthird := toInt_balanceOf_build .Waves x (-tx.fee)
    rw [hnegFee, hreward] at hthird
    have hsum := toInt_safeSum_of hfirst hsecond ⟨by omega, by omega⟩
    rw [getOrderFeePortfolio, getOrderFeePortfolio, Portfolio.waves,
      toInt_safeSum_of hsum hthird ⟨by omega, by omega⟩]
    rfl
  have hm : -3000000000000000000 ≤
        inAsset tx.buyOrder.matcherFeeAssetId x tx.buyMatcherFee.toInt +
          inAsset tx.sellOrder.matcherFeeAssetId x tx.sellMatcherFee.toInt -
          inAsset .Waves x tx.fee.toInt ∧
      inAsset tx.buyOrder.matcherFeeAssetId x tx.buyMatcherFee.toInt +
          inAsset tx.sellOrder.matcherFeeAssetId x tx.sellMatcherFee.toInt -
          inAsset .Waves x tx.fee.toInt ≤ 2000000000000000000 := ⟨by omega, by omega⟩
  have hm' := share_within tx.matcher a hm (by omega) (by omega)
  have hu' := share_within tx.buyer a hu (by omega) (by omega)
  have hv' := share_within tx.seller a hv (by omega) (by omega)
  -- the matcher, then the buyer, then the seller
  have hfirst := toInt_delta_single tx.matcher a (Portfolio.combineAll
    [getOrderFeePortfolio tx.buyOrder tx.buyMatcherFee,
      getOrderFeePortfolio tx.sellOrder tx.sellMatcherFee, .waves (-tx.fee)]) x
  rw [hmatcher] at hfirst
  have hsecond := toInt_delta_single tx.buyer a
    (getOrderFeePortfolio tx.buyOrder (-tx.buyMatcherFee)) x
  rw [getOrderFeePortfolio, toInt_balanceOf_build, hnegBuy, hbuyer, share_neg] at hsecond
  have hthird := toInt_delta_single tx.seller a
    (getOrderFeePortfolio tx.sellOrder (-tx.sellMatcherFee)) x
  rw [getOrderFeePortfolio, toInt_balanceOf_build, hnegSell, hseller, share_neg] at hthird
  have hsum := toInt_safeSum_of hfirst hsecond ⟨by omega, by omega⟩
  have hall := toInt_safeSum_of hsum hthird ⟨by omega, by omega⟩
  refine ⟨?_, ?_⟩
  · rw [feePortfolios, Portfolios.delta_combine, Portfolios.delta_combine]
    refine hall.trans ?_
    rw [feeDue]
    omega
  · rw [feeDue]
    omega

/-- The two sides of a trade are recorded exactly, in their asset and in no other. -/
theorem toInt_delta_sidePortfolios (tx : ExchangeTransaction) (asset : Asset) {buy sell : Long}
    (a : Address) (x : Asset)
    (h : Long.InRange (share tx.buyer a buy.toInt + share tx.seller a sell.toInt)) :
    ((sidePortfolios tx asset buy sell).delta a x).toInt =
      inAsset asset x (share tx.buyer a buy.toInt + share tx.seller a sell.toInt) := by
  have hbuy := toInt_delta_single tx.buyer a (.build asset buy) x
  have hsell := toInt_delta_single tx.seller a (.build asset sell) x
  rw [toInt_balanceOf_build] at hbuy hsell
  rw [sidePortfolios, Portfolios.delta_combine]
  by_cases hx : asset = x
  · simp only [inAsset, if_pos hx] at hbuy hsell ⊢
    exact toInt_safeSum_of hbuy hsell h
  · have hzero : ∀ who, share who a 0 = 0 := fun who => ite_self 0
    simp only [inAsset, if_neg hx, hzero] at hbuy hsell ⊢
    exact toInt_safeSum_of hbuy hsell (by decide)

theorem toInt_delta_price (tx : ExchangeTransaction) {spent : Long} (hspent : 0 ≤ spent.toInt)
    (a : Address) (x : Asset) :
    ((sidePortfolios tx tx.buyOrder.assetPair.priceAsset (-spent) spent).delta a x).toInt =
      priceDue tx spent.toInt x a := by
  have hneg := Long.toInt_neg_of_nonneg hspent
  have hrange := Long.inRange_toInt spent
  have hbuyer := share_within tx.buyer a ⟨hspent, le_refl _⟩ le_rfl hspent
  have hseller := share_within tx.seller a ⟨hspent, le_refl _⟩ le_rfl hspent
  obtain ⟨-, hhi⟩ := hrange
  rw [toInt_delta_sidePortfolios, priceDue, hneg, share_neg]
  · congr 1
    omega
  · rw [hneg, share_neg]
    exact ⟨by omega, by omega⟩

theorem toInt_delta_amount {tx : ExchangeTransaction} (hb : Bounded tx) (a : Address)
    (x : Asset) :
    ((sidePortfolios tx tx.buyOrder.assetPair.amountAsset tx.amount (-tx.amount)).delta a
      x).toInt = amountDue tx x a := by
  have hneg := Long.toInt_neg_of_pos hb.amount.1
  obtain ⟨hlo, hhi⟩ := Long.inRange_toInt tx.amount
  have hpos := hb.amount.1.le
  have hbuyer := share_within tx.buyer a ⟨hpos, le_refl _⟩ le_rfl hpos
  have hseller := share_within tx.seller a ⟨hpos, le_refl _⟩ le_rfl hpos
  rw [toInt_delta_sidePortfolios, amountDue, hneg, share_neg]
  · congr 1
  · rw [hneg, share_neg]
    exact ⟨by omega, by omega⟩

/-- An amount side is due within the bound. -/
theorem amountDue_within {tx : ExchangeTransaction} (hb : Bounded tx) (x : Asset) (a : Address) :
    -1000000000000000000 ≤ amountDue tx x a ∧ amountDue tx x a ≤ 1000000000000000000 := by
  obtain ⟨hpos, hmax⟩ := hb.amount
  rw [toInt_MaxAmount] at hmax
  have hbuyer := share_within tx.buyer a ⟨hpos.le, hmax⟩ le_rfl (by omega)
  have hseller := share_within tx.seller a ⟨hpos.le, hmax⟩ le_rfl (by omega)
  exact inAsset_within _ x ⟨by omega, by omega⟩ (by omega) (by omega)

/-- **What is recorded.** The change of an address is what it is due if that fits the word, and
the least word if it does not. -/
theorem toInt_delta_portfolios {tx : ExchangeTransaction} (hb : Bounded tx) {spent : Long}
    (hspent : 0 ≤ spent.toInt) (a : Address) (x : Asset) :
    ((portfolios tx (-spent) tx.amount spent (-tx.amount)).delta a x).toInt =
      if Long.InRange (due tx spent.toInt x a) then due tx spent.toInt x a
      else Long.MinValue.toInt := by
  obtain ⟨hfee, hfeelo, hfeehi⟩ := toInt_delta_feePortfolios hb a x
  have hprice := toInt_delta_price tx hspent a x
  have hamount := toInt_delta_amount hb a x
  rw [portfolios_eq, Portfolios.delta_combine, Portfolios.delta_combine]
  by_cases hx : tx.buyOrder.assetPair.priceAsset = x
  · -- the last step adds nothing to the price asset: the step before it decides
    have hzero : amountDue tx x a = 0 := by
      rw [amountDue, inAsset, if_neg fun heq => hb.assets (heq.trans hx.symm)]
    rw [hzero] at hamount
    rw [Long.toInt_inj (hamount.trans Long.toInt_zero.symm), safeSum_zero, due, hzero, add_zero,
      ← hfee, ← hprice]
    split
    · exact toInt_safeSum ‹_›
    · rw [safeSum_of_not_inRange ‹_›]
  · -- without the price every amount is small
    have hzero : priceDue tx spent.toInt x a = 0 := by rw [priceDue, inAsset, if_neg hx]
    obtain ⟨hlo, hhi⟩ := amountDue_within hb x a
    rw [hzero] at hprice
    have hdue : Long.InRange (due tx spent.toInt x a) := by
      rw [due, hzero]
      exact ⟨by omega, by omega⟩
    rw [if_pos hdue, due, hzero]
    exact toInt_safeSum_of (toInt_safeSum_of hfee hprice ⟨by omega, by omega⟩) hamount
      ⟨by omega, by omega⟩

/-- What does not fit is of the price asset, and belongs to one of two different sides. -/
theorem of_not_inRange {tx : ExchangeTransaction} (hb : Bounded tx) {spent : ℤ}
    {x : Asset} {a : Address} (h : ¬Long.InRange (due tx spent x a)) :
    x = tx.buyOrder.assetPair.priceAsset ∧ (a = tx.buyer ∨ a = tx.seller) ∧
      tx.buyer ≠ tx.seller := by
  obtain ⟨-, hfeelo, hfeehi⟩ := toInt_delta_feePortfolios hb a x
  obtain ⟨hlo, hhi⟩ := amountDue_within hb x a
  have hprice : priceDue tx spent x a ≠ 0 := by
    intro hzero
    refine h ?_
    rw [due, hzero]
    exact ⟨by omega, by omega⟩
  unfold priceDue inAsset at hprice
  split at hprice
  · refine ⟨Eq.symm ‹_›, ?_, ?_⟩
    · by_contra hnot
      rw [not_or] at hnot
      refine hprice ?_
      rw [share, share, if_neg hnot.1, if_neg hnot.2, sub_zero]
    · intro heq
      refine hprice ?_
      rw [heq, sub_self]
  · exact absurd rfl hprice

/-! ## 4. Conservation -/

theorem parties_eq (tx : ExchangeTransaction) :
    parties tx = insert tx.matcher {tx.buyer, tx.seller} := rfl

/-- **What is recorded balances exactly when all of it fits.** A change below the word is too
high by less than the fees, and one above it is too low by more than the word holds: the two do
not make up for each other. -/
theorem totalOf_portfolios {tx : ExchangeTransaction} (hb : Bounded tx) {spent : Long}
    (hspent : 0 ≤ spent.toInt) (x : Asset) :
    (portfolios tx (-spent) tx.amount spent (-tx.amount)).totalOf x =
        -inAsset .Waves x tx.fee.toInt ↔
      ∀ a, Long.InRange (due tx spent.toInt x a) := by
  rw [Portfolios.totalOf_eq_sum (dom_portfolios tx _ _ _ _), ← sum_due tx spent.toInt x]
  constructor
  · intro hsum
    by_contra hnot
    rw [not_forall] at hnot
    obtain ⟨a, ha⟩ := hnot
    obtain ⟨hx, -, hne⟩ := of_not_inRange hb ha
    -- the errors are those of the two sides
    have herr : ∑ c ∈ ({tx.buyer, tx.seller} : Finset Address),
        (((portfolios tx (-spent) tx.amount spent (-tx.amount)).delta c x).toInt -
          due tx spent.toInt x c) = 0 := by
      rw [← sub_eq_zero, ← Finset.sum_sub_distrib] at hsum
      rw [← hsum]
      refine Finset.sum_subset (Finset.subset_insert tx.matcher _) ?_
      intro c _ hc
      have hrange : Long.InRange (due tx spent.toInt x c) := by
        by_contra hout
        refine hc ?_
        rw [Finset.mem_insert, Finset.mem_singleton]
        exact (of_not_inRange hb hout).2.1
      rw [toInt_delta_portfolios hb hspent, if_pos hrange, sub_self]
    rw [Finset.sum_pair hne, toInt_delta_portfolios hb hspent,
      toInt_delta_portfolios hb hspent] at herr
    have hamount : ∀ c, amountDue tx x c = 0 := by
      intro c
      rw [amountDue, inAsset, if_neg fun heq => hb.assets (heq.trans hx)]
    have hbuyer : due tx spent.toInt x tx.buyer = feeDue tx x tx.buyer - spent.toInt := by
      rw [due, hamount, priceDue, inAsset, if_pos hx.symm, share, share, if_neg hne, if_pos rfl]
      omega
    have hseller : due tx spent.toInt x tx.seller = feeDue tx x tx.seller + spent.toInt := by
      rw [due, hamount, priceDue, inAsset, if_pos hx.symm, share, share, if_pos rfl,
        if_neg hne.symm]
      omega
    obtain ⟨-, hlo, hhi⟩ := toInt_delta_feePortfolios hb tx.buyer x
    obtain ⟨-, hlo', hhi'⟩ := toInt_delta_feePortfolios hb tx.seller x
    obtain ⟨-, hword⟩ := Long.inRange_toInt spent
    rw [hbuyer, hseller, Long.toInt_MinValue] at herr
    have hone : ¬Long.InRange (feeDue tx x tx.buyer - spent.toInt) ∨
        ¬Long.InRange (feeDue tx x tx.seller + spent.toInt) := by
      rw [← hbuyer, ← hseller]
      obtain ⟨-, heq | heq, -⟩ := of_not_inRange hb ha
      · exact .inl (heq ▸ ha)
      · exact .inr (heq ▸ ha)
    by_cases hb' : Long.InRange (feeDue tx x tx.buyer - spent.toInt)
    · by_cases hs' : Long.InRange (feeDue tx x tx.seller + spent.toInt)
      · exact hone.elim (fun hout => hout hb') fun hout => hout hs'
      · rw [if_pos hb', if_neg hs'] at herr
        omega
    · rw [if_neg hb'] at herr
      unfold Long.InRange at hb'
      by_cases hs' : Long.InRange (feeDue tx x tx.seller + spent.toInt)
      · rw [if_pos hs'] at herr
        omega
      · rw [if_neg hs'] at herr
        omega
  · intro hall
    refine Finset.sum_congr rfl ?_
    intro a _
    rw [toInt_delta_portfolios hb hspent, if_pos (hall a)]

/-! ## 5. The price -/

omit [Crypto] in
theorem assets_ne_of_isValid {o : Order} {atTime : Long} (h : o.isValid atTime = none) :
    o.assetPair.amountAsset ≠ o.assetPair.priceAsset := by
  rw [Order.isValid, Order.firstFailure, Option.map_eq_none_iff, List.find?_eq_none] at h
  have hpair := h (o.assetPair.amountAsset ≠ o.assetPair.priceAsset, "Invalid AssetPair")
    (by simp)
  rw [Bool.not_eq_true, Bool.not_eq_false', decide_eq_true_eq] at hpair
  exact hpair

omit [Crypto] in
/-- The validator's bounds, the matchers' fees being bounded below. -/
theorem bounded_of_validate {tx : ExchangeTransaction}
    (hvalid : ExchangeTxValidator.validate tx = []) (hbuy : -Order.MaxAmount ≤ tx.buyMatcherFee)
    (hsell : -Order.MaxAmount ≤ tx.sellMatcherFee) :
    Bounded tx ∧ tx.buyOrder.orderType = .BUY ∧ tx.sellOrder.orderType = .SELL ∧
      tx.price.toInt ≤ tx.buyOrder.price.toInt ∧ tx.sellOrder.price.toInt ≤ tx.price.toInt := by
  unfold ExchangeTxValidator.validate at hvalid
  simp only [List.append_eq_nil_iff, V.fee_eq_nil, V.positiveAmount_eq_nil, V.cond_eq_nil,
    decide_eq_true_eq, Option.isNone_iff_eq_none, Bool.and_eq_true, Bool.or_eq_true]
    at hvalid
  obtain ⟨⟨⟨⟨⟨⟨⟨⟨⟨⟨⟨⟨⟨⟨⟨hfee, hamount⟩, hamount'⟩, hprice⟩, hprice'⟩, hsellFee⟩, hbuyFee⟩, hfee'⟩,
    hbuyType⟩, hsellType⟩, hmatcher⟩, hpair⟩, hbuyOrder⟩, hsellOrder⟩, hcross⟩, -⟩ := hvalid
  have hneg : (-Order.MaxAmount).toInt = -Order.MaxAmount.toInt := by decide
  rw [Long.le_iff, hneg] at hbuy hsell
  refine ⟨⟨⟨Long.pos_iff.mp hamount, Long.le_iff.mp hamount'⟩, Long.pos_iff.mp hprice,
    ⟨Long.pos_iff.mp hfee, Long.le_iff.mp hfee'⟩, ⟨hbuy, Long.le_iff.mp hbuyFee⟩,
    ⟨hsell, Long.le_iff.mp hsellFee⟩, assets_ne_of_isValid hbuyOrder⟩, hbuyType, hsellType,
    Long.le_iff.mp hcross.1, Long.le_iff.mp hcross.2⟩

/-- What both sides of an exchange pay and receive of the price asset. -/
def priceAmount (tx : ExchangeTransaction) : ℤ :=
  (tx.amount.toInt * tx.price.toInt).tdiv Order.PriceConstant

omit [Crypto] in
theorem toInt_spend {tx : ExchangeTransaction} (htype : tx.buyOrder.orderType = .BUY) {v : Long}
    (h : tx.buyOrder.getSpendAmount tx.amount tx.price = .ok v) : v.toInt = priceAmount tx := by
  rw [Order.getSpendAmount, htype] at h
  dsimp only at h
  split at h
  · exact nomatch h
  · exact (Long.longValueExact_eq_some.mp (Validation.ofOption_eq_ok.mp h)).2

omit [Crypto] in
theorem toInt_receive {tx : ExchangeTransaction} (htype : tx.sellOrder.orderType = .SELL)
    {v : Long} (h : tx.sellOrder.getReceiveAmount tx.amount tx.price = .ok v) :
    v.toInt = priceAmount tx := by
  rw [Order.getReceiveAmount, htype] at h
  exact (Long.longValueExact_eq_some.mp (Validation.ofOption_eq_ok.mp h)).2

/-- The exchange as it is settled: one price for both sides, within both limits; every change as
it is due where it fits the word; and conservation exactly when all of them fit. -/
structure Settled (tx : ExchangeTransaction) (ps : Portfolios) (spent : ℤ) : Prop where
  rounded : spent * Order.PriceConstant ≤ tx.amount.toInt * tx.price.toInt ∧
    tx.amount.toInt * tx.price.toInt < (spent + 1) * Order.PriceConstant
  buyLimit : spent * Order.PriceConstant ≤ tx.amount.toInt * tx.buyOrder.price.toInt
  sellLimit : tx.amount.toInt * tx.sellOrder.price.toInt < (spent + 1) * Order.PriceConstant
  recorded : ∀ a x, (ps.delta a x).toInt =
    if Long.InRange (due tx spent x a) then due tx spent x a else Long.MinValue.toInt
  conserved : ∀ x, ps.totalOf x = -inAsset .Waves x tx.fee.toInt ↔
    ∀ a, Long.InRange (due tx spent x a)
  unfit : ∀ a x, ¬Long.InRange (due tx spent x a) → x = tx.buyOrder.assetPair.priceAsset

/-- **What is settled.** -/
theorem apply_settled [PBTransactionSerializer] {b : Blockchain} {tx : ExchangeTransaction}
    {d : Diff} (hvalid : ExchangeTxValidator.validate tx = [])
    (hbuy : -Order.MaxAmount ≤ tx.buyMatcherFee) (hsell : -Order.MaxAmount ≤ tx.sellMatcherFee)
    (h : apply b tx = .ok d) : ∃ spent, Settled tx d.portfolios spent := by
  obtain ⟨hb, hbuyType, hsellType, hbuyPrice, hsellPrice⟩ := bounded_of_validate hvalid hbuy hsell
  obtain ⟨-, spend, got, receive, given, runs, complexity, hspend, hgot, hreceive, hgiven, rfl⟩ :=
    apply_eq_ok h
  have hspent := toInt_spend hbuyType hspend
  -- both sides round alike, and the amount goes over as it is
  obtain rfl : receive = spend :=
    Long.toInt_inj ((toInt_receive hsellType hreceive).trans hspent.symm)
  rw [Order.getReceiveAmount, hbuyType] at hgot
  rw [Order.getSpendAmount, hsellType] at hgiven
  obtain rfl : tx.amount = got := Except.ok.inj hgot
  obtain rfl : tx.amount = given := Except.ok.inj hgiven
  have hamount := hb.amount.1
  have hproduct : 0 ≤ tx.amount.toInt * tx.price.toInt := Int.mul_nonneg hamount.le hb.price.le
  have hnonneg : 0 ≤ receive.toInt := by
    rw [hspent, priceAmount]
    exact Int.tdiv_nonneg hproduct (by decide)
  have hrounded : receive.toInt * Order.PriceConstant ≤ tx.amount.toInt * tx.price.toInt ∧
      tx.amount.toInt * tx.price.toInt < (receive.toInt + 1) * Order.PriceConstant := by
    rw [hspent, priceAmount, Int.tdiv_eq_ediv_of_nonneg hproduct, Order.PriceConstant]
    omega
  refine ⟨receive.toInt, hrounded, hrounded.1.trans ?_, lt_of_le_of_lt ?_ hrounded.2,
    toInt_delta_portfolios hb hnonneg, totalOf_portfolios hb hnonneg,
    fun a x hout => (of_not_inRange hb hout).1⟩
  · exact Int.mul_le_mul_of_nonneg_left hbuyPrice hamount.le
  · exact Int.mul_le_mul_of_nonneg_left hsellPrice hamount.le

end

end ExchangeTransactionDiff

/-! ## 6. Two exchanges

Bob buys Waves of the miner for Alice's token, and the founder matches them. In the first
exchange 300 of the least parts cost 600.000003 tokens, and 600 are paid. The second is at
the edge: the price takes nearly the whole word, and Bob's fee, in the same token, does not
fit beside it. -/

namespace Devnet

/-- An order of the third version, matched by the founder. -/
def tokenOrder (owner : Account) (orderType : OrderType) (amount price matcherFee : Long)
    (matcherFeeAssetId : Asset) : Order where
  version := 3
  senderPublicKey := owner.publicKey
  matcherPublicKey := founder.publicKey
  assetPair := ⟨.Waves, .issued ⟨tokenId⟩⟩
  orderType := orderType
  amount := amount
  price := price
  timestamp := 1500000000000
  expiration := 1500086400000
  matcherFee := matcherFee
  matcherFeeAssetId := matcherFeeAssetId
  proofs := ⟨[]⟩

def smallExchange : ExchangeTransaction where
  version := 2
  buyOrder := tokenOrder bob .BUY 300 200000002 300000 .Waves
  sellOrder := tokenOrder miner .SELL 300 200000001 2 (.issued ⟨tokenId⟩)
  amount := 300
  price := 200000001
  buyMatcherFee := 300000
  sellMatcherFee := 2
  fee := 300000
  timestamp := 1500000000000
  proofs := ⟨[]⟩

def largeExchange : ExchangeTransaction where
  version := 2
  buyOrder := tokenOrder bob .BUY 920000000000000000 1000000000 100000000000000000
    (.issued ⟨tokenId⟩)
  sellOrder := tokenOrder miner .SELL 920000000000000000 1000000000 300000 .Waves
  amount := 920000000000000000
  price := 1000000000
  buyMatcherFee := 100000000000000000
  sellMatcherFee := 300000
  fee := 300000
  timestamp := 1500000000000
  proofs := ⟨[]⟩

/-- The platform that knows the four orders. -/
def tokenOrders : KnownAnswers where
  digests :=
    [(bytes 141 0x03c0b126b5aa134b84e64625256b8de8973787612b1f3839d2c60526d2114e886d18656ba6d7862cb11d995afe20bf8761edee05ec28aa29bfbcf31ebd19dede71000163030a93e3174c4641e7a48c2e034da7459a3b15be1e5a86b44b998ac8c3891b00000000000bebc202000000000000012c0000015d3ef798000000015d441df40000000000000493e000,
        bytes 32 0xc1d1ac2d79c96e84ea5b1e57df3effc3246f324245490d8def2a581818f2a736),
      (bytes 173 0x031885844ed84c86501cd2221627f1d16cd4c60530e5415e1bf6cab037b054f15018656ba6d7862cb11d995afe20bf8761edee05ec28aa29bfbcf31ebd19dede71000163030a93e3174c4641e7a48c2e034da7459a3b15be1e5a86b44b998ac8c3891b01000000000bebc201000000000000012c0000015d3ef798000000015d441df40000000000000000020163030a93e3174c4641e7a48c2e034da7459a3b15be1e5a86b44b998ac8c3891b,
        bytes 32 0x3079a862058d0e8a2c7ee88886598dfb10b80eed3500a676ac1fe7787e14fef9),
      (bytes 173 0x03c0b126b5aa134b84e64625256b8de8973787612b1f3839d2c60526d2114e886d18656ba6d7862cb11d995afe20bf8761edee05ec28aa29bfbcf31ebd19dede71000163030a93e3174c4641e7a48c2e034da7459a3b15be1e5a86b44b998ac8c3891b00000000003b9aca000cc47f20295c00000000015d3ef798000000015d441df400016345785d8a00000163030a93e3174c4641e7a48c2e034da7459a3b15be1e5a86b44b998ac8c3891b,
        bytes 32 0x889a26732d1b6617125a3f08e0a4415aedf3ff16cb48533778b0f2b734877e33),
      (bytes 141 0x031885844ed84c86501cd2221627f1d16cd4c60530e5415e1bf6cab037b054f15018656ba6d7862cb11d995afe20bf8761edee05ec28aa29bfbcf31ebd19dede71000163030a93e3174c4641e7a48c2e034da7459a3b15be1e5a86b44b998ac8c3891b01000000003b9aca000cc47f20295c00000000015d3ef798000000015d441df40000000000000493e000,
        bytes 32 0x74630928f45312c5e313b725c53674cc82715dbb930c1ce30d1133a1223a6b86)]

end Devnet

section
open Devnet

local instance ordersCrypto : Crypto := tokenOrders.crypto
local instance ordersSerializer : PBTransactionSerializer := pbTransactionSerializer

namespace Devnet

/-- The diff of an exchange after the token is issued. -/
def exchangeDiff (tx : ExchangeTransaction) : Diff :=
  (ExchangeTransactionDiff.apply contractLedger tx).toOption.getD Diff.empty

end Devnet

/-- Both exchanges are accepted, with the orders' real ids. -/
theorem exchanges_run :
    (ExchangeTxValidator.validate smallExchange = [] ∧
      (ExchangeTransactionDiff.apply contractLedger smallExchange).toOption.isSome = true) ∧
    ExchangeTxValidator.validate largeExchange = [] ∧
      (ExchangeTransactionDiff.apply contractLedger largeExchange).toOption.isSome = true ∧
      (exchangeDiff largeExchange).portfolios.totalOf (.issued ⟨tokenId⟩) =
        76627963145224192 := by
  decide +kernel

theorem ExchangeTransactionDiff.apply_settled_smallExchange :
    ∃ spent, Settled smallExchange (exchangeDiff smallExchange).portfolios spent :=
  apply_settled exchanges_run.1.1 (by decide) (by decide)
    (Validation.eq_ok_getD exchanges_run.1.2)

/-- Bob's change of the token is recorded as the least word, and tokens appear. -/
theorem ExchangeTransactionDiff.totalOf_largeExchange :
    ¬∀ (b : Blockchain) (tx : ExchangeTransaction) (d : Diff),
      ExchangeTxValidator.validate tx = [] → ExchangeTransactionDiff.apply b tx = .ok d →
      ∀ x, d.portfolios.totalOf x = if x = .Waves then -tx.fee.toInt else 0 := by
  intro hclaim
  obtain ⟨-, hvalid, hok, htotal⟩ := exchanges_run
  have hzero := hclaim contractLedger largeExchange (exchangeDiff largeExchange) hvalid
    (Validation.eq_ok_getD hok) (.issued ⟨tokenId⟩)
  rw [if_neg (by decide)] at hzero
  exact absurd (htotal.symm.trans hzero) (by decide)

end

end WavesNode
