/-
The NFTs of an account, listed page by page.

`nftListFromDiff` puts two lists one after the other: the assets that the liquid diff brings
to the account, and those that the database lists for it, less what the diff takes away. A
request that goes on after an asset starts again in the diff only if the asset was issued
there; after any other it goes on in the database. So an NFT that the account was sent in
the liquid block is no place to go on from: the database does not know it as the account's,
and lists nothing after it.

`Complete` is when a reading of the listing gives every NFT of the account once, whatever the
size of its pages.
-/
import WavesNode.CacheCoherence
import WavesNode.Paging

set_option autoImplicit false

namespace WavesNode

section
variable [Crypto] [PBTransactionSerializer]

/-! ## 1. The listing -/

namespace IssueTransaction

def assetId (itx : IssueTransaction) : IssuedAsset := ⟨(Transaction.issue itx).id⟩

omit [Crypto] [PBTransactionSerializer] in
/-- `IssueTransactionExt.isNFT(blockchain)`. -/
def isNFTOn (itx : IssueTransaction) (blockchain : Blockchain) : Bool :=
  blockchain.isFeatureActivated BlockchainFeatures.ReduceNFTFee && itx.isNFT

end IssueTransaction

namespace NftListings

omit [Crypto] [PBTransactionSerializer] in
/-- What is collected of a transaction that was looked up: the issue of an NFT. -/
def collectNft (blockchain : Blockchain) : Option Transaction → Option IssueTransaction
  | some (.issue itx) => if itx.isNFTOn blockchain then some itx else none
  | _ => none

/-- `LevelDBDistributions.nftObservable` over the ids of the account's list of assets. -/
def nftObservable (ldb : Blockchain) (assetIds : List IssuedAsset) (address : Address)
    (from_ : Option IssuedAsset) : List IssueTransaction :=
  let issueTxIterator :=
    (assetIds.filter fun asset => 0 < ldb.balance address (.issued asset)).filterMap fun ia =>
      collectNft ldb ((ldb.transactionInfo ia.id).map Prod.snd)
  match from_.bind fun ia => ldb.transactionInfo ia.id with
  | none => issueTxIterator
  | some (_, afterTx) => (issueTxIterator.dropWhile fun itx => itx.assetId.id ≠ afterTx.id).drop 1

/-- `notWithdrawn`. -/
def notWithdrawn (maybeDiff : Option Diff) (address : Address) (asset : IssuedAsset) : Bool :=
  let changeFromDiff := do
    let diff ← maybeDiff
    let portfolio ← diff.portfolios.get? address
    portfolio.assets.get? asset
  changeFromDiff.all fun change => 0 ≤ change

/-- `assetStreamFromDiff`, the assets of the account's portfolio being iterated in an order. -/
def assetStreamFromDiff (diff : Diff) (assets : List IssuedAsset) (address : Address) :
    List IssuedAsset :=
  assets.filter fun asset => 0 < (diff.portfolios.of address).assets.getOrElse asset 0

/-- `nftFromDiff`. -/
def nftFromDiff (blockchain : Blockchain) (diff : Diff) (assets : List IssuedAsset)
    (address : Address) (maybeAfter : Option IssuedAsset) : List IssueTransaction :=
  let stream :=
    match maybeAfter with
    | none => assetStreamFromDiff diff assets address
    | some after =>
      ((assetStreamFromDiff diff assets address).dropWhile fun asset => asset ≠ after).drop 1
  (stream.filter (notWithdrawn (some diff) address)).filterMap fun asset =>
    collectNft blockchain (((diff.transactions.get? asset.id).map Prod.fst).or
      ((blockchain.transactionInfo asset.id).map Prod.snd))

/-- `nftFromBlockchain`. -/
def nftFromBlockchain (distr : Option IssuedAsset → List IssueTransaction)
    (maybeDiff : Option Diff) (address : Address) (maybeAfter : Option IssuedAsset) :
    List IssueTransaction :=
  (distr maybeAfter).filter fun itx => notWithdrawn maybeDiff address itx.assetId

/-- `nftListFromDiff`, over what `distr` lists for the account. -/
def nftListFromDiff (blockchain : Blockchain) (distr : Option IssuedAsset → List IssueTransaction)
    (maybeDiff : Option Diff) (assets : List IssuedAsset) (address : Address)
    (maybeAfter : Option IssuedAsset) : List IssueTransaction :=
  match maybeDiff with
  | none => nftFromBlockchain distr maybeDiff address maybeAfter
  | some diff =>
    if maybeAfter.all diff.issuedAssets.contains then
      nftFromDiff blockchain diff assets address maybeAfter ++
        nftFromBlockchain distr maybeDiff address maybeAfter
    else nftFromBlockchain distr maybeDiff address maybeAfter

/-! ## 2. What is to be listed -/

omit [Crypto] [PBTransactionSerializer] in
/-- The issue of an asset, if it is an NFT of the ledger. -/
def nft? (b : Blockchain) (asset : IssuedAsset) : Option IssueTransaction :=
  collectNft b ((b.transactionInfo asset.id).map Prod.snd)

omit [Crypto] [PBTransactionSerializer] in
/-- An issue of an NFT that the account has some of. -/
def Held (b : Blockchain) (address : Address) (itx : IssueTransaction) : Prop :=
  ∃ asset, nft? b asset = some itx ∧ 0 < b.balance address (.issued asset)

/-- Every page by page reading of a listing gives the NFTs of the account, each once. -/
def PagesComplete (list : Option IssuedAsset → List IssueTransaction) (b : Blockchain)
    (address : Address) : Prop :=
  ∀ n, 0 < n → ∃ items, Paging.Paged IssueTransaction.assetId list n none items ∧
    items.Nodup ∧ ∀ itx, itx ∈ items ↔ Held b address itx

/-! ## 3. The condition -/

omit [Crypto] [PBTransactionSerializer] in
/-- The NFTs that the diff brings to the account, in the order they are gone through. -/
def gained (b : Blockchain) (d : Diff) (assets : List IssuedAsset) (a : Address) :
    List IssuedAsset :=
  assets.filter fun x => 0 < d.portfolios.delta a (.issued x) && (nft? b x).isSome

omit [Crypto] [PBTransactionSerializer] in
/-- The database lists the NFT for the account, and the diff does not take it away. -/
def Kept (ldb : Blockchain) (d : Diff) (a : Address) (x : IssuedAsset) : Prop :=
  0 < ldb.balance a (.issued x) ∧ (nft? ldb x).isSome ∧ 0 ≤ d.portfolios.delta a (.issued x)

omit [Crypto] [PBTransactionSerializer] in
/-- When the listing is complete: the diff changes an NFT as a whole, what it leaves alone is
an NFT for both ledgers, and an NFT that was brought without having been issued is the last
of all. -/
structure Complete (ldb b : Blockchain) (d : Diff) (assets : List IssuedAsset) (a : Address) :
    Prop where
  gained : ∀ x, 0 < d.portfolios.delta a (.issued x) →
    ¬(0 < ldb.balance a (.issued x) ∧ (nft? ldb x).isSome) ∧
      ((nft? b x).isSome → 0 < b.balance a (.issued x))
  lost : ∀ x, d.portfolios.delta a (.issued x) < 0 → (nft? b x).isSome →
    b.balance a (.issued x) ≤ 0
  kept : ∀ x, d.portfolios.delta a (.issued x) = 0 → 0 < ldb.balance a (.issued x) →
    nft? b x = nft? ldb x
  issued : ∀ x ∈ NftListings.gained b d assets a, x ∈ d.issuedAssets.dom ∨
    (NftListings.gained b d assets a).getLast? = some x
  last : ∀ x, (NftListings.gained b d assets a).getLast? = some x →
    ldb.transactionInfo x.id = none ∨ ∀ y, ¬Kept ldb d a y

/-- What the ledger of the database, the diff and the ledger of both have to do with each
other. -/
structure Sources (ldb b : Blockchain) (d : Diff) (assetIds assets : List IssuedAsset)
    (a : Address) : Prop where
  info : ∀ id, (b.transactionInfo id).map Prod.snd =
    ((d.transactions.get? id).map Prod.fst).or ((ldb.transactionInfo id).map Prod.snd)
  keyed : ∀ id tx, (b.transactionInfo id).map Prod.snd = some tx → tx.id = id
  keyedBelow : ∀ id tx, (ldb.transactionInfo id).map Prod.snd = some tx → tx.id = id
  balance : ∀ x, b.balance a (.issued x) =
    ldb.balance a (.issued x) + d.portfolios.delta a (.issued x)
  listed : ∀ x, 0 < ldb.balance a (.issued x) → x ∈ assetIds
  assetIds_nodup : assetIds.Nodup
  assets_nodup : assets.Nodup
  changed : ∀ x, x ∈ assets ↔ x ∈ (d.portfolios.of a).assets.dom

namespace Sources

variable {ldb b : Blockchain} {d : Diff} {assetIds assets : List IssuedAsset} {a : Address}

/-! ## 4. The two parts of the listing -/

theorem mem_assets (h : Sources ldb b d assetIds assets a) {x : IssuedAsset}
    (hx : 0 < d.portfolios.delta a (.issued x)) : x ∈ assets := by
  rw [h.changed, FiniteMap.mem_dom]
  by_contra hnone
  have hget := Option.not_isSome_iff_eq_none.mp hnone
  rw [Portfolios.delta, Portfolio.balanceOf, FiniteMap.getOrElse, hget] at hx
  exact absurd hx (by decide)

omit [Crypto] [PBTransactionSerializer] in
/-- What is withdrawn is changed below zero. -/
theorem notWithdrawn_iff {x : IssuedAsset} :
    notWithdrawn (some d) a x = true ↔ 0 ≤ d.portfolios.delta a (.issued x) := by
  change ((some d).bind fun diff => (diff.portfolios.get? a).bind fun portfolio =>
    portfolio.assets.get? x).all (fun change => 0 ≤ change) = true ↔ _
  rw [Option.bind_some, Portfolios.delta, Portfolios.of, Portfolio.balanceOf, FiniteMap.getOrElse,
    FiniteMap.getOrElse]
  cases d.portfolios.get? a with
  | none => exact iff_of_true rfl (show (0 : Long) ≤ 0 by decide)
  | some portfolio =>
    rw [Option.bind_some, Option.getD_some]
    cases portfolio.assets.get? x with
    | none => exact iff_of_true rfl (show (0 : Long) ≤ 0 by decide)
    | some change => exact decide_eq_true_iff

/-- An NFT is found by the id of its issue. -/
theorem assetId_of_collect {c : Blockchain} {x : IssuedAsset} {itx : IssueTransaction}
    (hkeyed : ∀ id tx, (c.transactionInfo id).map Prod.snd = some tx → tx.id = id)
    (hx : nft? c x = some itx) : itx.assetId = x := by
  unfold nft? at hx
  cases hinfo : (c.transactionInfo x.id).map Prod.snd with
  | none =>
    rw [hinfo] at hx
    cases hx
  | some tx =>
    rw [hinfo] at hx
    have hid := hkeyed _ _ hinfo
    cases tx with
    | issue itx' =>
      rw [collectNft] at hx
      split at hx
      · cases hx
        rw [IssueTransaction.assetId, hid]
      · cases hx
    | _ => cases hx

theorem assetId_eq (h : Sources ldb b d assetIds assets a) {x : IssuedAsset}
    {itx : IssueTransaction} (hx : nft? b x = some itx) : itx.assetId = x :=
  assetId_of_collect h.keyed hx

theorem assetId_eq_below (h : Sources ldb b d assetIds assets a) {x : IssuedAsset}
    {itx : IssueTransaction} (hx : nft? ldb x = some itx) : itx.assetId = x :=
  assetId_of_collect h.keyedBelow hx

/-- What the diff lists of a stream of assets. -/
theorem collect_stream (h : Sources ldb b d assetIds assets a) {stream : List IssuedAsset}
    (hstream : ∀ x ∈ stream, 0 < d.portfolios.delta a (.issued x)) :
    ((stream.filter (notWithdrawn (some d) a)).filterMap fun asset =>
      collectNft b (((d.transactions.get? asset.id).map Prod.fst).or
        ((b.transactionInfo asset.id).map Prod.snd))) = stream.filterMap (nft? b) := by
  have hall : stream.filter (notWithdrawn (some d) a) = stream := by
    rw [List.filter_eq_self]
    intro x hx
    exact notWithdrawn_iff.mpr (Int64.le_of_lt (hstream x hx))
  rw [hall]
  refine List.filterMap_congr fun x _ => ?_
  -- the ledger of both finds the diff's transactions by itself
  rw [nft?, h.info, ← Option.or_assoc, Option.or_self]

/-- What the diff brings, from the beginning. -/
theorem fromDiff_none (h : Sources ldb b d assetIds assets a) :
    nftFromDiff b d assets a none = (assetStreamFromDiff d assets a).filterMap (nft? b) :=
  h.collect_stream fun _ hx => of_decide_eq_true (List.mem_filter.mp hx).2

/-- What the diff brings, after an asset. -/
theorem fromDiff_some (h : Sources ldb b d assetIds assets a) (k : IssuedAsset) :
    nftFromDiff b d assets a (some k) =
      (Paging.after id (assetStreamFromDiff d assets a) k).filterMap (nft? b) := by
  refine h.collect_stream fun x hx => ?_
  have hmem := (Paging.after_suffix id _ k).subset hx
  exact of_decide_eq_true (List.mem_filter.mp hmem).2

theorem stream_nodup (h : Sources ldb b d assetIds assets a) :
    (assetStreamFromDiff d assets a).Nodup :=
  h.assets_nodup.filter _

theorem mem_fromDiff (h : Sources ldb b d assetIds assets a) {itx : IssueTransaction} :
    itx ∈ nftFromDiff b d assets a none ↔
      ∃ x, 0 < d.portfolios.delta a (.issued x) ∧ nft? b x = some itx := by
  rw [h.fromDiff_none, List.mem_filterMap]
  constructor
  · rintro ⟨x, hx, hnft⟩
    exact ⟨x, of_decide_eq_true (List.mem_filter.mp hx).2, hnft⟩
  · rintro ⟨x, hx, hnft⟩
    exact ⟨x, List.mem_filter.mpr ⟨h.mem_assets hx, decide_eq_true hx⟩, hnft⟩

/-- What the diff brings are its gained NFTs, by their issues. -/
theorem map_fromDiff (h : Sources ldb b d assetIds assets a) :
    (nftFromDiff b d assets a none).map IssueTransaction.assetId = gained b d assets a := by
  rw [h.fromDiff_none, Paging.map_filterMap fun x itx hx => h.assetId_eq hx, assetStreamFromDiff,
    List.filter_filter, gained]
  refine List.filter_congr fun x _ => ?_
  rw [Bool.and_comm]
  rfl

theorem nodup_fromDiff (h : Sources ldb b d assetIds assets a) :
    (nftFromDiff b d assets a none).Nodup := by
  refine List.Nodup.of_map IssueTransaction.assetId ?_
  rw [h.map_fromDiff]
  exact h.assets_nodup.filter _

theorem mem_gained (h : Sources ldb b d assetIds assets a) {x : IssuedAsset} :
    x ∈ gained b d assets a ↔ 0 < d.portfolios.delta a (.issued x) ∧ (nft? b x).isSome := by
  rw [gained, List.mem_filter, Bool.and_eq_true, decide_eq_true_iff]
  exact ⟨And.right, fun hx => ⟨h.mem_assets hx.1, hx⟩⟩

/-- After an NFT that the diff brings it goes on with the next one. -/
theorem fromDiff_after (h : Sources ldb b d assetIds assets a) {done rest : List IssueTransaction}
    {itx : IssueTransaction} (hsplit : nftFromDiff b d assets a none = done ++ itx :: rest) :
    nftFromDiff b d assets a (some itx.assetId) = rest := by
  rw [h.fromDiff_none] at hsplit
  rw [h.fromDiff_some]
  refine Paging.filterMap_after (fun x itx hx => h.assetId_eq hx) ?_ hsplit
  rw [List.map_id']
  exact h.stream_nodup

/-- After an asset that it does not bring, with none. -/
theorem fromDiff_elsewhere (h : Sources ldb b d assetIds assets a) {k : IssuedAsset}
    (hk : ¬0 < d.portfolios.delta a (.issued k)) : nftFromDiff b d assets a (some k) = [] := by
  rw [h.fromDiff_some, Paging.after_eq_nil]
  · rfl
  · rw [List.map_id]
    intro hmem
    exact hk (of_decide_eq_true (List.mem_filter.mp hmem).2)

/-! ### The database's part -/

theorem assetId_below (h : Sources ldb b d assetIds assets a) {itx : IssueTransaction}
    (hmem : itx ∈ nftObservable ldb assetIds a none) :
    0 < ldb.balance a (.issued itx.assetId) ∧ nft? ldb itx.assetId = some itx := by
  obtain ⟨x, hx, hnft⟩ := List.mem_filterMap.mp hmem
  obtain rfl : itx.assetId = x := h.assetId_eq_below hnft
  exact ⟨of_decide_eq_true (List.mem_filter.mp hx).2, hnft⟩

theorem mem_below (h : Sources ldb b d assetIds assets a) {itx : IssueTransaction} :
    itx ∈ nftFromBlockchain (nftObservable ldb assetIds a) (some d) a none ↔
      0 < ldb.balance a (.issued itx.assetId) ∧ nft? ldb itx.assetId = some itx ∧
        0 ≤ d.portfolios.delta a (.issued itx.assetId) := by
  rw [nftFromBlockchain, List.mem_filter, notWithdrawn_iff]
  constructor
  · rintro ⟨hmem, hchange⟩
    obtain ⟨hbalance, hnft⟩ := h.assetId_below hmem
    exact ⟨hbalance, hnft, hchange⟩
  · rintro ⟨hbalance, hnft, hchange⟩
    refine ⟨List.mem_filterMap.mpr ⟨itx.assetId, List.mem_filter.mpr ⟨?_, ?_⟩, hnft⟩, hchange⟩
    · exact h.listed _ hbalance
    · exact decide_eq_true hbalance

theorem nodup_observable (h : Sources ldb b d assetIds assets a) :
    ((nftObservable ldb assetIds a none).map IssueTransaction.assetId).Nodup := by
  change (((assetIds.filter _).filterMap (nft? ldb)).map _).Nodup
  rw [Paging.map_filterMap fun x itx hx => h.assetId_eq_below hx]
  exact (h.assetIds_nodup.filter _).filter _

omit [Crypto] [PBTransactionSerializer] in
theorem info_of_nft {c : Blockchain} {x : IssuedAsset} {itx : IssueTransaction}
    (hx : nft? c x = some itx) : ∃ info, c.transactionInfo x.id = some info := by
  unfold nft? at hx
  cases hinfo : c.transactionInfo x.id with
  | none =>
    rw [hinfo] at hx
    cases hx
  | some info => exact ⟨info, rfl⟩

/-- The database starts again after an asset it does not know. -/
theorem observable_unknown {k : IssuedAsset} (hk : ldb.transactionInfo k.id = none) :
    nftObservable ldb assetIds a (some k) = nftObservable ldb assetIds a none := by
  unfold nftObservable
  simp only [Option.bind_some, hk, Option.bind_none]

/-- After an asset it knows, it goes on behind it. -/
theorem observable_known (h : Sources ldb b d assetIds assets a) {k : IssuedAsset}
    {info : ℕ × Transaction} (hk : ldb.transactionInfo k.id = some info) :
    nftObservable ldb assetIds a (some k) =
      Paging.after IssueTransaction.assetId (nftObservable ldb assetIds a none) k := by
  have hid : info.2.id = k.id := h.keyedBelow k.id info.2 (by rw [hk]; rfl)
  unfold nftObservable Paging.after
  simp only [Option.bind_some, hk, Option.bind_none, hid]
  congr 1
  refine congrArg (fun p => List.dropWhile p _) (funext fun itx => ?_)
  refine decide_eq_decide.mpr (not_congr ?_)
  constructor
  · intro heq
    cases k
    exact congrArg IssuedAsset.mk heq
  · exact congrArg IssuedAsset.id

/-- What the database lists after an asset is some of what it lists. -/
theorem below_subset (h : Sources ldb b d assetIds assets a) (k : Option IssuedAsset) :
    nftFromBlockchain (nftObservable ldb assetIds a) (some d) a k ⊆
      nftFromBlockchain (nftObservable ldb assetIds a) (some d) a none := by
  intro itx hmem
  obtain ⟨hmem, hchange⟩ := List.mem_filter.mp hmem
  refine List.mem_filter.mpr ⟨?_, hchange⟩
  cases k with
  | none => exact hmem
  | some k =>
    cases hk : ldb.transactionInfo k.id with
    | none =>
      rw [observable_unknown hk] at hmem
      exact hmem
    | some info =>
      rw [h.observable_known hk] at hmem
      exact (Paging.after_suffix _ _ k).subset hmem

theorem below_unknown {k : IssuedAsset} (hk : ldb.transactionInfo k.id = none) :
    nftFromBlockchain (nftObservable ldb assetIds a) (some d) a (some k) =
      nftFromBlockchain (nftObservable ldb assetIds a) (some d) a none := by
  rw [nftFromBlockchain, observable_unknown hk]
  rfl

/-- After an asset that the database knows and does not list for the account, there is
nothing. -/
theorem below_elsewhere (h : Sources ldb b d assetIds assets a) {k : IssuedAsset}
    {info : ℕ × Transaction} (hk : ldb.transactionInfo k.id = some info)
    (hnot : ¬(0 < ldb.balance a (.issued k) ∧ (nft? ldb k).isSome)) :
    nftFromBlockchain (nftObservable ldb assetIds a) (some d) a (some k) = [] := by
  rw [nftFromBlockchain, h.observable_known hk, Paging.after_eq_nil]
  · rfl
  · intro hmem
    obtain ⟨itx, hitx, rfl⟩ := List.mem_map.mp hmem
    obtain ⟨hbalance, hnft⟩ := h.assetId_below hitx
    exact hnot ⟨hbalance, by rw [hnft]; rfl⟩

/-- After an asset that the database lists it goes on with the next one. -/
theorem below_after (h : Sources ldb b d assetIds assets a) {done rest : List IssueTransaction}
    {itx : IssueTransaction}
    (hsplit : nftFromBlockchain (nftObservable ldb assetIds a) (some d) a none =
      done ++ itx :: rest) :
    nftFromBlockchain (nftObservable ldb assetIds a) (some d) a (some itx.assetId) = rest := by
  have hmem : itx ∈ nftFromBlockchain (nftObservable ldb assetIds a) (some d) a none := by
    rw [hsplit]
    exact List.mem_append_right _ List.mem_cons_self
  obtain ⟨info, hinfo⟩ := info_of_nft (h.mem_below.mp hmem).2.1
  rw [nftFromBlockchain, h.observable_known hinfo]
  rw [nftFromBlockchain, ← List.filterMap_eq_filter] at hsplit
  rw [← List.filterMap_eq_filter]
  refine Paging.filterMap_after ?_ h.nodup_observable hsplit
  intro y x hy
  rw [(Option.guard_eq_some_iff.mp hy).1]

/-! ## 5. A complete listing -/

theorem list_none : nftListFromDiff b (nftObservable ldb assetIds a) (some d) assets a none =
    nftFromDiff b d assets a none ++
      nftFromBlockchain (nftObservable ldb assetIds a) (some d) a none := rfl

theorem list_issued {k : IssuedAsset} (hk : k ∈ d.issuedAssets.dom) :
    nftListFromDiff b (nftObservable ldb assetIds a) (some d) assets a (some k) =
      nftFromDiff b d assets a (some k) ++
        nftFromBlockchain (nftObservable ldb assetIds a) (some d) a (some k) :=
  if_pos ((FiniteMap.contains_iff_mem_dom _ _).mpr hk)

theorem list_other {k : IssuedAsset} (hk : k ∉ d.issuedAssets.dom) :
    nftListFromDiff b (nftObservable ldb assetIds a) (some d) assets a (some k) =
      nftFromBlockchain (nftObservable ldb assetIds a) (some d) a (some k) :=
  if_neg fun hcontains => hk ((FiniteMap.contains_iff_mem_dom _ _).mp hcontains)

/-- After an asset that the diff does not bring, only the database is left. -/
theorem list_below (h : Sources ldb b d assetIds assets a) {k : IssuedAsset}
    (hk : k ∉ d.issuedAssets.dom ∨ ¬0 < d.portfolios.delta a (.issued k)) :
    nftListFromDiff b (nftObservable ldb assetIds a) (some d) assets a (some k) =
      nftFromBlockchain (nftObservable ldb assetIds a) (some d) a (some k) := by
  by_cases hissued : k ∈ d.issuedAssets.dom
  · rcases hk with hnot | hchange
    · exact absurd hissued hnot
    · rw [list_issued hissued, h.fromDiff_elsewhere hchange, List.nil_append]
  · exact list_other hissued

omit [Crypto] [PBTransactionSerializer] in
theorem delta_trichotomy (x : IssuedAsset) : 0 < d.portfolios.delta a (.issued x) ∨
    d.portfolios.delta a (.issued x) = 0 ∨ d.portfolios.delta a (.issued x) < 0 := by
  rw [Long.pos_iff, Long.neg_iff, Long.eq_iff, Long.toInt_zero]
  omega

/-- The first pages give the NFTs of the account. -/
theorem mem_list_iff (h : Sources ldb b d assetIds assets a)
    (hcomplete : Complete ldb b d assets a) {itx : IssueTransaction} :
    itx ∈ nftFromDiff b d assets a none ++
        nftFromBlockchain (nftObservable ldb assetIds a) (some d) a none ↔ Held b a itx := by
  rw [List.mem_append, h.mem_fromDiff, h.mem_below]
  constructor
  · rintro (⟨x, hchange, hnft⟩ | ⟨hbalance, hnft, hchange⟩)
    · exact ⟨x, hnft, (hcomplete.gained x hchange).2 (by rw [hnft]; rfl)⟩
    · rcases delta_trichotomy (d := d) (a := a) itx.assetId with hpos | hzero | hneg
      · exact absurd ⟨hbalance, by rw [hnft]; rfl⟩ (hcomplete.gained _ hpos).1
      · refine ⟨itx.assetId, (hcomplete.kept _ hzero hbalance).trans hnft, ?_⟩
        rw [h.balance, hzero, Int64.add_zero]
        exact hbalance
      · exact absurd hchange (Int64.not_le.mpr hneg)
  · rintro ⟨x, hnft, hheld⟩
    rcases delta_trichotomy (d := d) (a := a) x with hpos | hzero | hneg
    · exact .inl ⟨x, hpos, hnft⟩
    · refine .inr ?_
      obtain rfl : itx.assetId = x := h.assetId_eq hnft
      rw [h.balance, hzero, Int64.add_zero] at hheld
      exact ⟨hheld, (hcomplete.kept _ hzero hheld).symm.trans hnft, Int64.le_of_eq hzero.symm⟩
    · exact absurd hheld (Int64.not_lt.mpr (hcomplete.lost x hneg (by rw [hnft]; rfl)))

/-- No NFT is in both parts. -/
theorem nodup_list (h : Sources ldb b d assetIds assets a)
    (hgained : ∀ x, 0 < d.portfolios.delta a (.issued x) →
      ¬(0 < ldb.balance a (.issued x) ∧ (nft? ldb x).isSome)) :
    (nftFromDiff b d assets a none ++
      nftFromBlockchain (nftObservable ldb assetIds a) (some d) a none).Nodup := by
  rw [List.nodup_append]
  refine ⟨h.nodup_fromDiff, (h.nodup_observable.of_map _).filter _, ?_⟩
  rintro itx hdiff _ hbelow rfl
  obtain ⟨x, hchange, hnft⟩ := h.mem_fromDiff.mp hdiff
  obtain rfl : itx.assetId = x := h.assetId_eq hnft
  obtain ⟨hbalance, hnft', -⟩ := h.mem_below.mp hbelow
  exact hgained _ hchange ⟨hbalance, by rw [hnft']; rfl⟩

/-- After an NFT that the diff brings, the listing goes on with what follows. -/
theorem next_fromDiff (h : Sources ldb b d assetIds assets a)
    (hcomplete : Complete ldb b d assets a) {done rest : List IssueTransaction}
    {itx : IssueTransaction} (hsplit : nftFromDiff b d assets a none = done ++ itx :: rest) :
    nftListFromDiff b (nftObservable ldb assetIds a) (some d) assets a (some itx.assetId) <+:
        rest ++ nftFromBlockchain (nftObservable ldb assetIds a) (some d) a none ∧
      (nftListFromDiff b (nftObservable ldb assetIds a) (some d) assets a (some itx.assetId) = [] →
        rest ++ nftFromBlockchain (nftObservable ldb assetIds a) (some d) a none = []) := by
  have hgained : gained b d assets a =
      done.map IssueTransaction.assetId ++ itx.assetId :: rest.map IssueTransaction.assetId := by
    rw [← h.map_fromDiff, hsplit, List.map_append, List.map_cons]
  have hmem : itx.assetId ∈ gained b d assets a := by
    rw [hgained]
    exact List.mem_append_right _ List.mem_cons_self
  have hnotBelow := (hcomplete.gained _ (h.mem_gained.mp hmem).1).1
  have hissued (hk : itx.assetId ∈ d.issuedAssets.dom) :
      nftListFromDiff b (nftObservable ldb assetIds a) (some d) assets a (some itx.assetId) =
        rest ++ nftFromBlockchain (nftObservable ldb assetIds a) (some d) a (some itx.assetId) := by
    rw [list_issued hk, h.fromDiff_after hsplit]
  cases rest with
  | nil =>
    -- the last one brought: the database comes next, from the beginning or not at all
    have hlast : (gained b d assets a).getLast? = some itx.assetId := by
      rw [hgained]
      exact List.getLast?_concat
    have hlist : nftListFromDiff b (nftObservable ldb assetIds a) (some d) assets a
        (some itx.assetId) =
          nftFromBlockchain (nftObservable ldb assetIds a) (some d) a (some itx.assetId) := by
      by_cases hk : itx.assetId ∈ d.issuedAssets.dom
      · exact hissued hk
      · exact list_other hk
    rw [hlist, List.nil_append]
    rcases hcomplete.last _ hlast with hunknown | hnone
    · rw [below_unknown hunknown]
      exact ⟨List.prefix_refl _, id⟩
    · have hempty : nftFromBlockchain (nftObservable ldb assetIds a) (some d) a none = [] := by
        rw [List.eq_nil_iff_forall_not_mem]
        intro y hy
        obtain ⟨hbalance, hnft, hchange⟩ := h.mem_below.mp hy
        exact hnone y.assetId ⟨hbalance, by rw [hnft]; rfl, hchange⟩
      have hsubset := h.below_subset (some itx.assetId)
      rw [hempty] at hsubset ⊢
      rw [List.subset_nil.mp hsubset]
      exact ⟨List.prefix_refl _, id⟩
  | cons next rest =>
    have hk : itx.assetId ∈ d.issuedAssets.dom := by
      rcases hcomplete.issued _ hmem with hk | hlast
      · exact hk
      · exfalso
        rw [hgained, List.getLast?_append_of_ne_nil _ (List.cons_ne_nil _ _), List.map_cons,
          List.getLast?_cons_cons] at hlast
        have hnodup : (gained b d assets a).Nodup := h.assets_nodup.filter _
        rw [hgained, List.nodup_append] at hnodup
        exact (List.nodup_cons.mp hnodup.2.1).1 (List.mem_of_getLast? hlast)
    rw [hissued hk]
    refine ⟨?_, fun hnil => by cases hnil⟩
    rw [List.prefix_append_right_inj]
    cases hinfo : ldb.transactionInfo itx.assetId.id with
    | none => rw [below_unknown hinfo]
    | some info =>
      rw [h.below_elsewhere hinfo hnotBelow]
      exact List.nil_prefix

/-- After an NFT that the database lists, too. -/
theorem next_below (h : Sources ldb b d assetIds assets a)
    (hcomplete : Complete ldb b d assets a) {done rest : List IssueTransaction}
    {itx : IssueTransaction}
    (hsplit : nftFromBlockchain (nftObservable ldb assetIds a) (some d) a none =
      done ++ itx :: rest) :
    nftListFromDiff b (nftObservable ldb assetIds a) (some d) assets a (some itx.assetId) <+:
        rest ∧
      (nftListFromDiff b (nftObservable ldb assetIds a) (some d) assets a (some itx.assetId) = [] →
        rest = []) := by
  have hmem : itx ∈ nftFromBlockchain (nftObservable ldb assetIds a) (some d) a none := by
    rw [hsplit]
    exact List.mem_append_right _ List.mem_cons_self
  obtain ⟨hbalance, hnft, -⟩ := h.mem_below.mp hmem
  have hnot : ¬0 < d.portfolios.delta a (.issued itx.assetId) := fun hpos =>
    (hcomplete.gained _ hpos).1 ⟨hbalance, by rw [hnft]; rfl⟩
  rw [h.list_below (.inr hnot), h.below_after hsplit]
  exact ⟨List.prefix_refl _, id⟩

/-- **From every NFT on**, the listing goes on with what follows. -/
theorem continues (h : Sources ldb b d assetIds assets a)
    (hcomplete : Complete ldb b d assets a) :
    Paging.Continues IssueTransaction.assetId
      (nftListFromDiff b (nftObservable ldb assetIds a) (some d) assets a)
      (nftFromDiff b d assets a none ++
        nftFromBlockchain (nftObservable ldb assetIds a) (some d) a none) where
  first := rfl
  next done itx rest hsplit := by
    rcases List.append_eq_append_iff.mp hsplit with ⟨front, -, hbelow⟩ | ⟨back, hdiff, hback⟩
    · exact h.next_below hcomplete hbelow
    · cases back with
      | nil =>
        rw [List.nil_append] at hback
        exact h.next_below hcomplete (hback.symm.trans (List.nil_append _).symm)
      | cons itx' rest' =>
        obtain ⟨rfl, rfl⟩ := List.cons.inj hback
        exact h.next_fromDiff hcomplete hdiff

theorem pagesComplete (h : Sources ldb b d assetIds assets a)
    (hcomplete : Complete ldb b d assets a) :
    PagesComplete (nftListFromDiff b (nftObservable ldb assetIds a) (some d) assets a) b a := by
  intro n hn
  exact ⟨_, (h.continues hcomplete).paged hn, h.nodup_list fun x hx => (hcomplete.gained x hx).1,
    fun itx => h.mem_list_iff hcomplete⟩

/-! ## 6. What a complete listing needs -/

/-- A listing never leaves the two parts. -/
theorem list_subset (h : Sources ldb b d assetIds assets a) (k : Option IssuedAsset) :
    nftListFromDiff b (nftObservable ldb assetIds a) (some d) assets a k ⊆
      nftFromDiff b d assets a none ++
        nftFromBlockchain (nftObservable ldb assetIds a) (some d) a none := by
  have hdiff : nftFromDiff b d assets a k ⊆ nftFromDiff b d assets a none := by
    cases k with
    | none => exact List.Subset.refl _
    | some k =>
      rw [h.fromDiff_none, h.fromDiff_some]
      exact List.filterMap_subset _ (Paging.after_suffix _ _ k).subset
  intro itx hmem
  cases k with
  | none => exact hmem
  | some k =>
    by_cases hk : k ∈ d.issuedAssets.dom
    · rw [list_issued hk, List.mem_append] at hmem
      rcases hmem with hmem | hmem
      · exact List.mem_append_left _ (hdiff hmem)
      · exact List.mem_append_right _ (h.below_subset _ hmem)
    · rw [list_other hk] at hmem
      exact List.mem_append_right _ (h.below_subset _ hmem)

/-- In one page that is large enough: the two parts are the NFTs of the account, each once. -/
theorem parts_of_pagesComplete (h : Sources ldb b d assetIds assets a)
    (hpages : PagesComplete (nftListFromDiff b (nftObservable ldb assetIds a) (some d) assets a)
      b a) :
    (nftFromDiff b d assets a none ++
        nftFromBlockchain (nftObservable ldb assetIds a) (some d) a none).Nodup ∧
      ∀ itx, itx ∈ nftFromDiff b d assets a none ++
        nftFromBlockchain (nftObservable ldb assetIds a) (some d) a none ↔ Held b a itx := by
  obtain ⟨items, hread, hnodup, hitems⟩ := hpages
    ((nftFromDiff b d assets a none ++
      nftFromBlockchain (nftObservable ldb assetIds a) (some d) a none).length + 1) (by omega)
  have hfirst := hread.first
  rw [list_none, List.take_of_length_le (by omega)] at hfirst
  refine ⟨hnodup.sublist hfirst.sublist, fun itx => ?_⟩
  rw [← hitems]
  constructor
  · exact fun hmem => hfirst.subset hmem
  · refine fun hmem => hread.forall_mem (C := fun _ => True) ?_ trivial itx hmem
    exact fun k _ x hx => ⟨h.list_subset k hx, trivial⟩

/-- After an NFT that was brought and not issued, everything that is read is the
database's. -/
theorem below_of_read (h : Sources ldb b d assetIds assets a)
    (hgained : ∀ x, 0 < d.portfolios.delta a (.issued x) →
      ¬(0 < ldb.balance a (.issued x) ∧ (nft? ldb x).isSome)) {n : ℕ} {k : IssuedAsset}
    {items : List IssueTransaction} (hk : k ∉ d.issuedAssets.dom)
    (hread : Paging.Paged IssueTransaction.assetId
      (nftListFromDiff b (nftObservable ldb assetIds a) (some d) assets a) n (some k) items) :
    ∀ itx ∈ items, itx ∈ nftFromBlockchain (nftObservable ldb assetIds a) (some d) a none := by
  refine hread.forall_mem (C := fun k => ∃ y, k = some y ∧ (y ∉ d.issuedAssets.dom ∨
    ¬0 < d.portfolios.delta a (.issued y))) ?_ ⟨k, rfl, .inl hk⟩
  rintro _ ⟨y, rfl, hy⟩ itx hmem
  rw [h.list_below hy] at hmem
  have hbelow := h.below_subset _ hmem
  refine ⟨hbelow, itx.assetId, rfl, .inr fun hpos => ?_⟩
  obtain ⟨hbalance, hnft, -⟩ := h.mem_below.mp hbelow
  exact hgained _ hpos ⟨hbalance, by rw [hnft]; rfl⟩

/-- Two parts without an NFT in common: what the diff brings, the database does not list. -/
theorem gained_of_parts (h : Sources ldb b d assetIds assets a)
    (hnodup : (nftFromDiff b d assets a none ++
      nftFromBlockchain (nftObservable ldb assetIds a) (some d) a none).Nodup)
    (hheld : ∀ itx, itx ∈ nftFromDiff b d assets a none ++
      nftFromBlockchain (nftObservable ldb assetIds a) (some d) a none ↔ Held b a itx)
    (x : IssuedAsset) (hpos : 0 < d.portfolios.delta a (.issued x)) :
    ¬(0 < ldb.balance a (.issued x) ∧ (nft? ldb x).isSome) := by
  rintro ⟨hbalance, hsome⟩
  obtain ⟨itx, hnft⟩ := Option.isSome_iff_exists.mp hsome
  obtain rfl : itx.assetId = x := h.assetId_eq_below hnft
  have hbelow := h.mem_below.mpr ⟨hbalance, hnft, Int64.le_of_lt hpos⟩
  -- it is held, so an NFT of the whole ledger, and the diff lists it too
  obtain ⟨x', hnft', -⟩ := (hheld itx).mp (List.mem_append_right _ hbelow)
  obtain rfl : itx.assetId = x' := h.assetId_eq hnft'
  exact (List.nodup_append.mp hnodup).2.2 itx (h.mem_fromDiff.mpr ⟨_, hpos, hnft'⟩) itx hbelow rfl

/-- What is listed is held: an NFT is changed as a whole. -/
theorem changes_of_parts (h : Sources ldb b d assetIds assets a)
    (hheld : ∀ itx, itx ∈ nftFromDiff b d assets a none ++
      nftFromBlockchain (nftObservable ldb assetIds a) (some d) a none ↔ Held b a itx)
    {x : IssuedAsset} (hsome : (nft? b x).isSome) :
    (0 < d.portfolios.delta a (.issued x) → 0 < b.balance a (.issued x)) ∧
      (d.portfolios.delta a (.issued x) < 0 → b.balance a (.issued x) ≤ 0) := by
  obtain ⟨itx, hnft⟩ := Option.isSome_iff_exists.mp hsome
  obtain rfl : itx.assetId = x := h.assetId_eq hnft
  constructor
  · intro hpos
    obtain ⟨x', hnft', hbalance⟩ := (hheld itx).mp
      (List.mem_append_left _ (h.mem_fromDiff.mpr ⟨_, hpos, hnft⟩))
    obtain rfl : itx.assetId = x' := h.assetId_eq hnft'
    exact hbalance
  · intro hneg
    by_contra hbalance
    rcases List.mem_append.mp ((hheld itx).mpr ⟨_, hnft, Int64.not_le.mp hbalance⟩) with
      hdiff | hbelow
    · obtain ⟨x', hpos, hnft'⟩ := h.mem_fromDiff.mp hdiff
      obtain rfl : itx.assetId = x' := h.assetId_eq hnft'
      exact absurd hpos (Int64.lt_asymm hneg)
    · exact absurd (h.mem_below.mp hbelow).2.2 (Int64.not_le.mpr hneg)

/-- What is held is listed: the two ledgers agree on an NFT that is left alone. -/
theorem kept_of_parts (h : Sources ldb b d assetIds assets a)
    (hheld : ∀ itx, itx ∈ nftFromDiff b d assets a none ++
      nftFromBlockchain (nftObservable ldb assetIds a) (some d) a none ↔ Held b a itx)
    {x : IssuedAsset} (hzero : d.portfolios.delta a (.issued x) = 0)
    (hbalance : 0 < ldb.balance a (.issued x)) : nft? b x = nft? ldb x := by
  have hheldOf {itx : IssueTransaction} (hnft : nft? b x = some itx) : nft? ldb x = some itx := by
    obtain rfl : itx.assetId = x := h.assetId_eq hnft
    have hcomposite : 0 < b.balance a (.issued itx.assetId) := by
      rw [h.balance, hzero, Int64.add_zero]
      exact hbalance
    rcases List.mem_append.mp ((hheld itx).mpr ⟨_, hnft, hcomposite⟩) with hdiff | hbelow
    · obtain ⟨x', hpos, hnft'⟩ := h.mem_fromDiff.mp hdiff
      obtain rfl : itx.assetId = x' := h.assetId_eq hnft'
      rw [hzero] at hpos
      exact absurd hpos (by decide)
    · exact (h.mem_below.mp hbelow).2.1
  cases hnft : nft? ldb x with
  | some itx =>
    obtain rfl : itx.assetId = x := h.assetId_eq_below hnft
    obtain ⟨x', hnft', -⟩ := (hheld itx).mp (List.mem_append_right _
      (h.mem_below.mpr ⟨hbalance, hnft, Int64.le_of_eq hzero.symm⟩))
    obtain rfl : itx.assetId = x' := h.assetId_eq hnft'
    exact hnft'
  | none =>
    cases hnft' : nft? b x with
    | none => rfl
    | some itx =>
      rw [hheldOf hnft'] at hnft
      cases hnft

/-- A page that ends with an NFT the account was sent is followed by pages of the database
alone: nothing else that the diff brings may come after it. -/
theorem issued_of_pagesComplete (h : Sources ldb b d assetIds assets a)
    (hpages : PagesComplete (nftListFromDiff b (nftObservable ldb assetIds a) (some d) assets a)
      b a) {x : IssuedAsset} (hx : x ∈ gained b d assets a) :
    x ∈ d.issuedAssets.dom ∨ (gained b d assets a).getLast? = some x := by
  obtain ⟨hnodup, hheld⟩ := h.parts_of_pagesComplete hpages
  by_cases hissued : x ∈ d.issuedAssets.dom
  · exact .inl hissued
  · right
    rw [← h.map_fromDiff] at hx ⊢
    obtain ⟨itx, hmem, rfl⟩ := List.mem_map.mp hx
    obtain ⟨done, rest, hsplit⟩ := List.append_of_mem hmem
    cases rest with
    | nil =>
      rw [hsplit, List.map_append, List.map_cons]
      exact List.getLast?_concat
    | cons next rest =>
      exfalso
      -- pages of the size that ends the first one here
      obtain ⟨items, hread, -, hitems⟩ := hpages (done.length + 1) (by omega)
      have hnext : next ∈ nftFromDiff b d assets a none := by
        rw [hsplit]
        exact List.mem_append_right _ (List.mem_cons_of_mem _ List.mem_cons_self)
      have hread' := (hitems next).mpr ((hheld next).mp (List.mem_append_left _ hnext))
      have hlist : nftListFromDiff b (nftObservable ldb assetIds a) (some d) assets a none =
          done ++ itx :: (next :: rest ++
            nftFromBlockchain (nftObservable ldb assetIds a) (some d) a none) := by
        rw [list_none, hsplit, List.append_assoc, List.cons_append]
      obtain ⟨later, rfl, hlater⟩ := hread.after_item hlist
      rcases List.mem_append.mp hread' with hfirst | hmem'
      · rw [hsplit] at hnodup
        have hdistinct := (List.nodup_append.mp hnodup).1
        rw [List.append_cons, List.nodup_append] at hdistinct
        exact hdistinct.2.2 next hfirst next List.mem_cons_self rfl
      · have hbelow := h.below_of_read (h.gained_of_parts hnodup hheld) hissued hlater next hmem'
        exact (List.nodup_append.mp hnodup).2.2 next hnext next hbelow rfl

/-- The page that ends with the last NFT brought is followed by what the database lists. -/
theorem last_of_pagesComplete (h : Sources ldb b d assetIds assets a)
    (hpages : PagesComplete (nftListFromDiff b (nftObservable ldb assetIds a) (some d) assets a)
      b a) {x : IssuedAsset} (hlast : (gained b d assets a).getLast? = some x) :
    ldb.transactionInfo x.id = none ∨ ∀ y, ¬Kept ldb d a y := by
  obtain ⟨hnodup, hheld⟩ := h.parts_of_pagesComplete hpages
  cases hinfo : ldb.transactionInfo x.id with
  | none => exact .inl rfl
  | some info =>
    refine .inr fun y hkept => ?_
    obtain ⟨hbalance, hsome, hchange⟩ := hkept
    obtain ⟨itx, hnft⟩ := Option.isSome_iff_exists.mp hsome
    obtain rfl : itx.assetId = y := h.assetId_eq_below hnft
    have hbelow := h.mem_below.mpr ⟨hbalance, hnft, hchange⟩
    rw [← h.map_fromDiff] at hlast
    obtain ⟨front, hfront⟩ := List.getLast?_eq_some_iff.mp hlast
    obtain ⟨done, tail, hsplit, -, htail⟩ := List.map_eq_append_iff.mp hfront
    obtain ⟨last, rfl, rfl⟩ := List.map_eq_singleton_iff.mp htail
    have hpos := (h.mem_gained.mp (by
      rw [← h.map_fromDiff, hfront]
      exact List.mem_append_right _ List.mem_cons_self : last.assetId ∈ gained b d assets a)).1
    have hnotBelow := h.gained_of_parts hnodup hheld _ hpos
    -- pages as long as what the diff brings: the second one is empty
    obtain ⟨items, hread, -, hitems⟩ := hpages (done.length + 1) (by omega)
    have hlist : nftListFromDiff b (nftObservable ldb assetIds a) (some d) assets a none =
        done ++ last :: nftFromBlockchain (nftObservable ldb assetIds a) (some d) a none := by
      rw [list_none, hsplit, List.append_assoc, List.singleton_append]
    obtain ⟨later, rfl, hlater⟩ := hread.after_item hlist
    have hend : nftListFromDiff b (nftObservable ldb assetIds a) (some d) assets a
        (some last.assetId) = [] := by
      by_cases hissued : last.assetId ∈ d.issuedAssets.dom
      · rw [list_issued hissued, h.fromDiff_after hsplit, h.below_elsewhere hinfo hnotBelow]
        rfl
      · rw [list_other hissued, h.below_elsewhere hinfo hnotBelow]
    have hdone : Paging.Paged IssueTransaction.assetId
        (nftListFromDiff b (nftObservable ldb assetIds a) (some d) assets a) (done.length + 1)
        (some last.assetId) [] := .done (by rw [hend]; exact List.take_nil)
    have hread' := (hitems itx).mpr ((hheld itx).mp (List.mem_append_right _ hbelow))
    rw [hlater.unique hdone, List.append_nil, ← hsplit] at hread'
    exact (List.nodup_append.mp hnodup).2.2 itx hread' itx hbelow rfl

/-- **When the listing is complete.** -/
theorem pagesComplete_iff (h : Sources ldb b d assetIds assets a) :
    PagesComplete (nftListFromDiff b (nftObservable ldb assetIds a) (some d) assets a) b a ↔
      Complete ldb b d assets a := by
  constructor
  · intro hpages
    obtain ⟨hnodup, hheld⟩ := h.parts_of_pagesComplete hpages
    exact
      { gained := fun x hpos => ⟨h.gained_of_parts hnodup hheld x hpos,
          fun hsome => (h.changes_of_parts hheld hsome).1 hpos⟩
        lost := fun x hneg hsome => (h.changes_of_parts hheld hsome).2 hneg
        kept := fun x hzero hbalance => h.kept_of_parts hheld hzero hbalance
        issued := fun x hx => h.issued_of_pagesComplete hpages hx
        last := fun x hlast => h.last_of_pagesComplete hpages hlast }
  · exact h.pagesComplete

end Sources

end NftListings

end

section
variable [Crypto] [PBTransactionSerializer] [Ride] [BlockSerializer]

/-! ## 7. The node's ledgers -/

namespace LevelDBWriter

/-- Every asset of an account that was ever written is in the account's list of assets. -/
def AssetsListed (db : Keys) : Prop :=
  ∀ a x, (db.assetBalance a x).heights ≠ [] → a ∈ db.addressId ∧ x ∈ db.assetList a

theorem assetsListed {Q : LevelDBWriter → Event → Prop} : KeysInvariant Q AssetsListed where
  empty a x hne := absurd rfl hne
  append := by
    intro w d carry reward block _ _ _ h a x hwritten
    change a ∈ w.db.addressId ∪ d.portfolios.dom ∪ transactionAddresses d ∧
      x ∈ w.db.assetList a ∪ (d.portfolios.of a).assets.dom
    rw [Finset.mem_union, Finset.mem_union, Finset.mem_union]
    by_cases hold : (w.db.assetBalance a x).heights = []
    · -- without a history before, it is this block that changed the balance
      have hupdated : w.updatedBalance d a (.issued x) ≠ none := by
        intro hnone
        apply hwritten
        change ((w.db.assetBalance a x).pushSome _ _ (w.updatedBalance d a (.issued x))).heights = []
        rw [hnone]
        exact hold
      obtain ⟨v, hv⟩ := Option.ne_none_iff_exists'.mp hupdated
      obtain ⟨portfolio, hportfolio, hdelta⟩ := Option.bind_eq_some_iff.mp hv
      obtain ⟨delta, hget, -⟩ := Option.map_eq_some_iff.mp hdelta
      refine ⟨.inl (.inr (FiniteMap.mem_dom_of_get? hportfolio)), .inr ?_⟩
      rw [Portfolios.of, FiniteMap.getOrElse, hportfolio]
      exact FiniteMap.mem_dom_of_get? hget
    · obtain ⟨haddress, hlisted⟩ := h a x hold
      exact ⟨.inl (.inl haddress), .inl hlisted⟩
  discard := by
    intro w n _ _ h a x hwritten
    refine h a x fun hold => hwritten ?_
    change (if _ then (w.db.assetBalance a x).drop (n + 1) else w.db.assetBalance a x).heights = []
    split
    · rw [History.drop, hold]
      rfl
    · exact hold

/-- The assets that the database goes through for an account: none for one without a number. -/
def listedAssets (w : LevelDBWriter) (a : Address) (assetIds : Traversal (w.db.assetList a)) :
    List IssuedAsset :=
  if a ∈ w.db.addressId then assetIds.list else []

/-- **Every asset an account has some of is gone through.** -/
theorem mem_listedAssets {Q : LevelDBWriter → Event → Prop} {settings : BlockchainSettings}
    {dbSettings : DBSettings} {w : LevelDBWriter} (hw : Reachable Q settings dbSettings w)
    {a : Address} (assetIds : Traversal (w.db.assetList a)) {x : IssuedAsset}
    (hx : 0 < w.balance a (.issued x)) : x ∈ w.listedAssets a assetIds := by
  have hread : w.balance a (.issued x) = (w.db.assetBalance a x).latest.getD 0 :=
    (Kept.cached_reachable (writesThrough_keptBalance a (.issued x)) hw).answer_eq
  have hwritten : (w.db.assetBalance a x).heights ≠ [] := by
    intro hnever
    rw [hread, History.latest, hnever] at hx
    exact absurd hx (show ¬(0 : Long) < 0 by decide)
  have hP : KeysInvariant Q AssetsListed := assetsListed
  obtain ⟨haddress, hlisted⟩ := hP.reachable hw a x hwritten
  rw [listedAssets, if_pos haddress]
  exact (assetIds.mem_iff x).mpr hlisted

end LevelDBWriter

/-- The diff of a block has its transactions by their ids. -/
theorem BlockDiffer.Produces.keyed {height : ℕ} {block : Block} {d : Diff} {carry : Long}
    (h : BlockDiffer.Produces height block d carry) :
    ∀ id entry, d.transactions.get? id = some entry → entry.1.id = id := by
  refine h.combined
    (P := fun d _ => ∀ id entry, d.transactions.get? id = some entry → entry.1.id = id) ?_ ?_ ?_
  · rintro d ⟨ps, states, rfl⟩ id entry hget
    cases hget
  · intro _ _ _ _ _ _ h id entry hget
    exact ((TransactionDiffer.records_apply h).listed id entry hget).2
  · intro d d' txs txs' hd hd' id entry hget
    rw [Diff.combine, FiniteMap.get?_append] at hget
    rcases Option.or_eq_some_iff.mp hget with hnew | ⟨-, hold⟩
    · exact hd' id entry hnew
    · exact hd id entry hold

namespace NftListings

/-- What the listing puts together is what the database, the liquid diff and the composite
have in common. -/
theorem sources_composite {Q : LevelDBWriter → LevelDBWriter.Event → Prop}
    {settings : BlockchainSettings} {dbSettings : DBSettings} {w : LevelDBWriter}
    (hw : LevelDBWriter.Reachable Q settings dbSettings w) {block : Block} {d : Diff}
    {carry : Long} (hd : BlockDiffer.Produces (w.height + 1) block d carry) {a : Address}
    (assetIds : Traversal (w.db.assetList a)) (assets : Traversal (d.portfolios.of a).assets.dom)
    (newBlock : Option Block) (newCarry : Long) (reward : Option Long) :
    Sources w.blockchain (CompositeBlockchain w.blockchain (some d) newBlock newCarry reward) d
      (w.listedAssets a assetIds) assets.list a := by
  have hinfo (id : ByteStr) :
      ((CompositeBlockchain w.blockchain (some d) newBlock newCarry reward).transactionInfo id).map
          Prod.snd =
        ((d.transactions.get? id).map Prod.fst).or
          ((w.blockchain.transactionInfo id).map Prod.snd) := by
    change (((d.transactions.get? id).map fun t => (_, t.1)).or _).map Prod.snd = _
    cases d.transactions.get? id with
    | none => rfl
    | some entry => rfl
  have hbelow (id : ByteStr) (tx : Transaction)
      (htx : (w.blockchain.transactionInfo id).map Prod.snd = some tx) : tx.id = id := by
    obtain ⟨⟨h, tx'⟩, hget, rfl⟩ := Option.map_eq_some_iff.mp htx
    have hP : LevelDBWriter.KeysInvariant Q LevelDBWriter.TransactionsFound :=
      LevelDBWriter.transactionsFound
    exact ((hP.reachable hw).mem_of_transactionInfo hget).2.2
  refine
    { info := hinfo
      keyed := ?_
      keyedBelow := hbelow
      balance := fun _ => rfl
      listed := fun _ hx => LevelDBWriter.mem_listedAssets hw assetIds hx
      assetIds_nodup := ?_
      assets_nodup := assets.nodup
      changed := assets.mem_iff }
  · intro id tx htx
    rw [hinfo, Option.or_eq_some_iff] at htx
    rcases htx with hnew | ⟨-, hold⟩
    · obtain ⟨entry, hget, rfl⟩ := Option.map_eq_some_iff.mp hnew
      exact hd.keyed id entry hget
    · exact hbelow id tx hold
  · unfold LevelDBWriter.listedAssets
    split
    · exact assetIds.nodup
    · exact List.nodup_nil

/-- **When an account's NFTs are listed completely**, on any chain and with any liquid block on
it: exactly when the liquid block changes its NFTs as a whole and sends it at most one, which
is the last to be listed. -/
theorem nftListFromDiff_complete_iff {Q : LevelDBWriter → LevelDBWriter.Event → Prop}
    {settings : BlockchainSettings} {dbSettings : DBSettings} {w : LevelDBWriter}
    (hw : LevelDBWriter.Reachable Q settings dbSettings w) {block : Block} {d : Diff}
    {carry : Long} (hd : BlockDiffer.Produces (w.height + 1) block d carry) (a : Address)
    (assetIds : Traversal (w.db.assetList a)) (assets : Traversal (d.portfolios.of a).assets.dom)
    (newBlock : Option Block) (newCarry : Long) (reward : Option Long) :
    PagesComplete
        (nftListFromDiff (CompositeBlockchain w.blockchain (some d) newBlock newCarry reward)
          (nftObservable w.blockchain (w.listedAssets a assetIds) a) (some d) assets.list a)
        (CompositeBlockchain w.blockchain (some d) newBlock newCarry reward) a ↔
      Complete w.blockchain (CompositeBlockchain w.blockchain (some d) newBlock newCarry reward) d
        assets.list a :=
  (sources_composite hw hd assetIds assets newBlock newCarry reward).pagesComplete_iff

end NftListings

end

/-! ## 8. An NFT that a page loses

Alice and Bob have issued an NFT each. In the liquid block Alice sends hers to Bob: a page of
one NFT gives him Alice's, and the page after it nothing, for it is not his in the database.
His own is never listed. -/

namespace Devnet

def heart : IssueTransaction where
  version := 1
  sender := alice.publicKey
  name := [72, 101, 97, 114, 116]
  description := []
  quantity := 1
  decimals := 0
  reissuable := false
  script := none
  fee := 100000
  timestamp := 1499999960000
  proofs := ⟨[bytes 64
    0x26a4aaaac64ccb7e0f8159c7b0b1435c2fcf45cedc95533c04f6642cee8a091688b75bf0d9abd19e707057b4063d343d1d280d37c64c5c03247e6c52b6ee448c]⟩

def heartBody : ByteStr :=
  bytes 68
    0x032e8b2883c27b391359d7d0c15d00815a6693290a38dd8eba341cc07ddaa8ed4d0005486561727400000000000000000001000000000000000186a00000015d3ef6fbc0

def heartId : ByteStr :=
  bytes 32
    0x944febd29d273dd34f3ab97df902fdc327db3055226482a43220603d6324dad3

def spade : IssueTransaction where
  version := 1
  sender := bob.publicKey
  name := [83, 112, 97, 100, 101]
  description := []
  quantity := 1
  decimals := 0
  reissuable := false
  script := none
  fee := 100000
  timestamp := 1499999960000
  proofs := ⟨[bytes 64
    0xd857054c09ecf967e4d71622d6c785ce94c507b109be20c7e7c001aaa3f3870e6ef23ad974d4971b1ee266cd0cf2dd89a24197f1532f564ffe01cd1aba44f28b]⟩

def spadeBody : ByteStr :=
  bytes 68
    0x03c0b126b5aa134b84e64625256b8de8973787612b1f3839d2c60526d2114e886d0005537061646500000000000000000001000000000000000186a00000015d3ef6fbc0

def spadeId : ByteStr :=
  bytes 32
    0x459c2bb75d4eae003cdc7465b45f091036498b2b2e3b44f624c8b8a6e3bf8fd2

def nftBlock : Block :=
  { emptyBlock with
    signature := bytes 64
      0xbaf817ab522a03fc3a196b842341cd33a8a094df633b5226422fbba677733f6748857dbf9d576758e40286bfd5c509fbf0b7b4225ace1d4ff9853a8522fffe86
    transactionData := [.issue heart, .issue spade] }

def nftBlockBytes : ByteStr :=
  bytes 435
    0x030000015d3ef6fbc0813668d47528909acf62aeeba30294f9418c2e97172d3ba7c6b151db7b59017729e5dcdad233de6207ec6c23997c1e53e839c715225de43d375043d5b398e688000000280000000009299ff340328d507794ee8ca0f9169b6e221a1409677d18dc99c0d1674574ccf69aceb90000011600000002000000850326a4aaaac64ccb7e0f8159c7b0b1435c2fcf45cedc95533c04f6642cee8a091688b75bf0d9abd19e707057b4063d343d1d280d37c64c5c03247e6c52b6ee448c032e8b2883c27b391359d7d0c15d00815a6693290a38dd8eba341cc07ddaa8ed4d0005486561727400000000000000000001000000000000000186a00000015d3ef6fbc00000008503d857054c09ecf967e4d71622d6c785ce94c507b109be20c7e7c001aaa3f3870e6ef23ad974d4971b1ee266cd0cf2dd89a24197f1532f564ffe01cd1aba44f28b03c0b126b5aa134b84e64625256b8de8973787612b1f3839d2c60526d2114e886d0005537061646500000000000000000001000000000000000186a00000015d3ef6fbc0000000001885844ed84c86501cd2221627f1d16cd4c60530e5415e1bf6cab037b054f150

def heartToBob : TransferTransaction where
  version := 1
  sender := alice.publicKey
  recipient := .address bob.address
  assetId := .issued ⟨heartId⟩
  amount := 1
  feeAssetId := .Waves
  fee := 100000
  attachment := []
  timestamp := 1500000020000
  proofs := ⟨[bytes 64
    0xf73b163b4beecc6d603af680dff82a9587bde50ada69a8749ea98ddd94d2092b25a6bfe603ebe55317de5d60e07c468a00686ae2cc16f84fceb4859fa2a9f18d]⟩

def heartToBobBody : ByteStr :=
  bytes 119
    0x042e8b2883c27b391359d7d0c15d00815a6693290a38dd8eba341cc07ddaa8ed4d01944febd29d273dd34f3ab97df902fdc327db3055226482a43220603d6324dad3000000015d3ef7e620000000000000000100000000000186a00154aa259a33e350952c45254e402badc9b74c47e88d2cdd1ded0000

def heartToBobBlock : Block where
  header :=
    { emptyBlock.header with
      timestamp := 1500000020000
      reference := nftBlock.signature
      generationSignature :=
        bytes 32 0xfaa1c63cbeee360372abcb14ffbdcb21d7fc5037a4b833c914fbafc77919e07b }
  signature := bytes 64
    0xbd1d8bdf60022cdc8c124ae863038189f5227450c6a4da0a473aad65edead668cb4515276d0e203155f6b1eb14d570e619066f79558bf75476838585e8c0658d
  transactionData := [.transfer heartToBob]

def heartToBobBlockBytes : ByteStr :=
  bytes 349
    0x030000015d3ef7e620baf817ab522a03fc3a196b842341cd33a8a094df633b5226422fbba677733f6748857dbf9d576758e40286bfd5c509fbf0b7b4225ace1d4ff9853a8522fffe86000000280000000009299ff3faa1c63cbeee360372abcb14ffbdcb21d7fc5037a4b833c914fbafc77919e07b000000c000000001000000b804f73b163b4beecc6d603af680dff82a9587bde50ada69a8749ea98ddd94d2092b25a6bfe603ebe55317de5d60e07c468a00686ae2cc16f84fceb4859fa2a9f18d042e8b2883c27b391359d7d0c15d00815a6693290a38dd8eba341cc07ddaa8ed4d01944febd29d273dd34f3ab97df902fdc327db3055226482a43220603d6324dad3000000015d3ef7e620000000000000000100000000000186a00154aa259a33e350952c45254e402badc9b74c47e88d2cdd1ded0000000000001885844ed84c86501cd2221627f1d16cd4c60530e5415e1bf6cab037b054f150

/-- The platform that knows the two NFTs and the block that moves one of them. -/
def nftAnswers : KnownAnswers :=
  firstBlocks.and
    { digests :=
        [(heartBody, heartId), (spadeBody, spadeId),
          (heartToBobBody,
            bytes 32
    0xcb1b5e0461a58540da0a6e74323ab49e539b360288503af2bb7d0bc2e2cbfb11)]
      signatures :=
        [⟨alice.publicKey, heartBody, heart.proofs.proofs.headD []⟩,
          ⟨bob.publicKey, spadeBody, spade.proofs.proofs.headD []⟩,
          ⟨alice.publicKey, heartToBobBody, heartToBob.proofs.proofs.headD []⟩,
          ⟨miner.publicKey, nftBlockBytes, nftBlock.signature⟩,
          ⟨miner.publicKey, heartToBobBlockBytes, heartToBobBlock.signature⟩]
      blocks := [(nftBlock, nftBlockBytes), (heartToBobBlock, heartToBobBlockBytes)] }

/-- NFTs are cheap from the start. -/
def nftSettings : BlockchainSettings :=
  settings [(BlockchainFeatures.NG, 0), (BlockchainFeatures.ReduceNFTFee, 0)]

end Devnet

section
open Devnet LevelDBWriter

local instance nftCrypto : Crypto := nftAnswers.crypto
local instance nftSerializer : PBTransactionSerializer := pbTransactionSerializer
local instance nftBlocks : BlockSerializer := nftAnswers.blockSerializer
local instance nftRide : Ride := nftAnswers.ride

namespace Devnet

def noNfts : LevelDBWriter := .empty nftSettings dbSettings

def beforeNfts : Validation LevelDBWriter := noNfts.appendBlocks [genesisBlock]

def withoutNfts : LevelDBWriter := beforeNfts.toOption.getD noNfts

def afterNfts : Validation LevelDBWriter := withoutNfts.appendBlocks [nftBlock]

def withNfts : LevelDBWriter := afterNfts.toOption.getD noNfts

end Devnet

/-- The run, and what Bob has of it. -/
theorem nft_run :
    (beforeNfts.toOption.isSome ∧ afterNfts.toOption.isSome) ∧
      (BlockDiffer.fromBlock withNfts.blockchain withNfts.lastBlock heartToBobBlock
        .Unlimited).toOption.any fun r =>
          decide ((r.diff.portfolios.of bob.address).assets.dom = {⟨heartId⟩}) &&
            decide (0 < r.diff.portfolios.delta bob.address (.issued ⟨heartId⟩)) &&
            decide (r.diff.portfolios.delta bob.address (.issued ⟨spadeId⟩) = 0) &&
            decide (0 < withNfts.blockchain.balance bob.address (.issued ⟨spadeId⟩)) &&
            (NftListings.nft? withNfts.blockchain ⟨spadeId⟩).isSome &&
            (NftListings.nft? (CompositeBlockchain withNfts.blockchain (some r.diff)
              (some heartToBobBlock) r.carry) ⟨heartId⟩).isSome &&
            (withNfts.blockchain.transactionInfo heartId).isSome := by
  decide +kernel

theorem beforeNfts_eq : beforeNfts = .ok withoutNfts := Validation.eq_ok_getD nft_run.1.1

theorem afterNfts_eq : afterNfts = .ok withNfts := Validation.eq_ok_getD nft_run.1.2

theorem withNfts_reachable : Reachable OwnBlock nftSettings dbSettings withNfts :=
  (Reachable.empty.grows (grows_ownBlock beforeNfts_eq)).grows (grows_ownBlock afterNfts_eq)

namespace NftListings

theorem nftListFromDiff_complete_iff_heart :
    ∃ r, BlockDiffer.fromBlock withNfts.blockchain withNfts.lastBlock heartToBobBlock
        .Unlimited = .ok r ∧
      ∀ (assetIds : Traversal (withNfts.db.assetList bob.address))
        (assets : Traversal (r.diff.portfolios.of bob.address).assets.dom),
        PagesComplete
            (nftListFromDiff
              (CompositeBlockchain withNfts.blockchain (some r.diff) (some heartToBobBlock)
                r.carry)
              (nftObservable withNfts.blockchain (withNfts.listedAssets bob.address assetIds)
                bob.address) (some r.diff) assets.list bob.address)
            (CompositeBlockchain withNfts.blockchain (some r.diff) (some heartToBobBlock)
              r.carry) bob.address ↔
          Complete withNfts.blockchain
            (CompositeBlockchain withNfts.blockchain (some r.diff) (some heartToBobBlock)
              r.carry) r.diff assets.list bob.address := by
  have hrun := nft_run.2
  rcases hr : BlockDiffer.fromBlock withNfts.blockchain withNfts.lastBlock heartToBobBlock
      .Unlimited with e | r
  · rw [hr] at hrun
    cases hrun
  · exact ⟨r, rfl, fun assetIds assets => nftListFromDiff_complete_iff withNfts_reachable
      (produces_fromBlock hr) bob.address assetIds assets (some heartToBobBlock) r.carry none⟩

/-- Bob's own NFT is lost when he is sent another one. -/
theorem nftListFromDiff_lost :
    ¬∀ (settings : BlockchainSettings) (dbSettings : DBSettings) (w : LevelDBWriter) (d : Diff)
      (carry : Long) (reward : Option Long) (block : Block) (a : Address)
      (assetIds : Traversal (w.db.assetList a))
      (assets : Traversal (d.portfolios.of a).assets.dom),
      Reachable OwnBlock settings dbSettings w → OwnBlock w (.append d carry reward block) →
      PagesComplete
        (nftListFromDiff (CompositeBlockchain w.blockchain (some d) (some block) carry reward)
          (nftObservable w.blockchain (w.listedAssets a assetIds) a) (some d) assets.list a)
        (CompositeBlockchain w.blockchain (some d) (some block) carry reward) a := by
  intro hclaim
  have hrun := nft_run.2
  rcases hr : BlockDiffer.fromBlock withNfts.blockchain withNfts.lastBlock heartToBobBlock
      .Unlimited with e | r
  · rw [hr] at hrun
    cases hrun
  · have hsome : (Except.ok r : Validation BlockDiffer.Result).toOption = some r := rfl
    simp only [hr, hsome, Option.any_some, Bool.and_eq_true, decide_eq_true_iff] at hrun
    obtain ⟨⟨⟨⟨⟨⟨hdom, hheart⟩, hunchanged⟩, hspade⟩, hspadeNft⟩, hheartNft⟩, hknown⟩ := hrun
    let assetIds : Traversal (withNfts.db.assetList bob.address) :=
      ⟨_, Finset.nodup_toList _, fun _ => Finset.mem_toList⟩
    let assets : Traversal (r.diff.portfolios.of bob.address).assets.dom :=
      ⟨_, Finset.nodup_toList _, fun _ => Finset.mem_toList⟩
    have hsources := sources_composite withNfts_reachable (produces_fromBlock hr) assetIds assets
      (some heartToBobBlock) r.carry none
    have hpages := hclaim nftSettings dbSettings withNfts r.diff r.carry none heartToBobBlock
      bob.address assetIds assets withNfts_reachable (ownBlock_fromBlock hr)
    have hgained := hsources.mem_gained.mpr ⟨hheart, hheartNft⟩
    obtain ⟨x, hlast⟩ := Option.isSome_iff_exists.mp
      (List.getLast?_isSome.mpr (List.ne_nil_of_mem hgained))
    -- the last NFT that Bob was given is the only one
    have hchanged := (hsources.changed x).mp
      (List.mem_of_mem_filter (List.mem_of_getLast? hlast))
    rw [hdom, Finset.mem_singleton] at hchanged
    rcases hsources.last_of_pagesComplete hpages hlast with hnew | hnothing
    · rw [hchanged] at hnew
      have hunknown : withNfts.blockchain.transactionInfo heartId = none := hnew
      rw [hunknown] at hknown
      exact absurd hknown Bool.false_ne_true
    · exact hnothing ⟨spadeId⟩ ⟨hspade, hspadeNft, Int64.le_of_eq hunchanged.symm⟩

end NftListings

end

end WavesNode
