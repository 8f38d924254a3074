/-
The leases that are active, over a liquid diff.

`collectActiveLeases(from, to)(filter)` is to list the active leases that were created within
two heights and satisfy a filter. Over a liquid diff it starts from the inner list. Only if the
range ends at the last height does it look at the diff: then it drops what the diff has
cancelled and adds what it has created, without asking the filter, or where the range starts.

So the list is the one wanted exactly when the branch taken has nothing to miss
(`collectActiveLeases_iff`). A node asks for the leases of some senders when it cancels their
overflow; with the diff in between, it gets everybody's new leases as well.

The source's list is kept as a list here (`activeLeases`), so that a lease may not stand in it
twice; by identifiers it is the map of `CompositeBlockchain.collectActiveLeases`
(`get?_collectActiveLeases`).
-/
import WavesNode.BlockchainUpdater
import WavesNode.Devnet

set_option autoImplicit false

namespace WavesNode

section

variable [Crypto] [PBTransactionSerializer]

def LeaseTransaction.id (lt : LeaseTransaction) : ByteStr := (Transaction.lease lt).id

namespace ActiveLeases

/-! ## 1. What is listed -/

/-- A lease of a ledger, and the height at which it was created. -/
def Created (b : Blockchain) (lt : LeaseTransaction) (height : ℕ) : Prop :=
  b.transactionInfo lt.id = some (height, .lease lt)

def isActive (b : Blockchain) (leaseId : ByteStr) : Bool :=
  (b.leaseDetails leaseId).any LeaseDetails.isActive

/-- **The contract**: the active leases created within two heights that satisfy the filter, each of
them once. -/
structure Lists (b : Blockchain) (from_ to_ : ℕ) (filter : LeaseTransaction → Bool)
    (leases : List LeaseTransaction) : Prop where
  nodup : (leases.map LeaseTransaction.id).Nodup
  mem_iff : ∀ lt, lt ∈ leases ↔
    ∃ height, Created b lt height ∧ isActive b lt.id = true ∧ from_ ≤ height ∧ height ≤ to_ ∧
      filter lt = true

/-- `ng.leaseState.collect { case (id, false) => id }`. -/
def cancelledInLiquidBlock (ng : Diff) (leaseId : ByteStr) : Bool :=
  ng.leaseState.get? leaseId == some false

def addedLease (ng : Diff) (entry : ByteStr × Transaction × Finset Address) :
    Option LeaseTransaction :=
  match entry.2.1 with
  | .lease lt => if cancelledInLiquidBlock ng entry.1 then none else some lt
  | _ => none

/-- The leases of a diff that it has not cancelled itself. -/
def addedInLiquidBlock (ng : Diff) : List LeaseTransaction :=
  ng.transactions.toList.filterMap (addedLease ng)

/-- `CompositeBlockchain.collectActiveLeases`, on the list of the inner blockchain. -/
def activeLeases (innerActiveLeases : List LeaseTransaction) (ng : Diff) (height to_ : ℕ) :
    List LeaseTransaction :=
  if to_ = height then
    (innerActiveLeases.filter fun lt => !cancelledInLiquidBlock ng lt.id) ++ addedInLiquidBlock ng
  else innerActiveLeases

/-! ## 2. Liquid diffs -/

/-- The leases of a diff on a ledger: its transactions are new, and by their identifiers; each of
its leases has a state, and it makes no other lease active. -/
structure LiquidLeases (inner : Blockchain) (ng : Diff) : Prop where
  keyed : ∀ id entry, ng.transactions.get? id = some entry → entry.1.id = id
  fresh : ∀ id entry, ng.transactions.get? id = some entry →
    inner.transactionInfo id = none ∧ inner.leaseDetails id = none
  stated : ∀ id lt addresses, ng.transactions.get? id = some (.lease lt, addresses) →
    (ng.leaseState.get? id).isSome = true
  kept : ∀ id, ng.leaseState.get? id = some true →
    ∃ lt addresses, ng.transactions.get? id = some (.lease lt, addresses)

variable {inner : Blockchain} {ng : Diff} {newBlock : Option Block} {carry : Long}
  {reward : Option Long}

omit [Crypto] [PBTransactionSerializer] in
theorem addedLease_eq_some {entry : ByteStr × Transaction × Finset Address}
    {lt : LeaseTransaction} :
    addedLease ng entry = some lt ↔
      entry.2.1 = .lease lt ∧ cancelledInLiquidBlock ng entry.1 = false := by
  obtain ⟨id, tx, addresses⟩ := entry
  unfold addedLease
  cases tx <;> simp [and_comm]

theorem mem_addedInLiquidBlock (h : LiquidLeases inner ng) {lt : LeaseTransaction} :
    lt ∈ addedInLiquidBlock ng ↔
      (∃ addresses, ng.transactions.get? lt.id = some (.lease lt, addresses)) ∧
        cancelledInLiquidBlock ng lt.id = false := by
  unfold addedInLiquidBlock
  rw [List.mem_filterMap]
  constructor
  · rintro ⟨⟨id, tx, addresses⟩, hmem, hadded⟩
    obtain ⟨rfl, hstate⟩ := addedLease_eq_some.mp hadded
    have hget := FiniteMap.mem_toList.mp hmem
    have hid : lt.id = id := h.keyed id _ hget
    rw [hid]
    exact ⟨⟨addresses, hget⟩, hstate⟩
  · rintro ⟨⟨addresses, hget⟩, hstate⟩
    exact ⟨(lt.id, .lease lt, addresses), FiniteMap.mem_toList.mpr hget,
      addedLease_eq_some.mpr ⟨rfl, hstate⟩⟩

theorem nodup_addedInLiquidBlock (h : LiquidLeases inner ng) :
    ((addedInLiquidBlock ng).map LeaseTransaction.id).Nodup := by
  unfold addedInLiquidBlock
  rw [List.Nodup, List.pairwise_map, List.pairwise_filterMap]
  refine (FiniteMap.pairwise_toList ng.transactions).imp_of_mem ?_
  intro entry entry' hmem hmem' hne lt hlt lt' hlt'
  have hid : ∀ (entry : ByteStr × Transaction × Finset Address) (lt : LeaseTransaction),
      entry ∈ ng.transactions.toList → entry.2.1 = .lease lt → lt.id = entry.1 := by
    intro entry lt hmem htx
    have hkey := h.keyed entry.1 entry.2 (FiniteMap.mem_toList.mp hmem)
    rw [htx] at hkey
    exact hkey
  rw [hid entry lt hmem (addedLease_eq_some.mp hlt).1,
    hid entry' lt' hmem' (addedLease_eq_some.mp hlt').1]
  exact hne

/-- A lease of the composite is one of the diff, at the last height, or one of the inner ledger. -/
theorem created_composite (h : LiquidLeases inner ng) {lt : LeaseTransaction} {height : ℕ} :
    Created (CompositeBlockchain inner (some ng) newBlock carry reward) lt height ↔
      ((∃ addresses, ng.transactions.get? lt.id = some (.lease lt, addresses)) ∧
        height = (CompositeBlockchain inner (some ng) newBlock carry reward).height) ∨
      Created inner lt height := by
  unfold Created
  rw [composite_transactionInfo]
  cases hget : ng.transactions.get? lt.id with
  | none => simp
  | some entry =>
    obtain ⟨tx, addresses⟩ := entry
    rw [(h.fresh lt.id _ hget).1, Option.map_some, Option.some_or, Option.some.injEq,
      Prod.mk.injEq]
    constructor
    · rintro ⟨rfl, rfl⟩
      exact .inl ⟨⟨addresses, rfl⟩, rfl⟩
    · rintro (⟨⟨addresses', heq⟩, rfl⟩ | hinner)
      · exact ⟨rfl, (Prod.mk.inj (Option.some.inj heq)).1⟩
      · cases hinner

theorem isActive_composite_added (h : LiquidLeases inner ng) {lt : LeaseTransaction}
    {addresses : Finset Address}
    (hadded : ng.transactions.get? lt.id = some (.lease lt, addresses)) :
    isActive (CompositeBlockchain inner (some ng) newBlock carry reward) lt.id =
      !cancelledInLiquidBlock ng lt.id := by
  obtain ⟨state, hstate⟩ := Option.isSome_iff_exists.mp (h.stated lt.id lt addresses hadded)
  have hdetails : (CompositeBlockchain inner (some ng) newBlock carry reward).leaseDetails lt.id =
      some ⟨lt.sender, lt.recipient,
        (CompositeBlockchain inner (some ng) newBlock carry reward).height, lt.amount, state⟩ := by
    change CompositeBlockchain.leaseDetails inner ng _ lt.id = _
    unfold CompositeBlockchain.leaseDetails
    rw [(h.fresh lt.id _ hadded).2, hadded]
    dsimp only
    rw [FiniteMap.getOrElse, show (Transaction.lease lt).id = lt.id from rfl, hstate]
    rfl
  unfold isActive cancelledInLiquidBlock
  rw [hdetails, hstate]
  cases state <;> rfl

theorem isActive_composite_inner (h : LiquidLeases inner ng) {lt : LeaseTransaction} {height : ℕ}
    (hcreated : Created inner lt height) :
    isActive (CompositeBlockchain inner (some ng) newBlock carry reward) lt.id =
      (isActive inner lt.id && !cancelledInLiquidBlock ng lt.id) := by
  -- a lease of the inner ledger is not among the transactions of the diff
  have hnone : ng.transactions.get? lt.id = none := by
    cases hget : ng.transactions.get? lt.id with
    | none => rfl
    | some entry =>
      rw [Created, (h.fresh lt.id entry hget).1] at hcreated
      cases hcreated
  have hstate : ng.leaseState.get? lt.id ≠ some true := by
    intro htrue
    obtain ⟨lt', addresses, hget⟩ := h.kept lt.id htrue
    rw [hnone] at hget
    cases hget
  unfold isActive cancelledInLiquidBlock
  change (CompositeBlockchain.leaseDetails inner ng _ lt.id).any _ = _
  unfold CompositeBlockchain.leaseDetails
  cases inner.leaseDetails lt.id with
  | none => rw [hnone]; rfl
  | some details =>
    dsimp only
    rw [Option.any_some, Option.any_some, FiniteMap.getOrElse]
    rcases hget : ng.leaseState.get? lt.id with _ | _ | _
    · simp
    · simp
    · exact absurd hget hstate

/-! ## 3. When the list is the one wanted -/

/-- What the branch that is taken has to miss. Where the range ends at the last height, every lease
of the diff satisfies the filter and the range is not empty; elsewhere, the diff cancels no lease
that is listed, and adds none that is wanted. -/
def NothingMissed (inner : Blockchain) (ng : Diff) (height from_ to_ : ℕ)
    (filter : LeaseTransaction → Bool) : Prop :=
  if to_ = height then ∀ lt ∈ addedInLiquidBlock ng, from_ ≤ height ∧ filter lt = true
  else
    (∀ lt h, Created inner lt h → isActive inner lt.id = true → from_ ≤ h → h ≤ to_ →
      filter lt = true → cancelledInLiquidBlock ng lt.id = false) ∧
    (from_ ≤ height → height ≤ to_ → ∀ lt ∈ addedInLiquidBlock ng, filter lt = false)

variable {from_ to_ : ℕ} {filter : LeaseTransaction → Bool}
  {innerActiveLeases : List LeaseTransaction}

/-- A lease of the composite that is active is one that the diff adds, or an inner one that it does
not cancel. -/
theorem active_composite_iff (h : LiquidLeases inner ng) {lt : LeaseTransaction} {height : ℕ} :
    Created (CompositeBlockchain inner (some ng) newBlock carry reward) lt height ∧
        isActive (CompositeBlockchain inner (some ng) newBlock carry reward) lt.id = true ↔
      (lt ∈ addedInLiquidBlock ng ∧
        height = (CompositeBlockchain inner (some ng) newBlock carry reward).height) ∨
      (Created inner lt height ∧ isActive inner lt.id = true ∧
        cancelledInLiquidBlock ng lt.id = false) := by
  rw [created_composite h, mem_addedInLiquidBlock h]
  constructor
  · rintro ⟨⟨⟨addresses, hget⟩, hheight⟩ | hcreated, hactive⟩
    · rw [isActive_composite_added h hget] at hactive
      exact .inl ⟨⟨⟨addresses, hget⟩, by simpa using hactive⟩, hheight⟩
    · rw [isActive_composite_inner h hcreated, Bool.and_eq_true] at hactive
      exact .inr ⟨hcreated, hactive.1, by simpa using hactive.2⟩
  · rintro (⟨⟨⟨addresses, hget⟩, hstate⟩, hheight⟩ | ⟨hcreated, hactive, hstate⟩)
    · refine ⟨.inl ⟨⟨addresses, hget⟩, hheight⟩, ?_⟩
      rw [isActive_composite_added h hget, hstate]
      rfl
    · refine ⟨.inr hcreated, ?_⟩
      rw [isActive_composite_inner h hcreated, hactive, hstate]
      rfl

theorem not_created_of_added (h : LiquidLeases inner ng) {lt : LeaseTransaction} {height : ℕ}
    (hadded : lt ∈ addedInLiquidBlock ng) : ¬Created inner lt height := by
  intro hcreated
  obtain ⟨⟨addresses, hget⟩, -⟩ := (mem_addedInLiquidBlock h).mp hadded
  rw [Created, (h.fresh lt.id _ hget).1] at hcreated
  cases hcreated

theorem lists_atLastHeight_iff (h : LiquidLeases inner ng) {height : ℕ}
    (hheight : (CompositeBlockchain inner (some ng) newBlock carry reward).height = height)
    (hinner : Lists inner from_ height filter innerActiveLeases) :
    Lists (CompositeBlockchain inner (some ng) newBlock carry reward) from_ height filter
        ((innerActiveLeases.filter fun lt => !cancelledInLiquidBlock ng lt.id) ++
          addedInLiquidBlock ng) ↔
      ∀ lt ∈ addedInLiquidBlock ng, from_ ≤ height ∧ filter lt = true := by
  constructor
  · intro hlists lt hadded
    obtain ⟨h', hcreated, hactive, hfrom, -, hfilter⟩ :=
      (hlists.mem_iff lt).mp (List.mem_append_right _ hadded)
    rcases (active_composite_iff h).mp ⟨hcreated, hactive⟩ with ⟨-, hlast⟩ | ⟨hold, -, -⟩
    · rw [hlast, hheight] at hfrom
      exact ⟨hfrom, hfilter⟩
    · exact absurd hold (not_created_of_added h hadded)
  · intro hmet
    constructor
    · rw [List.map_append, List.nodup_append]
      refine ⟨hinner.nodup.sublist (List.filter_sublist.map _), nodup_addedInLiquidBlock h, ?_⟩
      -- the identifiers of the diff are new
      intro id hid id' hid' heq
      obtain ⟨lt, hlt, rfl⟩ := List.mem_map.mp hid
      obtain ⟨lt', hlt', rfl⟩ := List.mem_map.mp hid'
      obtain ⟨h', hcreated, -⟩ := (hinner.mem_iff lt).mp (List.mem_of_mem_filter hlt)
      obtain ⟨⟨addresses, hget⟩, -⟩ := (mem_addedInLiquidBlock h).mp hlt'
      rw [Created, heq, (h.fresh lt'.id _ hget).1] at hcreated
      cases hcreated
    · intro lt
      rw [List.mem_append, List.mem_filter, hinner.mem_iff, Bool.not_eq_true']
      constructor
      · rintro (⟨⟨h', hcreated, hactive, hfrom, hto, hfilter⟩, hstate⟩ | hadded)
        · have hcomposite :
              Created (CompositeBlockchain inner (some ng) newBlock carry reward) lt h' ∧
                isActive (CompositeBlockchain inner (some ng) newBlock carry reward) lt.id = true :=
            (active_composite_iff h).mpr (.inr ⟨hcreated, hactive, hstate⟩)
          exact ⟨h', hcomposite.1, hcomposite.2, hfrom, hto, hfilter⟩
        · obtain ⟨hcreated, hactive⟩ := (active_composite_iff h).mpr (.inl ⟨hadded, hheight.symm⟩)
          obtain ⟨hfrom, hfilter⟩ := hmet lt hadded
          exact ⟨height, hcreated, hactive, hfrom, le_refl _, hfilter⟩
      · rintro ⟨h', hcreated, hactive, hfrom, hto, hfilter⟩
        rcases (active_composite_iff h).mp ⟨hcreated, hactive⟩ with
          ⟨hadded, -⟩ | ⟨hcreated, hactive, hstate⟩
        · exact .inr hadded
        · exact .inl ⟨⟨h', hcreated, hactive, hfrom, hto, hfilter⟩, hstate⟩

theorem lists_elsewhere_iff (h : LiquidLeases inner ng) {height : ℕ}
    (hheight : (CompositeBlockchain inner (some ng) newBlock carry reward).height = height)
    (hinner : Lists inner from_ to_ filter innerActiveLeases) :
    Lists (CompositeBlockchain inner (some ng) newBlock carry reward) from_ to_ filter
        innerActiveLeases ↔
      (∀ lt h, Created inner lt h → isActive inner lt.id = true → from_ ≤ h → h ≤ to_ →
        filter lt = true → cancelledInLiquidBlock ng lt.id = false) ∧
      (from_ ≤ height → height ≤ to_ → ∀ lt ∈ addedInLiquidBlock ng, filter lt = false) := by
  constructor
  · intro hlists
    constructor
    · intro lt h' hcreated hactive hfrom hto hfilter
      have hmem := (hinner.mem_iff lt).mpr ⟨h', hcreated, hactive, hfrom, hto, hfilter⟩
      obtain ⟨h'', -, hactive', -⟩ := (hlists.mem_iff lt).mp hmem
      rw [isActive_composite_inner h hcreated, hactive, Bool.true_and] at hactive'
      simpa using hactive'
    · intro hfrom hto lt hadded
      by_contra hfilter
      obtain ⟨hcreated, hactive⟩ := (active_composite_iff h).mpr (.inl ⟨hadded, hheight.symm⟩)
      have hmem := (hlists.mem_iff lt).mpr
        ⟨height, hcreated, hactive, hfrom, hto, Bool.not_eq_false _ ▸ hfilter⟩
      obtain ⟨h', hold, -⟩ := (hinner.mem_iff lt).mp hmem
      exact not_created_of_added h hadded hold
  · rintro ⟨hcancelled, hadds⟩
    refine ⟨hinner.nodup, fun lt => ?_⟩
    rw [hinner.mem_iff]
    constructor
    · rintro ⟨h', hcreated, hactive, hfrom, hto, hfilter⟩
      have hstate := hcancelled lt h' hcreated hactive hfrom hto hfilter
      have hcomposite : Created (CompositeBlockchain inner (some ng) newBlock carry reward) lt h' ∧
          isActive (CompositeBlockchain inner (some ng) newBlock carry reward) lt.id = true :=
        (active_composite_iff h).mpr (.inr ⟨hcreated, hactive, hstate⟩)
      exact ⟨h', hcomposite.1, hcomposite.2, hfrom, hto, hfilter⟩
    · rintro ⟨h', hcreated, hactive, hfrom, hto, hfilter⟩
      rcases (active_composite_iff h).mp ⟨hcreated, hactive⟩ with
        ⟨hadded, hlast⟩ | ⟨hcreated, hactive, -⟩
      · rw [hlast, hheight] at hfrom hto
        rw [hadds hfrom hto lt hadded] at hfilter
        cases hfilter
      · exact ⟨h', hcreated, hactive, hfrom, hto, hfilter⟩

/-- **The liquid listing**: on an inner list that is right, it is right exactly when the branch it
takes misses nothing. -/
theorem collectActiveLeases_iff (h : LiquidLeases inner ng)
    (hinner : Lists inner from_ to_ filter innerActiveLeases) :
    Lists (CompositeBlockchain inner (some ng) newBlock carry reward) from_ to_ filter
        (activeLeases innerActiveLeases ng
          (CompositeBlockchain inner (some ng) newBlock carry reward).height to_) ↔
      NothingMissed inner ng (CompositeBlockchain inner (some ng) newBlock carry reward).height
        from_ to_ filter := by
  unfold activeLeases NothingMissed
  by_cases hto : to_ = (CompositeBlockchain inner (some ng) newBlock carry reward).height
  · rw [if_pos hto, if_pos hto]
    subst hto
    exact lists_atLastHeight_iff h rfl hinner
  · rw [if_neg hto, if_neg hto]
    exact lists_elsewhere_iff h rfl hinner

/-! ## 4. The list by identifiers -/

/-- The map of the ledger's model is the list, by identifiers. -/
theorem get?_collectActiveLeases (h : LiquidLeases inner ng)
    (hinner : ∀ id lt, (inner.collectActiveLeases from_ to_ filter).get? id = some lt ↔
      lt ∈ innerActiveLeases ∧ lt.id = id)
    (hlists : Lists inner from_ to_ filter innerActiveLeases) (id : ByteStr)
    (lt : LeaseTransaction) :
    ((CompositeBlockchain inner (some ng) newBlock carry reward).collectActiveLeases from_ to_
        filter).get? id = some lt ↔
      lt ∈ activeLeases innerActiveLeases ng
          (CompositeBlockchain inner (some ng) newBlock carry reward).height to_ ∧ lt.id = id := by
  change (CompositeBlockchain.collectActiveLeases inner (some ng)
    (CompositeBlockchain inner (some ng) newBlock carry reward).height from_ to_ filter).get? id =
    some lt ↔ _
  unfold CompositeBlockchain.collectActiveLeases activeLeases
  dsimp only
  by_cases hto : to_ = (CompositeBlockchain inner (some ng) newBlock carry reward).height
  · rw [if_pos hto, if_pos hto, FiniteMap.get?_append, FiniteMap.get?_filterMap,
      FiniteMap.get?_filter, List.mem_append, List.mem_filter, mem_addedInLiquidBlock h]
    cases hget : ng.transactions.get? id with
    | none =>
      rw [Option.bind_none, Option.none_or, Option.filter_eq_some_iff, hinner]
      constructor
      · rintro ⟨⟨hmem, hid⟩, hstate⟩
        exact ⟨.inl ⟨hmem, hstate⟩, hid⟩
      · rintro ⟨⟨hmem, hstate⟩ | ⟨⟨addresses, hadded⟩, -⟩, hid⟩
        · exact ⟨⟨hmem, hid⟩, hstate⟩
        · rw [hid, hget] at hadded
          cases hadded
    | some entry =>
      -- the identifiers of the diff are new, so the inner list has none of them
      have hfresh : (inner.collectActiveLeases from_ to_ filter).get? id = none := by
        rw [Option.eq_none_iff_forall_ne_some]
        intro lt' hlt'
        obtain ⟨hmem, hid⟩ := (hinner id lt').mp hlt'
        obtain ⟨h', hcreated, -⟩ := (hlists.mem_iff lt').mp hmem
        rw [Created, hid, (h.fresh id entry hget).1] at hcreated
        cases hcreated
      have hinnerMem : lt.id = id → lt ∉ innerActiveLeases := by
        intro hid hmem
        rw [(hinner id lt).mpr ⟨hmem, hid⟩] at hfresh
        cases hfresh
      rw [hfresh, Option.filter_none, Option.or_none]
      have hbind : (some entry).bind (fun entry =>
          match entry.1 with
          | .lease lt => if ng.leaseState.get? id == some false then none else some lt
          | _ => none) = addedLease ng (id, entry) := rfl
      refine Iff.trans (b := addedLease ng (id, entry) = some lt) ?_ ?_
      · exact Iff.of_eq (congrArg (· = some lt) hbind)
      · rw [addedLease_eq_some]
        constructor
        · rintro ⟨htx, hstate⟩
          have hid : lt.id = id := by
            have hkey := h.keyed id entry hget
            rw [htx] at hkey
            exact hkey
          refine ⟨.inr ⟨⟨entry.2, ?_⟩, hid.symm ▸ hstate⟩, hid⟩
          rw [hid, hget, ← htx]
        · rintro ⟨⟨hmem, -⟩ | ⟨⟨addresses, hadded⟩, hstate⟩, hid⟩
          · exact absurd hmem (hinnerMem hid)
          · rw [hid, hget] at hadded
            rw [hid] at hstate
            exact ⟨congrArg Prod.fst (Option.some.inj hadded), hstate⟩
  · rw [if_neg hto, if_neg hto]
    exact hinner id lt

end ActiveLeases

end

namespace Devnet

def leaseOfAlice : LeaseTransaction where
  version := 1
  sender := alice.publicKey
  recipient := .address bob.address
  amount := 100000000
  fee := 100000
  timestamp := 1500000000000
  proofs := ⟨[]⟩

variable [Crypto] [PBTransactionSerializer]

def liquidLease : Diff :=
  { Diff.empty with
    transactions := .single leaseOfAlice.id (.lease leaseOfAlice, ∅)
    leaseState := .single leaseOfAlice.id true }

theorem liquidLeases_liquidLease :
    ActiveLeases.LiquidLeases (Blockchain.initial (settings [])) liquidLease where
  keyed id entry h := by
    change (if id = leaseOfAlice.id then some (Transaction.lease leaseOfAlice, ∅) else none) =
      some entry at h
    split at h
    · rename_i hid
      cases h
      exact hid.symm
    · cases h
  fresh _ _ _ := ⟨rfl, rfl⟩
  stated id lt addresses h := by
    change (if id = leaseOfAlice.id then some true else none).isSome = true
    change (if id = leaseOfAlice.id then some (Transaction.lease leaseOfAlice, ∅) else none) =
      some (Transaction.lease lt, addresses) at h
    split at h
    · rename_i hid
      rw [if_pos hid]
      rfl
    · cases h
  kept id h := by
    change (if id = leaseOfAlice.id then some true else none) = some true at h
    split at h
    · rename_i hid
      refine ⟨leaseOfAlice, ∅, ?_⟩
      rw [hid]
      exact FiniteMap.get?_single_self _ _
    · cases h

theorem lists_initial (from_ to_ : ℕ) (filter : LeaseTransaction → Bool) :
    ActiveLeases.Lists (Blockchain.initial (settings [])) from_ to_ filter [] where
  nodup := List.nodup_nil
  mem_iff lt := by
    refine iff_of_false List.not_mem_nil ?_
    rintro ⟨height, hcreated, -⟩
    cases hcreated

end Devnet

section
open Devnet

local instance leasesCrypto : Crypto := KnownAnswers.crypto {}
local instance leasesSerializer : PBTransactionSerializer := pbTransactionSerializer

theorem ActiveLeases.collectActiveLeases_iff_liquidLease :
    ActiveLeases.Lists
        (CompositeBlockchain (Blockchain.initial (settings [])) (some liquidLease)
          (some emptyBlock)) 1 1 (fun lt => lt.sender = alice.publicKey)
        (ActiveLeases.activeLeases [] liquidLease 1 1) ↔
      ActiveLeases.NothingMissed (Blockchain.initial (settings [])) liquidLease 1 1 1
        fun lt => lt.sender = alice.publicKey :=
  ActiveLeases.collectActiveLeases_iff liquidLeases_liquidLease (lists_initial 1 1 _)

/-- Asked for the leases of Bob, the composite lists the new one of Alice. -/
theorem ActiveLeases.collectActiveLeases_unfiltered :
    ¬∀ (inner : Blockchain) (ng : Diff) (newBlock : Option Block) (carry : Long)
      (reward : Option Long) (from_ to_ : ℕ) (filter : LeaseTransaction → Bool)
      (innerActiveLeases : List LeaseTransaction),
      ActiveLeases.LiquidLeases inner ng →
      ActiveLeases.Lists inner from_ to_ filter innerActiveLeases →
      ActiveLeases.Lists (CompositeBlockchain inner (some ng) newBlock carry reward) from_ to_ filter
        (ActiveLeases.activeLeases innerActiveLeases ng
          (CompositeBlockchain inner (some ng) newBlock carry reward).height to_) := by
  intro h
  have hlists := h (Blockchain.initial (settings [])) liquidLease (some emptyBlock) 0 none 1 1
    (fun lt => lt.sender = bob.publicKey) [] liquidLeases_liquidLease (lists_initial 1 1 _)
  have hadded : leaseOfAlice ∈ ActiveLeases.addedInLiquidBlock liquidLease := by
    refine (ActiveLeases.mem_addedInLiquidBlock liquidLeases_liquidLease).mpr ⟨⟨∅, ?_⟩, ?_⟩
    · exact FiniteMap.get?_single_self _ _
    · unfold ActiveLeases.cancelledInLiquidBlock
      rw [liquidLease, FiniteMap.get?_single_self]
      rfl
  obtain ⟨height, -, -, -, -, hfilter⟩ :=
    (hlists.mem_iff leaseOfAlice).mp (List.mem_append_right _ hadded)
  exact absurd hfilter (by decide)

end

end WavesNode
