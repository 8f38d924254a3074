/-
The pool of unconfirmed transactions, and what the miner packs from it.

`packUnconfirmed` takes the transactions of the pool one after another, in the order of
their fees. A transaction that has expired leaves the pool, and so does one that is
rejected on the state the packed ones lead to. One that is accepted is packed if the
constraint is not overfilled by it, and otherwise passed over; once the constraint is full,
or the time is up and something is packed, the rest is left as it is.

The miner signs what it gets. So the packed transactions have to be applicable in their
order, each on the diffs of those before it, and the constraint that comes back has to be
what they leave of the one that was given (`packUnconfirmed_sound`). The invariant is that of
the fold: what is packed so far leads, in order, to the accumulated diff and to the
constraint at hand (`Packing.Sound`).

The order compares quotients of doubles; here it is any rearrangement. The clocks are read
once at each turn.
-/
import WavesNode.PessimisticPortfolios
import WavesNode.BlockchainUpdater

set_option autoImplicit false

namespace WavesNode

section

variable [Crypto] [PBTransactionSerializer] [Ride]

namespace MiningConstraint

omit [Crypto] [PBTransactionSerializer] [Ride]

mutual

def isFull : MiningConstraint → Bool
  | Unlimited => false
  | OneDimensional rest estimator _ => rest < estimator.minEstimate
  | MultiDimensional constraints => anyFull constraints

def anyFull : List MiningConstraint → Bool
  | [] => false
  | c :: cs => isFull c || anyFull cs

end

end MiningConstraint

/-! ## 1. The pool -/

/-- `UtxPoolImpl`: the transactions by their identifiers, and what they withdraw. -/
structure UtxPool where
  transactions : FiniteMap ByteStr Transaction
  pessimisticPortfolios : PessimisticPortfolios
  keyed : ∀ txId tx, transactions.get? txId = some tx → tx.id = txId
  held : ∀ txId, pessimisticPortfolios.contains txId = true → transactions.contains txId = true

namespace PessimisticPortfolios

omit [Crypto] [PBTransactionSerializer] [Ride]

theorem contains_add {s : PessimisticPortfolios} {txId id : ByteStr} {txDiff : Diff}
    (h : (s.add txId txDiff).contains id = true) : id = txId ∨ s.contains id = true := by
  unfold add at h
  dsimp only at h
  split at h
  · rw [contains, FiniteMap.contains, FiniteMap.get?_insert] at h
    by_cases hid : id = txId
    · exact .inl hid
    · rw [if_neg hid] at h
      exact .inr h
  · exact .inr h

theorem contains_remove {s : PessimisticPortfolios} {txId id : ByteStr}
    (h : (s.remove txId).contains id = true) : id ≠ txId ∧ s.contains id = true := by
  unfold remove at h
  split at h
  · rename_i hnone
    refine ⟨?_, h⟩
    rintro rfl
    rw [contains, FiniteMap.contains, hnone] at h
    cases h
  · rw [contains, FiniteMap.contains, FiniteMap.get?_erase] at h
    by_cases hid : id = txId
    · rw [if_pos hid] at h
      cases h
    · rw [if_neg hid] at h
      exact ⟨hid, h⟩

end PessimisticPortfolios

namespace UtxPool

def empty : UtxPool where
  transactions := ∅
  pessimisticPortfolios := .empty
  keyed _ _ h := by cases h
  held _ h := by cases h

/-- `remove`: a transaction leaves with what it withdraws. -/
def remove (pool : UtxPool) (txId : ByteStr) : UtxPool where
  transactions := pool.transactions.erase txId
  pessimisticPortfolios := pool.pessimisticPortfolios.remove txId
  keyed id tx h := by
    rw [FiniteMap.get?_erase] at h
    by_cases hid : id = txId
    · rw [if_pos hid] at h
      cases h
    · rw [if_neg hid] at h
      exact pool.keyed id tx h
  held id h := by
    obtain ⟨hid, hheld⟩ := PessimisticPortfolios.contains_remove h
    rw [FiniteMap.contains, FiniteMap.get?_erase, if_neg hid]
    exact pool.held id hheld

def removeAll (pool : UtxPool) (txs : List Transaction) : UtxPool :=
  (txs.map Transaction.id).foldl remove pool

/-- `transactions.put`, and `pessimisticPortfolios.add` if there is a diff. -/
def put (pool : UtxPool) (tx : Transaction) (maybeDiff : Option Diff) : UtxPool where
  transactions := pool.transactions.insert tx.id tx
  pessimisticPortfolios := maybeDiff.elim pool.pessimisticPortfolios
    (pool.pessimisticPortfolios.add tx.id)
  keyed id tx' h := by
    rw [FiniteMap.get?_insert] at h
    by_cases hid : id = tx.id
    · rw [if_pos hid, Option.some.injEq] at h
      rw [hid, h]
    · rw [if_neg hid] at h
      exact pool.keyed id tx' h
  held id h := by
    rw [FiniteMap.contains, FiniteMap.get?_insert]
    by_cases hid : id = tx.id
    · rw [if_pos hid]
      rfl
    · rw [if_neg hid]
      cases maybeDiff with
      | none => exact pool.held id h
      | some d => exact pool.held id ((PessimisticPortfolios.contains_add h).resolve_left hid)

/-- `addTransaction`: without verification a transaction is kept even if it has no diff. -/
def addTransaction (pool : UtxPool) (b : Blockchain) (correctedTime : Long) (tx : Transaction)
    (verify : Bool) : UtxPool × Validation Bool :=
  match TransactionDiffer.apply b.lastBlockTimestamp correctedTime verify b tx with
  | .ok d => (pool.put tx (some d), .ok true)
  | .error (.error e) => (if verify then pool else pool.put tx none, .fail e)
  | .error (.thrown m) => (pool, .throwing m)

def spendableBalance (pool : UtxPool) (b : Blockchain) (order : SetOrder ByteStr) (addr : Address)
    (assetId : Asset) : Long :=
  b.balance addr assetId -
      (match assetId with
      | .Waves => (b.leaseBalance addr).out
      | .issued _ => 0) +
    (pool.pessimisticPortfolios.getAggregated order addr).spendableBalanceOf assetId

end UtxPool

/-- `TransactionsOrdering.InUTXPool` as a sort. -/
structure TransactionsOrdering where
  sorted : List Transaction → List Transaction
  perm : ∀ txs, (sorted txs).Perm txs

/-- `all`. -/
def UtxPool.all (pool : UtxPool) (order : TransactionsOrdering) : List Transaction :=
  order.sorted (pool.transactions.toList.map Prod.snd)

omit [Ride] in
theorem UtxPool.get?_of_mem_all {pool : UtxPool} {order : TransactionsOrdering} {tx : Transaction}
    (h : tx ∈ pool.all order) : pool.transactions.get? tx.id = some tx := by
  rw [UtxPool.all, (order.perm _).mem_iff, List.mem_map] at h
  obtain ⟨⟨txId, tx'⟩, hmem, rfl⟩ := h
  have hget := FiniteMap.mem_toList.mp hmem
  rw [pool.keyed txId tx' hget]
  exact hget

/-! ## 2. Packing -/

/-- What the clocks say at each turn, and, first, at the beginning. -/
structure Clock where
  correctedTime : ℕ → Long
  nanoTime : ℕ → Long

/-- What a call of `packUnconfirmed` depends on besides the pool. -/
structure Packer where
  blockchain : Blockchain
  order : TransactionsOrdering
  clock : Clock
  /-- In nanoseconds; `Duration.Inf` is `none`. -/
  maxPackTime : Option Long

/-- The accumulator of the fold: the packed transactions with the last one first, and the pool
and an exception beside it. -/
structure Packing where
  packedTransactions : Option (List Transaction)
  diff : Diff
  currentConstraint : MiningConstraint
  iterationCount : ℕ
  pool : UtxPool
  thrown : Option String

namespace Packer

variable (p : Packer)

def isTimeLimitReached (turn : ℕ) : Bool :=
  p.maxPackTime.any fun limit => p.clock.nanoTime (turn + 1) - p.clock.nanoTime 0 ≥ limit

def isExpired (turn : ℕ) (tx : Transaction) : Bool :=
  p.clock.correctedTime (turn + 1) - tx.timestamp >
    p.blockchain.settings.functionalitySettings.maxTransactionTimeBackOffset

/-- `differ(updatedBlockchain, tx)`. -/
def differ (diff : Diff) (tx : Transaction) : Validation Diff :=
  TransactionDiffer.apply p.blockchain.lastBlockTimestamp (p.clock.correctedTime 0) true
    (CompositeBlockchain p.blockchain (some diff)) tx

def packStep (r : Packing) (turn : Transaction × ℕ) : Packing :=
  let (tx, i) := turn
  if r.thrown.isSome then r
  else if r.currentConstraint.isFull ||
      (r.packedTransactions.any (fun txs => !txs.isEmpty) && p.isTimeLimitReached i) then r
  else if p.isExpired i tx then
    { r with pool := r.pool.remove tx.id, iterationCount := r.iterationCount + 1 }
  else
    match p.differ r.diff tx with
    | .ok newDiff =>
      let updatedConstraint := r.currentConstraint.put tx newDiff
      if updatedConstraint.isOverfilled then
        { r with
          packedTransactions := r.packedTransactions.or (some [])
          iterationCount := r.iterationCount + 1 }
      else
        { r with
          packedTransactions := some (tx :: r.packedTransactions.getD [])
          diff := r.diff.combine newDiff
          currentConstraint := updatedConstraint
          iterationCount := r.iterationCount + 1 }
    | .error (.error _) =>
      { r with pool := r.pool.remove tx.id, iterationCount := r.iterationCount + 1 }
    | .error (.thrown m) => { r with thrown := some m }

/-- The fold after so many turns. -/
def packAfter (pool : UtxPool) (initialConstraint : MiningConstraint) (turns : ℕ) : Packing :=
  ((pool.all p.order).zipIdx.take turns).foldl p.packStep
    ⟨none, Diff.empty, initialConstraint, 0, pool, none⟩

def packUnconfirmed (pool : UtxPool) (initialConstraint : MiningConstraint) :
    UtxPool × Validation (Option (List Transaction) × MiningConstraint) :=
  let r := p.packAfter pool initialConstraint (pool.all p.order).length
  (r.pool, match r.thrown with
    | some m => .throwing m
    | none => .ok (r.packedTransactions.map List.reverse, r.currentConstraint))

/-! ## 3. Applying transactions in their order -/

/-- The diff and the constraint that a sequence of transactions leads to, each of them accepted on
the composite of the blockchain and the diffs of those before it. -/
def applyInOrder (diff : Diff) (constraint : MiningConstraint) :
    List Transaction → Validation (Diff × MiningConstraint)
  | [] => .ok (diff, constraint)
  | tx :: rest => do
    let newDiff ← p.differ diff tx
    applyInOrder (diff.combine newDiff) (constraint.put tx newDiff) rest

variable {p}

theorem applyInOrder_append {diff diff' : Diff} {constraint constraint' : MiningConstraint}
    {txs : List Transaction}
    (h : p.applyInOrder diff constraint txs = .ok (diff', constraint')) (rest : List Transaction) :
    p.applyInOrder diff constraint (txs ++ rest) = p.applyInOrder diff' constraint' rest := by
  induction txs generalizing diff constraint with
  | nil =>
    cases h
    rfl
  | cons tx txs ih =>
    obtain ⟨newDiff, hdiff, hrest⟩ := Validation.bind_eq_ok.mp h
    rw [List.cons_append, applyInOrder, hdiff, Validation.ok_bind, ih hrest]

/-- What is packed so far leads, in its order, to the diff and to the constraint at hand, which is
not overfilled unless it is the one that was given, and nothing is packed. -/
structure Sound (p : Packer) (initialConstraint : MiningConstraint) (r : Packing) : Prop where
  applied : p.applyInOrder Diff.empty initialConstraint (r.packedTransactions.getD []).reverse =
    .ok (r.diff, r.currentConstraint)
  fits : r.currentConstraint.isOverfilled = true →
    r.currentConstraint = initialConstraint ∧ r.packedTransactions.getD [] = []

/-- What a turn does to a transaction that leaves: it has expired, or it is rejected on the diff of
those that are packed before it. -/
def Leaves (p : Packer) (r : Packing) (turn : Transaction × ℕ) : Prop :=
  p.isExpired turn.2 turn.1 = true ∨ ∃ e, p.differ r.diff turn.1 = .error (.error e)

/-- **One turn**: nothing changes but the count, or the transaction leaves, or it is accepted and
fits, and is packed. -/
theorem packStep_cases (r : Packing) (turn : Transaction × ℕ) :
    ((p.packStep r turn).packedTransactions.getD [] = r.packedTransactions.getD [] ∧
      (p.packStep r turn).diff = r.diff ∧
      (p.packStep r turn).currentConstraint = r.currentConstraint ∧
      ((p.packStep r turn).pool = r.pool ∨
        p.Leaves r turn ∧ (p.packStep r turn).pool = r.pool.remove turn.1.id)) ∨
    ∃ newDiff, p.differ r.diff turn.1 = .ok newDiff ∧
      (r.currentConstraint.put turn.1 newDiff).isOverfilled = false ∧
      (p.packStep r turn).packedTransactions.getD [] =
        turn.1 :: r.packedTransactions.getD [] ∧
      (p.packStep r turn).diff = r.diff.combine newDiff ∧
      (p.packStep r turn).currentConstraint = r.currentConstraint.put turn.1 newDiff ∧
      (p.packStep r turn).pool = r.pool := by
  obtain ⟨tx, i⟩ := turn
  unfold packStep
  dsimp only
  split
  · exact .inl ⟨rfl, rfl, rfl, .inl rfl⟩
  · split
    · exact .inl ⟨rfl, rfl, rfl, .inl rfl⟩
    · split
      · rename_i hexpired
        exact .inl ⟨rfl, rfl, rfl, .inr ⟨.inl hexpired, rfl⟩⟩
      · split
        · rename_i newDiff hdiff
          by_cases hover : (r.currentConstraint.put tx newDiff).isOverfilled = true
          · rw [if_pos hover]
            refine .inl ⟨?_, rfl, rfl, .inl rfl⟩
            -- passed over: the packed transactions are as they were, perhaps none of them
            cases hpacked : r.packedTransactions <;> rfl
          · rw [if_neg hover]
            exact .inr ⟨newDiff, hdiff, Bool.eq_false_iff.mpr hover, rfl, rfl, rfl, rfl⟩
        · rename_i e hrejected
          exact .inl ⟨rfl, rfl, rfl, .inr ⟨.inr ⟨e, hrejected⟩, rfl⟩⟩
        · exact .inl ⟨rfl, rfl, rfl, .inl rfl⟩

theorem Sound.packStep {initialConstraint : MiningConstraint} {r : Packing}
    (h : p.Sound initialConstraint r) (turn : Transaction × ℕ) :
    p.Sound initialConstraint (p.packStep r turn) := by
  rcases packStep_cases r turn with ⟨hpacked, hdiff, hconstraint, -⟩ |
    ⟨newDiff, haccepted, hfits, hpacked, hdiff, hconstraint, -⟩
  · constructor
    · rw [hpacked, hdiff, hconstraint]
      exact h.applied
    · rw [hpacked, hconstraint]
      exact h.fits
  · constructor
    · rw [hpacked, hdiff, hconstraint, List.reverse_cons, applyInOrder_append h.applied,
        applyInOrder, haccepted]
      rfl
    · intro hover
      rw [hconstraint, hfits] at hover
      cases hover

variable {pool : UtxPool} {initialConstraint : MiningConstraint}

theorem packAfter_succ {turns : ℕ} (h : turns < (pool.all p.order).zipIdx.length) :
    p.packAfter pool initialConstraint (turns + 1) =
      p.packStep (p.packAfter pool initialConstraint turns) (pool.all p.order).zipIdx[turns] := by
  unfold packAfter
  rw [List.take_succ_eq_append_getElem h, List.foldl_append]
  rfl

theorem packAfter_of_le {turns : ℕ} (h : (pool.all p.order).zipIdx.length ≤ turns) :
    p.packAfter pool initialConstraint (turns + 1) = p.packAfter pool initialConstraint turns := by
  unfold packAfter
  rw [List.take_of_length_le h, List.take_of_length_le (Nat.le_succ_of_le h)]

/-- **Every turn**: what is packed is sound. -/
theorem sound_packAfter (pool : UtxPool) (initialConstraint : MiningConstraint) (turns : ℕ) :
    p.Sound initialConstraint (p.packAfter pool initialConstraint turns) := by
  induction turns with
  | zero => exact ⟨rfl, fun _ => ⟨rfl, rfl⟩⟩
  | succ turns ih =>
    by_cases h : turns < (pool.all p.order).zipIdx.length
    · rw [packAfter_succ h]
      exact ih.packStep _
    · rw [packAfter_of_le (not_lt.mp h)]
      exact ih

/-- A transaction that has gone after so many turns has left at one of them. -/
theorem exists_turn_of_gone {turns : ℕ} {txId : ByteStr} {tx : Transaction}
    (hbefore : pool.transactions.get? txId = some tx)
    (hafter : (p.packAfter pool initialConstraint turns).pool.transactions.get? txId = none) :
    ∃ i, (pool.all p.order)[i]? = some tx ∧
      p.Leaves (p.packAfter pool initialConstraint i) (tx, i) := by
  induction turns with
  | zero =>
    change pool.transactions.get? txId = none at hafter
    rw [hbefore] at hafter
    cases hafter
  | succ turns ih =>
    by_cases hturns : turns < (pool.all p.order).zipIdx.length
    · rw [packAfter_succ hturns] at hafter
      obtain ⟨tx', hget, hturn⟩ : ∃ tx', (pool.all p.order)[turns]? = some tx' ∧
          (pool.all p.order).zipIdx[turns] = (tx', turns) := by
        have hlength : turns < (pool.all p.order).length := by simpa using hturns
        refine ⟨_, List.getElem?_eq_getElem hlength, ?_⟩
        rw [List.getElem_zipIdx, Nat.zero_add]
      rw [hturn] at hafter
      have hkept : (p.packStep (p.packAfter pool initialConstraint turns) (tx', turns)).pool =
          (p.packAfter pool initialConstraint turns).pool ∨
          p.Leaves (p.packAfter pool initialConstraint turns) (tx', turns) ∧
            (p.packStep (p.packAfter pool initialConstraint turns) (tx', turns)).pool =
              (p.packAfter pool initialConstraint turns).pool.remove tx'.id := by
        rcases packStep_cases (p := p) (p.packAfter pool initialConstraint turns) (tx', turns) with
          ⟨-, -, -, hpool⟩ | ⟨newDiff, -, -, -, -, -, hpool⟩
        · exact hpool
        · exact .inl hpool
      rcases hkept with hsame | ⟨hleaves, hremoved⟩
      · rw [hsame] at hafter
        exact ih hafter
      · rw [hremoved] at hafter
        change ((p.packAfter pool initialConstraint turns).pool.transactions.erase tx'.id).get? txId =
          none at hafter
        rw [FiniteMap.get?_erase] at hafter
        by_cases hid : txId = tx'.id
        · -- it is its own turn: the pool has one transaction for an identifier
          have hown := UtxPool.get?_of_mem_all (List.mem_of_getElem? hget)
          rw [← hid, hbefore, Option.some.injEq] at hown
          rw [hown]
          exact ⟨turns, hget, hleaves⟩
        · rw [if_neg hid] at hafter
          exact ih hafter
    · rw [packAfter_of_le (not_lt.mp hturns)] at hafter
      exact ih hafter

/-- **Packing is sound**: the transactions that are returned can be applied in their order, and the
constraint that is returned is what they leave of the one given, not overfilled unless that was;
and a transaction that has gone from the pool had its turn, when it had expired or was rejected on
the diffs of those packed before it. -/
theorem packUnconfirmed_sound (p : Packer) (pool : UtxPool)
    (initialConstraint : MiningConstraint) :
    (∀ packed constraint,
      (p.packUnconfirmed pool initialConstraint).2 = .ok (packed, constraint) →
        (∃ diff, p.applyInOrder Diff.empty initialConstraint (packed.getD []) =
          .ok (diff, constraint)) ∧
        (constraint.isOverfilled = true →
          constraint = initialConstraint ∧ packed.getD [] = [])) ∧
    ∀ txId tx, pool.transactions.get? txId = some tx →
      (p.packUnconfirmed pool initialConstraint).1.transactions.get? txId = none →
        ∃ i before diff constraint, (pool.all p.order)[i]? = some tx ∧
          p.packAfter pool initialConstraint i = before ∧
          p.applyInOrder Diff.empty initialConstraint
            (before.packedTransactions.getD []).reverse = .ok (diff, constraint) ∧
          (p.isExpired i tx = true ∨ ∃ e, p.differ diff tx = .error (.error e)) := by
  constructor
  · intro packed constraint h
    have hsound := sound_packAfter (p := p) pool initialConstraint (pool.all p.order).length
    unfold packUnconfirmed at h
    dsimp only at h
    split at h
    · exact absurd h Validation.throwing_ne_ok
    · have hpacked : packed.getD [] = ((p.packAfter pool initialConstraint
          (pool.all p.order).length).packedTransactions.getD []).reverse := by
        obtain ⟨rfl, -⟩ := Prod.mk.inj (Except.ok.inj h)
        cases (p.packAfter pool initialConstraint
          (pool.all p.order).length).packedTransactions <;> rfl
      obtain ⟨-, rfl⟩ := Prod.mk.inj (Except.ok.inj h)
      rw [hpacked]
      refine ⟨⟨_, hsound.applied⟩, fun hover => ?_⟩
      obtain ⟨hsame, hnothing⟩ := hsound.fits hover
      exact ⟨hsame, by rw [hnothing, List.reverse_nil]⟩
  · intro txId tx hbefore hafter
    obtain ⟨i, hturn, hleaves⟩ := exists_turn_of_gone hbefore hafter
    exact ⟨i, _, _, _, hturn, rfl, (sound_packAfter pool initialConstraint i).applied, hleaves⟩

end Packer

end

section
open Devnet

local instance packingCrypto : Crypto := KnownAnswers.crypto {}
local instance packingSerializer : PBTransactionSerializer := pbTransactionSerializer
local instance packingRide : Ride := KnownAnswers.ride {}

/-- A constraint that is overfilled before anything is packed comes back as it is. -/
theorem Packer.packUnconfirmed_overfilled :
    ¬∀ (p : Packer) (pool : UtxPool) (initialConstraint : MiningConstraint) packed constraint,
      (p.packUnconfirmed pool initialConstraint).2 = .ok (packed, constraint) →
        constraint.isOverfilled = false := by
  intro h
  exact absurd (h ⟨Blockchain.initial (settings []), ⟨fun txs => txs, List.Perm.refl⟩,
      ⟨fun _ => 0, fun _ => 0⟩, none⟩ .empty (.OneDimensional (-1) .one "") none _ rfl) (by decide)

end

end WavesNode
