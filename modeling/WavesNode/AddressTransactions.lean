/-
The transactions of an account, listed page by page.

With `storeTransactionsByAddress` the database keeps an index: for every account, and every
block that has a transaction of it, the types and numbers of those transactions. Each
appended block puts an entry in front, and a rollback takes it off again. The listing goes
through the index from the last entry down, and a request that goes on after a transaction
skips all positions that are not below the transaction's own.

Without the index the listing goes through all transactions of the database, in the order of
their ids, whoever they are of, and reads their bytes with the parsers of the old encodings.
The stored bytes are protobuf: nothing is read.

The liquid block's transactions come first, in the opposite order to the one its map is
iterated in, whichever that is.
-/
import WavesNode.DuplicateIds
import WavesNode.Paging

set_option autoImplicit false

namespace WavesNode

/-! ## 1. Types of transactions -/

inductive TransactionParser where
  | GenesisTransaction
  | PaymentTransaction
  | IssueTransaction
  | TransferTransaction
  | ReissueTransaction
  | BurnTransaction
  | ExchangeTransaction
  | LeaseTransaction
  | LeaseCancelTransaction
  | CreateAliasTransaction
  | MassTransferTransaction
  | DataTransaction
  | SetScriptTransaction
  | SponsorFeeTransaction
  | SetAssetScriptTransaction
  | InvokeScriptTransaction
  deriving DecidableEq

namespace TransactionParser

def typeId : TransactionParser → Byte
  | .GenesisTransaction => 1
  | .PaymentTransaction => 2
  | .IssueTransaction => 3
  | .TransferTransaction => 4
  | .ReissueTransaction => 5
  | .BurnTransaction => 6
  | .ExchangeTransaction => 7
  | .LeaseTransaction => 8
  | .LeaseCancelTransaction => 9
  | .CreateAliasTransaction => 10
  | .MassTransferTransaction => 11
  | .DataTransaction => 12
  | .SetScriptTransaction => 13
  | .SponsorFeeTransaction => 14
  | .SetAssetScriptTransaction => 15
  | .InvokeScriptTransaction => 16

variable [Crypto] [ScriptReader]

def parseBytes (bytes : ByteStr) : TransactionParser → Except String Transaction
  | .GenesisTransaction => .genesis <$> GenesisTxSerializer.parseBytes bytes
  | .PaymentTransaction => .payment <$> PaymentTxSerializer.parseBytes bytes
  | .IssueTransaction => .issue <$> IssueTxSerializer.parseBytes bytes
  | .TransferTransaction => .transfer <$> TransferTxSerializer.parseBytes bytes
  | .ReissueTransaction => .reissue <$> ReissueTxSerializer.parseBytes bytes
  | .BurnTransaction => .burn <$> BurnTxSerializer.parseBytes bytes
  | .ExchangeTransaction => .exchange <$> ExchangeTxSerializer.parseBytes bytes
  | .LeaseTransaction => .lease <$> LeaseTxSerializer.parseBytes bytes
  | .LeaseCancelTransaction => .leaseCancel <$> LeaseCancelTxSerializer.parseBytes bytes
  | .CreateAliasTransaction => .createAlias <$> CreateAliasTxSerializer.parseBytes bytes
  | .MassTransferTransaction => .massTransfer <$> MassTransferTxSerializer.parseBytes bytes
  | .DataTransaction => .data <$> DataTxSerializer.parseBytes bytes
  | .SetScriptTransaction => .setScript <$> SetScriptTxSerializer.parseBytes bytes
  | .SponsorFeeTransaction => .sponsorFee <$> SponsorFeeTxSerializer.parseBytes bytes
  | .SetAssetScriptTransaction => .setAssetScript <$> SetAssetScriptTxSerializer.parseBytes bytes
  | .InvokeScriptTransaction => .invokeScript <$> InvokeScriptTxSerializer.parseBytes bytes

end TransactionParser

namespace Transaction

def builder : Transaction → TransactionParser
  | .genesis _ => .GenesisTransaction
  | .payment _ => .PaymentTransaction
  | .issue _ => .IssueTransaction
  | .transfer _ => .TransferTransaction
  | .reissue _ => .ReissueTransaction
  | .burn _ => .BurnTransaction
  | .exchange _ => .ExchangeTransaction
  | .lease _ => .LeaseTransaction
  | .leaseCancel _ => .LeaseCancelTransaction
  | .createAlias _ => .CreateAliasTransaction
  | .massTransfer _ => .MassTransferTransaction
  | .data _ => .DataTransaction
  | .setScript _ => .SetScriptTransaction
  | .sponsorFee _ => .SponsorFeeTransaction
  | .setAssetScript _ => .SetAssetScriptTransaction
  | .invokeScript _ => .InvokeScriptTransaction

theorem typeId_builder (tx : Transaction) : tx.builder.typeId = tx.typeId := by
  cases tx <;> rfl

end Transaction

theorem TransactionParser.typeId_injective : Function.Injective TransactionParser.typeId := by
  intro p q h
  cases p <;> cases q <;> first | rfl | exact absurd h (by decide)

/-! ## 2. The index -/

open LevelDBWriter

section
variable [Crypto] [PBTransactionSerializer]

/-- A database with its index of the transactions of each account. -/
structure AddressIndexed where
  writer : LevelDBWriter
  storeTransactionsByAddress : Bool
  /-- The entries of `addressTransactionHN`, from the last number down: a height, and the types
  and numbers of the transactions there. -/
  addressTransactionHN : Address → List (ℕ × List (Byte × ℕ))

namespace AddressIndexed

omit [Crypto] [PBTransactionSerializer] in
/-- A transaction is recorded for an account. -/
def recorded (d : Diff) (a : Address) (id : ByteStr) : Bool :=
  (d.transactions.get? id).any fun entry => a ∈ entry.2

/-- The types and numbers of an account's transactions in a block, from the last one down. -/
def txTypeNumSeq (d : Diff) (a : Address) (block : Block) : List (Byte × ℕ) :=
  ((numbered block.transactionData).reverse.filter fun entry =>
    (byId block.transactionData).get? entry.2.id = some entry && recorded d a entry.2.id).map
      fun entry => (entry.2.typeId, entry.1)

omit [Crypto] [PBTransactionSerializer] in
def empty (settings : BlockchainSettings) (dbSettings : DBSettings) (store : Bool) :
    AddressIndexed where
  writer := .empty settings dbSettings
  storeTransactionsByAddress := store
  addressTransactionHN _ := []

variable (x : AddressIndexed)

def append (d : Diff) (carry : Long) (reward : Option Long) (block : Block) : AddressIndexed :=
  { x with
    writer := x.writer.append d carry reward block
    addressTransactionHN := fun a =>
      if x.storeTransactionsByAddress ∧ a ∈ transactionAddresses d then
        (x.writer.height + 1, txTypeNumSeq d a block) :: x.addressTransactionHN a
      else x.addressTransactionHN a }

/-- One round of a rollback: the last entry of an account goes if it is of the height. -/
def discardBlock (currentHeight : ℕ) : AddressIndexed :=
  { x with
    writer := x.writer.discardBlock currentHeight
    addressTransactionHN := fun a =>
      if x.storeTransactionsByAddress ∧ a ∈ x.writer.db.changedAddresses currentHeight ∧
          (x.addressTransactionHN a).head?.any fun entry => entry.1 = currentHeight then
        (x.addressTransactionHN a).tail
      else x.addressTransactionHN a }

def discardBlocks (targetHeight : ℕ) : (n : ℕ) → AddressIndexed → AddressIndexed
  | 0, x => x
  | n + 1, x => discardBlocks targetHeight n (x.discardBlock (targetHeight + n + 1))

def doRollback (targetBlockId : BlockId) : AddressIndexed :=
  match x.writer.db.heightOf targetBlockId with
  | none => x
  | some targetHeight => discardBlocks targetHeight (x.writer.height - targetHeight) x

def rollbackTo (targetBlockId : BlockId) : Except String AddressIndexed :=
  (x.writer.rollbackTo targetBlockId).map fun w => { x.doRollback targetBlockId with writer := w }

/-! ## 3. The listing -/

omit [Crypto] [PBTransactionSerializer] in
/-- `takeTypes`. -/
def takeTypes (txNums : List (ℕ × Byte × ℕ)) (maybeTypes : Finset Byte) : List (ℕ × Byte × ℕ) :=
  if maybeTypes.Nonempty then txNums.filter fun t => t.2.1 ∈ maybeTypes else txNums

omit [Crypto] [PBTransactionSerializer] in
/-- `takeAfter`: what comes after a position, in a stream of things with positions. -/
def takeAfter {α : Type} (pos : α → ℕ × ℕ) (txNums : List α) :
    (maybeAfter : Option (ℕ × ℕ)) → List α
  | none => txNums
  | some (filterHeight, filterNum) =>
    (txNums.dropWhile fun t => (pos t).1 > filterHeight).dropWhile fun t =>
      (pos t).2 ≥ filterNum && (pos t).1 ≥ filterHeight

omit [Crypto] [PBTransactionSerializer] in
/-- The positions of an account's transactions, with their types. -/
def heightNumStream (hn : List (ℕ × List (Byte × ℕ))) : List (ℕ × Byte × ℕ) :=
  hn.flatMap fun entry => entry.2.map fun t => (entry.1, t.1, t.2)

/-- The ids of the stored transactions in the order of their keys. -/
structure TransactionIds (db : Keys) where
  list : List ByteStr
  sorted : list.Pairwise fun id id' => id.map Int8.toUInt8 < id'.map Int8.toUInt8
  mem_iff : ∀ id, id ∈ list ↔ (db.transactionHNById id).isSome

section
variable [ScriptReader]

/-- What the parsers of some types, or all of them, read from the bytes of a transaction. -/
def readAs (ofTypes : List TransactionParser) (txBytes : ByteStr) : Option Transaction :=
  if ofTypes.isEmpty then (TransactionParsers.parseBytes txBytes).toOption
  else ofTypes.findSome? fun parser => (parser.parseBytes txBytes).toOption

/-- `transactionsIterator`; its parameter `reverse` is not used. -/
def transactionsIterator (db : Keys) (ids : List ByteStr) (ofTypes : List TransactionParser) :
    List (ℕ × ℕ × Transaction) :=
  (ids.filterMap db.transactionHNById).filterMap fun (height, txNum) =>
    ((db.nthTransaction height txNum).bind fun tx => readAs ofTypes (transactionBytes tx)).map
      fun tx => (height, txNum, tx)

/-- `LevelDBWriterAddressTransactions.addressTransactionsObservable`, the ids being iterated
in the order `ids` and the types in the order `ofTypes`. -/
def addressTransactionsObservable (ids : List ByteStr) (address : Address)
    (types : Finset TransactionParser) (ofTypes : List TransactionParser)
    (fromId : Option ByteStr) : List (ℕ × Transaction) :=
  let db := x.writer.db
  let maybeAfter := fromId.bind db.transactionHNById
  if address ∈ db.addressId then
    if x.storeTransactionsByAddress then
      (takeAfter (fun t => (t.1, t.2.2))
        (takeTypes (heightNumStream (x.addressTransactionHN address))
          (types.image TransactionParser.typeId)) maybeAfter).filterMap fun t =>
        (db.nthTransaction t.1 t.2.2).map fun tx => (t.1, tx)
    else
      (takeAfter (fun t => (t.1, t.2.1)) (transactionsIterator db ids ofTypes) maybeAfter).map
        fun t => (t.1, t.2.2)
  else []

omit [Crypto] [PBTransactionSerializer] [ScriptReader] in
/-- What `CompositeAddressTransactions` lists of a liquid diff, its map being iterated in an
order. -/
def fromDiff (height : ℕ) (maybeDiff : Option Diff) (order : Diff → List ByteStr) :
    List (ℕ × Transaction × Finset Address) :=
  match maybeDiff with
  | none => []
  | some diff =>
    ((order diff).filterMap diff.transactions.get?).reverse.map fun entry => (height, entry)

/-- `addressTransactionsCompose`. -/
def addressTransactionsCompose (at_ : Option ByteStr → List (ℕ × Transaction))
    (fromDiffIter : List (ℕ × Transaction × Finset Address)) (address : Address)
    (types : Finset TransactionParser) (fromId : Option ByteStr) : List (ℕ × Transaction) :=
  let withPagination : List (ℕ × Transaction × Finset Address) :=
    match fromId with
    | none => fromDiffIter
    | some id => (fromDiffIter.dropWhile fun t => t.2.1.id ≠ id).drop 1
  (withPagination.filter fun t =>
      address ∈ t.2.2 && (types = ∅ || t.2.1.builder ∈ types)).map (fun t => (t.1, t.2.1)) ++
    at_ fromId

end

/-! ## 4. The chain of a run -/

section
variable [Ride] [BlockSerializer]

/-- The database and its index after an event. -/
def Leads (x' : AddressIndexed) : Event → Prop
  | .append d carry reward block =>
    BlockDiffer.Produces (x.writer.height + 1) block d carry ∧ x.append d carry reward block = x'
  | .rollbackTo id => x.rollbackTo id = .ok x'
  | e => ∃ w, e.Leads x.writer w ∧ { x with writer := w } = x'

omit [Crypto] [PBTransactionSerializer] [Ride] [BlockSerializer] in
/-- The blocks of the chain after an event, the last one first, each with the diff it was
appended with. -/
def chainAfter (x' : AddressIndexed) (chain : List (Block × Diff)) : Event → List (Block × Diff)
  | .append d _ _ block => (block, d) :: chain
  | .rollbackTo _ => chain.drop (chain.length - x'.writer.height)
  | _ => chain

/-- The databases with an index that runs lead to, and the chains they have. -/
inductive Reachable (Q : LevelDBWriter → Event → Prop) (settings : BlockchainSettings)
    (dbSettings : DBSettings) (store : Bool) : AddressIndexed → List (Block × Diff) → Prop
  | empty : Reachable Q settings dbSettings store (.empty settings dbSettings store) []
  | step {x x' : AddressIndexed} {chain : List (Block × Diff)} {e : Event} :
    Reachable Q settings dbSettings store x chain → Q x.writer e → x.Leads x' e →
      Reachable Q settings dbSettings store x' (chainAfter x' chain e)

end

/-- No transaction of a block has an id that is in the chain or twice in the block. -/
def IdsNew (db : Keys) (block : Block) : Prop :=
  (block.transactionData.map Transaction.id).Nodup ∧ ∀ tx ∈ block.transactionData,
    ∀ h ≤ db.height, ∀ tx' ∈ db.transactionsAtHeight h, tx'.id ≠ tx.id

/-- **The condition on a run**: no id is in the chain twice. -/
def NoIdTwice (w : LevelDBWriter) : Event → Prop
  | .append _ _ _ block => IdsNew w.db block
  | _ => True

/-! ## 5. What is to be listed -/

/-- A transaction of one of the types that a diff records for the account. -/
def matching (a : Address) (types : Finset TransactionParser) (d : Diff) (tx : Transaction) :
    Bool :=
  recorded d a tx.id && (types = ∅ || tx.builder ∈ types)

/-- The account's transactions in a chain with their positions, from the last one down. -/
def positions (a : Address) (types : Finset TransactionParser) :
    List (Block × Diff) → List (ℕ × ℕ × Transaction)
  | [] => []
  | (block, d) :: below =>
    ((numbered block.transactionData).reverse.filter fun entry => matching a types d entry.2).map
        (fun entry => (below.length + 1, entry)) ++
      positions a types below

/-- The account's transactions in a chain with their heights, from the last one down. -/
def history (a : Address) (types : Finset TransactionParser) (chain : List (Block × Diff)) :
    List (ℕ × Transaction) :=
  (positions a types chain).map fun t => (t.1, t.2.2)

/-! ## 6. Positions that go down -/

section
omit [Crypto] [PBTransactionSerializer]

/-- A position that is later in the chain than another. -/
def Later (p q : ℕ × ℕ) : Prop := q.1 < p.1 ∨ p.1 = q.1 ∧ q.2 < p.2

/-- In a stream that goes down, what comes after the position of a thing is what follows it. -/
theorem takeAfter_append {α : Type} {pos : α → ℕ × ℕ} {done rest : List α} {t : α}
    (h : (done ++ t :: rest).Pairwise fun u v => Later (pos u) (pos v)) :
    takeAfter pos (done ++ t :: rest) (some (pos t)) = rest := by
  rw [takeAfter]
  induction done with
  | nil =>
    have hrest : rest.dropWhile (fun u => (pos u).2 ≥ (pos t).2 && (pos u).1 ≥ (pos t).1) =
        rest := by
      rw [List.dropWhile_eq_self_iff]
      intro hlt
      have hlater := List.rel_of_pairwise_cons h (List.getElem_mem hlt)
      rw [Bool.and_eq_true, decide_eq_true_iff, decide_eq_true_iff]
      rcases hlater with hlower | ⟨heq, hlower⟩ <;> omega
    rw [List.nil_append, List.dropWhile_cons_of_neg, List.dropWhile_cons_of_pos]
    · exact hrest
    · rw [Bool.and_eq_true, decide_eq_true_iff, decide_eq_true_iff]
      exact ⟨le_rfl, le_rfl⟩
    · rw [decide_eq_true_iff]
      omega
  | cons u done ih =>
    have hbelow : ∀ v ∈ done ++ t :: rest, Later (pos u) (pos v) :=
      fun v hv => List.rel_of_pairwise_cons h hv
    have hu := hbelow t (List.mem_append_right _ List.mem_cons_self)
    by_cases hhigher : (pos t).1 < (pos u).1
    · rw [List.cons_append, List.dropWhile_cons_of_pos (by rwa [decide_eq_true_iff])]
      exact ih h.of_cons
    · -- from here on no height is above the one of the cursor
      have hnone : ∀ {l : List α}, (∀ v ∈ l, (pos v).1 ≤ (pos t).1) →
          l.dropWhile (fun v => (pos v).1 > (pos t).1) = l := by
        intro l hl
        rw [List.dropWhile_eq_self_iff]
        intro hlt
        have := hl _ (List.getElem_mem hlt)
        rw [decide_eq_true_iff]
        omega
      have hle : ∀ v ∈ done ++ t :: rest, (pos v).1 ≤ (pos t).1 := by
        intro v hv
        rcases hbelow v hv with hlower | ⟨heq, -⟩ <;> omega
      have hih := ih h.of_cons
      rw [hnone hle] at hih
      rw [List.cons_append, hnone, List.dropWhile_cons_of_pos, hih]
      · rw [Bool.and_eq_true, decide_eq_true_iff, decide_eq_true_iff]
        rcases hu with hlower | ⟨heq, hlower⟩ <;> omega
      · intro v hv
        rcases List.mem_cons.mp hv with rfl | hv
        · omega
        · exact hle v hv

/-- Skipping looks at the positions alone. -/
theorem takeAfter_map {α β : Type} {pos : β → ℕ × ℕ} (f : α → β) (l : List α)
    (maybeAfter : Option (ℕ × ℕ)) :
    takeAfter pos (l.map f) maybeAfter = (takeAfter (fun u => pos (f u)) l maybeAfter).map f := by
  rcases maybeAfter with _ | ⟨filterHeight, filterNum⟩
  · rfl
  · rw [takeAfter, takeAfter, List.dropWhile_map, List.dropWhile_map]
    rfl

theorem pairwise_numbered (txs : List Transaction) :
    (numbered txs).reverse.Pairwise fun e e' => e'.1 < e.1 := by
  rw [List.pairwise_reverse, numbered, List.pairwise_map]
  have hnums : (txs.zipIdx.map Prod.snd).Pairwise (· < ·) := by
    rw [List.zipIdx_map_snd]
    exact List.pairwise_lt_range'
  exact List.pairwise_map.mp hnums

end

/-- The heights of a chain's positions are those of its blocks. -/
theorem height_of_mem_positions {a : Address} {types : Finset TransactionParser}
    {chain : List (Block × Diff)} {t : ℕ × ℕ × Transaction} (ht : t ∈ positions a types chain) :
    t.1 ≤ chain.length := by
  induction chain with
  | nil => cases ht
  | cons entry below ih =>
    rw [List.length_cons]
    rcases List.mem_append.mp ht with hnew | hold
    · obtain ⟨e, -, rfl⟩ := List.mem_map.mp hnew
      exact le_rfl
    · have := ih hold
      omega

theorem pairwise_positions (a : Address) (types : Finset TransactionParser)
    (chain : List (Block × Diff)) :
    (positions a types chain).Pairwise fun t t' => Later (t.1, t.2.1) (t'.1, t'.2.1) := by
  induction chain with
  | nil => exact .nil
  | cons entry below ih =>
    rw [positions, List.pairwise_append]
    refine ⟨?_, ih, ?_⟩
    · rw [List.pairwise_map]
      refine ((pairwise_numbered _).filter _).imp ?_
      intro e e' hlt
      exact .inr ⟨rfl, hlt⟩
    · intro t ht t' ht'
      obtain ⟨e, -, rfl⟩ := List.mem_map.mp ht
      have := height_of_mem_positions ht'
      left
      change t'.1 < below.length + 1
      omega

/-! ## 7. What a run keeps -/

/-- The index of an account, as the blocks of a chain make it. -/
def indexOf (a : Address) : List (Block × Diff) → List (ℕ × List (Byte × ℕ))
  | [] => []
  | (block, d) :: below =>
    if a ∈ transactionAddresses d then (below.length + 1, txTypeNumSeq d a block) :: indexOf a below
    else indexOf a below

/-- What the database has of a block. -/
structure StoredAt (db : Keys) (height : ℕ) (block : Block) (d : Diff) : Prop where
  transactionAt : db.transactionAt height = numbered block.transactionData
  transactionHNById : ∀ entry ∈ numbered block.transactionData,
    db.transactionHNById entry.2.id = some (height, entry.1)
  changed : transactionAddresses d ⊆ db.changedAddresses height
  addressId : transactionAddresses d ⊆ db.addressId
  lists : d.Lists block.transactionData

/-- What the database has of a chain. -/
def Stored (db : Keys) : List (Block × Diff) → Prop
  | [] => True
  | (block, d) :: below => StoredAt db (below.length + 1) block d ∧ Stored db below

/-- The transactions of a chain. -/
def chainTransactions (chain : List (Block × Diff)) : List Transaction :=
  chain.flatMap fun entry => entry.1.transactionData

/-- **What a run keeps**: the database has the blocks of the chain, and the index is theirs. -/
structure Indexed (x : AddressIndexed) (chain : List (Block × Diff)) : Prop where
  height : x.writer.db.height = chain.length
  index : x.storeTransactionsByAddress = true → ∀ a, x.addressTransactionHN a = indexOf a chain
  stored : Stored x.writer.db chain
  ids : ((chainTransactions chain).map Transaction.id).Nodup

omit [Crypto] [PBTransactionSerializer] in
theorem mem_numbered_of_mem {txs : List Transaction} {tx : Transaction} (htx : tx ∈ txs) :
    ∃ num, (num, tx) ∈ numbered txs := by
  obtain ⟨i, hget⟩ := List.mem_iff_getElem?.mp htx
  exact ⟨i, mem_numbered.mpr hget⟩

/-- What a database has of a chain depends on the keys of its heights and ids. -/
theorem Stored.congr {db db' : Keys} {chain : List (Block × Diff)} (h : Stored db chain)
    (hat : ∀ k ≤ chain.length, db'.transactionAt k = db.transactionAt k)
    (hids : ∀ tx ∈ chainTransactions chain,
      db'.transactionHNById tx.id = db.transactionHNById tx.id)
    (hchanged : ∀ k ≤ chain.length, db'.changedAddresses k = db.changedAddresses k)
    (haddress : db.addressId ⊆ db'.addressId) : Stored db' chain := by
  induction chain with
  | nil => trivial
  | cons entry below ih =>
    rw [List.length_cons] at hat hchanged
    refine ⟨?_, ih h.2 (fun k hk => hat k (by omega)) (fun tx htx => hids tx ?_)
      fun k hk => hchanged k (by omega)⟩
    · exact
        { transactionAt := (hat _ le_rfl).trans h.1.transactionAt
          transactionHNById := by
            intro e he
            rw [hids e.2 (List.mem_append_left _ (List.mem_of_getElem? (mem_numbered.mp he)))]
            exact h.1.transactionHNById e he
          changed := by
            rw [hchanged _ le_rfl]
            exact h.1.changed
          addressId := h.1.addressId.trans haddress
          lists := h.1.lists }
    · exact List.mem_append_right _ htx

/-- Every transaction of a stored chain is in the database. -/
theorem Stored.mem_transactionsAtHeight {db : Keys} {chain : List (Block × Diff)}
    (h : Stored db chain) {tx : Transaction} (htx : tx ∈ chainTransactions chain) :
    ∃ k ≤ chain.length, tx ∈ db.transactionsAtHeight k := by
  induction chain with
  | nil => cases htx
  | cons entry below ih =>
    rcases List.mem_append.mp htx with hnew | hold
    · refine ⟨below.length + 1, le_rfl, ?_⟩
      obtain ⟨num, hentry⟩ := mem_numbered_of_mem hnew
      rw [Keys.transactionsAtHeight, h.1.transactionAt]
      exact List.mem_map_of_mem hentry
    · obtain ⟨k, hk, hmem⟩ := ih h.2 hold
      refine ⟨k, ?_, hmem⟩
      rw [List.length_cons]
      omega

/-- Where all ids of a block are different, each is its transaction's. -/
theorem byId_of_nodup {txs : List Transaction} (hids : (txs.map Transaction.id).Nodup)
    {entry : ℕ × Transaction} (hentry : entry ∈ numbered txs) :
    (byId txs).get? entry.2.id = some entry := by
  obtain ⟨e, he⟩ := Option.isSome_iff_exists.mp
    (isSome_byId.mpr ⟨entry.2, List.mem_of_getElem? (mem_numbered.mp hentry), rfl⟩)
  obtain ⟨hmem, hid⟩ := mem_of_byId he
  have hget := mem_numbered.mp hmem
  have hget' := mem_numbered.mp hentry
  have hsame : e.1 = entry.1 := by
    refine (List.getElem?_inj ?_ hids).mp ?_
    · rw [List.length_map]
      exact (List.getElem?_eq_some_iff.mp hget).1
    · rw [List.getElem?_map, List.getElem?_map, hget, hget', Option.map_some, Option.map_some, hid]
  have htx : some e.2 = some entry.2 := by rw [← hget, ← hget', hsame]
  rw [he, Prod.ext hsame (Option.some.inj htx)]

theorem transactionAt_of_nodup {w : LevelDBWriter} {d : Diff} {carry : Long}
    {reward : Option Long} {block : Block}
    (hids : (block.transactionData.map Transaction.id).Nodup) :
    (w.doAppend d carry reward block).transactionAt (w.height + 1) =
      numbered block.transactionData := by
  rw [transactionAt_doAppend, List.filter_eq_self]
  intro entry hentry
  exact decide_eq_true (byId_of_nodup hids hentry)

/-- **A block more.** -/
theorem Indexed.append {x : AddressIndexed} {chain : List (Block × Diff)} (h : Indexed x chain)
    (hheight : x.writer.db.height = x.writer.height) {d : Diff} {carry : Long}
    {reward : Option Long} {block : Block} (hlists : d.Lists block.transactionData)
    (hnew : IdsNew x.writer.db block) :
    Indexed (x.append d carry reward block) ((block, d) :: chain) := by
  have hlength := h.height
  have hdisjoint : ∀ tx ∈ block.transactionData, ∀ tx' ∈ chainTransactions chain,
      tx'.id ≠ tx.id := by
    intro tx htx tx' htx'
    obtain ⟨k, hk, hmem⟩ := h.stored.mem_transactionsAtHeight htx'
    exact hnew.2 tx htx k (by omega) tx' hmem
  refine ⟨?_, ?_, ⟨?_, ?_⟩, ?_⟩
  · change x.writer.height + 1 = chain.length + 1
    omega
  · intro hstore a
    change (if x.storeTransactionsByAddress ∧ a ∈ transactionAddresses d then _ else _) = _
    rw [indexOf, ← h.index hstore a, ← hlength, hheight]
    by_cases ha : a ∈ transactionAddresses d
    · rw [if_pos ⟨hstore, ha⟩, if_pos ha]
    · rw [if_neg (fun hboth => ha hboth.2), if_neg ha]
  · rw [← hlength, hheight]
    exact
      { transactionAt := transactionAt_of_nodup hnew.1
        transactionHNById := by
          intro entry hentry
          change ((byId block.transactionData).get? entry.2.id |>.map _).or _ = _
          rw [byId_of_nodup hnew.1 hentry]
          rfl
        changed := by
          change _ ⊆ if x.writer.height + 1 = x.writer.height + 1 then changedAddresses d else _
          rw [if_pos rfl]
          exact Finset.subset_union_left
        addressId := Finset.subset_union_right
        lists := hlists }
  · refine h.stored.congr ?_ ?_ ?_ ?_
    · intro k hk
      exact if_neg (by omega)
    · intro tx htx
      change ((byId block.transactionData).get? tx.id |>.map _).or _ = _
      cases hget : (byId block.transactionData).get? tx.id with
      | none => rfl
      | some entry =>
        obtain ⟨hmem, hid⟩ := mem_of_byId hget
        have hlisted := List.mem_of_getElem? (mem_numbered.mp hmem)
        exact absurd hid.symm (hdisjoint _ hlisted tx htx)
    · intro k hk
      exact if_neg (by omega)
    · exact Finset.subset_union_left.trans Finset.subset_union_left
  · rw [chainTransactions, List.flatMap_cons, List.map_append, List.nodup_append]
    refine ⟨hnew.1, h.ids, ?_⟩
    intro id hid id' hid'
    obtain ⟨tx, htx, rfl⟩ := List.mem_map.mp hid
    obtain ⟨tx', htx', rfl⟩ := List.mem_map.mp hid'
    exact (hdisjoint tx htx tx' htx').symm

/-- The entries of an account's index are of heights of the chain. -/
theorem height_of_mem_indexOf {a : Address} {chain : List (Block × Diff)}
    {entry : ℕ × List (Byte × ℕ)} (hentry : entry ∈ indexOf a chain) :
    entry.1 ≤ chain.length := by
  induction chain with
  | nil => cases hentry
  | cons top below ih =>
    rw [List.length_cons]
    rw [indexOf] at hentry
    split at hentry
    · rcases List.mem_cons.mp hentry with rfl | hentry
      · exact le_rfl
      · have := ih hentry
        omega
    · have := ih hentry
      omega

/-- **A block less.** -/
theorem Indexed.discardBlock {x : AddressIndexed} {block : Block} {d : Diff}
    {below : List (Block × Diff)} (h : Indexed x ((block, d) :: below)) :
    Indexed (x.discardBlock (below.length + 1)) below := by
  have htop := h.stored.1
  refine ⟨rfl, ?_, ?_, ?_⟩
  · intro hstore a
    have hindex := h.index hstore a
    change (if _ then _ else _) = _
    rw [indexOf] at hindex
    by_cases ha : a ∈ transactionAddresses d
    · rw [if_pos ha] at hindex
      rw [if_pos]
      · rw [hindex]
        rfl
      · refine ⟨hstore, htop.changed ha, ?_⟩
        rw [hindex]
        exact decide_eq_true rfl
    · rw [if_neg ha] at hindex
      rw [if_neg]
      · exact hindex
      · -- the last entry is of a block below
        rintro ⟨-, -, hhead⟩
        rw [hindex] at hhead
        obtain ⟨entry, hentry, hheight⟩ := (Option.any_eq_true _ _).mp hhead
        have := height_of_mem_indexOf (List.mem_of_mem_head? hentry)
        have := of_decide_eq_true hheight
        omega
  · refine h.stored.2.congr ?_ ?_ ?_ ?_
    · intro k hk
      exact if_neg (by omega)
    · intro tx htx
      refine if_neg fun hgone => ?_
      obtain ⟨tx', htx', hid⟩ := List.any_eq_true.mp hgone
      rw [Bool.and_eq_true, decide_eq_true_iff] at hid
      rw [Keys.transactionsAtHeight, htop.transactionAt] at htx'
      obtain ⟨entry, hentry, rfl⟩ := List.mem_map.mp htx'
      have hids := h.ids
      rw [chainTransactions, List.flatMap_cons, List.map_append, List.nodup_append] at hids
      refine hids.2.2 entry.2.id (List.mem_map_of_mem ?_) tx.id (List.mem_map_of_mem htx) hid.2
      exact List.mem_of_getElem? (mem_numbered.mp hentry)
    · intro k hk
      rfl
    · exact subset_rfl
  · have hids := h.ids
    rw [chainTransactions, List.flatMap_cons, List.map_append] at hids
    exact hids.of_append_right

/-- **Blocks taken off** down to a height. -/
theorem Indexed.discardBlocks {targetHeight : ℕ} :
    ∀ (n : ℕ) {x : AddressIndexed} {chain : List (Block × Diff)}, chain.length = targetHeight + n →
      Indexed x chain → Indexed (discardBlocks targetHeight n x) (chain.drop n)
  | 0, _, _, _, h => h
  | n + 1, x, [], hlength, _ => by
    rw [List.length_nil] at hlength
    omega
  | n + 1, x, (block, d) :: below, hlength, h => by
    rw [List.length_cons] at hlength
    have hbelow : targetHeight + n + 1 = below.length + 1 := by omega
    rw [AddressIndexed.discardBlocks, List.drop_succ_cons, hbelow]
    exact Indexed.discardBlocks n (by omega) h.discardBlock

theorem writer_discardBlocks (targetHeight : ℕ) :
    ∀ (n : ℕ) (x : AddressIndexed), (discardBlocks targetHeight n x).writer =
      LevelDBWriter.discardBlocks targetHeight n x.writer
  | 0, _ => rfl
  | n + 1, x => by
    rw [AddressIndexed.discardBlocks, LevelDBWriter.discardBlocks, writer_discardBlocks targetHeight n]
    rfl

theorem writer_doRollback (x : AddressIndexed) (id : BlockId) :
    (x.doRollback id).writer = x.writer.doRollback id := by
  rw [doRollback, LevelDBWriter.doRollback]
  rcases x.writer.db.heightOf id with _ | targetHeight
  · rfl
  · exact writer_discardBlocks targetHeight _ x

/-- What is kept is about the keys and the index. -/
theorem Indexed.of_db {x : AddressIndexed} {chain : List (Block × Diff)} (h : Indexed x chain)
    {w : LevelDBWriter} (hw : w.db = x.writer.db) : Indexed { x with writer := w } chain where
  height := by
    rw [hw]
    exact h.height
  index := h.index
  stored := by
    rw [hw]
    exact h.stored
  ids := h.ids

/-- **A rollback.** -/
theorem Indexed.doRollback {x : AddressIndexed} {chain : List (Block × Diff)} (h : Indexed x chain)
    (hw : Sound x.writer) (id : BlockId) :
    Indexed (x.doRollback id)
      (chain.drop (chain.length - (x.doRollback id).writer.db.height)) := by
  have hheight := hw.height
  have hlength := h.height
  have hstay : Indexed x (chain.drop (chain.length - x.writer.db.height)) := by
    rw [hlength, Nat.sub_self]
    exact h
  rw [AddressIndexed.doRollback]
  rcases hid : x.writer.db.heightOf id with _ | targetHeight
  · exact hstay
  · dsimp only
    by_cases ht : targetHeight ≤ x.writer.height
    · have hback : Indexed (AddressIndexed.discardBlocks targetHeight
          (x.writer.height - targetHeight) x) (chain.drop (x.writer.height - targetHeight)) :=
        Indexed.discardBlocks _ (by omega) h
      have hend : (AddressIndexed.discardBlocks targetHeight (x.writer.height - targetHeight)
          x).writer.db.height = targetHeight := by
        rw [hback.height, List.length_drop]
        omega
      rw [hend]
      have hsame : chain.length - targetHeight = x.writer.height - targetHeight := by omega
      rw [hsame]
      exact hback
    · have hzero : x.writer.height - targetHeight = 0 := by omega
      rw [hzero]
      exact hstay

theorem store_discardBlocks (targetHeight : ℕ) :
    ∀ (n : ℕ) (x : AddressIndexed), (discardBlocks targetHeight n x).storeTransactionsByAddress =
      x.storeTransactionsByAddress
  | 0, _ => rfl
  | n + 1, x => by
    rw [AddressIndexed.discardBlocks, store_discardBlocks targetHeight n]
    rfl

theorem rollbackTo_eq_ok {x x' : AddressIndexed} {id : BlockId} (h : x.rollbackTo id = .ok x') :
    ∃ w, x.writer.rollbackTo id = .ok w ∧ x' = { x.doRollback id with writer := w } := by
  rw [rollbackTo] at h
  cases hw : x.writer.rollbackTo id with
  | error e =>
    rw [hw] at h
    cases h
  | ok w =>
    rw [hw] at h
    cases h
    exact ⟨w, rfl, rfl⟩

section
variable [Ride] [BlockSerializer] {Q : LevelDBWriter → Event → Prop}
  {settings : BlockchainSettings} {dbSettings : DBSettings} {store : Bool} {x x' : AddressIndexed}
  {chain : List (Block × Diff)} {e : Event}

/-- The database does what it does without the index. -/
theorem Leads.writer (h : x.Leads x' e) : e.Leads x.writer x'.writer := by
  cases e with
  | append d carry reward block =>
    obtain ⟨hblock, rfl⟩ := h
    exact ⟨hblock, rfl⟩
  | rollbackTo id =>
    obtain ⟨w, hw, rfl⟩ := rollbackTo_eq_ok h
    exact hw
  | _ =>
    obtain ⟨w, hw, rfl⟩ := h
    exact hw

theorem Leads.store_eq (h : x.Leads x' e) :
    x'.storeTransactionsByAddress = x.storeTransactionsByAddress := by
  cases e with
  | append d carry reward block =>
    obtain ⟨-, rfl⟩ := h
    rfl
  | rollbackTo id =>
    obtain ⟨w, -, rfl⟩ := rollbackTo_eq_ok h
    change (x.doRollback id).storeTransactionsByAddress = _
    rw [AddressIndexed.doRollback]
    rcases x.writer.db.heightOf id with _ | targetHeight
    · rfl
    · exact store_discardBlocks targetHeight _ x
  | _ =>
    obtain ⟨w, -, rfl⟩ := h
    rfl

theorem Reachable.writer (h : Reachable Q settings dbSettings store x chain) :
    LevelDBWriter.Reachable Q settings dbSettings x.writer := by
  induction h with
  | empty => exact .empty
  | step _ hQ hleads ih => exact .step ih hQ hleads.writer

theorem Reachable.store_eq (h : Reachable Q settings dbSettings store x chain) :
    x.storeTransactionsByAddress = store := by
  induction h with
  | empty => rfl
  | step _ _ hleads ih => rw [hleads.store_eq, ih]

/-- **One event.** -/
theorem Indexed.leads (h : Indexed x chain) (hw : Sound x.writer) (hQ : NoIdTwice x.writer e)
    (hleads : x.Leads x' e) : Indexed x' (chainAfter x' chain e) := by
  cases e with
  | append d carry reward block =>
    obtain ⟨hblock, rfl⟩ := hleads
    exact h.append hw.height hblock.lists hQ
  | rollbackTo id =>
    obtain ⟨w, hrollback, rfl⟩ := rollbackTo_eq_ok hleads
    have hback := h.doRollback hw id
    have hend := LevelDBWriter.rollbackTo_eq_ok hrollback
    have hdb : w.db = (x.doRollback id).writer.db := by
      rw [hend, writer_doRollback]
    have hheight : w.height = (x.doRollback id).writer.db.height := by
      rw [hend, writer_doRollback]
    rw [← hheight] at hback
    exact hback.of_db hdb
  | load key =>
    obtain ⟨w, rfl, rfl⟩ := hleads
    exact h.of_db (db_load _ _)
  | evict key =>
    obtain ⟨w, rfl, rfl⟩ := hleads
    exact h.of_db (db_evict _ _)
  | restart =>
    obtain ⟨w, rfl, rfl⟩ := hleads
    exact h.of_db rfl

/-- **In every run** in which no id comes twice the index is that of the chain. -/
theorem indexed_reachable (h : Reachable NoIdTwice settings dbSettings store x chain) :
    Indexed x chain := by
  induction h with
  | empty => exact ⟨rfl, fun _ _ => rfl, trivial, List.nodup_nil⟩
  | step hrun hQ hleads ih => exact ih.leads hrun.writer.sound hQ hleads

end

/-! ## 8. What the database lists -/

section
variable {x : AddressIndexed} {chain : List (Block × Diff)}

omit [Crypto] [PBTransactionSerializer] in
theorem mem_transactionAddresses_of_recorded {d : Diff} {a : Address} {id : ByteStr}
    (h : recorded d a id = true) : a ∈ transactionAddresses d := by
  obtain ⟨entry, hentry, ha⟩ := (Option.any_eq_true _ _).mp h
  rw [transactionAddresses, Finset.mem_biUnion]
  refine ⟨id, FiniteMap.mem_dom_of_get? hentry, ?_⟩
  rw [hentry]
  exact of_decide_eq_true ha

/-- A position of the chain is a position of the database. -/
theorem Stored.position {db : Keys} {a : Address} {types : Finset TransactionParser}
    (h : Stored db chain) {t : ℕ × ℕ × Transaction} (ht : t ∈ positions a types chain) :
    db.nthTransaction t.1 t.2.1 = some t.2.2 ∧
      db.transactionHNById t.2.2.id = some (t.1, t.2.1) ∧ a ∈ db.addressId := by
  induction chain with
  | nil => cases ht
  | cons entry below ih =>
    obtain ⟨block, d⟩ := entry
    rcases List.mem_append.mp ht with hnew | hold
    · obtain ⟨e, he, rfl⟩ := List.mem_map.mp hnew
      obtain ⟨hnumbered, hmatching⟩ := List.mem_filter.mp he
      rw [List.mem_reverse] at hnumbered
      rw [matching, Bool.and_eq_true] at hmatching
      refine ⟨?_, h.1.transactionHNById e hnumbered,
        h.1.addressId (mem_transactionAddresses_of_recorded hmatching.1)⟩
      rw [Keys.nthTransaction, h.1.transactionAt]
      cases hfind : (numbered block.transactionData).find? fun e' => e'.1 = e.1 with
      | none =>
        exact absurd (decide_eq_true rfl) (List.find?_eq_none.mp hfind e hnumbered)
      | some e' =>
        have hfound := List.find?_some hfind
        have hnum : e'.1 = e.1 := of_decide_eq_true hfound
        have hget := mem_numbered.mp (List.mem_of_find?_eq_some hfind)
        rw [hnum, mem_numbered.mp hnumbered] at hget
        exact hget.symm
    · exact ih h.2 hold

theorem matching_types (a : Address) (types : Finset TransactionParser) (d : Diff)
    (tx : Transaction) :
    matching a types d tx = (matching a ∅ d tx && (types = ∅ || tx.builder ∈ types)) := by
  rw [matching, matching]
  simp

/-- Of the positions of all types, those of some. -/
theorem positions_types (a : Address) (types : Finset TransactionParser)
    (chain : List (Block × Diff)) :
    positions a types chain =
      (positions a ∅ chain).filter fun t => types = ∅ || t.2.2.builder ∈ types := by
  induction chain with
  | nil => rfl
  | cons entry below ih =>
    rw [positions, positions, List.filter_append, ← ih, List.filter_map, List.filter_filter]
    congr 2
    refine List.filter_congr fun e _ => ?_
    rw [matching_types, Bool.and_comm]
    rfl

/-- **The index lists the positions of the chain.** -/
theorem heightNumStream_indexOf (a : Address) {chain : List (Block × Diff)}
    (hids : ((chainTransactions chain).map Transaction.id).Nodup) :
    heightNumStream (indexOf a chain) =
      (positions a ∅ chain).map fun t => (t.1, t.2.2.typeId, t.2.1) := by
  induction chain with
  | nil => rfl
  | cons entry below ih =>
    obtain ⟨block, d⟩ := entry
    rw [chainTransactions, List.flatMap_cons, List.map_append] at hids
    have hbelow := ih hids.of_append_right
    have hmatching (e : ℕ × Transaction) (he : e ∈ numbered block.transactionData) :
        ((byId block.transactionData).get? e.2.id = some e && recorded d a e.2.id) =
          matching a ∅ d e.2 := by
      rw [byId_of_nodup hids.of_append_left he, matching]
      simp
    rw [indexOf, positions, List.map_append, ← hbelow]
    by_cases ha : a ∈ transactionAddresses d
    · rw [if_pos ha, heightNumStream, List.flatMap_cons, txTypeNumSeq]
      congr 1
      rw [List.map_map, List.map_map]
      refine congrArg₂ List.map rfl (List.filter_congr fun e he => ?_)
      exact hmatching e (List.mem_reverse.mp he)
    · rw [if_neg ha]
      have hnone : (numbered block.transactionData).reverse.filter
          (fun e => matching a ∅ d e.2) = [] := by
        rw [List.filter_eq_nil_iff]
        intro e _ he
        rw [matching, Bool.and_eq_true] at he
        exact ha (mem_transactionAddresses_of_recorded he.1)
      rw [hnone]
      rfl

omit [Crypto] [PBTransactionSerializer] in
theorem takeTypes_map (types : Finset TransactionParser) (l : List (ℕ × ℕ × Transaction)) :
    takeTypes (l.map fun t => (t.1, t.2.2.typeId, t.2.1)) (types.image TransactionParser.typeId) =
      (l.filter fun t => types = ∅ || t.2.2.builder ∈ types).map
        fun t => (t.1, t.2.2.typeId, t.2.1) := by
  rw [takeTypes]
  by_cases htypes : types = ∅
  · rw [if_neg]
    · simp [htypes]
    · simp [htypes]
  · rw [if_pos ((Finset.nonempty_iff_ne_empty.mpr htypes).image _), List.filter_map]
    refine congrArg _ (List.filter_congr fun t _ => ?_)
    change decide (t.2.2.typeId ∈ types.image TransactionParser.typeId) = _
    rw [← Transaction.typeId_builder, decide_eq_false htypes, Bool.false_or]
    exact decide_eq_decide.mpr TransactionParser.typeId_injective.mem_finset_image

end

section
variable [ScriptReader] {x : AddressIndexed} {chain : List (Block × Diff)} {a : Address}
  {types : Finset TransactionParser} {ofTypes : List TransactionParser} {ids : List ByteStr}

/-- **With the index** the account's positions are listed, from the cursor's on. -/
theorem observable_on (h : Indexed x chain) (hstore : x.storeTransactionsByAddress = true)
    (fromId : Option ByteStr) :
    x.addressTransactionsObservable ids a types ofTypes fromId =
      (takeAfter (fun t => (t.1, t.2.1)) (positions a types chain)
        (fromId.bind x.writer.db.transactionHNById)).map fun t => (t.1, t.2.2) := by
  have hsubset (maybeAfter : Option (ℕ × ℕ)) :
      takeAfter (fun t => (t.1, t.2.1)) (positions a types chain) maybeAfter ⊆
        positions a types chain := by
    rcases maybeAfter with _ | ⟨filterHeight, filterNum⟩
    · exact List.Subset.refl _
    · exact ((List.dropWhile_suffix _).trans (List.dropWhile_suffix _)).subset
  rw [addressTransactionsObservable]
  by_cases ha : a ∈ x.writer.db.addressId
  · rw [if_pos ha, if_pos hstore, h.index hstore, heightNumStream_indexOf a h.ids, takeTypes_map,
      ← positions_types, takeAfter_map, List.filterMap_map, ← List.filterMap_eq_map]
    refine List.filterMap_congr fun t ht => ?_
    have hposition := (h.stored.position (hsubset _ ht)).1
    change (x.writer.db.nthTransaction t.1 t.2.1).map _ = _
    rw [hposition]
    rfl
  · -- an account without a number has no transactions
    have hnone : positions a types chain = [] := by
      rw [List.eq_nil_iff_forall_not_mem]
      intro t ht
      exact ha (h.stored.position ht).2.2
    rw [if_neg ha, hnone]
    rcases fromId.bind x.writer.db.transactionHNById with _ | ⟨filterHeight, filterNum⟩ <;> rfl

/-- No stored form of a transaction is read as an alias of the old encoding. -/
def NoOldEncoding (db : Keys) : Prop :=
  ∀ height num tx, db.nthTransaction height num = some tx →
    ∀ ca, CreateAliasTxSerializer.parseBytes (transactionBytes tx) ≠ .ok ca

omit [PBTransactionSerializer] [ScriptReader] [Crypto] in
/-- A parser of one version that begins with another byte refuses. -/
theorem header_refuses {α : Type} {expected bytes : ByteStr} {f : Unit → ByteBuffer.Reader α}
    (hexpected : 0 < expected.length)
    (hbytes : ByteBuffer.byteAt bytes 0 ≠ ByteBuffer.byteAt expected 0) (v : α) :
    (header expected >>= f).from bytes 0 ≠ .ok v := by
  intro hread
  obtain ⟨-, b', hread⟩ := ByteBuffer.from_eq_ok.mp hread
  obtain ⟨u, b, hheader, -⟩ := ByteBuffer.bind_eq_ok.mp hread
  obtain ⟨l, b₁, hl, hrequire⟩ := ByteBuffer.bind_eq_ok.mp hheader
  obtain ⟨-, hslice⟩ := ByteBuffer.getArray_eq_ok.mp hl
  obtain ⟨hsame, -⟩ := ByteBuffer.require_eq_ok.mp hrequire
  obtain ⟨rfl, rfl⟩ := Prod.mk.inj hslice
  have hbegin : ByteBuffer.slice bytes 0 expected.length = expected := of_decide_eq_true hsame
  apply hbytes
  rw [← hbegin, ByteBuffer.byteAt_slice hexpected]

omit [PBTransactionSerializer] [ScriptReader] [Crypto] in
/-- A parser of two versions refuses the bytes of another type of the old encoding. -/
theorem eitherEncoding_refuses {α : Type} {bytes : ByteStr} {typeId : Byte} {modernOffset : ℕ}
    {modern old : ByteBuffer.Reader α} (hzero : ByteBuffer.byteAt bytes 0 ≠ 0)
    (htype : ByteBuffer.byteAt bytes 0 ≠ typeId) (v : α) :
    eitherEncoding bytes typeId modernOffset modern old ≠ .ok v := by
  rw [eitherEncoding, if_neg hzero, if_neg htype]
  split <;> nofun

omit [PBTransactionSerializer] in
/-- Bytes that begin as an alias creation of the old encoding are read as one, or not at all. -/
theorem parseBytes_refuses {bytes : ByteStr} (hfirst : ByteBuffer.byteAt bytes 0 = 10)
    (halias : ∀ ca, CreateAliasTxSerializer.parseBytes bytes ≠ .ok ca)
    (parser : TransactionParser) (tx : Transaction) : parser.parseBytes bytes ≠ .ok tx := by
  have hmap {α : Type} {f : α → Transaction} {read : Except String α}
      (hread : ∀ v, read ≠ .ok v) : f <$> read ≠ .ok tx := by
    rcases read with e | v
    · nofun
    · exact absurd rfl (hread v)
  have hzero : ByteBuffer.byteAt bytes 0 ≠ 0 := by
    rw [hfirst]
    decide
  cases parser with
  | CreateAliasTransaction => exact hmap halias
  | GenesisTransaction | PaymentTransaction | MassTransferTransaction | DataTransaction
  | SponsorFeeTransaction =>
    refine hmap (header_refuses (Nat.zero_lt_succ _) ?_)
    rw [hfirst]
    decide
  | SetScriptTransaction | SetAssetScriptTransaction | InvokeScriptTransaction =>
    refine hmap (header_refuses (Nat.zero_lt_succ _) ?_)
    rw [hfirst]
    exact show (10 : Byte) ≠ 0 by decide
  | _ =>
    refine hmap (eitherEncoding_refuses hzero ?_)
    rw [hfirst]
    decide

theorem readAs_eq_none {db : Keys} (h : NoOldEncoding db) {height num : ℕ} {tx : Transaction}
    (htx : db.nthTransaction height num = some tx) (ofTypes : List TransactionParser) :
    readAs ofTypes (transactionBytes tx) = none := by
  have hfirst : ByteBuffer.byteAt (transactionBytes tx) 0 = 10 := rfl
  have hrefuses := parseBytes_refuses hfirst (h height num tx htx)
  rw [readAs]
  by_cases hall : ofTypes.isEmpty = true
  · rw [if_pos hall]
    cases hread : TransactionParsers.parseBytes (transactionBytes tx) with
    | error e => rfl
    | ok v =>
      -- the first byte sends it to the parser of aliases
      rw [TransactionParsers.parseBytes] at hread
      split at hread
      · cases hread
      · exact absurd hread (hrefuses .CreateAliasTransaction v)
  · rw [if_neg hall, List.findSome?_eq_none_iff]
    intro parser _
    cases hread : parser.parseBytes (transactionBytes tx) with
    | error e => rfl
    | ok v => exact absurd hread (hrefuses parser v)

/-- **Without the index** nothing is listed: nothing is read from what is stored. -/
theorem observable_off (hstore : x.storeTransactionsByAddress = false)
    (hread : NoOldEncoding x.writer.db) (fromId : Option ByteStr) :
    x.addressTransactionsObservable ids a types ofTypes fromId = [] := by
  have hnothing : transactionsIterator x.writer.db ids ofTypes = [] := by
    rw [transactionsIterator, List.filterMap_eq_nil_iff]
    rintro ⟨height, num⟩ -
    change ((x.writer.db.nthTransaction height num).bind _).map _ = none
    cases htx : x.writer.db.nthTransaction height num with
    | none => rfl
    | some tx =>
      rw [Option.bind_some, readAs_eq_none hread htx]
      rfl
  rw [addressTransactionsObservable, hstore, hnothing]
  split
  · rw [if_neg Bool.false_ne_true]
    rcases fromId.bind x.writer.db.transactionHNById with _ | ⟨filterHeight, filterNum⟩ <;> rfl
  · rfl

end

/-! ## 9. The liquid block and the database -/

section
variable [ScriptReader] (x : AddressIndexed)

/-- `CompositeAddressTransactions.addressTransactionsObservable`. -/
def compositeObservable (maybeDiff : Option Diff) (order : Diff → List ByteStr)
    (ids : List ByteStr) (address : Address) (types : Finset TransactionParser)
    (ofTypes : List TransactionParser) : Option ByteStr → List (ℕ × Transaction) :=
  addressTransactionsCompose (x.addressTransactionsObservable ids address types ofTypes)
    (fromDiff (x.writer.height + 1) maybeDiff order) address types

end

/-- Every page by page reading of a listing gives the transactions, in their order. -/
def PagesComplete (list : Option ByteStr → List (ℕ × Transaction))
    (items : List (ℕ × Transaction)) : Prop :=
  ∀ n, 0 < n → Paging.Paged (fun t : ℕ × Transaction => t.2.id) list n none items

omit [Crypto] [PBTransactionSerializer] in
/-- A transaction of one of the types that the diff lists for the account. -/
def listed (a : Address) (types : Finset TransactionParser) (d : Diff) (id : ByteStr) : Bool :=
  (d.transactions.get? id).any fun entry =>
    a ∈ entry.2 && (types = ∅ || entry.1.builder ∈ types)

/-- The map of the liquid diff is iterated in the order of the block, as far as it is about
transactions that are to be listed. -/
def InOrder (order : Diff → List ByteStr) (a : Address) (types : Finset TransactionParser)
    (liquid : Option (Block × Diff)) : Prop :=
  ∀ block d, liquid = some (block, d) →
    (order d).filter (listed a types d) =
      (block.transactionData.map Transaction.id).filter (listed a types d)

/-! ## 10. When the listing is complete -/

/-- What is shown of the liquid block. -/
def shown (a : Address) (types : Finset TransactionParser)
    (t : ℕ × Transaction × Finset Address) : Option (ℕ × Transaction) :=
  if a ∈ t.2.2 && (types = ∅ || t.2.1.builder ∈ types) then some (t.1, t.2.1) else none

/-- **The two parts together**: a cursor is found in one of them only, and each goes on from
its own. -/
theorem compose_continues {db : Keys} {at_ : Option ByteStr → List (ℕ × Transaction)}
    {iter : List (ℕ × Transaction × Finset Address)} {below : List (ℕ × Transaction)}
    {a : Address} {types : Finset TransactionParser}
    (hiter : (iter.map fun t => t.2.1.id).Nodup)
    (hnew : ∀ t ∈ iter, db.transactionHNById t.2.1.id = none)
    (hstored : ∀ t ∈ below, (db.transactionHNById t.2.id).isSome)
    (hfirst : at_ none = below)
    (hother : ∀ id, db.transactionHNById id = none → at_ (some id) = below)
    (hnext : ∀ done t rest, below = done ++ t :: rest → at_ (some t.2.id) = rest) :
    Paging.Continues (fun t : ℕ × Transaction => t.2.id)
      (addressTransactionsCompose at_ iter a types) (iter.filterMap (shown a types) ++ below) := by
  have hshown (l : List (ℕ × Transaction × Finset Address)) :
      ((l.filter fun t => a ∈ t.2.2 && (types = ∅ || t.2.1.builder ∈ types)).map
        fun t => (t.1, t.2.1)) = l.filterMap (shown a types) := by
    rw [← List.filterMap_eq_map, List.filterMap_filter]
    rfl
  have hkey (t : ℕ × Transaction × Finset Address) (u : ℕ × Transaction)
      (hu : shown a types t = some u) : u.2.id = t.2.1.id := by
    rw [shown] at hu
    split at hu
    · cases hu
      rfl
    · cases hu
  have hsome (id : ByteStr) : addressTransactionsCompose at_ iter a types (some id) =
      (Paging.after (fun t => t.2.1.id) iter id).filterMap (shown a types) ++ at_ (some id) :=
    congrArg (· ++ at_ (some id)) (hshown _)
  have hgoesOn : ∀ done t rest, iter.filterMap (shown a types) ++ below = done ++ t :: rest →
      addressTransactionsCompose at_ iter a types (some t.2.id) = rest := by
    intro done t rest hsplit
    rw [hsome]
    -- after a cursor of the database nothing of the liquid block comes
    have hlower : t ∈ below → Paging.after (fun t => t.2.1.id) iter t.2.id = [] := by
      intro ht
      rw [Paging.after_eq_nil]
      intro hmem
      obtain ⟨u, hu, hid⟩ := List.mem_map.mp hmem
      have hknown := hstored t ht
      rw [← hid, hnew u hu] at hknown
      cases hknown
    rcases List.append_eq_append_iff.mp hsplit with ⟨front, rfl, hbelow⟩ | ⟨back, hupper, hback⟩
    · rw [hlower (hbelow ▸ List.mem_append_right _ List.mem_cons_self), hnext front t rest hbelow]
      rfl
    · cases back with
      | nil =>
        rw [List.nil_append] at hback
        rw [hlower (hback ▸ List.mem_cons_self), hnext [] t rest hback.symm]
        rfl
      | cons u back =>
        rw [List.cons_append] at hback
        obtain ⟨rfl, rfl⟩ := List.cons.inj hback
        rw [Paging.filterMap_after hkey hiter hupper, hother]
        obtain ⟨v, hv, hvt⟩ := List.mem_filterMap.mp
          (hupper ▸ List.mem_append_right done List.mem_cons_self :
            t ∈ iter.filterMap (shown a types))
        rw [hkey v t hvt]
        exact hnew v hv
  refine ⟨?_, fun done t rest hsplit => ?_⟩
  · rw [← hfirst]
    exact congrArg (· ++ at_ none) (hshown iter)
  · rw [hgoesOn done t rest hsplit]
    exact ⟨List.prefix_refl _, id⟩

section
variable {x : AddressIndexed} {chain : List (Block × Diff)} {a : Address}
  {types : Finset TransactionParser}

/-- In a chain without an id that comes twice, the listing goes on from any of its positions. -/
theorem history_goesOn {db : Keys} (h : Stored db chain) {done rest : List (ℕ × Transaction)}
    {t : ℕ × Transaction} (hsplit : history a types chain = done ++ t :: rest) :
    (takeAfter (fun t => (t.1, t.2.1)) (positions a types chain)
      (db.transactionHNById t.2.id)).map (fun t => (t.1, t.2.2)) = rest := by
  obtain ⟨front, back, hpositions, rfl, hback⟩ := List.map_eq_append_iff.mp hsplit
  obtain ⟨p, later, rfl, rfl, rfl⟩ := List.map_eq_cons_iff.mp hback
  have hmem : p ∈ positions a types chain := by
    rw [hpositions]
    exact List.mem_append_right _ List.mem_cons_self
  have hpairwise := pairwise_positions a types chain
  rw [hpositions] at hpairwise
  have hcursor : db.transactionHNById p.2.2.id = some (p.1, p.2.1) := (h.position hmem).2.1
  rw [hpositions]
  change (takeAfter (fun t => (t.1, t.2.1)) (front ++ p :: later)
    (db.transactionHNById p.2.2.id)).map _ = _
  rw [hcursor]
  exact congrArg _ (takeAfter_append hpairwise)

variable [ScriptReader] {ofTypes : List TransactionParser} {ids : List ByteStr}

/-- **What the database lists goes on**, with the index and without. -/
theorem composite_continues (h : Indexed x chain)
    (hread : x.storeTransactionsByAddress = false → NoOldEncoding x.writer.db)
    {iter : List (ℕ × Transaction × Finset Address)} (hiter : (iter.map fun t => t.2.1.id).Nodup)
    (hnew : ∀ t ∈ iter, x.writer.db.transactionHNById t.2.1.id = none) :
    Paging.Continues (fun t : ℕ × Transaction => t.2.id)
      (addressTransactionsCompose (x.addressTransactionsObservable ids a types ofTypes) iter a
        types)
      (iter.filterMap (shown a types) ++
        if x.storeTransactionsByAddress then history a types chain else []) := by
  cases hstore : x.storeTransactionsByAddress with
  | true =>
    rw [if_pos rfl]
    refine compose_continues hiter hnew ?_ ?_ ?_ ?_
    · intro t ht
      obtain ⟨p, hp, rfl⟩ := List.mem_map.mp ht
      change (x.writer.db.transactionHNById p.2.2.id).isSome
      rw [(h.stored.position hp).2.1]
      rfl
    · exact observable_on h hstore none
    · intro id hid
      rw [observable_on h hstore, Option.bind_some, hid]
      rfl
    · intro done t rest hsplit
      rw [observable_on h hstore, Option.bind_some]
      exact history_goesOn h.stored hsplit
  | false =>
    have hoff (fromId : Option ByteStr) :
        x.addressTransactionsObservable ids a types ofTypes fromId = [] :=
      observable_off hstore (hread hstore) fromId
    rw [if_neg Bool.false_ne_true]
    refine compose_continues hiter hnew ?_ (hoff none) (fun id _ => hoff _) ?_
    · intro t ht
      cases ht
    · intro done t rest hsplit
      exact absurd hsplit.symm (List.append_ne_nil_of_right_ne_nil _ (List.cons_ne_nil _ _))

end

/-- What is shown of a transaction of the liquid diff. -/
def found (height : ℕ) (a : Address) (types : Finset TransactionParser) (d : Diff)
    (id : ByteStr) : Option (ℕ × Transaction) :=
  (d.transactions.get? id).bind fun entry => shown a types (height, entry)

section
variable {d : Diff} {block : Block} {a : Address} {types : Finset TransactionParser} {height : ℕ}

omit [Crypto] [PBTransactionSerializer] in
theorem isSome_found (id : ByteStr) : (found height a types d id).isSome = listed a types d id := by
  rw [found, listed]
  cases d.transactions.get? id with
  | none => rfl
  | some entry =>
    rw [Option.bind_some, Option.any_some, shown]
    split
    · rename_i hmatch
      exact hmatch.symm
    · rename_i hmatch
      exact (Bool.eq_false_of_not_eq_true hmatch).symm

/-- The diff's transactions by their ids. -/
theorem id_of_found (hkeyed : ∀ id entry, d.transactions.get? id = some entry → entry.1.id = id)
    {id : ByteStr} {t : ℕ × Transaction} (ht : found height a types d id = some t) :
    t.2.id = id := by
  obtain ⟨entry, hentry, hshown⟩ := Option.bind_eq_some_iff.mp ht
  rw [shown] at hshown
  split at hshown
  · cases hshown
    exact hkeyed id entry hentry
  · cases hshown

omit [Crypto] [PBTransactionSerializer] in
/-- What is shown of the map is shown of its ids, the last one first. -/
theorem filterMap_fromDiff (order : Diff → List ByteStr) :
    (fromDiff height (some d) order).filterMap (shown a types) =
      ((order d).filterMap (found height a types d)).reverse := by
  rw [fromDiff, List.filterMap_map, List.filterMap_reverse, List.filterMap_filterMap]
  rfl

/-- What is to be listed of a block are its ids, the last one first. -/
theorem history_block {below : List (Block × Diff)}
    (hlisted : ∀ tx ∈ block.transactionData, ∃ addresses,
      d.transactions.get? tx.id = some (tx, addresses)) :
    history a types ((block, d) :: below) =
      ((block.transactionData.map Transaction.id).filterMap
        (found (below.length + 1) a types d)).reverse ++ history a types below := by
  rw [history, history, positions, List.map_append, List.map_map]
  congr 1
  have hsnd : (numbered block.transactionData).map Prod.snd = block.transactionData := by
    rw [numbered, List.map_map]
    exact List.zipIdx_map_fst 0 block.transactionData
  have hfound : block.transactionData.filterMap
        (found (below.length + 1) a types d ∘ Transaction.id) =
      block.transactionData.filterMap fun tx =>
        if matching a types d tx then some (below.length + 1, tx) else none := by
    refine List.filterMap_congr fun tx htx => ?_
    obtain ⟨addresses, hget⟩ := hlisted tx htx
    change found (below.length + 1) a types d tx.id = _
    rw [found, matching, recorded, hget]
    rfl
  rw [List.filterMap_map, hfound, ← List.filterMap_reverse]
  conv_rhs => rw [← hsnd]
  rw [← List.map_reverse, List.filterMap_map, ← List.filterMap_eq_map, List.filterMap_filter]
  rfl

end

section
variable [Ride] [BlockSerializer] [ScriptReader] {x : AddressIndexed}
  {chain : List (Block × Diff)} {a : Address} {types : Finset TransactionParser}

/-- What the diff of a new block lists, in whatever order. -/
structure NewBlock (db : Keys) (block : Block) (d : Diff) (order : List ByteStr) : Prop where
  keyed : ∀ id entry, d.transactions.get? id = some entry → entry.1.id = id
  listed : ∀ tx ∈ block.transactionData, ∃ addresses,
    d.transactions.get? tx.id = some (tx, addresses)
  perm : order.Perm (block.transactionData.map Transaction.id)
  nodup : order.Nodup
  new : ∀ id ∈ order, db.transactionHNById id = none

omit [ScriptReader] in
theorem newBlock_of_produces {db : Keys} (hfound : TransactionsFound db) {height : ℕ}
    {block : Block} {d : Diff} {carry : Long} (hd : BlockDiffer.Produces height block d carry)
    (hnew : IdsNew db block) (order : Traversal d.transactions.dom) :
    NewBlock db block d order.list := by
  have hdistinct : IdsDistinct block.transactionData := by
    refine (List.pairwise_map.mp hnew.1).imp ?_
    intro tx tx' hne hid
    exact absurd hid hne
  have hrecords := hd.records hdistinct
  have hmem (id : ByteStr) :
      id ∈ order.list ↔ id ∈ block.transactionData.map Transaction.id := by
    rw [order.mem_iff, ← FiniteMap.contains_iff_mem_dom, hd.lists id, List.mem_map]
  refine
    { keyed := fun id entry hentry => (hrecords.listed id entry hentry).2
      listed := ?_
      perm := (List.perm_ext_iff_of_nodup order.nodup hnew.1).mpr hmem
      nodup := order.nodup
      new := ?_ }
  · intro tx htx
    obtain ⟨entry, hentry⟩ := Option.isSome_iff_exists.mp
      ((d.transactions.mem_dom _).mp (hrecords.lists tx htx))
    obtain ⟨hlisted, hid⟩ := hrecords.listed _ entry hentry
    have hsame : entry.1 = tx := List.inj_on_of_nodup_map hnew.1 hlisted htx hid
    rw [← hsame] at hentry ⊢
    exact ⟨entry.2, hentry⟩
  · intro id hid
    obtain ⟨tx, htx, rfl⟩ := List.mem_map.mp ((hmem id).mp hid)
    cases hhn : db.transactionHNById tx.id with
    | none => rfl
    | some hn =>
      obtain ⟨hle, tx', hnth, hid'⟩ := hfound.found tx.id hn.1 hn.2 hhn
      exact absurd hid' (hnew.2 tx htx hn.1 hle tx' (mem_of_nthTransaction hnth))

omit [Ride] [BlockSerializer] [ScriptReader] [Crypto] [PBTransactionSerializer] in
theorem append_eq_append_iff_of_length {upper upper' lower : List (ℕ × Transaction)} {store : Bool}
    (hlength : upper.length = upper'.length) :
    upper ++ lower = upper' ++ (if store then lower else []) ↔
      upper' = upper ∧ (store = true ∨ lower = []) := by
  constructor
  · intro h
    obtain ⟨hupper, hlower⟩ := List.append_inj h hlength
    refine ⟨hupper.symm, ?_⟩
    cases store with
    | true => exact .inl rfl
    | false => exact .inr hlower
  · rintro ⟨rfl, rfl | rfl⟩
    · rfl
    · rw [ite_self]

end

end AddressIndexed

end

/-! ## 11. A node without the index

Alice has a genesis transaction. A node that does not keep the index lists nothing for her. -/

namespace Devnet

/-- The protobuf form of the genesis transactions. -/
def genesisBodies : List (Transaction × ByteStr) :=
  genesisBlock.transactionData.zip
    [bytes 47 0x08541a0020e0a2d8f7d32b2801aa061f0a14ea58e2539eb41410f8873ff020608b0c8325427f10808082bf93eff008,
      bytes 47 0x08541a0020e0a2d8f7d32b2801aa061f0a14aa259a33e350952c45254e402badc9b74c47e88d10808082bf93eff008]

@[reducible] def genesisSerializer : PBTransactionSerializer :=
  ⟨fun tx => ((genesisBodies.find? fun entry => entry.1 = tx).map Prod.snd).getD []⟩

end Devnet

section
open Devnet AddressIndexed LevelDBWriter

local instance listedCrypto : Crypto := firstBlocks.crypto
local instance listedSerializer : PBTransactionSerializer := genesisSerializer
local instance listedBlocks : BlockSerializer := firstBlocks.blockSerializer
local instance listedRide : Ride := firstBlocks.ride
local instance listedScripts : ScriptReader := ⟨fun _ => .error "no script"⟩

namespace Devnet

def listedSettings : BlockchainSettings := settings [(BlockchainFeatures.NG, 0)]

def nothingListed : LevelDBWriter := .empty listedSettings dbSettings

/-- What the genesis block comes to. -/
def genesisResult : Validation BlockDiffer.Result :=
  BlockDiffer.fromBlock nothingListed.blockchain nothingListed.lastBlock genesisBlock .Unlimited

/-- The node after the genesis block. -/
def genesisListed (store : Bool) (r : BlockDiffer.Result) : AddressIndexed :=
  (AddressIndexed.empty listedSettings dbSettings store).append r.diff r.carry none genesisBlock

/-- What an empty block on top of it comes to. -/
def emptyResult (r : BlockDiffer.Result) : Validation BlockDiffer.Result :=
  let w := (genesisListed true r).writer
  BlockDiffer.fromBlock w.blockchain w.lastBlock emptyBlock .Unlimited

def genesisIds : List ByteStr := genesisBlock.transactionData.map Transaction.id

end Devnet

theorem listed_run :
    (genesisIds.Nodup ∧
        genesisIds.Pairwise fun id id' => id.map Int8.toUInt8 < id'.map Int8.toUInt8) ∧
      (∀ tx ∈ genesisBlock.transactionData,
        (CreateAliasTxSerializer.parseBytes (transactionBytes tx)).toOption.isNone) ∧
      genesisResult.toOption.any fun r =>
        decide (history alice.address ∅ [(genesisBlock, r.diff)] ≠ []) &&
          (emptyResult r).toOption.isSome := by
  decide +kernel

theorem genesisListed_reachable {store : Bool} {r : BlockDiffer.Result}
    (hr : genesisResult = .ok r) :
    AddressIndexed.Reachable NoIdTwice listedSettings dbSettings store (genesisListed store r)
      [(genesisBlock, r.diff)] := by
  have hnew : IdsNew nothingListed.db genesisBlock :=
    ⟨listed_run.1.1, fun _ _ _ _ _ htx' => absurd htx' List.not_mem_nil⟩
  have hleads : (AddressIndexed.empty listedSettings dbSettings store).Leads (genesisListed store r)
      (.append r.diff r.carry none genesisBlock) := ⟨produces_fromBlock hr, rfl⟩
  exact .step .empty hnew hleads

/-- The ids of the genesis transactions are in the order of their keys. -/
def idsOfGenesis (store : Bool) (r : BlockDiffer.Result) :
    TransactionIds (genesisListed store r).writer.db where
  list := genesisIds
  sorted := listed_run.1.2
  mem_iff id := by
    change id ∈ genesisBlock.transactionData.map Transaction.id ↔
      ((nothingListed.doAppend r.diff r.carry none genesisBlock).transactionHNById id).isSome
    rw [isSome_transactionHNById_doAppend, List.mem_map]
    exact (or_iff_left Bool.false_ne_true).symm

end

end WavesNode
