/-
Who holds an asset: the numbers of the addresses and the lists of holders.

The database knows an address by a number, which it gets with the first block that names
it. For every asset, and for Waves, it lists the numbers of the addresses that ever held
some, block by block. A rollback undoes neither the numbers nor the lists: an address stays
in a list whatever it holds later, and a holder of Waves may be listed again.

The distribution of an asset goes through its list, and asks the history of each balance
for the given height. It is read in pages, each from the address on that the page before
ended with.
-/
import Mathlib.Data.Finset.Option
import WavesNode.BalanceStability
import WavesNode.Numbering
import WavesNode.Paging

set_option autoImplicit false

namespace WavesNode

open LevelDBWriter

/-! ## 1. Numbers and lists -/

/-- A list of numbers that is stored in parts, the first one under the number one. -/
structure AddressLists where
  seqNr : ℕ
  addresses : ℕ → List ℕ

namespace AddressLists

/-- All parts, one after another. -/
def all (lists : AddressLists) : List ℕ := (List.range' 1 lists.seqNr).flatMap lists.addresses

/-- A set of new numbers is put under the next sequence number, if there are any. -/
def put (lists : AddressLists) {new : Finset ℕ} (order : Traversal new) : AddressLists :=
  if new = ∅ then lists
  else ⟨lists.seqNr + 1, Function.update lists.addresses (lists.seqNr + 1) order.list⟩

@[simp] theorem all_put (lists : AddressLists) {new : Finset ℕ} (order : Traversal new) :
    (lists.put order).all = lists.all ++ order.list := by
  unfold put
  split
  · rename_i hempty
    subst hempty
    have hnil : order.list = [] := List.eq_nil_iff_forall_not_mem.mpr fun n hn =>
      Finset.notMem_empty n ((order.mem_iff n).mp hn)
    rw [hnil, List.append_nil]
  · unfold all
    rw [List.range'_1_concat, List.flatMap_append]
    congr 1
    · -- the parts before are left as they are
      apply List.flatMap_congr
      intro n hn
      rw [List.mem_range'_1] at hn
      exact Function.update_of_ne (by omega) _ _
    · simp [Nat.add_comm 1 lists.seqNr]

end AddressLists

/-- The database with the numbers of its addresses, the assets each of them has ever had in
the order they are stored in, and the holders of each asset. -/
structure NumberedWriter where
  writer : LevelDBWriter
  lastAddressId : ℕ
  addressId : Address → Option ℕ
  idToAddress : ℕ → Option Address
  assetList : ℕ → List IssuedAsset
  addressesForAsset : IssuedAsset → AddressLists
  addressesForWaves : AddressLists

namespace NumberedWriter

def empty (settings : BlockchainSettings) (dbSettings : DBSettings) : NumberedWriter where
  writer := .empty settings dbSettings
  lastAddressId := 0
  addressId _ := none
  idToAddress _ := none
  assetList _ := []
  addressesForAsset _ := ⟨0, fun _ => []⟩
  addressesForWaves := ⟨0, fun _ => []⟩

section
variable (x : NumberedWriter)

/-! ## 2. Appending a block -/

/-- The addresses that get a number: with a portfolio or a transaction, and none yet. -/
def newAddresses (d : Diff) : Finset Address :=
  (d.portfolios.dom ∪ transactionAddresses d).filter fun a => x.addressId a = none

/-- The orders in which the sets and maps of an append are gone through. -/
structure Orders (d : Diff) where
  newAddresses : Traversal (x.newAddresses d)
  updatedBalances : (a : Address) → Traversal (d.portfolios.of a).assets.dom
  newAddressesForAssets : (new : Finset ℕ) → Traversal new

variable {x} {d : Diff} (o : Orders x d)

namespace Orders

def newAddressIds (a : Address) : Option ℕ :=
  (o.newAddresses.list.idxOf? a).map fun offset => x.lastAddressId + offset + 1

def addressId (a : Address) : Option ℕ := (o.newAddressIds a).or (x.addressId a)

def idToAddress (id : ℕ) : Option Address :=
  if id ≤ x.lastAddressId then x.idToAddress id
  else o.newAddresses.list[id - x.lastAddressId - 1]?

/-- The assets of a changed portfolio that are not in the list of the address yet. -/
def newAssets (a : Address) : List IssuedAsset :=
  match o.addressId a with
  | none => []
  | some id => (o.updatedBalances a).list.filter fun asset => asset ∉ x.assetList id

/-- The numbers of some addresses. -/
def numbers (addresses : Finset Address) : Finset ℕ :=
  addresses.biUnion fun a => (o.addressId a).toFinset

def newAddressesForAsset (asset : IssuedAsset) : Finset ℕ :=
  o.numbers (d.portfolios.dom.filter fun a => asset ∈ o.newAssets a)

/-- Those whose Waves change, and whose history of them is empty. -/
def newAddressesForWaves : Finset ℕ :=
  o.numbers (d.portfolios.dom.filter fun a =>
    (x.writer.updatedBalance d a .Waves).isSome ∧ (x.writer.db.wavesBalance a).heights = [])

end Orders

variable [Crypto] [PBTransactionSerializer]

def append (x : NumberedWriter) (d : Diff) (o : Orders x d) (carry : Long) (reward : Option Long)
    (block : Block) : NumberedWriter where
  writer := x.writer.append d carry reward block
  lastAddressId := x.lastAddressId + o.newAddresses.list.length
  addressId := o.addressId
  idToAddress := o.idToAddress
  assetList id :=
    match o.idToAddress id with
    | some a => o.newAssets a ++ x.assetList id
    | none => x.assetList id
  addressesForAsset asset :=
    (x.addressesForAsset asset).put (o.newAddressesForAssets (o.newAddressesForAsset asset))
  addressesForWaves :=
    x.addressesForWaves.put (o.newAddressesForAssets o.newAddressesForWaves)

/-! ## 3. Runs -/

variable [Ride] [BlockSerializer]

/-- An appended block may go through its sets in any order, and nothing but an appended block
touches the numbers and the lists. -/
def Leads (x x' : NumberedWriter) : Event → Prop
  | .append d carry reward block =>
    BlockDiffer.Produces (x.writer.height + 1) block d carry ∧
      ∃ o : Orders x d, x.append d o carry reward block = x'
  | e => ∃ w, e.Leads x.writer w ∧ { x with writer := w } = x'

/-- What runs lead to from a database. -/
inductive Runs (Q : LevelDBWriter → Event → Prop) (x : NumberedWriter) : NumberedWriter → Prop
  | refl : Runs Q x x
  | step {y z : NumberedWriter} {e : Event} : Runs Q x y → Q y.writer e → y.Leads z e → Runs Q x z

def Reachable (Q : LevelDBWriter → Event → Prop) (settings : BlockchainSettings)
    (dbSettings : DBSettings) : NumberedWriter → Prop := Runs Q (.empty settings dbSettings)

end

/-! ## 4. What a run keeps -/

/-- The numbers are those of a list of addresses, which are the ones the database knows. The
asset lists and the lists of holders mirror each other, and no balance is written of an asset
or an address that is not listed. -/
structure Numbered (x : NumberedWriter) (names : List Address) : Prop where
  nodup : names.Nodup
  last : x.lastAddressId = names.length
  addressId : ∀ a, x.addressId a = Numbering.number names a
  idToAddress : ∀ id, x.idToAddress id = Numbering.name names id
  known : ∀ a, a ∈ x.writer.db.addressId ↔ a ∈ names
  listed : ∀ a, x.writer.db.assetList a ≠ ∅ → a ∈ names
  assets : ∀ id a, Numbering.name names id = some a → (x.assetList id).Nodup ∧
    ∀ asset, asset ∈ x.assetList id ↔ asset ∈ x.writer.db.assetList a
  unnumbered : ∀ id, Numbering.name names id = none → x.assetList id = []
  holders : ∀ asset, (x.addressesForAsset asset).all.Nodup ∧
    ∀ id, id ∈ (x.addressesForAsset asset).all ↔ asset ∈ x.assetList id
  balances : ∀ a asset, (x.writer.db.assetBalance a asset).heights ≠ [] →
    asset ∈ x.writer.db.assetList a
  waves : ∀ a, (x.writer.db.wavesBalance a).heights ≠ [] →
    ∃ id, Numbering.number names a = some id ∧ id ∈ x.addressesForWaves.all

theorem numbered_empty (settings : BlockchainSettings) (dbSettings : DBSettings) :
    (empty settings dbSettings).Numbered [] where
  nodup := List.nodup_nil
  last := rfl
  addressId _ := rfl
  idToAddress id := (Numbering.name_nil id).symm
  known a := by simp [empty, LevelDBWriter.empty, Keys.empty]
  listed a h := absurd rfl h
  assets id a h := by simp at h
  unnumbered _ _ := rfl
  holders asset := by simp [empty, AddressLists.all]
  balances a asset h := absurd rfl h
  waves a h := absurd rfl h

/-! ### An appended block -/

section Append

variable {x : NumberedWriter} {names : List Address} {d : Diff} (h : x.Numbered names)
  (o : Orders x d)
include h

theorem Numbered.mem_newAddresses {a : Address} :
    a ∈ o.newAddresses.list ↔ (a ∈ d.portfolios.dom ∨ a ∈ transactionAddresses d) ∧ a ∉ names := by
  rw [o.newAddresses.mem_iff, newAddresses, Finset.mem_filter, Finset.mem_union, h.addressId,
    Numbering.number_eq_none_iff]

theorem Numbered.nodup_append : (names ++ o.newAddresses.list).Nodup := by
  refine List.nodup_append'.mpr ⟨h.nodup, o.newAddresses.nodup, ?_⟩
  intro a ha hnew
  exact ((h.mem_newAddresses o).mp hnew).2 ha

theorem Numbered.orders_addressId (a : Address) :
    o.addressId a = Numbering.number (names ++ o.newAddresses.list) a := by
  rw [Numbering.number_append, Orders.addressId, Orders.newAddressIds, h.last, ← h.addressId]
  -- a new address has no number yet
  cases hnew : o.newAddresses.list.idxOf? a with
  | none => simp
  | some offset =>
    have hmem : a ∈ o.newAddresses.list := List.isSome_idxOf?.mp (by rw [hnew]; rfl)
    have hnone : x.addressId a = none := by
      rw [h.addressId, Numbering.number_eq_none_iff]
      exact ((h.mem_newAddresses o).mp hmem).2
    simp [hnone]

theorem Numbered.orders_idToAddress (id : ℕ) :
    o.idToAddress id = Numbering.name (names ++ o.newAddresses.list) id := by
  rw [Numbering.name_append, Orders.idToAddress, h.last, h.idToAddress]

theorem Numbered.orders_iff {a : Address} {id : ℕ} :
    o.addressId a = some id ↔ o.idToAddress id = some a := by
  rw [h.orders_addressId, h.orders_idToAddress]
  exact Numbering.number_eq_some_iff (h.nodup_append o)

/-- Every address with a portfolio has a number in the end. -/
theorem Numbered.exists_addressId {a : Address} (ha : a ∈ d.portfolios.dom) :
    ∃ id, o.addressId a = some id := by
  rw [← Option.isSome_iff_exists, h.orders_addressId, Numbering.number_isSome_iff,
    List.mem_append, h.mem_newAddresses o]
  by_cases hold : a ∈ names
  · exact .inl hold
  · exact .inr ⟨.inl ha, hold⟩

omit h in
theorem mem_dom_of_assets {a : Address} {asset : IssuedAsset}
    (hasset : asset ∈ (d.portfolios.of a).assets.dom) : a ∈ d.portfolios.dom := by
  by_contra hnot
  rw [Portfolios.of, FiniteMap.getOrElse, (FiniteMap.get?_eq_none_iff _ _).mpr hnot] at hasset
  simp [Portfolio.empty] at hasset

omit h in
theorem mem_newAssets {a : Address} {id : ℕ} {asset : IssuedAsset} (hid : o.addressId a = some id) :
    asset ∈ o.newAssets a ↔
      asset ∈ (d.portfolios.of a).assets.dom ∧ asset ∉ x.assetList id := by
  rw [Orders.newAssets, hid]
  simp [(o.updatedBalances a).mem_iff]

theorem Numbered.mem_newAddressesForAsset {asset : IssuedAsset} {id : ℕ} :
    id ∈ o.newAddressesForAsset asset ↔
      ∃ a, o.idToAddress id = some a ∧ asset ∈ o.newAssets a := by
  simp only [Orders.newAddressesForAsset, Orders.numbers, Finset.mem_biUnion, Finset.mem_filter,
    Option.mem_toFinset, Option.mem_def, h.orders_iff o]
  constructor
  · rintro ⟨a, ⟨-, hnew⟩, hid⟩
    exact ⟨a, hid, hnew⟩
  · rintro ⟨a, hid, hnew⟩
    have hassets := ((mem_newAssets o ((h.orders_iff o).mpr hid)).mp hnew).1
    exact ⟨a, ⟨mem_dom_of_assets hassets, hnew⟩, hid⟩

variable [Crypto] [PBTransactionSerializer] (carry : Long) (reward : Option Long) (block : Block)

theorem Numbered.mem_assetList_append {id : ℕ} {asset : IssuedAsset} :
    asset ∈ (x.append d o carry reward block).assetList id ↔
      id ∈ o.newAddressesForAsset asset ∨ asset ∈ x.assetList id := by
  rw [h.mem_newAddressesForAsset o, append]
  dsimp only
  cases o.idToAddress id with
  | none => simp
  | some a => simp

/-- **An appended block** continues the numbers and keeps the lists. -/
theorem Numbered.append :
    (x.append d o carry reward block).Numbered (names ++ o.newAddresses.list) where
  nodup := h.nodup_append o
  last := by
    rw [List.length_append, ← h.last]
    rfl
  addressId := h.orders_addressId o
  idToAddress := h.orders_idToAddress o
  known a := by
    change a ∈ x.writer.db.addressId ∪ d.portfolios.dom ∪ transactionAddresses d ↔ _
    rw [Finset.mem_union, Finset.mem_union, h.known, List.mem_append, h.mem_newAddresses o]
    tauto
  listed a hne := by
    rw [List.mem_append, h.mem_newAddresses o]
    by_cases hold : a ∈ names
    · exact .inl hold
    · -- its list was empty, so the diff has assets of it
      have hempty : x.writer.db.assetList a = ∅ := by
        by_contra hne'
        exact hold (h.listed a hne')
      obtain ⟨asset, hasset⟩ := Finset.nonempty_iff_ne_empty.mpr hne
      change asset ∈ x.writer.db.assetList a ∪ (d.portfolios.of a).assets.dom at hasset
      rw [hempty, Finset.empty_union] at hasset
      exact .inr ⟨.inl (mem_dom_of_assets hasset), hold⟩
  assets id a hname := by
    rw [← h.orders_idToAddress o] at hname
    have hid := (h.orders_iff o).mpr hname
    -- what the list held before
    have hbefore : (x.assetList id).Nodup ∧
        ∀ asset, asset ∈ x.assetList id ↔ asset ∈ x.writer.db.assetList a := by
      cases hold : Numbering.name names id with
      | some b =>
        have hsame : b = a := by
          rw [h.orders_idToAddress o, Numbering.name_append_of_some hold] at hname
          exact Option.some.inj hname
        exact h.assets id a (hsame ▸ hold)
      | none =>
        have hnew : a ∉ names := by
          intro hmem
          obtain ⟨id', hid'⟩ := Option.isSome_iff_exists.mp (Numbering.number_isSome_iff.mpr hmem)
          rw [h.orders_addressId o, Numbering.number_append_of_some hid'] at hid
          rw [Option.some.inj hid, Numbering.number_eq_some_iff h.nodup, hold] at hid'
          cases hid'
        have hempty : x.writer.db.assetList a = ∅ := by
          by_contra hne
          exact hnew (h.listed a hne)
        simp [h.unnumbered id hold, hempty]
    refine ⟨?_, ?_⟩
    · rw [NumberedWriter.append]
      dsimp only
      rw [hname]
      refine List.nodup_append'.mpr ⟨?_, hbefore.1, ?_⟩
      · rw [Orders.newAssets, hid]
        exact (o.updatedBalances a).nodup.filter _
      · intro asset hnew
        exact ((mem_newAssets o hid).mp hnew).2
    · intro asset
      rw [h.mem_assetList_append o, h.mem_newAddressesForAsset o, hname]
      simp only [Option.some.injEq, exists_eq_left', mem_newAssets o hid, hbefore.2]
      change _ ↔ asset ∈ x.writer.db.assetList a ∪ (d.portfolios.of a).assets.dom
      rw [Finset.mem_union]
      tauto
  unnumbered id hnone := by
    rw [← h.orders_idToAddress o] at hnone
    rw [NumberedWriter.append]
    dsimp only
    rw [hnone]
    apply h.unnumbered
    by_contra hsome
    obtain ⟨a, ha⟩ := Option.ne_none_iff_exists'.mp hsome
    rw [h.orders_idToAddress o, Numbering.name_append_of_some ha] at hnone
    cases hnone
  holders asset := by
    change ((x.addressesForAsset asset).put _).all.Nodup ∧
      ∀ id, id ∈ ((x.addressesForAsset asset).put _).all ↔ _
    rw [AddressLists.all_put]
    refine ⟨List.nodup_append'.mpr ⟨(h.holders asset).1, Traversal.nodup _, ?_⟩, ?_⟩
    · -- an address is new to the list only if the asset is new to its own
      intro id hold hnew
      rw [Traversal.mem_iff, h.mem_newAddressesForAsset o] at hnew
      obtain ⟨a, hid, hasset⟩ := hnew
      exact ((mem_newAssets o ((h.orders_iff o).mpr hid)).mp hasset).2
        (((h.holders asset).2 id).mp hold)
    · intro id
      rw [h.mem_assetList_append o, List.mem_append, (h.holders asset).2, Traversal.mem_iff]
      exact or_comm
  balances a asset hwritten := by
    change asset ∈ x.writer.db.assetList a ∪ (d.portfolios.of a).assets.dom
    rw [Finset.mem_union]
    cases hv : x.writer.updatedBalance d a (.issued asset) with
    | some v => exact .inr (updatedBalance_issued hv).2
    | none =>
      refine .inl (h.balances a asset ?_)
      change ((x.writer.db.assetBalance a asset).pushSome _ _ (x.writer.updatedBalance d a
        (.issued asset))).heights ≠ [] at hwritten
      rw [hv] at hwritten
      exact hwritten
  waves a hwritten := by
    change ∃ id, _ ∧ id ∈ (x.addressesForWaves.put _).all
    simp only [AddressLists.all_put, List.mem_append, Traversal.mem_iff]
    by_cases hold : (x.writer.db.wavesBalance a).heights = []
    · -- it was written just now
      cases hv : x.writer.updatedBalance d a .Waves with
      | none =>
        change ((x.writer.db.wavesBalance a).pushSome _ _ (x.writer.updatedBalance d a
          .Waves)).heights ≠ [] at hwritten
        rw [hv] at hwritten
        exact absurd hold hwritten
      | some v =>
        have ha : a ∈ d.portfolios.dom := by
          by_contra hnot
          rw [LevelDBWriter.updatedBalance, (FiniteMap.get?_eq_none_iff _ _).mpr hnot] at hv
          cases hv
        obtain ⟨id, hid⟩ := h.exists_addressId o ha
        refine ⟨id, (h.orders_addressId o a).symm.trans hid, .inr ?_⟩
        simp only [Orders.newAddressesForWaves, Orders.numbers, Finset.mem_biUnion,
          Finset.mem_filter, Option.mem_toFinset, Option.mem_def]
        exact ⟨a, ⟨ha, by simp [hv], hold⟩, hid⟩
    · obtain ⟨id, hid, hmem⟩ := h.waves a hold
      exact ⟨id, Numbering.number_append_of_some hid, .inl hmem⟩

end Append

/-! ### Everything else -/

section Keep

variable [Crypto] [PBTransactionSerializer]

/-- The keys know the same addresses and assets, and have no balance that was not there. -/
structure KeepsHolders (db db' : Keys) : Prop where
  addressId : db'.addressId = db.addressId
  assetList : db'.assetList = db.assetList
  balances : ∀ a asset, (db'.assetBalance a asset).heights ≠ [] →
    (db.assetBalance a asset).heights ≠ []
  waves : ∀ a, (db'.wavesBalance a).heights ≠ [] → (db.wavesBalance a).heights ≠ []

omit [Crypto] [PBTransactionSerializer] in
theorem KeepsHolders.refl (db : Keys) : KeepsHolders db db :=
  ⟨rfl, rfl, fun _ _ => id, fun _ => id⟩

omit [Crypto] [PBTransactionSerializer] in
theorem KeepsHolders.trans {db db' db'' : Keys} (h : KeepsHolders db db')
    (h' : KeepsHolders db' db'') : KeepsHolders db db'' where
  addressId := h'.addressId.trans h.addressId
  assetList := h'.assetList.trans h.assetList
  balances a asset hne := h.balances a asset (h'.balances a asset hne)
  waves a hne := h.waves a (h'.waves a hne)

omit [Crypto] [PBTransactionSerializer] in
/-- Taking a height out of some histories writes nothing. -/
theorem heights_ite_drop {υ : Type} {p : Prop} [Decidable p] {s : History υ} {height : ℕ}
    (h : (if p then s.drop height else s).heights ≠ []) : s.heights ≠ [] := by
  rintro hnil
  split at h
  · rw [History.drop, hnil] at h
    exact h rfl
  · exact h hnil

theorem keepsHolders_discardKeys (w : LevelDBWriter) (height : ℕ) :
    KeepsHolders w.db (w.discardKeys height) :=
  ⟨rfl, rfl, fun _ _ => heights_ite_drop, fun _ => heights_ite_drop⟩

theorem keepsHolders_discardBlocks (targetHeight n : ℕ) (w : LevelDBWriter) :
    KeepsHolders w.db (discardBlocks targetHeight n w).db := by
  induction n generalizing w with
  | zero => exact .refl _
  | succ n ih =>
    exact (keepsHolders_discardKeys w (targetHeight + n + 1)).trans
      (ih (w.discardBlock (targetHeight + n + 1)))

theorem keepsHolders_doRollback (w : LevelDBWriter) (id : BlockId) :
    KeepsHolders w.db (w.doRollback id).db := by
  rw [LevelDBWriter.doRollback]
  cases w.db.heightOf id with
  | none => exact .refl _
  | some targetHeight => exact keepsHolders_discardBlocks _ _ w

omit [Crypto] [PBTransactionSerializer] in
/-- The numbers are right for other keys that keep the holders. -/
theorem Numbered.keep {x : NumberedWriter} {names : List Address} (h : x.Numbered names)
    {w : LevelDBWriter} (hw : KeepsHolders x.writer.db w.db) :
    ({ x with writer := w } : NumberedWriter).Numbered names where
  nodup := h.nodup
  last := h.last
  addressId := h.addressId
  idToAddress := h.idToAddress
  known a := by
    rw [← h.known]
    change a ∈ w.db.addressId ↔ _
    rw [hw.addressId]
  listed a hne := by
    change w.db.assetList a ≠ ∅ at hne
    rw [hw.assetList] at hne
    exact h.listed a hne
  assets id a hname := by
    change _ ∧ ∀ asset, _ ↔ asset ∈ w.db.assetList a
    rw [hw.assetList]
    exact h.assets id a hname
  unnumbered := h.unnumbered
  holders := h.holders
  balances a asset hne := by
    change asset ∈ w.db.assetList a
    rw [hw.assetList]
    exact h.balances a asset (hw.balances a asset hne)
  waves a hne := h.waves a (hw.waves a hne)

variable [Ride] [BlockSerializer] {x x' : NumberedWriter} {names : List Address} {e : Event}

/-- **One event**: more addresses may get numbers, after those that have one. -/
theorem Numbered.leads (h : x.Numbered names) (hleads : x.Leads x' e) :
    ∃ new, x'.Numbered (names ++ new) := by
  have hkeep : ∀ {w : LevelDBWriter}, KeepsHolders x.writer.db w.db →
      { x with writer := w } = x' → ∃ new, x'.Numbered (names ++ new) := by
    rintro w hw rfl
    refine ⟨[], ?_⟩
    rw [List.append_nil]
    exact h.keep hw
  cases e with
  | append d carry reward block =>
    obtain ⟨-, o, rfl⟩ := hleads
    exact ⟨_, h.append o carry reward block⟩
  | rollbackTo id =>
    obtain ⟨w, hw, hx⟩ := hleads
    refine hkeep ?_ hx
    rw [rollbackTo_eq_ok hw]
    exact keepsHolders_doRollback x.writer id
  | load key =>
    obtain ⟨w, rfl, hx⟩ := hleads
    refine hkeep ?_ hx
    rw [db_load]
    exact .refl _
  | evict key =>
    obtain ⟨w, rfl, hx⟩ := hleads
    refine hkeep ?_ hx
    rw [db_evict]
    exact .refl _
  | restart =>
    obtain ⟨w, rfl, hx⟩ := hleads
    exact hkeep (w := x.writer.restart) (KeepsHolders.refl _) hx

variable {Q : LevelDBWriter → Event → Prop} {settings : BlockchainSettings}
  {dbSettings : DBSettings}

theorem Numbered.runs (h : x.Numbered names) (hruns : Runs Q x x') :
    ∃ new, x'.Numbered (names ++ new) := by
  induction hruns with
  | refl => exact ⟨[], by rwa [List.append_nil]⟩
  | step _ _ hleads ih =>
    obtain ⟨new, hnew⟩ := ih
    obtain ⟨newer, hnewer⟩ := hnew.leads hleads
    exact ⟨new ++ newer, by rwa [← List.append_assoc]⟩

theorem Reachable.numbered (h : Reachable Q settings dbSettings x) :
    ∃ names, x.Numbered names :=
  (numbered_empty settings dbSettings).runs h

theorem Leads.writer (h : x.Leads x' e) : e.Leads x.writer x'.writer := by
  cases e with
  | append d carry reward block =>
    obtain ⟨hblock, o, rfl⟩ := h
    exact ⟨hblock, rfl⟩
  | _ =>
    obtain ⟨w, hw, rfl⟩ := h
    exact hw

theorem Reachable.writer (h : Reachable Q settings dbSettings x) :
    LevelDBWriter.Reachable Q settings dbSettings x.writer := by
  induction h with
  | refl => exact .empty
  | step _ hQ hleads ih => exact .step ih hQ hleads.writer

/-- Its sets can always be gone through in some order. -/
theorem exists_leads {w : LevelDBWriter} (h : e.Leads x.writer w) :
    ∃ y, x.Leads y e ∧ y.writer = w := by
  cases e with
  | append d carry reward block =>
    obtain ⟨hblock, rfl⟩ := h
    let o : Orders x d :=
      { newAddresses := ⟨_, Finset.nodup_toList _, fun _ => Finset.mem_toList⟩
        updatedBalances := fun _ => ⟨_, Finset.nodup_toList _, fun _ => Finset.mem_toList⟩
        newAddressesForAssets := fun _ => ⟨_, Finset.nodup_toList _, fun _ => Finset.mem_toList⟩ }
    exact ⟨x.append d o carry reward block, ⟨hblock, o, rfl⟩, rfl⟩
  | _ => exact ⟨{ x with writer := w }, ⟨w, h, rfl⟩, rfl⟩

theorem exists_reachable {w : LevelDBWriter} (h : LevelDBWriter.Reachable Q settings dbSettings w) :
    ∃ y, Reachable Q settings dbSettings y ∧ y.writer = w := by
  induction h with
  | empty => exact ⟨_, .refl, rfl⟩
  | step _ hQ hleads ih =>
    obtain ⟨y, hy, rfl⟩ := ih
    obtain ⟨z, hz, rfl⟩ := exists_leads hleads
    exact ⟨z, .step hy hQ hz, rfl⟩

/-! ## 5. The numbers of the addresses -/

/-- In every run, rollbacks included, an address and its number determine each other, the
numbers in use are those up to the last one, and a number once given is never given to another
address. -/
theorem addressId_iff {Q' : LevelDBWriter → Event → Prop} (h : Reachable Q settings dbSettings x)
    (hruns : Runs Q' x x') :
    (∀ a id, x.addressId a = some id ↔ x.idToAddress id = some a) ∧
      (∀ id, (x.idToAddress id).isSome = true ↔ 1 ≤ id ∧ id ≤ x.lastAddressId) ∧
      (∀ a, (x.addressId a).isSome = true ↔ a ∈ x.writer.db.addressId) ∧
      ∀ a id, x.addressId a = some id → x'.addressId a = some id := by
  obtain ⟨names, hnames⟩ := h.numbered
  obtain ⟨new, hnew⟩ := hnames.runs hruns
  refine ⟨?_, ?_, ?_, ?_⟩
  · intro a id
    rw [hnames.addressId, hnames.idToAddress, Numbering.number_eq_some_iff hnames.nodup]
  · intro id
    rw [hnames.idToAddress, hnames.last, Numbering.name_isSome_iff]
  · intro a
    rw [hnames.addressId, Numbering.number_isSome_iff, hnames.known]
  · intro a id hid
    rw [hnames.addressId] at hid
    rw [hnew.addressId, Numbering.number_append_of_some hid]

/-! ## 6. What a height left -/

/-- No rollback goes below a height. -/
def NotBelow (height : ℕ) (w : LevelDBWriter) : Event → Prop
  | .rollbackTo id => ∀ target, w.db.heightOf id = some target → height ≤ target
  | _ => True

/-- A run without a rollback goes below no height. -/
theorem exists_runs {w : LevelDBWriter} (height : ℕ) (h : Grows Q x.writer w) :
    ∃ y, Runs (fun w e => Q w e ∧ NotBelow height w e) x y ∧ y.writer = w := by
  induction h with
  | refl => exact ⟨x, .refl, rfl⟩
  | @step _ _ e _ hQ hno hleads ih =>
    obtain ⟨y, hy, rfl⟩ := ih
    obtain ⟨z, hz, rfl⟩ := exists_leads hleads
    refine ⟨z, .step hy ⟨hQ, ?_⟩ hz, rfl⟩
    cases e with
    | rollbackTo id => exact absurd rfl (hno id)
    | _ => trivial

/-- **One event** leaves what a value was at a height, as long as the height may be asked
for. -/
theorem asOf_leads {υ β : Type} {K : Kept υ β} (hK : K.Lawful Q) {w w' : LevelDBWriter} {k : ℕ}
    (hheight : w.db.height = w.height) (h : K.Holds w w.height) (hQ : Q w e)
    (hk : k ≤ w.height) (hbelow : NotBelow k w e) (hleads : e.Leads w w') :
    k ≤ w'.height ∧ w.db.safeRollbackHeight ≤ w'.db.safeRollbackHeight ∧
      (w'.db.safeRollbackHeight ≤ k → (K.history w'.db).asOf k = (K.history w.db).asOf k) := by
  cases e with
  | append d carry reward block =>
    obtain ⟨hblock, rfl⟩ := hleads
    exact ⟨Nat.le_succ_of_le hk, Nat.le_max_left _ _, Kept.asOf_append hK h hQ hblock hk⟩
  | rollbackTo id =>
    rw [safeRollbackHeight_rollbackTo hleads, rollbackTo_eq_ok hleads]
    refine ⟨?_, le_refl _, ?_⟩
    · change k ≤ (w.doRollback id).db.height
      rw [LevelDBWriter.doRollback]
      cases htarget : w.db.heightOf id with
      | none => exact hk.trans hheight.symm.le
      | some target =>
        dsimp only
        by_cases hle : target ≤ w.height
        · rw [height_discardBlocks target w _ (by omega)]
          exact hbelow target htarget
        · have hzero : w.height - target = 0 := by omega
          rw [hzero]
          exact hk.trans hheight.symm.le
    · intro _
      change (K.history (w.doRollback id).db).asOf k = _
      rw [LevelDBWriter.doRollback]
      cases htarget : w.db.heightOf id with
      | none => rfl
      | some target => exact Kept.asOf_discardBlocks hK (hbelow target htarget) w _
  | load key =>
    cases hleads
    rw [db_load, height_load]
    exact ⟨hk, le_refl _, fun _ => rfl⟩
  | evict key =>
    cases hleads
    rw [db_evict, height_evict]
    exact ⟨hk, le_refl _, fun _ => rfl⟩
  | restart =>
    cases hleads
    exact ⟨hk.trans hheight.symm.le, le_refl _, fun _ => rfl⟩

/-- **A whole run** that does not go below a height leaves what a value was there. -/
theorem asOf_runs {υ β : Type} {K : Kept υ β} (hK : K.Lawful Q)
    (h : Reachable Q settings dbSettings x)
    (hruns : Runs (fun w e => Q w e ∧ NotBelow x.writer.height w e) x x') :
    x'.writer.db.safeRollbackHeight ≤ x.writer.height →
      (K.history x'.writer.db).asOf x.writer.height = (K.history x.writer.db).latest := by
  obtain ⟨hheight, hholds⟩ := Kept.reachable_holds hK h.writer
  suffices hall : (x'.writer.db.height = x'.writer.height ∧ K.Holds x'.writer x'.writer.height) ∧
      x.writer.height ≤ x'.writer.height ∧
      (x'.writer.db.safeRollbackHeight ≤ x.writer.height →
        (K.history x'.writer.db).asOf x.writer.height =
          (K.history x.writer.db).asOf x.writer.height) by
    intro hsafe
    rw [hall.2.2 hsafe, hholds.tracked.upTo.latest_eq_asOf]
  induction hruns with
  | refl => exact ⟨⟨hheight, hholds⟩, le_refl _, fun _ => rfl⟩
  | step _ hQ hleads ih =>
    obtain ⟨⟨hy, hyholds⟩, hle, hsame⟩ := ih
    obtain ⟨hle', hmono, hsame'⟩ := asOf_leads hK hy hyholds hQ.1 hle hQ.2 hleads.writer
    refine ⟨hyholds.leads hK hy hQ.1 hleads.writer, hle', ?_⟩
    intro hsafe
    exact (hsame' hsafe).trans (hsame (hmono.trans hsafe))

end Keep

/-! ## 7. Distributions -/

section
variable (x : NumberedWriter)

/-- The address of a number and its balance at a height, if it has some. -/
def holding (history : Address → History Long) (height id : ℕ) : Option (Address × Long) := do
  let a ← x.idToAddress id
  let actualHeight ← ((history a).heights.filter fun h => !decide (height < h)).head?
  let balance := ((history a).value actualHeight).getD 0
  if 0 < balance then some (a, balance) else none

def assetDistribution (asset : IssuedAsset) : FiniteMap Address Long :=
  .ofList ((x.addressesForAsset asset).all.filterMap
    (x.holding (x.writer.db.assetBalance · asset) x.writer.height))

def takeAfter (s : List ℕ) : Option ℕ → List ℕ
  | none => s
  | some v => (s.dropWhile fun id => id ≠ v).drop 1

def addressIds (asset : IssuedAsset) (fromAddress : Option Address) : List ℕ :=
  takeAfter (x.addressesForAsset asset).all (fromAddress.bind x.addressId)

def distribution (asset : IssuedAsset) (height : ℕ) (fromAddress : Option Address) :
    List (Address × Long) :=
  (x.addressIds asset fromAddress).filterMap (x.holding (x.writer.db.assetBalance · asset) height)

/-- `AssetDistributionPage`: the entries of its map in the order they are found. -/
structure AssetDistributionPage where
  hasNext : Bool
  lastItem : Option Address
  items : List (Address × Long)

def assetDistributionAtHeight (asset : IssuedAsset) (height count : ℕ)
    (fromAddress : Option Address) : Validation AssetDistributionPage :=
  let canGetAfterHeight := x.writer.db.safeRollbackHeight
  let dst := (x.distribution asset height fromAddress).take (count + 1)
  let hasNext := decide (count < dst.length)
  let items := if hasNext then dst.dropLast else dst
  if canGetAfterHeight < height then .ok ⟨hasNext, items.getLast?.map Prod.fst, items⟩
  else
    .fail (.GenericError
      s!"Cannot get asset distribution at height less than {canGetAfterHeight + 1}")

def wavesDistribution (height : ℕ) : Validation (FiniteMap Address Long) :=
  let canGetAfterHeight := x.writer.db.safeRollbackHeight
  if canGetAfterHeight < height then
    .ok (.ofList (x.addressesForWaves.all.filterMap (x.holding x.writer.db.wavesBalance height)))
  else
    .fail (.GenericError
      s!"Cannot get waves distribution at height less than {canGetAfterHeight + 1}")

/-- All pages of a size from an address on: each is asked for with the last address of the one
before, as long as there is a next one. -/
inductive PagesRead (asset : IssuedAsset) (height count : ℕ) :
    Option Address → List (Address × Long) → Prop
  | last {fromAddress : Option Address} {page : AssetDistributionPage} :
    x.assetDistributionAtHeight asset height count fromAddress = .ok page →
    page.hasNext = false → PagesRead asset height count fromAddress page.items
  | next {fromAddress : Option Address} {page : AssetDistributionPage} {a : Address}
      {rest : List (Address × Long)} :
    x.assetDistributionAtHeight asset height count fromAddress = .ok page →
    page.hasNext = true → page.lastItem = some a →
    PagesRead asset height count (some a) rest →
    PagesRead asset height count fromAddress (page.items ++ rest)

end

variable {x : NumberedWriter} {names : List Address}

theorem holding_eq_some {history : Address → History Long} {height id : ℕ} {a : Address}
    {v : Long} : x.holding history height id = some (a, v) ↔
      x.idToAddress id = some a ∧ 0 < v ∧ (history a).asOf height = some v := by
  have hfind : ∀ s : History Long, (s.heights.filter fun h => !decide (height < h)).head? =
      s.heights.find? (· ≤ height) := by
    intro s
    rw [List.head?_filter]
    congr 1
    funext h
    rw [Bool.eq_iff_iff]
    simp
  unfold holding History.asOf
  simp only [hfind, Option.bind_eq_bind, Option.bind_eq_some_iff]
  constructor
  · rintro ⟨b, hid, actualHeight, hheight, hbalance⟩
    split at hbalance
    · rename_i hpos
      cases hbalance
      refine ⟨hid, hpos, actualHeight, hheight, ?_⟩
      -- a missing value is read as zero
      cases hv : (history a).value actualHeight with
      | none =>
        rw [hv] at hpos
        exact absurd hpos (by decide)
      | some v => rfl
    · cases hbalance
  · rintro ⟨hid, hpos, actualHeight, hheight, hv⟩
    exact ⟨a, hid, actualHeight, hheight, by simp [hv, hpos]⟩

/-- A listing goes through the holders with a balance, each once. -/
theorem Numbered.mem_distribution (h : x.Numbered names) {asset : IssuedAsset} {height : ℕ}
    {a : Address} {v : Long} : (a, v) ∈ x.distribution asset height none ↔
      0 < v ∧ (x.writer.db.assetBalance a asset).asOf height = some v := by
  unfold distribution addressIds takeAfter
  simp only [Option.bind_none, List.mem_filterMap, holding_eq_some]
  constructor
  · rintro ⟨id, -, -, hv⟩
    exact hv
  · rintro ⟨hpos, hv⟩
    -- the balance is written, so the address is listed
    have hwritten : (x.writer.db.assetBalance a asset).heights ≠ [] := by
      intro hnil
      rw [History.asOf, hnil] at hv
      cases hv
    have hlisted := h.balances a asset hwritten
    have ha := h.listed a (Finset.ne_empty_of_mem hlisted)
    obtain ⟨id, hid⟩ := Option.isSome_iff_exists.mp (Numbering.number_isSome_iff.mpr ha)
    rw [Numbering.number_eq_some_iff h.nodup] at hid
    refine ⟨id, ?_, (h.idToAddress id).trans hid, hpos, hv⟩
    rw [(h.holders asset).2, (h.assets id a hid).2]
    exact hlisted

theorem Numbered.addressId_of_holding (h : x.Numbered names) {history : Address → History Long}
    {height id : ℕ} {e : Address × Long} (he : x.holding history height id = some e) :
    x.addressId e.1 = some id := by
  rw [h.addressId, Numbering.number_eq_some_iff h.nodup, ← h.idToAddress]
  exact (holding_eq_some.mp he).1

theorem Numbered.nodup_distribution (h : x.Numbered names) (asset : IssuedAsset) (height : ℕ) :
    ((x.distribution asset height none).map Prod.fst).Nodup := by
  unfold distribution addressIds takeAfter
  rw [Option.bind_none, List.map_filterMap]
  refine (h.holders asset).1.filterMap ?_
  intro id id' a ha ha'
  simp only [Option.mem_def, Option.map_eq_some_iff] at ha ha'
  obtain ⟨e, he, rfl⟩ := ha
  obtain ⟨e', he', hsame⟩ := ha'
  have hid := h.addressId_of_holding he
  rw [← hsame, h.addressId_of_holding he'] at hid
  exact (Option.some.inj hid).symm

/-- From an item of the listing on, what follows it is listed. -/
theorem Numbered.distribution_after (h : x.Numbered names) {asset : IssuedAsset} {height : ℕ}
    {done rest : List (Address × Long)} {e : Address × Long}
    (hsplit : x.distribution asset height none = done ++ e :: rest) :
    x.distribution asset height (some e.1) = rest := by
  unfold distribution addressIds at hsplit ⊢
  rw [Option.bind_none, takeAfter] at hsplit
  have hmem : e ∈ (x.addressesForAsset asset).all.filterMap
      (x.holding (x.writer.db.assetBalance · asset) height) := by
    rw [hsplit]
    simp
  obtain ⟨id, -, he⟩ := List.mem_filterMap.mp hmem
  have hid := h.addressId_of_holding he
  have hkey : ∀ id e, x.holding (x.writer.db.assetBalance · asset) height id = some e →
      (x.addressId e.1).getD 0 = id := by
    intro id e he
    rw [h.addressId_of_holding he]
    rfl
  have hnodup : ((x.addressesForAsset asset).all.map fun id => id).Nodup := by
    rw [List.map_id']
    exact (h.holders asset).1
  have hcut := Paging.filterMap_after hkey hnodup hsplit
  rw [hid] at hcut
  rw [Option.bind_some, hid]
  exact hcut

/-- **The pages** from an item on give what follows it. -/
theorem Numbered.pagesRead (h : x.Numbered names) {asset : IssuedAsset} {height count : ℕ}
    (hsafe : x.writer.db.safeRollbackHeight < height) (hcount : 0 < count) (n : ℕ) :
    ∀ (done rest : List (Address × Long)) (fromAddress : Option Address), rest.length ≤ n →
      x.distribution asset height none = done ++ rest →
      x.distribution asset height fromAddress = rest →
      x.PagesRead asset height count fromAddress rest := by
  induction n with
  | zero =>
    intro done rest fromAddress hn _ hfrom
    obtain rfl : rest = [] := List.length_eq_zero_iff.mp (by omega)
    have hpage : x.assetDistributionAtHeight asset height count fromAddress =
        .ok ⟨false, none, []⟩ := by
      simp [assetDistributionAtHeight, hfrom, hsafe]
    exact .last hpage rfl
  | succ n ih =>
    intro done rest fromAddress hn hsplit hfrom
    by_cases hnext : count < rest.length
    · -- a full page, and what follows its last item
      have hitems : (rest.take (count + 1)).dropLast = rest.take count := by
        rw [List.dropLast_eq_take, List.length_take, List.take_take]
        congr 1
        omega
      obtain ⟨front, e, hpage⟩ : ∃ front e, rest.take count = front ++ [e] := by
        have hne : rest.take count ≠ [] := by
          apply List.ne_nil_of_length_pos
          rw [List.length_take]
          omega
        exact ⟨_, _, (List.dropLast_concat_getLast hne).symm⟩
      have hasked : x.assetDistributionAtHeight asset height count fromAddress =
          .ok ⟨true, some e.1, rest.take count⟩ := by
        have hlength : count < (rest.take (count + 1)).length := by
          rw [List.length_take]
          omega
        simp only [assetDistributionAtHeight, hfrom, hlength, hsafe, hitems, hpage, decide_true,
          if_true, List.getLast?_concat, Option.map_some]
      have hsplit' : x.distribution asset height none =
          (done ++ front) ++ e :: rest.drop count := by
        conv_lhs => rw [hsplit, ← List.take_append_drop count rest, hpage]
        simp
      have hrest := ih ((done ++ front) ++ [e]) (rest.drop count) (some e.1)
        (by rw [List.length_drop]; omega) (by rw [hsplit']; simp)
        (h.distribution_after hsplit')
      have hread := PagesRead.next hasked rfl rfl hrest
      rwa [List.take_append_drop] at hread
    · have htake : rest.take (count + 1) = rest := List.take_of_length_le (by omega)
      have hasked : x.assetDistributionAtHeight asset height count fromAddress =
          .ok ⟨false, rest.getLast?.map Prod.fst, rest⟩ := by
        simp [assetDistributionAtHeight, hfrom, hsafe, htake, hnext]
      exact .last hasked rfl

/-- A reading gives one list. -/
theorem PagesRead.unique {asset : IssuedAsset} {height count : ℕ} {fromAddress : Option Address}
    {items items' : List (Address × Long)} (h : x.PagesRead asset height count fromAddress items)
    (h' : x.PagesRead asset height count fromAddress items') : items = items' := by
  induction h generalizing items' with
  | last hpage hend =>
    cases h' with
    | last hpage' _ =>
      rw [hpage] at hpage'
      cases hpage'
      rfl
    | next hpage' hnext _ _ =>
      rw [hpage] at hpage'
      cases hpage'
      rw [hend] at hnext
      cases hnext
  | next hpage hnext hlast _ ih =>
    cases h' with
    | last hpage' hend =>
      rw [hpage] at hpage'
      cases hpage'
      rw [hend] at hnext
      cases hnext
    | next hpage' _ hlast' hrest =>
      rw [hpage] at hpage'
      cases hpage'
      rw [hlast] at hlast'
      cases hlast'
      rw [ih hrest]

/-! ## 8. What a distribution says -/

section
variable [Crypto] [PBTransactionSerializer] [Ride] [BlockSerializer] {x' : NumberedWriter}
  {settings : BlockchainSettings} {dbSettings : DBSettings}

/-- The blocks of a run are such that a rollback finds the balances, and none goes below a
height. -/
def KeepsHeight (height : ℕ) (w : LevelDBWriter) (e : Event) : Prop :=
  BalancesIndexed w e ∧ NotBelow height w e

/-- What a history says of a height, after any run that does not go below it, is the balance
the ledger had then. -/
theorem asOf_balance (h : Reachable BalancesIndexed settings dbSettings x)
    (hruns : Runs (KeepsHeight x.writer.height) x x')
    (hsafe : x'.writer.db.safeRollbackHeight ≤ x.writer.height) (a : Address) (asset : Asset) :
    (((keptBalance a asset).history x'.writer.db).asOf x.writer.height).getD 0 =
      x.writer.balance a asset := by
  have hK := lawful_keptBalance a asset
  rw [asOf_runs hK h hruns hsafe]
  have hanswer := (Kept.reachable_holds hK h.writer).2.answer_eq
  cases asset with
  | Waves => exact hanswer.symm
  | issued asset => exact hanswer.symm

omit [Crypto] [PBTransactionSerializer] [Ride] [BlockSerializer] in
/-- A positive balance at a height is a value of the history. -/
theorem asOf_eq_some_iff {s : History Long} {k : ℕ} {v balance : Long}
    (h : (s.asOf k).getD 0 = balance) : 0 < v ∧ s.asOf k = some v ↔ 0 < v ∧ balance = v := by
  refine and_congr_right fun hpos => ?_
  rw [← h]
  cases hv : s.asOf k with
  | none =>
    simp only [reduceCtorEq, Option.getD_none, false_iff]
    rintro rfl
    exact absurd hpos (by decide)
  | some v' => simp

omit [Crypto] [PBTransactionSerializer] [Ride] [BlockSerializer] in
/-- A map of a list whose entries agree binds what the list has. -/
theorem get?_ofList_iff {l : List (Address × Long)} {balance : Address → Long}
    (h : ∀ a v, (a, v) ∈ l ↔ 0 < v ∧ balance a = v) (a : Address) (v : Long) :
    (FiniteMap.ofList l).get? a = some v ↔ 0 < v ∧ balance a = v := by
  constructor
  · intro hget
    exact (h a v).mp (FiniteMap.mem_of_get?_ofList hget)
  · intro hv
    have hmem : a ∈ l.map Prod.fst := List.mem_map.mpr ⟨(a, v), (h a v).mpr hv, rfl⟩
    obtain ⟨v', hv', hget⟩ := FiniteMap.exists_get?_ofList hmem
    rw [hget, ← ((h a v').mp hv').2, hv.2]

end

/-! ## 9. The holders of a token

Genesis, and the block that issues Alice's token. -/

section
open Devnet

local instance holdersCrypto : Crypto := burnAnswers.crypto
local instance holdersSerializer : PBTransactionSerializer := pbTransactionSerializer
local instance holdersBlocks : BlockSerializer := burnAnswers.blockSerializer
local instance holdersRide : Ride := burnAnswers.ride

theorem reachable_atGenesis :
    LevelDBWriter.Reachable BalancesIndexed (settings []) dbSettings atGenesis := by
  have hids : IdsDistinct genesisBlock.transactionData := burn_run.2.2.2.2.2
  apply LevelDBWriter.Reachable.empty.grows
  apply grows_appendBlock afterGenesis_eq
  intro r hr
  exact balancesIndexed_of_indexed hids burn_run.2.1.1 hr

theorem grows_atToken : Grows BalancesIndexed atGenesis atToken := by
  have hids : IdsDistinct tokenBlock.transactionData := List.pairwise_singleton _ _
  apply grows_appendBlock afterToken_eq
  intro r hr
  exact balancesIndexed_of_indexed hids burn_run.2.1.2 hr

/-- Both blocks, with the numbers. -/
theorem exists_atToken : ∃ x y : NumberedWriter, (x.writer = atGenesis ∧ y.writer = atToken) ∧
    Reachable BalancesIndexed (settings []) dbSettings x ∧
    Runs (KeepsHeight x.writer.height) x y := by
  obtain ⟨x, hx, hwriter⟩ := exists_reachable reachable_atGenesis
  obtain ⟨y, hy, hywriter⟩ := exists_runs (x := x) x.writer.height (hwriter ▸ grows_atToken)
  exact ⟨x, y, ⟨hwriter, hywriter⟩, hx, hy⟩

theorem safeRollbackHeight_atToken : atToken.db.safeRollbackHeight < atGenesis.height ∧
    atGenesis.height < atToken.height := by
  decide +kernel

theorem addressId_iff_atToken : ∃ x y : NumberedWriter,
    (x.writer = atGenesis ∧ y.writer = atToken) ∧
    ∀ a id, x.addressId a = some id → y.addressId a = some id := by
  obtain ⟨x, y, hwriters, hx, hy⟩ := exists_atToken
  exact ⟨x, y, hwriters, (addressId_iff hx hy).2.2.2⟩

end

end NumberedWriter

end WavesNode
