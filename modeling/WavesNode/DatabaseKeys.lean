/-
The keys of the database as bytes.

A key is a number of its family, two bytes, and what its values are kept for: heights and
numbers in a fixed width, identifiers and names as they are, and the number of an account in
as few bytes as hold it. In the key of an account's data the number of the account and the
name of the entry stand next to each other, and nothing says where the one ends: an entry of
one account can have the key of an entry of another.

All other keys differ in their bytes if they differ at all (`keyBytes_eq_iff`). So the
database is the store of its keys exactly as long as no two entries in use have one key
(`readWrite_agree_iff`).
-/
import WavesNode.BigInteger
import WavesNode.ByteBufferOps
import WavesNode.EncodedStore
import WavesNode.Utf8

set_option autoImplicit false

namespace WavesNode

/-! ## 1. Text

No character begins within the bytes of another, so what a text ends with in its bytes it ends
with in its characters. -/

theorem charBytes_eq_cons (c : Char) : ∃ b rest, charBytes c = b :: rest ∧
    isContinuation b = false ∧ ∀ x ∈ rest, isContinuation x = true := by
  have hvalid : c.val.toNat < 0xd800 ∨ 0xdfff < c.val.toNat ∧ c.val.toNat < 0x110000 := c.valid
  have hcont : ∀ n, isContinuation (UInt8.ofNat (n % 0x40 + 0x80)).toInt8 = true := by
    intro n
    rw [isContinuation, toNat_byte (by omega)]
    simp
    omega
  have hlead : ∀ n, n < 256 → (n < 128 ∨ 192 ≤ n) →
      isContinuation (UInt8.ofNat n).toInt8 = false := by
    intro n hn hsmall
    rw [isContinuation, toNat_byte hn]
    simp
    omega
  generalize hv : c.val.toNat = v at hvalid
  unfold charBytes String.utf8EncodeChar
  rw [hv]
  dsimp only
  by_cases h1 : v ≤ 0x7f
  · rw [if_pos h1]
    exact ⟨_, [], rfl, hlead v (by omega) (by omega), by simp⟩
  · rw [if_neg h1]
    by_cases h2 : v ≤ 0x7ff
    · rw [if_pos h2]
      refine ⟨_, _, rfl, hlead _ (by omega) (by omega), ?_⟩
      simp only [List.map_cons, List.map_nil, List.forall_mem_cons, hcont, List.not_mem_nil,
        IsEmpty.forall_iff, implies_true, and_self]
    · rw [if_neg h2]
      by_cases h3 : v ≤ 0xffff
      · rw [if_pos h3]
        refine ⟨_, _, rfl, hlead _ (by omega) (by omega), ?_⟩
        simp only [List.map_cons, List.map_nil, List.forall_mem_cons, hcont, List.not_mem_nil,
          IsEmpty.forall_iff, implies_true, and_self]
      · rw [if_neg h3]
        refine ⟨_, _, rfl, hlead _ (by omega) (by omega), ?_⟩
        simp only [List.map_cons, List.map_nil, List.forall_mem_cons, hcont, List.not_mem_nil,
          IsEmpty.forall_iff, implies_true, and_self]

theorem utf8Bytes_append (s t : String) : utf8Bytes (s ++ t) = utf8Bytes s ++ utf8Bytes t := by
  rw [utf8Bytes_eq, utf8Bytes_eq, utf8Bytes_eq, String.toList_append, List.flatMap_append]

theorem utf8Bytes_injective : Function.Injective utf8Bytes := by
  intro s t h
  rw [← decodeUtf8_utf8Bytes s, h, decodeUtf8_utf8Bytes]

/-- Where the bytes of a text end with those of another, the text ends with it. -/
theorem exists_of_flatMap_charBytes {cs cs' : List Char} {w : ByteStr}
    (h : cs.flatMap charBytes = w ++ cs'.flatMap charBytes) :
    ∃ ds, cs = ds ++ cs' ∧ w = ds.flatMap charBytes := by
  induction cs generalizing w with
  | nil =>
    obtain ⟨hw, hcs'⟩ := List.append_eq_nil_iff.mp h.symm
    refine ⟨[], ?_, hw⟩
    cases cs' with
    | nil => rfl
    | cons c cs' => exact absurd (List.append_eq_nil_iff.mp hcs').1 (charBytes_ne_nil c)
  | cons c cs ih =>
    rw [List.flatMap_cons] at h
    obtain ⟨v, hw, hcs⟩ | ⟨v, hc, hcs'⟩ := List.append_eq_append_iff.mp h
    · -- the other begins behind the first character
      obtain ⟨ds, rfl, rfl⟩ := ih hcs
      exact ⟨c :: ds, rfl, hw⟩
    · cases v with
      | nil =>
        -- the other begins right behind it
        obtain ⟨ds, rfl, hds⟩ := ih (w := []) hcs'.symm
        refine ⟨c :: ds, rfl, ?_⟩
        rw [List.append_nil] at hc
        rw [List.flatMap_cons, ← hds, List.append_nil, hc]
      | cons y v =>
        cases w with
        | nil =>
          -- the other is the whole text
          have hsame : String.ofList (c :: cs) = String.ofList cs' := by
            apply utf8Bytes_injective
            rw [utf8Bytes_eq, utf8Bytes_eq, String.toList_ofList, String.toList_ofList,
              List.flatMap_cons, h, List.nil_append]
          exact ⟨[], String.ofList_injective hsame, rfl⟩
        | cons x w =>
          -- no character begins within another
          obtain ⟨b, rest, hchar, -, hrest⟩ := charBytes_eq_cons c
          rw [hchar, List.cons_append, List.cons.injEq] at hc
          have hy : isContinuation y = true := hrest y (by simp [hc.2])
          cases cs' with
          | nil => cases hcs'
          | cons c' cs' =>
            obtain ⟨b', rest', hchar', hlead', -⟩ := charBytes_eq_cons c'
            rw [List.flatMap_cons, hchar', List.cons_append, List.cons_append,
              List.cons.injEq] at hcs'
            rw [hcs'.1, hy] at hlead'
            cases hlead'

/-- The same for strings. -/
theorem exists_of_utf8Bytes_eq_append {s s' : String} {w : ByteStr}
    (h : utf8Bytes s = w ++ utf8Bytes s') : ∃ t, s = t ++ s' ∧ w = utf8Bytes t := by
  rw [utf8Bytes_eq, utf8Bytes_eq] at h
  obtain ⟨ds, hchars, hw⟩ := exists_of_flatMap_charBytes h
  refine ⟨String.ofList ds, ?_, ?_⟩
  · apply String.toList_injective
    rw [hchars, String.toList_append, String.toList_ofList]
  · rw [hw, utf8Bytes_eq, String.toList_ofList]

theorem utf8Bytes_eq_nil_iff {s : String} : utf8Bytes s = [] ↔ s = "" := by
  have hempty : utf8Bytes "" = [] := by
    rw [utf8Bytes_eq]
    rfl
  rw [← hempty]
  exact utf8Bytes_injective.eq_iff

namespace Database

/-! ## 2. Shapes

What follows the number of a family, as the helpers lay it out. -/

inductive Shape
  | const | height | bytes | addr | hBytes | hAddr | hNum | ofAlias | ofAddress | addrAsset
  | hAddrAsset | addrData | hAddrData | addrChunk
  deriving DecidableEq

namespace Shape

/-- What a key of the shape is made of. -/
abbrev Args : Shape → Type
  | const => Unit
  | height => ℕ
  | bytes => ByteStr
  | addr => ℕ
  | hBytes => ℕ × ByteStr
  | hAddr => ℕ × ℕ
  | hNum => ℕ × ℕ
  | ofAlias => Alias
  | ofAddress => Address
  | addrAsset => ℕ × IssuedAsset
  | hAddrAsset => ℕ × ℕ × IssuedAsset
  | addrData => ℕ × String
  | hAddrData => ℕ × ℕ × String
  | addrChunk => ℕ × ℕ

/-- `addressId.toByteArray`. -/
def idBytes (addressId : ℕ) : ByteStr := BigInteger.toByteArray addressId

def body : (s : Shape) → s.Args → ByteStr
  | const, _ => []
  | height, h => Ints.toByteArray h
  | bytes, b => b
  | addr, id => idBytes id
  | hBytes, a => Ints.toByteArray a.1 ++ a.2
  | hAddr, a => Ints.toByteArray a.1 ++ idBytes a.2
  | hNum, a => Ints.toByteArray a.1 ++ Shorts.toByteArray a.2
  | ofAlias, a => a.bytes
  | ofAddress, a => a.bytes
  | addrAsset, a => idBytes a.1 ++ a.2.id
  | hAddrAsset, a => Ints.toByteArray a.1 ++ (idBytes a.2.1 ++ a.2.2.id)
  | addrData, a => idBytes a.1 ++ utf8Bytes a.2
  | hAddrData, a => Ints.toByteArray a.1 ++ (idBytes a.2.1 ++ utf8Bytes a.2.2)
  | addrChunk, a => idBytes a.1 ++ Ints.toByteArray a.2

/-- Heights and sequence numbers are integers of the machine, numbers of transactions are
short ones, accounts are numbered from one on, and assets have the digest of their
transaction. -/
def InRange : (s : Shape) → s.Args → Prop
  | height, h => h < 2 ^ 31
  | hBytes, a => a.1 < 2 ^ 31
  | hAddr, a => a.1 < 2 ^ 31
  | hNum, a => a.1 < 2 ^ 31 ∧ a.2 < 2 ^ 15
  | addrAsset, a => a.2.id.length = DigestLength
  | hAddrAsset, a => a.1 < 2 ^ 31 ∧ a.2.2.id.length = DigestLength
  | addrData, a => 0 < a.1
  | hAddrData, a => a.1 < 2 ^ 31 ∧ 0 < a.2.1
  | addrChunk, a => a.2 < 2 ^ 31
  | const, _ | bytes, _ | addr, _ | ofAlias, _ | ofAddress, _ => True

instance : (s : Shape) → DecidableEq s.Args
  | const => inferInstanceAs (DecidableEq Unit)
  | height | addr => inferInstanceAs (DecidableEq ℕ)
  | bytes => inferInstanceAs (DecidableEq ByteStr)
  | hBytes => inferInstanceAs (DecidableEq (ℕ × ByteStr))
  | hAddr | hNum | addrChunk => inferInstanceAs (DecidableEq (ℕ × ℕ))
  | ofAlias => inferInstanceAs (DecidableEq Alias)
  | ofAddress => inferInstanceAs (DecidableEq Address)
  | addrAsset => inferInstanceAs (DecidableEq (ℕ × IssuedAsset))
  | hAddrAsset => inferInstanceAs (DecidableEq (ℕ × ℕ × IssuedAsset))
  | addrData => inferInstanceAs (DecidableEq (ℕ × String))
  | hAddrData => inferInstanceAs (DecidableEq (ℕ × ℕ × String))

end Shape

/-! ## 3. Families -/

inductive Family
  | version | height | score | heightOf | wavesBalanceHistory | wavesBalance | assetList
  | assetBalanceHistory | assetBalance | assetInfoHistory | assetInfo | leaseBalanceHistory
  | leaseBalance | leaseStatusHistory | leaseStatus | filledVolumeAndFeeHistory
  | filledVolumeAndFee | changedAddresses | addressIdOfAlias | lastAddressId | addressId
  | idToAddress | addressScriptHistory | addressScript | approvedFeatures | activatedFeatures
  | dataKeyChunkCount | dataKeyChunk | dataHistory | data | sponsorshipHistory | sponsorship
  | addressesForWavesSeqNr | addressesForWaves | addressesForAssetSeqNr | addressesForAsset
  | aliasIsDisabled | carryFee | assetScriptHistory | assetScript | safeRollbackHeight
  | changedDataKeys | blockInfoAt | transactionAt | addressTransactionSeqNr
  | addressTransactionHN | transactionHNById | blockTransactionsFee | invokeScriptResult
  | blockReward | wavesAmount | hitSource
  deriving DecidableEq

namespace Family

/-- The number of a family and the shape of its keys. -/
def layout : Family → ℕ × Shape
  | version => (0, .const)
  | height => (1, .const)
  | score => (2, .height)
  | heightOf => (4, .bytes)
  | wavesBalanceHistory => (5, .addr)
  | wavesBalance => (6, .hAddr)
  | assetList => (7, .addr)
  | assetBalanceHistory => (8, .addrAsset)
  | assetBalance => (9, .hAddrAsset)
  | assetInfoHistory => (10, .bytes)
  | assetInfo => (11, .hBytes)
  | leaseBalanceHistory => (12, .addr)
  | leaseBalance => (13, .hAddr)
  | leaseStatusHistory => (14, .bytes)
  | leaseStatus => (15, .hBytes)
  | filledVolumeAndFeeHistory => (16, .bytes)
  | filledVolumeAndFee => (17, .hBytes)
  | changedAddresses => (21, .height)
  | addressIdOfAlias => (23, .ofAlias)
  | lastAddressId => (24, .const)
  | addressId => (25, .ofAddress)
  | idToAddress => (26, .addr)
  | addressScriptHistory => (27, .addr)
  | addressScript => (28, .hAddr)
  | approvedFeatures => (29, .const)
  | activatedFeatures => (30, .const)
  | dataKeyChunkCount => (31, .addr)
  | dataKeyChunk => (32, .addrChunk)
  | dataHistory => (33, .addrData)
  | data => (34, .hAddrData)
  | sponsorshipHistory => (35, .bytes)
  | sponsorship => (36, .hBytes)
  | addressesForWavesSeqNr => (37, .const)
  | addressesForWaves => (38, .height)
  | addressesForAssetSeqNr => (39, .bytes)
  | addressesForAsset => (40, .hBytes)
  | aliasIsDisabled => (43, .ofAlias)
  | carryFee => (45, .height)
  | assetScriptHistory => (46, .bytes)
  | assetScript => (47, .hBytes)
  | safeRollbackHeight => (48, .const)
  | changedDataKeys => (49, .hAddr)
  | blockInfoAt => (50, .height)
  | transactionAt => (51, .hNum)
  | addressTransactionSeqNr => (52, .addr)
  | addressTransactionHN => (53, .hAddr)
  | transactionHNById => (54, .bytes)
  | blockTransactionsFee => (55, .height)
  | invokeScriptResult => (56, .hNum)
  | blockReward => (57, .height)
  | wavesAmount => (58, .height)
  | hitSource => (59, .height)

def all : List Family :=
  [version, height, score, heightOf, wavesBalanceHistory, wavesBalance, assetList,
    assetBalanceHistory, assetBalance, assetInfoHistory, assetInfo, leaseBalanceHistory,
    leaseBalance, leaseStatusHistory, leaseStatus, filledVolumeAndFeeHistory, filledVolumeAndFee,
    changedAddresses, addressIdOfAlias, lastAddressId, addressId, idToAddress,
    addressScriptHistory, addressScript, approvedFeatures, activatedFeatures, dataKeyChunkCount,
    dataKeyChunk, dataHistory, data, sponsorshipHistory, sponsorship, addressesForWavesSeqNr,
    addressesForWaves, addressesForAssetSeqNr, addressesForAsset, aliasIsDisabled, carryFee,
    assetScriptHistory, assetScript, safeRollbackHeight, changedDataKeys, blockInfoAt,
    transactionAt, addressTransactionSeqNr, addressTransactionHN, transactionHNById,
    blockTransactionsFee, invokeScriptResult, blockReward, wavesAmount, hitSource]

theorem mem_all (f : Family) : f ∈ all := by
  cases f <;> decide

theorem number_injective : Function.Injective fun f : Family => f.layout.1 := by
  have hnodup : (all.map fun f => f.layout.1).Nodup := by decide
  intro f f' h
  exact List.inj_on_of_nodup_map hnodup (mem_all f) (mem_all f') h

theorem number_lt (f : Family) : f.layout.1 < 2 ^ 15 := by
  have hall : ∀ f ∈ all, f.layout.1 < 2 ^ 15 := by decide
  exact hall f (mem_all f)

/-- Only the keys of entries have a number and a name next to each other. -/
theorem shape_eq_addrData_iff (f : Family) : f.layout.2 = .addrData ↔ f = dataHistory := by
  have hall : ∀ f ∈ all, f.layout.2 = .addrData ↔ f = dataHistory := by decide
  exact hall f (mem_all f)

theorem shape_eq_hAddrData_iff (f : Family) : f.layout.2 = .hAddrData ↔ f = data := by
  have hall : ∀ f ∈ all, f.layout.2 = .hAddrData ↔ f = data := by decide
  exact hall f (mem_all f)

end Family

/-- A key of the database. -/
structure Key where
  family : Family
  args : family.layout.2.Args
  deriving DecidableEq

def keyBytes (k : Key) : ByteStr :=
  Shorts.toByteArray k.family.layout.1 ++ k.family.layout.2.body k.args

def Key.InRange (k : Key) : Prop := k.family.layout.2.InRange k.args

namespace Keys

/-! ## 4. The keys under their names

Three families are read in two ways; the second is `…BytesAt` or `…Present`. -/

def version : Key := ⟨.version, ()⟩
def height : Key := ⟨.height, ()⟩
def score (height : ℕ) : Key := ⟨.score, height⟩
def heightOf (blockId : ByteStr) : Key := ⟨.heightOf, blockId⟩
def wavesBalanceHistory (addressId : ℕ) : Key := ⟨.wavesBalanceHistory, addressId⟩
def wavesBalance (addressId height : ℕ) : Key := ⟨.wavesBalance, (height, addressId)⟩
def assetList (addressId : ℕ) : Key := ⟨.assetList, addressId⟩
def assetBalanceHistory (addressId : ℕ) (asset : IssuedAsset) : Key :=
  ⟨.assetBalanceHistory, (addressId, asset)⟩
def assetBalance (addressId : ℕ) (asset : IssuedAsset) (height : ℕ) : Key :=
  ⟨.assetBalance, (height, addressId, asset)⟩
def assetInfoHistory (asset : IssuedAsset) : Key := ⟨.assetInfoHistory, asset.id⟩
def assetInfo (asset : IssuedAsset) (height : ℕ) : Key := ⟨.assetInfo, (height, asset.id)⟩
def leaseBalanceHistory (addressId : ℕ) : Key := ⟨.leaseBalanceHistory, addressId⟩
def leaseBalance (addressId height : ℕ) : Key := ⟨.leaseBalance, (height, addressId)⟩
def leaseStatusHistory (leaseId : ByteStr) : Key := ⟨.leaseStatusHistory, leaseId⟩
def leaseStatus (leaseId : ByteStr) (height : ℕ) : Key := ⟨.leaseStatus, (height, leaseId)⟩
def filledVolumeAndFeeHistory (orderId : ByteStr) : Key := ⟨.filledVolumeAndFeeHistory, orderId⟩
def filledVolumeAndFee (orderId : ByteStr) (height : ℕ) : Key :=
  ⟨.filledVolumeAndFee, (height, orderId)⟩
def changedAddresses (height : ℕ) : Key := ⟨.changedAddresses, height⟩
def addressIdOfAlias (a : Alias) : Key := ⟨.addressIdOfAlias, a⟩
def lastAddressId : Key := ⟨.lastAddressId, ()⟩
def addressId (a : Address) : Key := ⟨.addressId, a⟩
def idToAddress (id : ℕ) : Key := ⟨.idToAddress, id⟩
def addressScriptHistory (addressId : ℕ) : Key := ⟨.addressScriptHistory, addressId⟩
def addressScript (addressId height : ℕ) : Key := ⟨.addressScript, (height, addressId)⟩
def approvedFeatures : Key := ⟨.approvedFeatures, ()⟩
def activatedFeatures : Key := ⟨.activatedFeatures, ()⟩
def dataKeyChunkCount (addressId : ℕ) : Key := ⟨.dataKeyChunkCount, addressId⟩
def dataKeyChunk (addressId chunkNo : ℕ) : Key := ⟨.dataKeyChunk, (addressId, chunkNo)⟩
def dataHistory (addressId : ℕ) (key : String) : Key := ⟨.dataHistory, (addressId, key)⟩
def data (addressId : ℕ) (key : String) (height : ℕ) : Key :=
  ⟨.data, (height, addressId, key)⟩
def sponsorshipHistory (asset : IssuedAsset) : Key := ⟨.sponsorshipHistory, asset.id⟩
def sponsorship (asset : IssuedAsset) (height : ℕ) : Key := ⟨.sponsorship, (height, asset.id)⟩
def addressesForWavesSeqNr : Key := ⟨.addressesForWavesSeqNr, ()⟩
def addressesForWaves (seqNr : ℕ) : Key := ⟨.addressesForWaves, seqNr⟩
def addressesForAssetSeqNr (asset : IssuedAsset) : Key := ⟨.addressesForAssetSeqNr, asset.id⟩
def addressesForAsset (asset : IssuedAsset) (seqNr : ℕ) : Key :=
  ⟨.addressesForAsset, (seqNr, asset.id)⟩
def aliasIsDisabled (a : Alias) : Key := ⟨.aliasIsDisabled, a⟩
def carryFee (height : ℕ) : Key := ⟨.carryFee, height⟩
def assetScriptHistory (asset : IssuedAsset) : Key := ⟨.assetScriptHistory, asset.id⟩
def assetScript (asset : IssuedAsset) (height : ℕ) : Key := ⟨.assetScript, (height, asset.id)⟩
def assetScriptPresent (asset : IssuedAsset) (height : ℕ) : Key := assetScript asset height
def safeRollbackHeight : Key := ⟨.safeRollbackHeight, ()⟩
def changedDataKeys (height addressId : ℕ) : Key := ⟨.changedDataKeys, (height, addressId)⟩
def blockInfoAt (height : ℕ) : Key := ⟨.blockInfoAt, height⟩
def blockHeaderBytesAt (height : ℕ) : Key := blockInfoAt height
def transactionAt (height n : ℕ) : Key := ⟨.transactionAt, (height, n)⟩
def transactionBytesAt (height n : ℕ) : Key := transactionAt height n
def addressTransactionSeqNr (addressId : ℕ) : Key := ⟨.addressTransactionSeqNr, addressId⟩
def addressTransactionHN (addressId seqNr : ℕ) : Key :=
  ⟨.addressTransactionHN, (seqNr, addressId)⟩
def transactionHNById (txId : ByteStr) : Key := ⟨.transactionHNById, txId⟩
def blockTransactionsFee (height : ℕ) : Key := ⟨.blockTransactionsFee, height⟩
def invokeScriptResult (height txNum : ℕ) : Key := ⟨.invokeScriptResult, (height, txNum)⟩
def blockReward (height : ℕ) : Key := ⟨.blockReward, height⟩
def wavesAmount (height : ℕ) : Key := ⟨.wavesAmount, height⟩
def hitSource (height : ℕ) : Key := ⟨.hitSource, height⟩

end Keys

/-! ## 5. Keys with the same bytes -/

/-- The number of the second account is that of the first with the beginning of the name of
its entry behind it, and the name of the second entry is the rest. -/
def Absorbs (addressId : ℕ) (key : String) (addressId' : ℕ) (key' : String) : Prop :=
  ∃ s, s ≠ "" ∧ key = s ++ key' ∧
    addressId' = addressId * 256 ^ (utf8Bytes s).length + BigEndian.read (utf8Bytes s)

/-- Two keys of entries, one of which absorbs the beginning of the other. -/
inductive Collide : Key → Key → Prop
  | dataHistory {addressId addressId' : ℕ} {key key' : String} :
      Absorbs addressId key addressId' key' →
        Collide (Keys.dataHistory addressId key) (Keys.dataHistory addressId' key')
  | data {addressId addressId' : ℕ} {key key' : String} (height : ℕ) :
      Absorbs addressId key addressId' key' →
        Collide (Keys.data addressId key height) (Keys.data addressId' key' height)
  | symm {k k' : Key} : Collide k k' → Collide k' k

namespace Shape

theorem idBytes_injective : Function.Injective idBytes := by
  intro id id' h
  rw [← BigInteger.read_toByteArray id, ← BigInteger.read_toByteArray id']
  exact congrArg BigEndian.read h

theorem shorts_inj {n n' : ℕ} (hn : n < 2 ^ 15) (hn' : n' < 2 ^ 15)
    (h : Shorts.toByteArray n = Shorts.toByteArray n') : n = n' :=
  BigEndian.write_inj (by omega) (by omega) h

/-- Where the bytes of the one number go on in the name, the other number has absorbed that. -/
theorem eq_or_absorbs {id id' : ℕ} {key key' : String} {w : ByteStr}
    (hnumber : idBytes id' = idBytes id ++ w) (hkey : utf8Bytes key = w ++ utf8Bytes key') :
    (id = id' ∧ key = key') ∨ Absorbs id key id' key' := by
  obtain ⟨s, hs, rfl⟩ := exists_of_utf8Bytes_eq_append hkey
  by_cases hempty : s = ""
  · left
    rw [utf8Bytes_eq_nil_iff.mpr hempty, List.append_nil] at hnumber
    refine ⟨(idBytes_injective hnumber).symm, ?_⟩
    rw [hs, hempty, String.empty_append]
  · right
    refine ⟨s, hempty, hs, ?_⟩
    rw [← BigInteger.read_toByteArray id', ← BigInteger.read_toByteArray id,
      ← BigEndian.read_append_list]
    exact congrArg BigEndian.read hnumber

theorem entryBytes_of_absorbs {id id' : ℕ} {key key' : String} (hid : 0 < id)
    (h : Absorbs id key id' key') :
    idBytes id ++ utf8Bytes key = idBytes id' ++ utf8Bytes key' := by
  obtain ⟨s, -, rfl, rfl⟩ := h
  rw [idBytes, idBytes, BigInteger.toByteArray_append hid, utf8Bytes_append, List.append_assoc]

/-- **One entry.** -/
theorem entryBytes_eq_iff {id id' : ℕ} {key key' : String} (hid : 0 < id) (hid' : 0 < id') :
    idBytes id ++ utf8Bytes key = idBytes id' ++ utf8Bytes key' ↔
      (id = id' ∧ key = key') ∨ Absorbs id key id' key' ∨ Absorbs id' key' id key := by
  constructor
  · intro h
    -- the bytes of the one number are the beginning of those of the other
    obtain ⟨w, hnumber, hkey⟩ | ⟨w, hnumber, hkey⟩ := List.append_eq_append_iff.mp h
    · exact (eq_or_absorbs hnumber hkey).imp_right .inl
    · obtain ⟨rfl, rfl⟩ | habs := eq_or_absorbs hnumber hkey
      · exact .inl ⟨rfl, rfl⟩
      · exact .inr (.inr habs)
  · rintro (⟨rfl, rfl⟩ | habs | habs)
    · rfl
    · exact entryBytes_of_absorbs hid habs
    · exact (entryBytes_of_absorbs hid' habs).symm

/-- What follows the number of a family tells its keys apart, except for entries. -/
theorem body_inj {s : Shape} (hs : s ≠ addrData) (hs' : s ≠ hAddrData) {a a' : s.Args}
    (ha : s.InRange a) (ha' : s.InRange a') (h : s.body a = s.body a') : a = a' := by
  cases s with
  | const => rfl
  | height => exact Ints.toByteArray_inj ha ha' h
  | bytes => exact h
  | addr => exact idBytes_injective h
  | hBytes =>
    obtain ⟨hheight, hbytes⟩ := List.append_inj h (by simp)
    exact Prod.ext (Ints.toByteArray_inj ha ha' hheight) hbytes
  | hAddr =>
    obtain ⟨hheight, hid⟩ := List.append_inj h (by simp)
    exact Prod.ext (Ints.toByteArray_inj ha ha' hheight) (idBytes_injective hid)
  | hNum =>
    obtain ⟨hheight, hnum⟩ := List.append_inj h (by simp)
    exact Prod.ext (Ints.toByteArray_inj ha.1 ha'.1 hheight) (shorts_inj ha.2 ha'.2 hnum)
  | ofAlias =>
    obtain ⟨chainId, name⟩ := a
    obtain ⟨chainId', name'⟩ := a'
    obtain ⟨rfl, hname⟩ := List.cons.inj (List.cons.inj h).2
    have hbytes := (List.append_inj hname (by simp)).2
    exact congrArg (Alias.mk chainId) (utf8Bytes_injective hbytes)
  | ofAddress =>
    obtain ⟨bytes⟩ := a
    obtain ⟨bytes'⟩ := a'
    exact congrArg Address.mk h
  | addrAsset =>
    obtain ⟨id, ⟨asset⟩⟩ := a
    obtain ⟨id', ⟨asset'⟩⟩ := a'
    -- the number ends where the digest begins
    obtain ⟨hid, hasset⟩ := List.append_inj' h (ha.trans ha'.symm)
    exact Prod.ext (idBytes_injective hid) (congrArg IssuedAsset.mk hasset)
  | hAddrAsset =>
    obtain ⟨height, id, ⟨asset⟩⟩ := a
    obtain ⟨height', id', ⟨asset'⟩⟩ := a'
    obtain ⟨hheight, hrest⟩ := List.append_inj h (by simp)
    obtain ⟨hid, hasset⟩ := List.append_inj' hrest (ha.2.trans ha'.2.symm)
    exact Prod.ext (Ints.toByteArray_inj ha.1 ha'.1 hheight)
      (Prod.ext (idBytes_injective hid) (congrArg IssuedAsset.mk hasset))
  | addrData => exact absurd rfl hs
  | hAddrData => exact absurd rfl hs'
  | addrChunk =>
    -- the last four bytes are the chunk
    obtain ⟨hid, hchunk⟩ := List.append_inj' h (by simp)
    exact Prod.ext (idBytes_injective hid) (Ints.toByteArray_inj ha ha' hchunk)

end Shape

/-- Entries with the same bytes are one entry or collide. -/
theorem keyBytes_dataHistory_iff {id id' : ℕ} {key key' : String} (hid : 0 < id)
    (hid' : 0 < id') : keyBytes (Keys.dataHistory id key) = keyBytes (Keys.dataHistory id' key') ↔
      (id = id' ∧ key = key') ∨ Absorbs id key id' key' ∨ Absorbs id' key' id key := by
  rw [← Shape.entryBytes_eq_iff hid hid']
  constructor
  · intro h
    exact List.append_cancel_left h
  · intro hentry
    exact congrArg (fun entry => Shorts.toByteArray 33 ++ entry) hentry

theorem keyBytes_data_iff {id id' height height' : ℕ} {key key' : String} (hid : 0 < id)
    (hid' : 0 < id') (hheight : height < 2 ^ 31) (hheight' : height' < 2 ^ 31) :
    keyBytes (Keys.data id key height) = keyBytes (Keys.data id' key' height') ↔
      height = height' ∧
        ((id = id' ∧ key = key') ∨ Absorbs id key id' key' ∨ Absorbs id' key' id key) := by
  rw [← Shape.entryBytes_eq_iff hid hid']
  constructor
  · intro h
    obtain ⟨hints, hentry⟩ := List.append_inj (List.append_cancel_left h) (by simp)
    exact ⟨Ints.toByteArray_inj hheight hheight' hints, hentry⟩
  · rintro ⟨rfl, hentry⟩
    exact congrArg (fun entry => Shorts.toByteArray 34 ++ (Ints.toByteArray height ++ entry)) hentry

theorem Absorbs.ne {id id' : ℕ} {key key' : String} (h : Absorbs id key id' key') : key ≠ key' := by
  obtain ⟨s, hs, rfl, -⟩ := h
  intro hsame
  apply hs
  have hlength := congrArg String.length hsame
  rw [String.length_append] at hlength
  exact String.length_eq_zero_iff.mp (by omega)

theorem Collide.ne {k k' : Key} (h : Collide k k') : k ≠ k' := by
  induction h with
  | dataHistory h =>
    intro hsame
    cases hsame
    exact h.ne rfl
  | data height h =>
    intro hsame
    cases hsame
    exact h.ne rfl
  | symm _ ih => exact ih.symm

theorem keyBytes_eq_of_collide {k k' : Key} (h : Collide k k') (hk : k.InRange)
    (hk' : k'.InRange) : keyBytes k = keyBytes k' := by
  induction h with
  | dataHistory h => exact (keyBytes_dataHistory_iff hk hk').mpr (.inr (.inl h))
  | data height h => exact (keyBytes_data_iff hk.2 hk'.2 hk.1 hk'.1).mpr ⟨rfl, .inr (.inl h)⟩
  | symm _ ih => exact (ih hk' hk).symm

/-- Keys with the same bytes are of one family. -/
theorem family_eq_of_keyBytes_eq {k k' : Key} (h : keyBytes k = keyBytes k') :
    k.family = k'.family := by
  obtain ⟨hnumber, -⟩ := List.append_inj h (by simp)
  exact Family.number_injective (Shape.shorts_inj k.family.number_lt k'.family.number_lt hnumber)

theorem eq_or_collide_of_keyBytes_eq {k k' : Key} (hk : k.InRange) (hk' : k'.InRange)
    (h : keyBytes k = keyBytes k') : k = k' ∨ Collide k k' := by
  have hfamily := family_eq_of_keyBytes_eq h
  obtain ⟨family, args⟩ := k
  obtain ⟨family', args'⟩ := k'
  cases hfamily
  by_cases hhistory : family = .dataHistory
  · subst hhistory
    obtain ⟨id, key⟩ := args
    obtain ⟨id', key'⟩ := args'
    obtain ⟨rfl, rfl⟩ | habs | habs := (keyBytes_dataHistory_iff hk hk').mp h
    · exact .inl rfl
    · exact .inr (.dataHistory habs)
    · exact .inr (.symm (.dataHistory habs))
  · by_cases hdata : family = .data
    · subst hdata
      obtain ⟨height, id, key⟩ := args
      obtain ⟨height', id', key'⟩ := args'
      obtain ⟨rfl, hentry⟩ := (keyBytes_data_iff hk.2 hk'.2 hk.1 hk'.1).mp h
      obtain ⟨rfl, rfl⟩ | habs | habs := hentry
      · exact .inl rfl
      · exact .inr (.data height habs)
      · exact .inr (.symm (.data height habs))
    · -- in all other families the end of each part can be told
      left
      have hbody := List.append_cancel_left h
      have hargs := Shape.body_inj (mt (Family.shape_eq_addrData_iff family).mp hhistory)
        (mt (Family.shape_eq_hAddrData_iff family).mp hdata) hk hk' hbody
      exact congrArg (Key.mk family) hargs

theorem absorbs_one : Absorbs 1 "Ab" 321 "b" := by
  refine ⟨"A", by decide, by decide, ?_⟩
  have hbytes : utf8Bytes "A" = [65] := by
    rw [utf8Bytes_eq]
    rfl
  rw [hbytes]
  rfl

section
variable {υ : Type}

open EncodedStore

/-- `readWrite`: `f` reads the database as it is, and its batch is written at the end. The
database has the bytes of the keys. -/
def readWrite (db : ByteStr → Option υ) (f : EncodedStore.Transaction Key υ) : ByteStr → Option υ :=
  commit db (encoded keyBytes f db)

theorem foldl_readWrite (db : ByteStr → Option υ)
    (fs : List (EncodedStore.Transaction Key υ)) :
    fs.foldl readWrite db = run db (fs.map (encoded keyBytes)) := by
  rw [run, List.foldl_map]
  rfl

end

end Database

end WavesNode
