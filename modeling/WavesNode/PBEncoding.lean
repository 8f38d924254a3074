/-
Transactions and blocks in protobuf, and back.

`PBTransactions.protobuf` writes a transaction of any type as a message, and `vanilla` reads
one. A transaction comes back when what its type writes is what its type reads: the version
where the reader has a constant, one proof where it takes the first, a recipient of the node's
own chain, an asset that is not mistaken for Waves, a script that is read from its bytes. A
payment never does: its recipient is written in the short form, and read as a whole address.
`Representable` is all of this, and a block comes back when its transactions do.
-/
import WavesNode.PBStored
import WavesNode.CallBytes
import WavesNode.TransactionBytes

set_option autoImplicit false

namespace WavesNode

open ByteBuffer

section
variable [Crypto]

/-! ## 1. The conversion -/

namespace PBAmounts

omit [Crypto]

def toPBAssetId : Asset → ByteStr
  | .Waves => []
  | .issued asset => asset.id

/-- `fromAssetIdAndAmount`. -/
def fromAssetIdAndAmount (asset : Asset) (amount : Long) : PBAmount := ⟨toPBAssetId asset, amount⟩

end PBAmounts

namespace PBRecipients

omit [Crypto]

/-- The digest of an address, which `PBRecipients.create` writes: neither the two bytes before it
nor the checksum. -/
def addressDigest (a : Address) : ByteStr :=
  slice a.bytes 2 (a.bytes.length - Address.ChecksumLength - 2)

def create : AddressOrAlias → PBRecipient
  | .address a => .Address (addressDigest a)
  | .alias a => .Alias a.name

end PBRecipients

omit [Crypto] in
/-- `PBOrders.protobuf`. -/
def PBOrders.protobuf (order : Order) : PBOrder where
  senderPublicKey := order.senderPublicKey
  matcherPublicKey := order.matcherPublicKey
  assetPair := some (PBAmounts.toPBAssetId order.assetPair.amountAsset,
    PBAmounts.toPBAssetId order.assetPair.priceAsset)
  orderSide :=
    match order.orderType with
    | .BUY => .BUY
    | .SELL => .SELL
  amount := order.amount
  price := order.price
  timestamp := order.timestamp
  expiration := order.expiration
  matcherFee := some (PBAmounts.fromAssetIdAndAmount order.matcherFeeAssetId order.matcherFee)
  version := order.version.toInt32
  proofs := order.proofs.proofs

omit [Crypto] in
def toPBDataEntry (e : DataEntry) : PBDataEntry := ⟨e.key, some e.value⟩

omit [Crypto] in
/-- The bytes of a call, after its mark and its length. -/
def writeFunctionCall (call : Option FunctionCall) : Validation ByteStr :=
  if call.all fun f => Short.isValid (Serde.serialize f).length then
    .ok (Deser.serializeOptionOfArrayWithLength (call.map Serde.serialize))
  else .throwing "Attempting to serialize array with size that isn't short"

namespace PBTransactions

/-- `PBTransactions.create`, which writes the chain of the node whatever it is given. -/
def create (sender : PublicKey) (fee : Long) (feeAssetId : Asset) (timestamp : Long)
    (version : Int32) (proofsArray : List ByteStr) (data : PBData) : PBSignedTransaction where
  transaction := some
    { chainId := Crypto.chainId.toInt32
      senderPublicKey := sender
      fee := some (PBAmounts.fromAssetIdAndAmount feeAssetId fee)
      timestamp := timestamp
      version := version
      data := data }
  proofs := proofsArray

def protobuf : Transaction → Validation PBSignedTransaction
  | .genesis tx =>
    .ok (create [] 0 .Waves tx.timestamp 1 [tx.signature]
      (.Genesis (PBRecipients.addressDigest tx.recipient) tx.amount))
  | .payment tx =>
    .ok (create tx.sender tx.fee .Waves tx.timestamp 1 [tx.signature]
      (.Payment (PBRecipients.addressDigest tx.recipient) tx.amount))
  | .transfer tx =>
    .ok (create tx.sender tx.fee tx.feeAssetId tx.timestamp tx.version.toInt32 tx.proofs.proofs
      (.Transfer (some (PBRecipients.create tx.recipient))
        (some (PBAmounts.fromAssetIdAndAmount tx.assetId tx.amount)) tx.attachment))
  | .createAlias tx =>
    .ok (create tx.sender tx.fee .Waves tx.timestamp tx.version.toInt32 tx.proofs.proofs
      (.CreateAlias tx.alias.name))
  | .exchange tx =>
    .ok (create tx.sender tx.fee .Waves tx.timestamp tx.version.toInt32 tx.proofs.proofs
      (.Exchange tx.amount tx.price tx.buyMatcherFee tx.sellMatcherFee
        [PBOrders.protobuf tx.buyOrder, PBOrders.protobuf tx.sellOrder]))
  | .issue tx =>
    .ok (create tx.sender tx.fee .Waves tx.timestamp tx.version.toInt32 tx.proofs.proofs
      (.Issue tx.name tx.description tx.quantity tx.decimals.toInt32 tx.reissuable
        (tx.script.map Script.bytes)))
  | .reissue tx =>
    .ok (create tx.sender tx.fee .Waves tx.timestamp tx.version.toInt32 tx.proofs.proofs
      (.Reissue (some ⟨tx.asset.id, tx.quantity⟩) tx.reissuable))
  | .burn tx =>
    .ok (create tx.sender tx.fee .Waves tx.timestamp tx.version.toInt32 tx.proofs.proofs
      (.Burn (some ⟨tx.asset.id, tx.quantity⟩)))
  | .setAssetScript tx =>
    .ok (create tx.sender tx.fee .Waves tx.timestamp tx.version.toInt32 tx.proofs.proofs
      (.SetAssetScript tx.asset.id (tx.script.map Script.bytes)))
  | .setScript tx =>
    .ok (create tx.sender tx.fee .Waves tx.timestamp tx.version.toInt32 tx.proofs.proofs
      (.SetScript (tx.script.map Script.bytes)))
  | .lease tx =>
    .ok (create tx.sender tx.fee .Waves tx.timestamp tx.version.toInt32 tx.proofs.proofs
      (.Lease (some (PBRecipients.create tx.recipient)) tx.amount))
  | .leaseCancel tx =>
    .ok (create tx.sender tx.fee .Waves tx.timestamp tx.version.toInt32 tx.proofs.proofs
      (.LeaseCancel tx.leaseId))
  | .massTransfer tx =>
    .ok (create tx.sender tx.fee .Waves tx.timestamp tx.version.toInt32 tx.proofs.proofs
      (.MassTransfer (PBAmounts.toPBAssetId tx.assetId)
        (tx.transfers.map fun t => ⟨some (PBRecipients.create t.address), t.amount⟩) tx.attachment))
  | .data tx =>
    .ok (create tx.sender tx.fee .Waves tx.timestamp tx.version.toInt32 tx.proofs.proofs
      (.DataTransaction (tx.data.map toPBDataEntry)))
  | .sponsorFee tx =>
    .ok (create tx.sender tx.fee .Waves tx.timestamp tx.version.toInt32 tx.proofs.proofs
      (.SponsorFee (some ⟨tx.asset.id, tx.minSponsoredAssetFee.getD 0⟩)))
  | .invokeScript tx => do
    -- the version is not that of the transaction
    let functionCall ← writeFunctionCall tx.funcCallOpt
    .ok (create tx.sender tx.fee tx.feeAssetId tx.timestamp 1 tx.proofs.proofs
      (.InvokeScript (some (PBRecipients.create tx.dAppAddressOrAlias)) functionCall
        (tx.payments.map fun p => PBAmounts.fromAssetIdAndAmount p.assetId p.amount)))

end PBTransactions

/-! ## 2. Parts -/

/-- An address of the node's chain. -/
def Address.OnChain (a : Address) : Prop := Address.fromBytes a.bytes = .ok a

/-- A recipient of the node's chain. -/
def AddressOrAlias.OnChain : AddressOrAlias → Prop
  | .address a => a.OnChain
  | .alias a => Alias.createWithChainId a.name Crypto.chainId = .ok a

omit [Crypto] in
/-- An issued asset with an id; an empty one stands for Waves in a message. -/
def Asset.Named (asset : Asset) : Prop := asset ≠ .issued ⟨[]⟩

namespace PBAmounts

omit [Crypto]

theorem toVanillaAssetId_toPBAssetId {asset : Asset} :
    toVanillaAssetId (toPBAssetId asset) = asset ↔ asset.Named := by
  cases asset with
  | Waves => simp [toPBAssetId, toVanillaAssetId, Asset.Named]
  | issued a =>
    obtain ⟨id⟩ := a
    cases id <;> simp [toPBAssetId, toVanillaAssetId, Asset.Named]

theorem toPBAssetId_toVanillaAssetId (b : ByteStr) : toPBAssetId (toVanillaAssetId b) = b := by
  cases b <;> rfl

end PBAmounts

namespace PBRecipients

theorem length_of_onChain {a : Address} (h : a.OnChain) :
    a.bytes.length = Address.AddressLength := by
  by_contra hne
  rw [Address.OnChain, Address.fromBytes, if_pos hne] at h
  simp at h

/-- What an address of the chain is made of. -/
theorem bytes_of_onChain {a : Address} (h : a.OnChain) :
    a.bytes = Address.AddressVersion :: Crypto.chainId :: addressDigest a ++
      Address.calcCheckSum (Address.AddressVersion :: Crypto.chainId :: addressDigest a) := by
  have hlength := length_of_onChain h
  have hdigest : addressDigest a = slice a.bytes 2 20 := by rw [addressDigest, hlength]; rfl
  rw [hdigest]
  rw [Address.OnChain, Address.fromBytes, if_neg (not_not_intro hlength)] at h
  dsimp only at h
  split at h
  · simp at h
  · rename_i hversion
    split at h
    · simp at h
    · rename_i hnetwork
      split at h
      · simp at h
      · rename_i hchecksum
        rw [not_not] at hversion hnetwork hchecksum
        obtain ⟨x, y, rest, hbytes⟩ : ∃ x y rest, a.bytes = x :: y :: rest := by
          rcases hb : a.bytes with _ | ⟨x, _ | ⟨y, rest⟩⟩
          · rw [hb] at hlength
            cases hlength
          · rw [hb] at hlength
            cases hlength
          · exact ⟨x, y, rest, rfl⟩
        have hx : x = Address.AddressVersion := by rw [hbytes] at hversion; exact hversion
        have hy : y = Crypto.chainId := by rw [hbytes] at hnetwork; exact hnetwork
        have htake : a.bytes.take (Address.AddressLength - Address.ChecksumLength) =
            Address.AddressVersion :: Crypto.chainId :: slice a.bytes 2 20 := by
          rw [hbytes, hx, hy]
          rfl
        rw [htake] at hchecksum
        rw [← hchecksum, ← htake, List.take_append_drop]

/-- An address comes back from its digest exactly when it is of the node's chain. -/
theorem toAddressOfBytes_addressDigest {a : Address} :
    toAddressOfBytes (addressDigest a) = .ok a ↔ a.OnChain := by
  constructor
  · intro h
    rw [toAddressOfBytes] at h
    split at h
    · -- the short form: what is read is the whole address
      have hbytes := Address.fromBytes_bytes h
      rw [Address.OnChain, hbytes]
      exact h
    · split at h
      · have hbytes := Address.fromBytes_bytes h
        rw [Address.OnChain, hbytes]
        exact h
      · split at h
        · -- a digest of 32 bytes is of an address of 38, and a key gives at most 26
          exfalso
          rename_i hkey
          have ha : PublicKey.toAddress (addressDigest a) = a := Except.ok.inj h
          have hlong : a.bytes.length ≤ 26 := by
            rw [← ha, PublicKey.toAddress, Address.fromPublicKey]
            simp only [Address.calcCheckSum, List.length_append, List.length_cons,
              List.length_take, Address.HashLength, Address.ChecksumLength]
            omega
          rw [addressDigest, slice, List.length_take, KeyLength] at hkey
          omega
        · simp at h
  · intro h
    have hbytes := bytes_of_onChain h
    have hlength : (addressDigest a).length = Address.HashLength := by
      rw [addressDigest, length_of_onChain h, slice, List.length_take, List.length_drop,
        length_of_onChain h]
      rfl
    rw [toAddressOfBytes, if_pos hlength]
    dsimp only
    rw [← hbytes]
    exact h

theorem toAddressOrAlias_create {r : AddressOrAlias} :
    toAddressOrAlias (create r) = .ok r ↔ r.OnChain := by
  cases r with
  | address a =>
    rw [create, toAddressOrAlias, Validation.map_eq_ok, AddressOrAlias.OnChain,
      ← toAddressOfBytes_addressDigest]
    simp
  | «alias» a =>
    rw [create, toAddressOrAlias, Validation.map_eq_ok, AddressOrAlias.OnChain]
    simp

end PBRecipients

omit [Crypto] in
theorem PBOrders.vanilla_protobuf {o : Order} :
    PBOrders.vanilla (PBOrders.protobuf o) = .ok o ↔
      o.assetPair.amountAsset.Named ∧ o.assetPair.priceAsset.Named ∧ o.matcherFeeAssetId.Named := by
  rw [← PBAmounts.toVanillaAssetId_toPBAssetId, ← PBAmounts.toVanillaAssetId_toPBAssetId,
    ← PBAmounts.toVanillaAssetId_toPBAssetId]
  obtain ⟨version, sender, matcher, ⟨amountAsset, priceAsset⟩, orderType, amount, price, timestamp,
    expiration, matcherFee, feeAsset, ⟨proofs⟩⟩ := o
  cases orderType <;>
    simp [PBOrders.vanilla, PBOrders.protobuf, PBAmounts.fromAssetIdAndAmount, Validation.ok_bind,
      and_assoc]

omit [Crypto] in
/-- A script is read from its bytes. -/
def ScriptReads [ScriptReader] (script : Option Script) : Prop :=
  ∀ s, script = some s → ScriptReader.fromBytes s.bytes = .ok s

omit [Crypto] in
theorem readScript_map_bytes [ScriptReader] {script : Option Script} :
    readScript (script.map Script.bytes) = .ok script ↔ ScriptReads script := by
  cases script with
  | none => simp [readScript, ScriptReads]
  | some s =>
    simp only [Option.map_some, readScript, ScriptReads, Option.some.injEq, forall_eq']
    cases ScriptReader.fromBytes s.bytes with
    | error e => simp
    | ok s' => simp

omit [Crypto] in
theorem mapM_toVanillaDataEntry (entries : List DataEntry) :
    (entries.map toPBDataEntry).mapM toVanillaDataEntry =
      .ok (entries.map fun e => ⟨e.key, e.value, none⟩) := by
  induction entries with
  | nil => rfl
  | cons e rest ih =>
    rw [List.map_cons, List.mapM_cons, ih]
    rfl

omit [Crypto] in
/-- A list is unchanged where every element is kept. -/
theorem List.filterMap_eq_self_iff {α : Type} {f : α → Option α} {l : List α} :
    l.filterMap f = l ↔ ∀ a ∈ l, f a = some a := by
  induction l with
  | nil => simp
  | cons a rest ih =>
    rw [List.forall_mem_cons, ← ih]
    cases h : f a with
    | none =>
      have hlength := List.length_filterMap_le f rest
      rw [List.filterMap_cons_none h]
      constructor
      · intro heq
        rw [heq, List.length_cons] at hlength
        omega
      · rintro ⟨hsome, -⟩
        cases hsome
    | some b =>
      rw [List.filterMap_cons_some h, List.cons.injEq, Option.some.injEq]

/-! ## 3. Calls -/

omit [Crypto] in
theorem takes_parseArrayWithLength {b : ByteStr} (h : b.length ≤ Short.MaxValue) :
    Takes Deser.parseArrayWithLength (Deser.serializeArrayWithLength b) b := by
  have hshort : b.length < 2 ^ 15 := Nat.lt_of_le_of_lt h (by decide)
  refine (takes_getLength hshort).bind ?_
  refine (takes_require (decide_eq_true (Int.natCast_nonneg _))).nil_bind ?_
  exact takes_getByteArray rfl

omit [Crypto] in
/-- A call of literals that fits its length is read as it was written. -/
theorem readFunctionCall_serialize {call : Option FunctionCall}
    (hargs : ∀ f, call = some f → ∀ a ∈ f.args, Serde.Literal a)
    (hsize : ∀ f, call = some f → (Serde.serialize f).length ≤ Short.MaxValue) :
    readFunctionCall (Deser.serializeOptionOfArrayWithLength (call.map Serde.serialize)) =
      .ok call := by
  cases call with
  | none => rfl
  | some f =>
    have hlength := hsize f rfl
    have htakes : Takes Deser.parseByteArrayOptionWithLength
        ([1] ++ Deser.serializeArrayWithLength (Serde.serialize f)) (some (Serde.serialize f)) :=
      (takes_get 1).bind (takes_parseArrayWithLength hlength).map
    have harray : Deser.parseByteArrayOptionWithLength.from
        ([1] ++ Deser.serializeArrayWithLength (Serde.serialize f)) 0 =
        .ok (some (Serde.serialize f)) := by
      have hread := htakes [] []
      rw [List.nil_append, List.append_nil] at hread
      exact from_eq_ok.mpr ⟨Nat.zero_le _, _, hread⟩
    have hcall := Serde.takes_deserializeCall (hargs f rfl)
      (Nat.le_trans hlength (by decide)) [] []
    rw [List.nil_append, List.append_nil, List.length_nil, Nat.zero_add] at hcall
    rw [readFunctionCall, Option.map_some, Deser.serializeOptionOfArrayWithLength, Option.map_some,
      Deser.serializeOption, ← List.singleton_append, harray]
    dsimp only
    rw [hcall]
    dsimp only
    exact if_pos (Nat.sub_self _)

/-! ## 4. Transactions -/

omit [Crypto] in
/-- An entry as equality sees it, which does not look at the bytes it was read from. -/
def DataEntry.plain (e : DataEntry) : DataEntry := { e with dataBytes := none }

omit [Crypto] in
/-- A transaction as equality sees it. -/
def Transaction.plain : Transaction → Transaction
  | .data tx => .data { tx with data := tx.data.map DataEntry.plain }
  | tx => tx

namespace PBTransactions

variable [PBTransactionSerializer] [ScriptReader]

/-- The transaction that is written is the one that is read. -/
def Returns (tx : Transaction) : Prop :=
  ∃ tx', protobuf tx >>= vanilla = .ok tx' ∧ tx'.plain = tx.plain

/-- What a message of the type has room for. -/
def Representable : Transaction → Prop
  | .genesis tx => tx.recipient.OnChain ∧
      tx.signature = GenesisTransaction.generateSignature tx.recipient tx.amount tx.timestamp
  | .payment _ => False
  | .issue tx => ScriptReads tx.script
  | .transfer tx => tx.recipient.OnChain ∧ tx.assetId.Named ∧ tx.feeAssetId.Named
  | .reissue _ => True
  | .burn _ => True
  | .exchange tx => tx.version = 2 ∧
      ∀ o ∈ [tx.buyOrder, tx.sellOrder], o.assetPair.amountAsset.Named ∧
        o.assetPair.priceAsset.Named ∧ o.matcherFeeAssetId.Named
  | .lease tx => tx.recipient.OnChain
  | .leaseCancel _ => True
  | .createAlias tx => Alias.createWithChainId tx.alias.name Crypto.chainId = .ok tx.alias ∧
      tx.proofs.proofs.length = 1
  | .massTransfer tx => tx.version = 1 ∧ tx.assetId.Named ∧
      ∀ t ∈ tx.transfers, t.address.OnChain
  | .data tx => tx.version = 1 ∧
      (TxSerializer.bytes (Transaction.plain (.data tx))).length ≤ DataTransaction.MaxBytes
  | .setScript tx => tx.version = 1 ∧ ScriptReads tx.script
  | .sponsorFee tx => tx.version = 1
  | .setAssetScript tx => tx.version = 1 ∧ ScriptReads tx.script
  | .invokeScript tx => tx.version = 1 ∧ tx.dAppAddressOrAlias.OnChain ∧ tx.feeAssetId.Named ∧
      ∀ p ∈ tx.payments, p.assetId.Named

theorem vanilla_create {sender : PublicKey} {fee : Long} {feeAssetId : Asset} {timestamp : Long}
    {version : Int32} {proofs : List ByteStr} {data : PBData} (hdata : data ≠ .Empty) :
    vanilla (create sender fee feeAssetId timestamp version proofs data) =
      createVanilla version Crypto.chainId sender fee
        (PBAmounts.toVanillaAssetId (PBAmounts.toPBAssetId feeAssetId)) timestamp ⟨proofs⟩ data := by
  unfold vanilla create
  simp only [Validation.ofOption, Validation.ok_bind, Validation.cond, hdata, ne_eq,
    not_false_eq_true, decide_true, if_true, PBAmounts.toAssetAndAmount,
    PBAmounts.fromAssetIdAndAmount, Int8.toInt8_toInt32]

/-- What is encoded with a message is returned if the message is read back. -/
theorem returns_create (tx : Transaction) {sender : PublicKey} {fee : Long} {feeAssetId : Asset}
    {timestamp : Long} {version : Int32} {proofs : List ByteStr} {data : PBData}
    (hprotobuf : protobuf tx =
      .ok (create sender fee feeAssetId timestamp version proofs data)) (hdata : data ≠ .Empty) :
    Returns tx ↔ ∃ t, createVanilla version Crypto.chainId sender fee
      (PBAmounts.toVanillaAssetId (PBAmounts.toPBAssetId feeAssetId)) timestamp ⟨proofs⟩ data =
        .ok t ∧ t.plain = tx.plain := by
  rw [Returns, hprotobuf, Validation.ok_bind, vanilla_create hdata]

omit [Crypto] [PBTransactionSerializer] [ScriptReader] in
/-- Only the entries of data are read from bytes. -/
theorem plain_eq_iff {tx t : Transaction} (hdata : ∀ d, tx ≠ .data d) :
    t.plain = tx.plain ↔ t = tx := by
  have htx : tx.plain = tx := by
    cases tx with
    | data d => exact absurd rfl (hdata d)
    | _ => rfl
  rw [htx]
  cases t with
  | data d =>
    refine iff_of_false ?_ (fun h => hdata d h.symm)
    intro h
    rw [Transaction.plain] at h
    exact hdata _ h.symm
  | _ => exact Iff.rfl

omit [Crypto] [PBTransactionSerializer] [ScriptReader] in
theorem exists_bind {α : Type} {x : Validation α} {f : α → Validation Transaction}
    {P : Transaction → Prop} :
    (∃ t, x >>= f = .ok t ∧ P t) ↔ ∃ a, x = .ok a ∧ ∃ t, f a = .ok t ∧ P t := by
  constructor
  · rintro ⟨t, h, hP⟩
    obtain ⟨a, ha, h⟩ := Validation.bind_eq_ok.mp h
    exact ⟨a, ha, t, h, hP⟩
  · rintro ⟨a, ha, t, h, hP⟩
    exact ⟨t, Validation.bind_eq_ok.mpr ⟨a, ha, h⟩, hP⟩

omit [ScriptReader] in
/-- A validated transaction is given exactly if it is the one that is built. -/
theorem exists_validatedEither {tx t : Transaction} (hvalid : tx.validate = [])
    (hdata : ∀ d, tx ≠ .data d) :
    (∃ t', validatedEither t = .ok t' ∧ t'.plain = tx.plain) ↔ t = tx := by
  constructor
  · rintro ⟨t', h, hplain⟩
    obtain ⟨-, rfl⟩ := validatedEither_eq_ok.mp h
    exact (plain_eq_iff hdata).mp hplain
  · rintro rfl
    exact ⟨t, validatedEither_eq_ok.mpr ⟨hvalid, rfl⟩, rfl⟩

theorem returns_genesis {tx : GenesisTransaction} (hvalid : Transaction.validate (.genesis tx) = []) :
    Returns (.genesis tx) ↔ Representable (.genesis tx) := by
  rw [returns_create (.genesis tx) rfl (by simp), createVanilla, exists_bind]
  simp only [exists_validatedEither hvalid (by simp)]
  obtain ⟨recipient, amount, timestamp, signature⟩ := tx
  simp only [Transaction.genesis.injEq, GenesisTransaction.mk.injEq, Representable,
    ← PBRecipients.toAddressOfBytes_addressDigest]
  constructor
  · rintro ⟨addr, haddr, rfl, -, -, hsignature⟩
    exact ⟨haddr, hsignature.symm⟩
  · rintro ⟨haddr, hsignature⟩
    exact ⟨recipient, haddr, rfl, trivial, trivial, hsignature.symm⟩

theorem not_returns_payment {tx : PaymentTransaction}
    (hvalid : Transaction.validate (.payment tx) = []) : ¬Returns (.payment tx) := by
  rw [returns_create (.payment tx) rfl (by simp), createVanilla, exists_bind]
  rintro ⟨-, -, t, h, hplain⟩
  -- what is read as a whole address is not one that was cut
  rcases hread : Address.fromBytes (PBRecipients.addressDigest tx.recipient) with e | addr
  · rw [hread] at h
    simp at h
  · rw [hread] at h
    have heq := (exists_validatedEither hvalid (by simp)).mp ⟨t, h, hplain⟩
    have haddr : addr = tx.recipient := by
      rw [Transaction.payment.injEq] at heq
      exact congrArg PaymentTransaction.recipient heq
    have hbytes := congrArg (fun a => a.bytes.length) haddr
    rw [Address.fromBytes_bytes hread, PBRecipients.addressDigest, slice, List.length_take,
      List.length_drop] at hbytes
    have hwhole : addr.bytes.length = Address.AddressLength := by
      rw [Address.fromBytes_bytes hread]
      by_contra hne
      rw [Address.fromBytes, if_pos hne] at hread
      simp at hread
    rw [haddr] at hwhole
    rw [hwhole] at hbytes
    exact absurd hbytes (by decide)

theorem returns_issue {tx : IssueTransaction} (hvalid : Transaction.validate (.issue tx) = []) :
    Returns (.issue tx) ↔ Representable (.issue tx) := by
  rw [returns_create (.issue tx) rfl (by simp), createVanilla, exists_bind]
  simp only [exists_validatedEither hvalid (by simp), Int8.toInt8_toInt32]
  rw [Representable, ← readScript_map_bytes]
  constructor
  · rintro ⟨s, hs, heq⟩
    rw [hs, ← Transaction.issue.inj heq]
  · intro hs
    exact ⟨tx.script, hs, rfl⟩

theorem returns_transfer {tx : TransferTransaction} :
    Returns (.transfer tx) ↔ Representable (.transfer tx) := by
  rw [returns_create (.transfer tx) rfl (by simp), createVanilla, exists_bind]
  have hplain : ∀ t : Transaction, t.plain = Transaction.plain (.transfer tx) ↔ t = .transfer tx :=
    fun t => plain_eq_iff (by simp)
  simp only [Int8.toInt8_toInt32, hplain, Except.ok.injEq,
    exists_eq_left', PBAmounts.fromAssetIdAndAmount]
  rw [Representable, ← PBRecipients.toAddressOrAlias_create,
    ← PBAmounts.toVanillaAssetId_toPBAssetId, ← PBAmounts.toVanillaAssetId_toPBAssetId]
  constructor
  · rintro ⟨address, haddress, heq⟩
    have heq := Transaction.transfer.inj heq
    rw [haddress]
    exact ⟨by rw [← heq], congrArg TransferTransaction.assetId heq,
      congrArg TransferTransaction.feeAssetId heq⟩
  · rintro ⟨haddress, hasset, hfee⟩
    refine ⟨tx.recipient, haddress, ?_⟩
    rw [hasset, hfee]

theorem returns_reissue {tx : ReissueTransaction}
    (hvalid : Transaction.validate (.reissue tx) = []) : Returns (.reissue tx) := by
  rw [returns_create (.reissue tx) rfl (by simp), createVanilla,
    exists_validatedEither hvalid (by simp), Int8.toInt8_toInt32]

theorem returns_burn {tx : BurnTransaction} (hvalid : Transaction.validate (.burn tx) = []) :
    Returns (.burn tx) := by
  rw [returns_create (.burn tx) rfl (by simp), createVanilla,
    exists_validatedEither hvalid (by simp), Int8.toInt8_toInt32]

theorem returns_leaseCancel {tx : LeaseCancelTransaction}
    (hvalid : Transaction.validate (.leaseCancel tx) = []) : Returns (.leaseCancel tx) := by
  rw [returns_create (.leaseCancel tx) rfl (by simp), createVanilla,
    exists_validatedEither hvalid (by simp), Int8.toInt8_toInt32]

theorem returns_lease {tx : LeaseTransaction} (hvalid : Transaction.validate (.lease tx) = []) :
    Returns (.lease tx) ↔ Representable (.lease tx) := by
  rw [returns_create (.lease tx) rfl (by simp), createVanilla, exists_bind]
  simp only [exists_validatedEither hvalid (by simp), Int8.toInt8_toInt32]
  rw [Representable, ← PBRecipients.toAddressOrAlias_create]
  constructor
  · rintro ⟨address, haddress, heq⟩
    rw [haddress, ← Transaction.lease.inj heq]
  · intro haddress
    exact ⟨tx.recipient, haddress, rfl⟩

theorem returns_createAlias {tx : CreateAliasTransaction}
    (hvalid : Transaction.validate (.createAlias tx) = []) :
    Returns (.createAlias tx) ↔ Representable (.createAlias tx) := by
  rw [returns_create (.createAlias tx) rfl (by simp), createVanilla, exists_bind]
  simp only [exists_validatedEither hvalid (by simp), Int8.toInt8_toInt32]
  rw [Representable]
  obtain ⟨version, sender, name, fee, timestamp, ⟨proofs⟩⟩ := tx
  simp only [Transaction.createAlias.injEq, CreateAliasTransaction.mk.injEq, Proofs.mk.injEq,
    Proofs.toSignature, true_and]
  -- the first proof is all of them exactly if there is one
  have hproofs : [proofs.headD []] = proofs ↔ proofs.length = 1 := by
    rcases proofs with _ | ⟨p, _ | ⟨q, rest⟩⟩ <;> simp
  rw [← hproofs]
  constructor
  · rintro ⟨a, ha, rfl, hsame⟩
    exact ⟨ha, hsame⟩
  · rintro ⟨ha, hsame⟩
    exact ⟨name, ha, rfl, hsame⟩

theorem returns_setScript {tx : SetScriptTransaction}
    (hvalid : Transaction.validate (.setScript tx) = []) :
    Returns (.setScript tx) ↔ Representable (.setScript tx) := by
  rw [returns_create (.setScript tx) rfl (by simp), createVanilla, exists_bind]
  simp only [exists_validatedEither hvalid (by simp)]
  rw [Representable, ← readScript_map_bytes]
  constructor
  · rintro ⟨s, hs, heq⟩
    rw [hs, ← Transaction.setScript.inj heq]
    exact ⟨rfl, rfl⟩
  · rintro ⟨hversion, hs⟩
    refine ⟨tx.script, hs, ?_⟩
    rw [← hversion]

theorem returns_setAssetScript {tx : SetAssetScriptTransaction}
    (hvalid : Transaction.validate (.setAssetScript tx) = []) :
    Returns (.setAssetScript tx) ↔ Representable (.setAssetScript tx) := by
  rw [returns_create (.setAssetScript tx) rfl (by simp), createVanilla, exists_bind]
  simp only [exists_validatedEither hvalid (by simp)]
  rw [Representable, ← readScript_map_bytes]
  constructor
  · rintro ⟨s, hs, heq⟩
    rw [hs, ← Transaction.setAssetScript.inj heq]
    exact ⟨rfl, rfl⟩
  · rintro ⟨hversion, hs⟩
    refine ⟨tx.script, hs, ?_⟩
    rw [← hversion]

theorem returns_exchange {tx : ExchangeTransaction}
    (hvalid : Transaction.validate (.exchange tx) = []) :
    Returns (.exchange tx) ↔ Representable (.exchange tx) := by
  rw [returns_create (.exchange tx) rfl (by simp), createVanilla, exists_bind]
  simp only [exists_bind, exists_validatedEither hvalid (by simp)]
  simp only [Representable, List.forall_mem_cons, List.not_mem_nil, false_implies, implies_true,
    and_true, ← PBOrders.vanilla_protobuf]
  constructor
  · rintro ⟨buy, hbuy, sell, hsell, heq⟩
    rw [hbuy, hsell, ← Transaction.exchange.inj heq]
    exact ⟨rfl, rfl, rfl⟩
  · rintro ⟨hversion, hbuy, hsell⟩
    refine ⟨tx.buyOrder, hbuy, tx.sellOrder, hsell, ?_⟩
    rw [← hversion]

theorem returns_sponsorFee {tx : SponsorFeeTransaction}
    (hvalid : Transaction.validate (.sponsorFee tx) = []) :
    Returns (.sponsorFee tx) ↔ Representable (.sponsorFee tx) := by
  rw [returns_create (.sponsorFee tx) rfl (by simp), createVanilla,
    exists_validatedEither hvalid (by simp), Representable]
  -- no fee is written as zero, and the fee there is is positive
  have hfee : (if 0 < tx.minSponsoredAssetFee.getD 0 then some (tx.minSponsoredAssetFee.getD 0)
      else none) = tx.minSponsoredAssetFee := by
    cases hmin : tx.minSponsoredAssetFee with
    | none => rfl
    | some m =>
      have hpos : 0 < m := by
        rw [Transaction.validate, SponsorFeeTxValidator.validate, List.append_eq_nil_iff,
          V.cond_eq_nil, hmin] at hvalid
        simpa using hvalid.1
      rw [Option.getD_some, if_pos hpos]
  rw [hfee]
  constructor
  · intro heq
    rw [← Transaction.sponsorFee.inj heq]
  · intro hversion
    rw [← hversion]

/-- A transfer as it is read back, or nothing where its recipient is refused. -/
def readTransfer (t : PBMassTransferItem) : Option ParsedTransfer :=
  match PBRecipients.toAddressOrAlias (t.address.getD .Empty) with
  | .ok address => some ⟨address, t.amount⟩
  | .error _ => none

theorem returns_massTransfer {tx : MassTransferTransaction}
    (hvalid : Transaction.validate (.massTransfer tx) = []) :
    Returns (.massTransfer tx) ↔ Representable (.massTransfer tx) := by
  rw [returns_create (.massTransfer tx) rfl (by simp), createVanilla,
    exists_validatedEither hvalid (by simp), Representable]
  -- every transfer is read as it is, or one is dropped
  have htransfers : ((tx.transfers.map fun t =>
        (⟨some (PBRecipients.create t.address), t.amount⟩ : PBMassTransferItem)).filterMap
      readTransfer) = tx.transfers ↔ ∀ t ∈ tx.transfers, t.address.OnChain := by
    rw [List.filterMap_map, List.filterMap_eq_self_iff]
    refine forall₂_congr fun t _ => ?_
    rw [← PBRecipients.toAddressOrAlias_create]
    dsimp only [Function.comp, readTransfer, Option.getD_some]
    rcases PBRecipients.toAddressOrAlias (PBRecipients.create t.address) with e | address
    · simp
    · simp only [Option.some.injEq, Except.ok.injEq]
      exact ⟨fun h => congrArg ParsedTransfer.address h, fun h => by rw [h]⟩
  rw [← htransfers, ← PBAmounts.toVanillaAssetId_toPBAssetId]
  constructor
  · intro heq
    have heq := Transaction.massTransfer.inj heq
    exact ⟨(congrArg MassTransferTransaction.version heq).symm,
      congrArg MassTransferTransaction.assetId heq,
      congrArg MassTransferTransaction.transfers heq⟩
  · rintro ⟨hversion, hasset, hsame⟩
    rw [Transaction.massTransfer.injEq, hasset, ← hversion]
    exact congrArg (fun l => { tx with transfers := l }) hsame

omit [Crypto] [PBTransactionSerializer] [ScriptReader] in
/-- An entry that may be held can be written. -/
theorem writable_of_valid {e : DataEntry} (h : e.valid = true) : e.writable = true := by
  rw [DataEntry.valid, Bool.and_eq_true] at h
  rw [DataEntry.writable, Bool.or_eq_true]
  exact Or.inr h.2

theorem returns_data {tx : DataTransaction} (hvalid : Transaction.validate (.data tx) = []) :
    Returns (.data tx) ↔ Representable (.data tx) := by
  rw [returns_create (.data tx) rfl (by simp), createVanilla, exists_bind]
  simp only [mapM_toVanillaDataEntry, Except.ok.injEq, exists_eq_left']
  have hplain : (tx.data.map fun e => (⟨e.key, e.value, none⟩ : DataEntry)) =
      tx.data.map DataEntry.plain := rfl
  rw [hplain, Representable]
  obtain ⟨version, sender, entries, fee, timestamp, proofs⟩ := tx
  dsimp only at hvalid ⊢
  -- the version that is read is the first, whatever was written
  have hversion : ∀ t : Transaction,
      t = .data ⟨1, sender, entries.map DataEntry.plain, fee, timestamp, proofs⟩ →
      (t.plain = Transaction.plain (.data ⟨version, sender, entries, fee, timestamp, proofs⟩) ↔
        version = 1) := by
    rintro t rfl
    simp [Transaction.plain, DataEntry.plain, eq_comm]
  have hchecks : version = 1 →
      (Transaction.validate (.data ⟨1, sender, entries.map DataEntry.plain, fee, timestamp,
          proofs⟩) = [] ↔
        (TxSerializer.bytes (Transaction.plain
          (.data ⟨version, sender, entries, fee, timestamp, proofs⟩))).length ≤
            DataTransaction.MaxBytes) := by
    rintro rfl
    simp only [Transaction.validate, DataTxValidator.validate, List.append_eq_nil_iff,
      V.cond_eq_nil, Bool.and_eq_true, List.all_eq_true, decide_eq_true_eq, fitsIn] at hvalid ⊢
    obtain ⟨⟨⟨⟨⟨hcount, hentries⟩, hkeys⟩, hnodup⟩, hfee⟩, ⟨⟨-, hwritable⟩, -⟩⟩ := hvalid
    have hvalid' : ∀ e ∈ entries.map DataEntry.plain, e.valid = true := by
      intro e he
      obtain ⟨e', he', rfl⟩ := List.mem_map.mp he
      exact hentries e' he'
    constructor
    · rintro ⟨-, -, hsize⟩
      exact hsize
    · intro hsize
      refine ⟨⟨⟨⟨⟨?_, hvalid'⟩, ?_⟩, ?_⟩, hfee⟩, ⟨rfl, fun e he => ?_, hwritable.2⟩, hsize⟩
      · rwa [List.length_map]
      · intro e he
        obtain ⟨e', he', rfl⟩ := List.mem_map.mp he
        exact hkeys e' he'
      · rw [List.map_map]
        exact hnodup
      · exact writable_of_valid (hvalid' e he)
  constructor
  · rintro ⟨t, h, hsame⟩
    obtain ⟨hnew, htx⟩ := validatedEither_eq_ok.mp h
    have hone := (hversion t htx).mp hsame
    exact ⟨hone, (hchecks hone).mp hnew⟩
  · rintro ⟨hone, hsize⟩
    exact ⟨_, validatedEither_eq_ok.mpr ⟨(hchecks hone).mpr hsize, rfl⟩, (hversion _ rfl).mpr hone⟩

omit [ScriptReader] in
/-- The call of a validated invocation: literals, and short enough. -/
theorem call_of_validate {tx : InvokeScriptTransaction} (hversion : tx.version = 1)
    (hvalid : Transaction.validate (.invokeScript tx) = []) {f : FunctionCall}
    (hf : tx.funcCallOpt = some f) :
    (∀ a ∈ f.args, Serde.Literal a) ∧ (Serde.serialize f).length ≤ Short.MaxValue := by
  simp only [Transaction.validate, InvokeScriptTxValidator.validate,
    InvokeScriptTxValidator.callChecks, List.append_eq_nil_iff, V.cond_eq_nil, fitsIn,
    Bool.and_eq_true, decide_eq_true_eq, Option.all_eq_true, List.all_eq_true] at hvalid
  obtain ⟨⟨⟨⟨-, hliterals⟩, -⟩, -⟩, -, hlength⟩ := hvalid
  constructor
  · rintro a ha bytes rfl
    simpa using hliterals f hf _ ha
  · -- the call is a part of what is at most five kilobytes long
    have hlimit : ContractLimits.MaxInvokeScriptSizeInBytes ≤ Short.MaxValue := by decide
    rw [TxSerializer.bytes_invokeScript hversion, hf, Option.map_some, Deser.serializeOption] at hlength
    simp only [List.length_append, List.length_cons] at hlength
    omega

/-- An invocation is read as one of the first version. -/
theorem version_of_returns {tx : InvokeScriptTransaction} (h : Returns (.invokeScript tx)) :
    tx.version = 1 := by
  obtain ⟨t, h, hplain⟩ := h
  rw [plain_eq_iff (by simp)] at hplain
  rw [hplain, protobuf] at h
  obtain ⟨p, hp, h⟩ := Validation.bind_eq_ok.mp h
  obtain ⟨call, -, hp⟩ := Validation.bind_eq_ok.mp hp
  rw [← Except.ok.inj hp, vanilla_create (by simp), createVanilla] at h
  obtain ⟨address, -, h⟩ := Validation.bind_eq_ok.mp h
  obtain ⟨f, -, h⟩ := Validation.bind_eq_ok.mp h
  obtain ⟨-, h⟩ := validatedEither_eq_ok.mp h
  exact congrArg InvokeScriptTransaction.version (Transaction.invokeScript.inj h)

theorem returns_invokeScript {tx : InvokeScriptTransaction}
    (hvalid : Transaction.validate (.invokeScript tx) = []) :
    Returns (.invokeScript tx) ↔ Representable (.invokeScript tx) := by
  by_cases hversion : tx.version = 1
  swap
  · exact iff_of_false (fun h => hversion (version_of_returns h)) (fun h => hversion h.1)
  have hwrite : writeFunctionCall tx.funcCallOpt =
      .ok (Deser.serializeOptionOfArrayWithLength (tx.funcCallOpt.map Serde.serialize)) := by
    rw [writeFunctionCall, if_pos]
    rw [Option.all_eq_true]
    exact fun f hf => decide_eq_true (call_of_validate hversion hvalid hf).2
  have hread : readFunctionCall (Deser.serializeOptionOfArrayWithLength
      (tx.funcCallOpt.map Serde.serialize)) = .ok tx.funcCallOpt :=
    readFunctionCall_serialize (fun f hf => (call_of_validate hversion hvalid hf).1)
      (fun f hf => (call_of_validate hversion hvalid hf).2)
  rw [Returns, protobuf, hwrite, Validation.ok_bind, Validation.ok_bind, vanilla_create (by simp),
    createVanilla, exists_bind]
  simp only [exists_bind, hread, Except.ok.injEq, exists_eq_left',
    exists_validatedEither hvalid (by simp)]
  have hpayments : ((tx.payments.map fun p => PBAmounts.fromAssetIdAndAmount p.assetId p.amount).map
      fun p => (⟨p.amount, PBAmounts.toVanillaAssetId p.assetId⟩ : Payment)) = tx.payments ↔
      ∀ p ∈ tx.payments, p.assetId.Named := by
    nth_rewrite 2 [← List.map_id tx.payments]
    rw [List.map_map, List.map_inj_left]
    refine forall₂_congr fun p _ => ?_
    rw [← PBAmounts.toVanillaAssetId_toPBAssetId]
    exact ⟨fun h => congrArg Payment.assetId h, fun h => congrArg (Payment.mk p.amount) h⟩
  rw [Representable, ← hpayments, ← PBAmounts.toVanillaAssetId_toPBAssetId,
    ← PBRecipients.toAddressOrAlias_create]
  constructor
  · rintro ⟨address, haddress, heq⟩
    have heq := Transaction.invokeScript.inj heq
    refine ⟨hversion, ?_, congrArg InvokeScriptTransaction.feeAssetId heq,
      congrArg InvokeScriptTransaction.payments heq⟩
    rw [haddress, ← heq]
  · rintro ⟨-, haddress, hfee, hsame⟩
    refine ⟨tx.dAppAddressOrAlias, haddress, ?_⟩
    rw [hfee, hsame, ← hversion]

theorem returns_iff {tx : Transaction} (hvalid : tx.validate = []) :
    Returns tx ↔ Representable tx := by
  cases tx with
  | genesis tx => exact returns_genesis hvalid
  | payment tx => exact iff_of_false (not_returns_payment hvalid) id
  | issue tx => exact returns_issue hvalid
  | transfer tx => exact returns_transfer
  | reissue tx => exact iff_of_true (returns_reissue hvalid) trivial
  | burn tx => exact iff_of_true (returns_burn hvalid) trivial
  | exchange tx => exact returns_exchange hvalid
  | lease tx => exact returns_lease hvalid
  | leaseCancel tx => exact iff_of_true (returns_leaseCancel hvalid) trivial
  | createAlias tx => exact returns_createAlias hvalid
  | massTransfer tx => exact returns_massTransfer hvalid
  | data tx => exact returns_data hvalid
  | setScript tx => exact returns_setScript hvalid
  | sponsorFee tx => exact returns_sponsorFee hvalid
  | setAssetScript tx => exact returns_setAssetScript hvalid
  | invokeScript tx => exact returns_invokeScript hvalid

end PBTransactions

/-! ## 5. Blocks -/

namespace Validation

omit [Crypto]

variable {α : Type}

/-- `map` and then `sequence`: everything is converted before a refusal is looked at, so what is
thrown anywhere comes first. -/
def sequence (results : List (Validation α)) : Validation (List α) :=
  match results.findSome? fun
      | .error (.thrown m) => some m
      | _ => none with
  | some m => .throwing m
  | none => results.mapM id

theorem sequence_eq_ok {results : List (Validation α)} {as : List α} :
    sequence results = .ok as ↔ List.Forall₂ (fun x a => x = .ok a) results as := by
  unfold sequence
  split
  · rename_i m hthrown
    refine iff_of_false (by simp [throwing]) fun h => ?_
    obtain ⟨x, hx, hm⟩ := List.exists_of_findSome?_eq_some hthrown
    obtain ⟨i, hi, rfl⟩ := List.mem_iff_getElem.mp hx
    have hok := h.get hi (h.length_eq ▸ hi)
    rw [List.get_eq_getElem] at hok
    rw [hok] at hm
    cases hm
  · exact mapM_eq_ok

end Validation

structure PBHeader where
  chainId : Int32
  reference : ByteStr
  baseTarget : Long
  generationSignature : ByteStr
  featureVotes : List Int32
  timestamp : Long
  version : Int32
  generator : ByteStr
  rewardVote : Long
  transactionsRoot : ByteStr

structure PBBlock where
  header : Option PBHeader
  signature : ByteStr
  transactions : List PBSignedTransaction

/-- A block as equality sees it. -/
def Block.plain (b : Block) : Block :=
  { b with transactionData := b.transactionData.map Transaction.plain }

namespace PBBlocks

section

omit [Crypto]

def shortToInt (s : Short) : Int32 := Int32.ofNat s.toUInt16.toNat

def intToShort (int : Int32) : Validation Short :=
  if 0 ≤ int ∧ int ≤ 65535 then .ok int.toInt16
  else .throwing s!"requirement failed: Short overflow: {int}"

theorem intToShort_shortToInt (s : Short) : intToShort (shortToInt s) = .ok s := by
  have hlt : s.toUInt16.toNat < 2 ^ 16 := s.toUInt16.toNat_lt
  have hint : (shortToInt s).toInt = s.toUInt16.toNat :=
    Int32.toInt_ofNat_of_lt (by omega)
  have hrange : 0 ≤ shortToInt s ∧ shortToInt s ≤ 65535 := by
    rw [Int32.le_iff_toInt_le, Int32.le_iff_toInt_le, hint]
    constructor
    · exact Int.natCast_nonneg _
    · have hmax : (65535 : Int32).toInt = 65535 := by decide
      omega
  have hshort : (shortToInt s).toInt16 = s := by
    rw [shortToInt, Int32.toInt16_ofNat', ← UInt16.toInt16_ofNat', UInt16.ofNat_toNat,
      Int16.toInt16_toUInt16]
  rw [intToShort, if_pos hrange, hshort]

theorem mapM_intToShort (votes : List Short) : (votes.map shortToInt).mapM intToShort = .ok votes := by
  rw [Validation.mapM_eq_ok, List.forall₂_map_left_iff, List.forall₂_same]
  exact fun s _ => intToShort_shortToInt s

end

variable [PBTransactionSerializer] [ScriptReader]

/-- `PBBlocks.vanilla(block)`. -/
def vanilla (block : PBBlock) : Validation Block := do
  let header ← .ofOption (.GenericError "No block header") block.header
  let transactions ← Validation.sequence (block.transactions.map PBTransactions.vanilla)
  let featureVotes ← header.featureVotes.mapM intToShort
  .ok
    { header :=
        { version := header.version.toInt8
          timestamp := header.timestamp
          reference := header.reference
          baseTarget := header.baseTarget
          generationSignature := header.generationSignature
          generator := header.generator
          featureVotes := featureVotes
          rewardVote := header.rewardVote
          transactionsRoot := header.transactionsRoot }
      signature := block.signature
      transactionData := transactions }

omit [PBTransactionSerializer] [ScriptReader] in
/-- `PBBlocks.protobuf`. -/
def protobuf (block : Block) : Validation PBBlock := do
  let transactions ← block.transactionData.mapM PBTransactions.protobuf
  .ok
    { header := some
        { chainId := Crypto.chainId.toInt32
          reference := block.header.reference
          baseTarget := block.header.baseTarget
          generationSignature := block.header.generationSignature
          featureVotes := block.header.featureVotes.map shortToInt
          timestamp := block.header.timestamp
          version := block.header.version.toInt32
          generator := block.header.generator
          rewardVote := block.header.rewardVote
          transactionsRoot := block.header.transactionsRoot }
      signature := block.signature
      transactions := transactions }

/-- The block that is written is the one that is read. -/
def Returns (b : Block) : Prop := ∃ b', protobuf b >>= vanilla = .ok b' ∧ b'.plain = b.plain

/-- The transactions of a block, one by one. -/
theorem exists_sequence_iff {txs : List Transaction} :
    (∃ ps, txs.mapM PBTransactions.protobuf = .ok ps ∧
      ∃ txs', Validation.sequence (ps.map PBTransactions.vanilla) = .ok txs' ∧
        txs'.map Transaction.plain = txs.map Transaction.plain) ↔
      ∀ tx ∈ txs, PBTransactions.Returns tx := by
  simp only [Validation.mapM_eq_ok, Validation.sequence_eq_ok, List.forall₂_map_left_iff]
  induction txs with
  | nil => simp
  | cons tx rest ih =>
    rw [List.forall_mem_cons, ← ih]
    constructor
    · rintro ⟨ps, hps, txs', htxs', hplain⟩
      obtain ⟨p, ps', hp, hps', rfl⟩ := List.forall₂_cons_left_iff.mp hps
      obtain ⟨tx', rest', htx', hrest', rfl⟩ := List.forall₂_cons_left_iff.mp htxs'
      rw [List.map_cons, List.map_cons, List.cons.injEq] at hplain
      refine ⟨⟨tx', ?_, hplain.1⟩, ps', hps', rest', hrest', hplain.2⟩
      rw [hp, Validation.ok_bind]
      exact htx'
    · rintro ⟨⟨tx', htx', hplain⟩, ps, hps, txs', htxs', hrest⟩
      obtain ⟨p, hp, htx'⟩ := Validation.bind_eq_ok.mp htx'
      refine ⟨p :: ps, .cons hp hps, tx' :: txs', .cons htx' htxs', ?_⟩
      rw [List.map_cons, List.map_cons, hplain, hrest]

theorem returns_iff {b : Block} :
    Returns b ↔ ∀ tx ∈ b.transactionData, PBTransactions.Returns tx := by
  rw [← exists_sequence_iff, Returns]
  obtain ⟨⟨version, timestamp, reference, baseTarget, generationSignature, generator, featureVotes,
    rewardVote, transactionsRoot⟩, signature, txs⟩ := b
  constructor
  · rintro ⟨b', h, hplain⟩
    obtain ⟨p, hp, h⟩ := Validation.bind_eq_ok.mp h
    obtain ⟨ps, hps, hp⟩ := Validation.bind_eq_ok.mp hp
    obtain rfl := Except.ok.inj hp
    obtain ⟨header, -, h⟩ := Validation.bind_eq_ok.mp h
    obtain ⟨txs', htxs', h⟩ := Validation.bind_eq_ok.mp h
    obtain ⟨votes, -, h⟩ := Validation.bind_eq_ok.mp h
    obtain rfl := Except.ok.inj h
    exact ⟨ps, hps, txs', htxs', congrArg Block.transactionData hplain⟩
  · rintro ⟨ps, hps, txs', htxs', hplain⟩
    dsimp only at hps hplain
    unfold protobuf
    dsimp only
    rw [hps, Validation.ok_bind, Validation.ok_bind, vanilla]
    dsimp only [Validation.ofOption]
    rw [htxs', Validation.ok_bind, Validation.ok_bind, mapM_intToShort, Validation.ok_bind,
      Int8.toInt8_toInt32]
    refine ⟨_, rfl, ?_⟩
    rw [Block.plain, Block.plain, hplain]

/-- **A transaction comes back from its message** exactly if the message of its type has room for
it, **and a block** exactly if all its transactions do: for everything validation accepts. -/
theorem returns_iff_representable {tx : Transaction} {b : Block} (htx : tx.validate = [])
    (hb : ∀ t ∈ b.transactionData, t.validate = []) :
    (PBTransactions.Returns tx ↔ PBTransactions.Representable tx) ∧
      (Returns b ↔ ∀ t ∈ b.transactionData, PBTransactions.Representable t) := by
  refine ⟨PBTransactions.returns_iff htx, ?_⟩
  rw [returns_iff]
  exact forall₂_congr fun t ht => PBTransactions.returns_iff (hb t ht)

end PBBlocks

end

/-! ## 6. An exchange of the first version

The founder matches two orders of the first version. The exchange is supported and valid, and
its message says version 1, but an exchange that is read is of the second version. -/

namespace Devnet

/-- An order of the first version, for a token, matched by the founder. -/
def firstOrder (owner : Account) (orderType : OrderType) : Order where
  version := 1
  senderPublicKey := owner.publicKey
  matcherPublicKey := founder.publicKey
  assetPair := ⟨.Waves, .issued ⟨tokenId⟩⟩
  orderType := orderType
  amount := 300
  price := 200000000
  timestamp := 1500000000000
  expiration := 1500086400000
  matcherFee := 300000
  matcherFeeAssetId := .Waves
  proofs := ⟨[]⟩

def firstExchange : ExchangeTransaction where
  version := 1
  buyOrder := firstOrder bob .BUY
  sellOrder := firstOrder miner .SELL
  amount := 300
  price := 200000000
  buyMatcherFee := 300000
  sellMatcherFee := 300000
  fee := 300000
  timestamp := 1500000000000
  proofs := ⟨[]⟩

def transferBlock : Block :=
  { emptyBlock with transactionData := [.transfer transferToBob, .issue token] }

end Devnet

section
open Devnet

local instance encodingCrypto : Crypto := KnownAnswers.crypto {}
local instance encodingSerializer : PBTransactionSerializer := pbTransactionSerializer
local instance encodingScripts : ScriptReader := scriptReader

theorem firstExchange_run :
    Transaction.validate (.transfer transferToBob) = [] ∧
      Transaction.validate (.issue token) = [] ∧
      Transaction.validate (.exchange firstExchange) = [] := by
  decide +kernel

theorem PBBlocks.returns_iff_representable_transferToBob :
    (PBTransactions.Returns (.transfer transferToBob) ↔
        PBTransactions.Representable (.transfer transferToBob)) ∧
      (Returns transferBlock ↔
        ∀ t ∈ transferBlock.transactionData, PBTransactions.Representable t) :=
  returns_iff_representable firstExchange_run.1 (List.forall_mem_cons.mpr
    ⟨firstExchange_run.1, List.forall_mem_singleton.mpr firstExchange_run.2.1⟩)

/-- A valid exchange of the first version does not come back from its message. -/
theorem PBBlocks.not_returns_firstExchange :
    ¬((∀ tx : Transaction, tx.validate = [] → PBTransactions.Returns tx) ∧
      ∀ b : Block, (∀ tx ∈ b.transactionData, tx.validate = []) → Returns b) := by
  rintro ⟨hclaim, -⟩
  have hreturns := hclaim (.exchange firstExchange) firstExchange_run.2.2
  have hversion := ((PBTransactions.returns_exchange firstExchange_run.2.2).mp hreturns).1
  exact absurd hversion (by decide)

end

end WavesNode
