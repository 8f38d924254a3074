/-
What a message loses when it is read.

A message is more than the transaction that is made of it. The type of a transaction has no
place for the asset of most fees, for a second proof of an alias, for the sender of an
exchange; versions and decimals are bytes; a transfer of a mass transfer that has no readable
recipient is left out; a call and a script are kept as what they mean. `Kept` is what a message
may say so that all of it is written again.

A recipient has three spellings in a message, and an absent part stands for its default.
`normal` is the message with the recipients in the short form and nothing left out, and
"written again" is said of it.
-/
import WavesNode.PBEncoding
import WavesNode.PartSpelling

set_option autoImplicit false

namespace WavesNode

open ByteBuffer

section
variable [Crypto]

/-! ## 1. Normal messages -/

/-- The short form of an address, whatever its bytes are. -/
def PBRecipients.normalAddress (bytes : ByteStr) : ByteStr :=
  match PBRecipients.toAddressOfBytes bytes with
  | .ok address => PBRecipients.addressDigest address
  | .error _ => bytes

def PBRecipient.normal (r : PBRecipient) : PBRecipient :=
  match PBRecipients.toAddressOrAlias r with
  | .ok address => PBRecipients.create address
  | .error _ => r

omit [Crypto] in
def PBOrder.normal (o : PBOrder) : PBOrder :=
  { o with
    assetPair := some (o.assetPair.getD ([], []))
    matcherFee := some (o.matcherFee.getD ⟨[], 0⟩) }

def PBMassTransferItem.normal (t : PBMassTransferItem) : PBMassTransferItem :=
  { t with address := some (t.address.getD .Empty).normal }

@[simp] def PBData.normal : PBData → PBData
  | .Genesis recipient amount => .Genesis (PBRecipients.normalAddress recipient) amount
  | .Payment recipient amount => .Payment (PBRecipients.normalAddress recipient) amount
  | .Transfer recipient amount attachment =>
    .Transfer (recipient.map PBRecipient.normal) amount attachment
  | .Exchange amount price buyMatcherFee sellMatcherFee orders =>
    .Exchange amount price buyMatcherFee sellMatcherFee (orders.map PBOrder.normal)
  | .Lease recipient amount => .Lease (recipient.map PBRecipient.normal) amount
  | .MassTransfer assetId transfers attachment =>
    .MassTransfer assetId (transfers.map PBMassTransferItem.normal) attachment
  | .InvokeScript dApp functionCall payments =>
    .InvokeScript (dApp.map PBRecipient.normal) functionCall payments
  | data => data

/-- The same version, sender, fee, timestamp and proofs, and the same data in its normal form. -/
def PBSignedTransaction.normal (p : PBSignedTransaction) : PBSignedTransaction :=
  { p with transaction := p.transaction.map fun t => { t with data := t.data.normal } }

/-! ## 2. What is kept -/

omit [Crypto] in
/-- A number that is narrowed to a byte is that byte. -/
@[simp] def FitsByte (n : Int32) : Prop := n.toInt8.toInt32 = n

/-- A script is written as it was read. -/
def ScriptKept [ScriptReader] (script : Option ByteStr) : Prop :=
  ∀ bytes s, script = some bytes → ScriptReader.fromBytes bytes = .ok s → s.bytes = bytes

omit [Crypto] in
/-- The bytes of a call are the mark of none, or a mark, a length and nothing but a call whose
strings are well formed. -/
def CallKept (bytes : ByteStr) : Prop :=
  bytes = [0] ∨ ∃ arr : ByteStr, arr.length ≤ Short.MaxValue ∧
    bytes = [1] ++ Deser.serializeArrayWithLength arr ∧ Serde.CallSpelled arr 0

namespace PBTransaction

omit [Crypto] in
/-- A type has some versions, and a transaction made of a message has one of them. -/
@[simp] def VersionKept (t : PBTransaction) : Prop :=
  match t.data with
  | .Transfer _ _ _ | .CreateAlias _ | .Issue _ _ _ _ _ _ | .Reissue _ _ | .Burn _
  | .Lease _ _ | .LeaseCancel _ => FitsByte t.version
  | .Exchange _ _ _ _ _ => t.version = 2
  | _ => t.version = 1

omit [Crypto] in
/-- A fee is in Waves but for two types, and a genesis transaction has none. -/
@[simp] def FeeKept (t : PBTransaction) : Prop :=
  match t.data with
  | .Transfer _ _ _ | .InvokeScript _ _ _ => True
  | .Genesis _ _ => t.fee = some ⟨[], 0⟩
  | _ => ∀ fee, t.fee = some fee → fee.assetId = []

omit [Crypto] in
/-- The sender of an exchange is the matcher of its first order. -/
@[simp] def SenderKept (t : PBTransaction) : Prop :=
  match t.data with
  | .Genesis _ _ => t.senderPublicKey = []
  | .Exchange _ _ _ _ orders => ∀ o ∈ orders.head?, t.senderPublicKey = o.matcherPublicKey
  | _ => True

/-- Two types have one proof, and a genesis transaction a signature that is computed. -/
@[simp] def ProofsKept (t : PBTransaction) (proofs : List ByteStr) : Prop :=
  match t.data with
  | .Genesis recipient amount => ∀ addr, PBRecipients.toAddressOfBytes recipient = .ok addr →
    proofs = [GenesisTransaction.generateSignature addr amount t.timestamp]
  | .Payment _ _ | .CreateAlias _ => proofs.length = 1
  | _ => True

/-- The parts of the data. -/
@[simp] def DataKept [ScriptReader] (t : PBTransaction) : Prop :=
  match t.data with
  | .Issue _ _ _ decimals _ script => FitsByte decimals ∧ ScriptKept script
  | .SetScript script | .SetAssetScript _ script => ScriptKept script
  | .Exchange _ _ _ _ orders => ∀ o ∈ orders, FitsByte o.version
  | .MassTransfer _ transfers _ => ∀ item ∈ transfers,
    (PBRecipients.toAddressOrAlias (item.address.getD .Empty)).toBool = true
  | .SponsorFee minFee => ∀ a ∈ minFee, 0 ≤ a.amount
  | .InvokeScript _ functionCall _ => CallKept functionCall
  | _ => True

end PBTransaction

/-- Nothing of a message is lost when it is read. -/
structure PBTransaction.Kept [ScriptReader] (t : PBTransaction) (proofs : List ByteStr) :
    Prop where
  version : t.VersionKept
  fee : t.FeeKept
  sender : t.SenderKept
  proofs : t.ProofsKept proofs
  data : t.DataKept

def PBSignedTransaction.Kept [ScriptReader] (p : PBSignedTransaction) : Prop :=
  ∀ t, p.transaction = some t → t.Kept p.proofs

/-! ## 3. Parts -/

theorem PBRecipients.normalAddress_of_ok {bytes : ByteStr} {a : Address}
    (h : toAddressOfBytes bytes = .ok a) : normalAddress bytes = addressDigest a := by
  rw [normalAddress, h]

theorem PBRecipient.normal_of_ok {r : PBRecipient} {a : AddressOrAlias}
    (h : PBRecipients.toAddressOrAlias r = .ok a) : r.normal = PBRecipients.create a := by
  rw [PBRecipient.normal, h]

theorem Alias.name_of_createWithChainId {name : String} {chainId : Byte} {a : Alias}
    (h : Alias.createWithChainId name chainId = .ok a) : a.name = name := by
  unfold Alias.createWithChainId at h
  split at h
  · simp at h
  · split at h
    · simp at h
    · split at h
      · simp at h
      · rw [← Except.ok.inj h]

omit [Crypto] in
theorem PBOrders.protobuf_vanilla {p : PBOrder} {o : Order} (h : PBOrders.vanilla p = .ok o) :
    PBOrders.protobuf o = p.normal ↔ FitsByte p.version := by
  obtain ⟨sender, matcher, assetPair, side, amount, price, timestamp, expiration, matcherFee,
    version, proofs⟩ := p
  cases side with
  | BUY =>
    obtain rfl := Except.ok.inj h
    simp [PBOrders.protobuf, PBOrder.normal, PBAmounts.fromAssetIdAndAmount,
      PBAmounts.toPBAssetId_toVanillaAssetId, FitsByte]
  | SELL =>
    obtain rfl := Except.ok.inj h
    simp [PBOrders.protobuf, PBOrder.normal, PBAmounts.fromAssetIdAndAmount,
      PBAmounts.toPBAssetId_toVanillaAssetId, FitsByte]
  | Unrecognized v => simp [PBOrders.vanilla, Validation.bind_eq_ok] at h

omit [Crypto] in
theorem PBOrders.matcherPublicKey_vanilla {p : PBOrder} {o : Order}
    (h : PBOrders.vanilla p = .ok o) : o.matcherPublicKey = p.matcherPublicKey := by
  rcases hside : p.orderSide with _ | _ | v
  · rw [PBOrders.vanilla, hside] at h
    rw [← Except.ok.inj h]
  · rw [PBOrders.vanilla, hside] at h
    rw [← Except.ok.inj h]
  · simp [PBOrders.vanilla, hside, Validation.bind_eq_ok] at h

omit [Crypto] in
/-- An entry with a value is written as it was. -/
theorem map_toPBDataEntry {entries : List PBDataEntry} {es : List DataEntry}
    (h : entries.mapM toVanillaDataEntry = .ok es) : es.map toPBDataEntry = entries := by
  rw [Validation.mapM_eq_ok] at h
  induction h with
  | nil => rfl
  | @cons entry e _ _ he _ ih =>
    obtain ⟨key, value⟩ := entry
    cases value with
    | none => simp [toVanillaDataEntry] at he
    | some v =>
      rw [List.map_cons, ih, ← Except.ok.inj he]
      rfl

/-- The transfers that are written are all there were exactly if none was dropped. -/
theorem map_transfers_eq_iff {transfers : List PBMassTransferItem} :
    ((transfers.filterMap fun t =>
        match PBRecipients.toAddressOrAlias (t.address.getD .Empty) with
        | .ok address => some (⟨address, t.amount⟩ : ParsedTransfer)
        | .error _ => none).map fun t =>
          (⟨some (PBRecipients.create t.address), t.amount⟩ : PBMassTransferItem)) =
        transfers.map PBMassTransferItem.normal ↔
      ∀ item ∈ transfers,
        (PBRecipients.toAddressOrAlias (item.address.getD .Empty)).toBool = true := by
  constructor
  · intro h item hitem
    -- as many are written as there were, so every one was read
    have hlength := congrArg List.length h
    rw [List.length_map, List.length_map, List.filterMap_length_eq_length] at hlength
    have hread := hlength item hitem
    rcases hitem' : PBRecipients.toAddressOrAlias (item.address.getD .Empty) with e | address
    · rw [hitem'] at hread
      cases hread
    · rfl
  · intro h
    induction transfers with
    | nil => rfl
    | cons item rest ih =>
      obtain ⟨hitem, hrest⟩ := List.forall_mem_cons.mp h
      rcases hread : PBRecipients.toAddressOrAlias (item.address.getD .Empty) with e | address
      · rw [hread] at hitem
        cases hitem
      · rw [List.filterMap_cons_some (b := ⟨address, item.amount⟩) (by rw [hread]), List.map_cons,
          List.map_cons, ih hrest, PBMassTransferItem.normal, PBRecipient.normal_of_ok hread]

omit [Crypto] in
/-- A sponsored fee that is not positive is written as zero. -/
theorem sponsorFee_eq_iff {a : PBAmount} :
    (⟨a.assetId, (if 0 < a.amount then some a.amount else none).getD 0⟩ : PBAmount) = a ↔
      0 ≤ a.amount := by
  obtain ⟨assetId, amount⟩ := a
  rw [PBAmount.mk.injEq, eq_self_iff_true, true_and]
  dsimp only
  rw [Int64.le_iff_toInt_le]
  by_cases hpos : 0 < amount
  · rw [if_pos hpos]
    rw [Int64.lt_iff_toInt_lt] at hpos
    exact iff_of_true rfl (by omega)
  · rw [if_neg hpos, Option.getD_none]
    rw [Int64.lt_iff_toInt_lt] at hpos
    constructor
    · rintro rfl
      exact Int.le_refl _
    · intro hle
      exact Int64.toInt_inj.mp (by omega)

omit [Crypto] in
theorem readScript_kept [ScriptReader] {script : Option ByteStr} {s : Option Script}
    (h : readScript script = .ok s) : s.map Script.bytes = script ↔ ScriptKept script := by
  cases script with
  | none =>
    obtain rfl := Except.ok.inj h
    simp [ScriptKept]
  | some bytes =>
    rw [readScript] at h
    rcases hread : ScriptReader.fromBytes bytes with e | s'
    · rw [hread] at h
      simp at h
    · rw [hread] at h
      obtain rfl := Except.ok.inj h
      rw [Option.map_some, Option.some.injEq]
      constructor
      · rintro hsame bytes' s'' hbytes hs''
        obtain rfl := Option.some.inj hbytes
        rw [hread] at hs''
        rw [← Except.ok.inj hs'', hsame]
      · intro hkept
        exact hkept bytes s' rfl hread

omit [Crypto] in
/-- The bytes of a call are written again exactly if they are spelled as they are written. -/
theorem writeFunctionCall_eq_ok {bytes : ByteStr} {call : Option FunctionCall}
    (h : readFunctionCall bytes = .ok call) :
    writeFunctionCall call = .ok bytes ↔ CallKept bytes := by
  unfold readFunctionCall at h
  rcases hread : Deser.parseByteArrayOptionWithLength.from bytes 0 with e | option
  · rw [hread] at h
    simp at h
  rw [hread] at h
  obtain ⟨-, b', hread⟩ := from_eq_ok.mp hread
  obtain ⟨-, -, hsome, hnone⟩ := stretch_parseByteArrayOptionWithLength option b' hread
  cases option with
  | none =>
    obtain rfl := Except.ok.inj h
    have hflag : byteAt bytes 0 ≠ 1 := by
      intro h1
      obtain ⟨arr, harr, -⟩ := hsome h1
      cases harr
    have hwritten : writeFunctionCall none = .ok [0] := rfl
    rw [hwritten, Except.ok.injEq, CallKept]
    constructor
    · intro hzero
      exact .inl hzero.symm
    · rintro (hzero | ⟨arr, -, hbytes, -⟩)
      · exact hzero.symm
      · rw [hbytes] at hflag
        exact absurd rfl hflag
  | some arr =>
    have hflag : byteAt bytes 0 = 1 := by
      by_contra hne
      cases (hnone hne).1
    obtain ⟨arr', harr', hslice, hlength, hmark, hstretch⟩ := hsome hflag
    obtain rfl := Option.some.inj harr'
    have hshort : arr.length < 2 ^ 15 := by
      rw [hlength]
      exact arrayLength_lt bytes _
    dsimp only at h
    rcases hcall : Serde.deserializeCall ⟨arr, 0⟩ with e | ⟨f, buf⟩
    · rw [hcall] at h
      simp at h
    rw [hcall] at h
    dsimp only at h
    by_cases hend : buf.remaining = 0
    swap
    · rw [if_neg hend] at h
      simp at h
    rw [if_pos hend] at h
    obtain rfl := Except.ok.inj h
    -- the call that was read is the whole array exactly if it is spelled as it is written
    obtain ⟨harray, hspelt⟩ := Serde.spelt_deserializeCall (by omega) f buf hcall
    have hwhole : arr = Serde.serialize f ↔ Serde.CallSpelled arr 0 := by
      have hiff := hspelt.whole
      rw [List.drop_zero] at hiff
      rw [hiff, and_iff_left]
      rw [remaining, harray] at hend
      omega
    have hdrop : bytes = [1] ++ bytes.drop 1 := by
      have hone := hmark
      rw [Stretch, List.drop_zero] at hone
      exact hone
    have hsame : ∀ w : ByteStr, w.length ≤ Short.MaxValue →
        bytes = [1] ++ Deser.serializeArrayWithLength w → arr = w := by
      intro w hw hbytes
      have hwshort : w.length < 2 ^ 15 := Nat.lt_of_le_of_lt hw (by decide)
      refine ((spelt_array hshort hwshort hstretch []).mp ?_).1
      rw [hbytes, List.append_nil]
      rfl
    constructor
    · intro hwritten
      rw [writeFunctionCall] at hwritten
      by_cases hfits : (Option.some f).all (fun f => Short.isValid (Serde.serialize f).length) = true
      · rw [if_pos hfits] at hwritten
        have hfits' : (Serde.serialize f).length ≤ Short.MaxValue := of_decide_eq_true hfits
        have hbytes : bytes = [1] ++ Deser.serializeArrayWithLength (Serde.serialize f) :=
          (Except.ok.inj hwritten).symm
        have harr := hsame _ hfits' hbytes
        refine .inr ⟨arr, by rwa [harr], by rwa [harr], hwhole.mp harr⟩
      · rw [if_neg hfits] at hwritten
        simp at hwritten
    · rintro (hzero | ⟨w, hw, hbytes, hspelled⟩)
      · rw [hzero] at hflag
        cases hflag
      · have harr := hsame w hw hbytes
        rw [← harr] at hw hbytes hspelled
        have hserialize := hwhole.mpr hspelled
        rw [writeFunctionCall, if_pos]
        · rw [hbytes, hserialize]
          rfl
        · rw [Option.all_some, ← hserialize]
          exact decide_eq_true hw

/-! ## 4. Transactions -/

namespace PBTransactions

variable [PBTransactionSerializer] [ScriptReader]

omit [ScriptReader] in
theorem exists_of_createVanilla_bind {α : Type} {x : Validation α} {f : α → Transaction}
    {tx : Transaction} (h : x >>= (fun a => validatedEither (f a)) = .ok tx) :
    ∃ a, x = .ok a ∧ tx = f a := by
  obtain ⟨a, ha, h⟩ := Validation.bind_eq_ok.mp h
  exact ⟨a, ha, (validatedEither_eq_ok.mp h).2⟩

omit [PBTransactionSerializer] [ScriptReader] in
/-- What is written is the message, part by part. -/
@[simp] theorem create_eq_normal {sender sender' : PublicKey} {fee : Long} {feeAssetId : Asset}
    {timestamp timestamp' : Long} {version version' : Int32} {proofs proofs' : List ByteStr}
    {data data' : PBData} {fee' : PBAmount} :
    create sender fee feeAssetId timestamp version proofs data = PBSignedTransaction.normal
        ⟨some ⟨Crypto.chainId.toInt32, sender', some fee', timestamp', version', data'⟩, proofs'⟩ ↔
      version = version' ∧ PBAmounts.fromAssetIdAndAmount feeAssetId fee = fee' ∧
        sender = sender' ∧ timestamp = timestamp' ∧ proofs = proofs' ∧ data = data'.normal := by
  simp only [create, PBSignedTransaction.normal, Option.map_some, PBSignedTransaction.mk.injEq,
    Option.some.injEq, PBTransaction.mk.injEq, true_and]
  tauto

omit [PBTransactionSerializer] [ScriptReader] [Crypto] in
theorem toSignature_eq_iff {proofs : List ByteStr} :
    [Proofs.toSignature ⟨proofs⟩] = proofs ↔ proofs.length = 1 := by
  rcases proofs with _ | ⟨p, _ | ⟨q, rest⟩⟩ <;> simp [Proofs.toSignature]

/-- What a transaction of a message is written as. -/
theorem protobuf_createVanilla {t : PBTransaction} {fee : PBAmount} {proofs : List ByteStr}
    {tx : Transaction} (hchain : t.chainId = Crypto.chainId.toInt32) (hfee : t.fee = some fee)
    (h : createVanilla t.version t.chainId.toInt8 t.senderPublicKey fee.amount
      (PBAmounts.toVanillaAssetId fee.assetId) t.timestamp ⟨proofs⟩ t.data = .ok tx) :
    protobuf tx = .ok (PBSignedTransaction.normal ⟨some t, proofs⟩) ↔ t.Kept proofs := by
  obtain ⟨chainId, sender, fee', timestamp, version, data⟩ := t
  obtain ⟨feeAssetId, feeAmount⟩ := fee
  dsimp only at hchain hfee h
  subst hchain hfee
  have hkept : ∀ {t : PBTransaction}, t.Kept proofs ↔ t.VersionKept ∧ t.FeeKept ∧ t.SenderKept ∧
      t.ProofsKept proofs ∧ t.DataKept := fun {t} =>
    ⟨fun h => ⟨h.version, h.fee, h.sender, h.proofs, h.data⟩, fun ⟨a, b, c, d, e⟩ => ⟨a, b, c, d, e⟩⟩
  -- a fee that is written in Waves, and one that keeps its asset
  have hwaves : PBAmounts.fromAssetIdAndAmount .Waves feeAmount = ⟨feeAssetId, feeAmount⟩ ↔
      feeAssetId = [] := by
    simp [PBAmounts.fromAssetIdAndAmount, PBAmounts.toPBAssetId, eq_comm]
  have hasset (a : PBAmount) :
      PBAmounts.fromAssetIdAndAmount (PBAmounts.toVanillaAssetId a.assetId) a.amount = a := by
    rw [PBAmounts.fromAssetIdAndAmount, PBAmounts.toPBAssetId_toVanillaAssetId]
  have hasset' := hasset ⟨feeAssetId, feeAmount⟩
  have hone : ∀ n : Int32, 1 = n ↔ n = 1 := fun n => eq_comm
  rw [hkept]
  unfold createVanilla at h
  dsimp only at h
  split at h
  case h_1 recipient amount =>
    obtain ⟨addr, haddr, rfl⟩ := exists_of_createVanilla_bind h
    simp only [protobuf, Except.ok.injEq, create_eq_normal, PBData.normal,
      PBRecipients.normalAddress_of_ok haddr, haddr, PBTransaction.VersionKept,
      PBTransaction.FeeKept, PBTransaction.SenderKept, PBTransaction.ProofsKept,
      PBTransaction.DataKept, PBAmounts.fromAssetIdAndAmount, PBAmounts.toPBAssetId]
    constructor
    · rintro ⟨rfl, hnone, rfl, -, rfl, -⟩
      refine ⟨rfl, congrArg some hnone.symm, rfl, ?_, trivial⟩
      rintro _ rfl
      rfl
    · rintro ⟨rfl, hnone, rfl, hproofs, -⟩
      exact ⟨rfl, (Option.some.inj hnone).symm, rfl, trivial, (hproofs addr rfl).symm, trivial⟩
  case h_2 recipient amount =>
    obtain ⟨-, -, h⟩ := Validation.bind_eq_ok.mp h
    split at h
    case h_1 addr haddr =>
      obtain ⟨-, rfl⟩ := validatedEither_eq_ok.mp h
      have hread := toAddressOfBytes_of_fromBytes haddr
      simp [protobuf, PBRecipients.normalAddress_of_ok hread, hwaves, hone, toSignature_eq_iff]
    case h_2 => simp at h
  case h_3 recipient amount attachment =>
    obtain ⟨address, haddress, h⟩ := Validation.bind_eq_ok.mp h
    obtain rfl := Except.ok.inj h
    simp [protobuf, PBRecipient.normal_of_ok haddress, hasset, hasset' ]
  case h_4 name =>
    obtain ⟨a, ha, rfl⟩ := exists_of_createVanilla_bind h
    simp [protobuf, Alias.name_of_createWithChainId ha, hwaves, toSignature_eq_iff]
  case h_5 name description quantity decimals reissuable script =>
    obtain ⟨s, hs, rfl⟩ := exists_of_createVanilla_bind h
    simp [protobuf, hwaves, readScript_kept hs]
  case h_6 a reissuable =>
    obtain ⟨-, rfl⟩ := validatedEither_eq_ok.mp h
    simp [protobuf, hwaves]
  case h_7 a =>
    obtain ⟨-, rfl⟩ := validatedEither_eq_ok.mp h
    simp [protobuf, hwaves]
  case h_8 assetId script =>
    obtain ⟨s, hs, rfl⟩ := exists_of_createVanilla_bind h
    simp [protobuf, hwaves, hone, readScript_kept hs]
  case h_9 script =>
    obtain ⟨s, hs, rfl⟩ := exists_of_createVanilla_bind h
    simp [protobuf, hwaves, hone, readScript_kept hs]
  case h_10 recipient amount =>
    obtain ⟨address, haddress, rfl⟩ := exists_of_createVanilla_bind h
    simp [protobuf, PBRecipient.normal_of_ok haddress, hwaves]
  case h_11 leaseId =>
    obtain ⟨-, rfl⟩ := validatedEither_eq_ok.mp h
    simp [protobuf, hwaves]
  case h_12 amount price buyMatcherFee sellMatcherFee buyOrder sellOrder =>
    obtain ⟨buy, hbuy, h⟩ := Validation.bind_eq_ok.mp h
    obtain ⟨sell, hsell, h⟩ := Validation.bind_eq_ok.mp h
    obtain ⟨-, rfl⟩ := validatedEither_eq_ok.mp h
    have hmatcher : buy.matcherPublicKey = buyOrder.matcherPublicKey :=
      PBOrders.matcherPublicKey_vanilla hbuy
    simp only [protobuf, Except.ok.injEq, create_eq_normal, PBData.normal, List.map_cons,
      List.map_nil, PBData.Exchange.injEq, List.cons.injEq, PBOrders.protobuf_vanilla hbuy,
      PBOrders.protobuf_vanilla hsell, ExchangeTransaction.sender, hmatcher, hwaves,
      PBTransaction.VersionKept, PBTransaction.FeeKept, PBTransaction.SenderKept,
      PBTransaction.ProofsKept, PBTransaction.DataKept]
    constructor
    · rintro ⟨rfl, rfl, rfl, -, -, -, -, -, -, hbuyVersion, hsellVersion, -⟩
      refine ⟨rfl, ?_, ?_, trivial, ?_⟩
      · rintro fee hfee
        rw [← Option.some.inj hfee]
      · rintro o ho
        obtain rfl := Option.some.inj ho
        rfl
      · exact List.forall_mem_cons.mpr ⟨hbuyVersion, List.forall_mem_singleton.mpr hsellVersion⟩
    · rintro ⟨rfl, hnone, hsender, -, hversions⟩
      obtain ⟨hbuyVersion, hversions⟩ := List.forall_mem_cons.mp hversions
      exact ⟨rfl, hnone _ rfl, (hsender buyOrder rfl).symm, trivial, trivial, trivial, trivial,
        trivial, trivial, hbuyVersion, hversions sellOrder (List.mem_singleton_self _), trivial⟩
  case h_13 entries =>
    obtain ⟨es, hes, rfl⟩ := exists_of_createVanilla_bind h
    simp [protobuf, hwaves, hone, map_toPBDataEntry hes]
  case h_14 assetId transfers attachment =>
    obtain ⟨-, rfl⟩ := validatedEither_eq_ok.mp h
    simp only [protobuf, Except.ok.injEq, create_eq_normal, PBData.normal,
      PBData.MassTransfer.injEq, PBAmounts.toPBAssetId_toVanillaAssetId, hwaves,
      PBTransaction.VersionKept, PBTransaction.FeeKept, PBTransaction.SenderKept,
      PBTransaction.ProofsKept, PBTransaction.DataKept, Option.some.injEq, forall_eq', true_and,
      and_true]
    exact and_congr (hone version) (and_congr_right fun _ => map_transfers_eq_iff)
  case h_15 a =>
    obtain ⟨-, rfl⟩ := validatedEither_eq_ok.mp h
    simp [protobuf, hwaves, hone, sponsorFee_eq_iff]
  case h_16 dApp functionCall payments =>
    obtain ⟨address, haddress, h⟩ := Validation.bind_eq_ok.mp h
    obtain ⟨call, hcall, rfl⟩ := exists_of_createVanilla_bind h
    have hwrite := writeFunctionCall_eq_ok hcall
    simp only [protobuf, Validation.bind_eq_ok, Except.ok.injEq, create_eq_normal, PBData.normal,
      Option.map_some, PBRecipient.normal_of_ok haddress, PBData.InvokeScript.injEq, hasset',
      PBTransaction.VersionKept, PBTransaction.FeeKept, PBTransaction.SenderKept,
      PBTransaction.ProofsKept, PBTransaction.DataKept, true_and, List.map_map]
    have hpayments : payments.map ((fun p : Payment => PBAmounts.fromAssetIdAndAmount p.assetId
        p.amount) ∘ fun p : PBAmount => ⟨p.amount, PBAmounts.toVanillaAssetId p.assetId⟩) =
        payments := by
      nth_rewrite 2 [← List.map_id payments]
      rw [List.map_inj_left]
      exact fun p _ => hasset p
    rw [← hwrite]
    constructor
    · rintro ⟨bytes, hbytes, hversion, rfl, -⟩
      exact ⟨hversion.symm, hbytes⟩
    · rintro ⟨hversion, hbytes⟩
      exact ⟨functionCall, hbytes, hversion.symm, rfl, hpayments⟩
  case h_17 => simp at h

end PBTransactions

end

/-! ## 5. A payment to somebody nobody knows

Alice pays two recipients at once. One of them is spelled with fewer bytes than an address has,
and the transaction that is made of the message pays the other one only. -/

namespace Devnet

def massTransferMessage (recipients : List ByteStr) : PBSignedTransaction where
  transaction := some
    { chainId := 84
      senderPublicKey := alice.publicKey
      fee := some ⟨[], 200000⟩
      timestamp := 1500000000000
      version := 1
      data := .MassTransfer [] (recipients.map fun r => ⟨some (.Address r), 100⟩) [] }
  proofs := []

def massTransferToBob : MassTransferTransaction where
  version := 1
  sender := alice.publicKey
  assetId := .Waves
  transfers := [⟨.address bob.address, 100⟩]
  fee := 200000
  timestamp := 1500000000000
  attachment := []
  proofs := ⟨[]⟩

end Devnet

section
open Devnet PBTransactions

local instance losslessCrypto : Crypto := KnownAnswers.crypto {}
local instance losslessSerializer : PBTransactionSerializer := pbTransactionSerializer
local instance losslessScripts : ScriptReader := scriptReader

theorem massTransferMessage_run :
    (vanilla (massTransferMessage [bob.address.bytes])).toOption =
        some (.massTransfer massTransferToBob) ∧
      (vanilla (massTransferMessage [bob.address.bytes, [1, 2, 3]])).toOption =
        some (.massTransfer massTransferToBob) ∧
      (protobuf (.massTransfer massTransferToBob)).toOption ≠
        some (massTransferMessage [bob.address.bytes, [1, 2, 3]]).normal := by
  decide +kernel

end

end WavesNode
