/-
What a script sees of transactions, orders and invocations.

The node hands a script the fields of a transaction as an object. The object is built field by
field (§3), from a form of the transaction that knows nothing of the node (§1), into which the
node's own transactions are put first (§4). The types of the same objects are declared
elsewhere; what each conversion gives of them is in §5.
-/
import WavesNode.Decoding
import WavesNode.FunctionComplexity
import WavesNode.TxSerializers
import WavesNode.TypedObjects

set_option autoImplicit false

namespace WavesNode

namespace Lang

/-! ## 1. Transactions as the language knows them -/

inductive Recipient where
  | Address (bytes : ByteStr)
  | Alias (name : String)

/-- `Tx.Header`. -/
structure TxHeader where
  id : ByteStr
  fee : Long
  timestamp : Long
  version : Long

/-- `Tx.Proven`; the sender is an address, known by its bytes. -/
structure TxProven where
  h : TxHeader
  sender : ByteStr
  bodyBytes : ByteStr
  senderPk : ByteStr
  proofs : List ByteStr

/-- `Tx.TransferItem`. -/
structure TransferItem where
  recipient : Recipient
  amount : Long

structure APair where
  amountAsset : Option ByteStr
  priceAsset : Option ByteStr

inductive OrdType where
  | Buy
  | Sell

structure Ord where
  id : ByteStr
  sender : ByteStr
  senderPublicKey : ByteStr
  matcherPublicKey : ByteStr
  assetPair : APair
  orderType : OrdType
  price : Long
  amount : Long
  timestamp : Long
  expiration : Long
  matcherFee : Long
  bodyBytes : ByteStr
  proofs : List ByteStr
  matcherFeeAssetId : Option ByteStr

inductive AttachedPayments where
  | Single (p : Option (Long × Option ByteStr))
  | Multi (p : List (Long × Option ByteStr))

/-- `DataItem`. -/
structure DataItem where
  key : String
  value : DataEntryValue

inductive Tx where
  | Genesis (header : TxHeader) (amount : Long) (recipient : Recipient)
  | Payment (p : TxProven) (amount : Long) (recipient : Recipient)
  | Transfer (p : TxProven) (feeAssetId assetId : Option ByteStr) (amount : Long)
      (recipient : Recipient) (attachment : ByteStr)
  | Issue (p : TxProven) (quantity : Long) (name description : ByteStr) (reissuable : Bool)
      (decimals : Long) (script : Option ByteStr)
  | ReIssue (p : TxProven) (quantity : Long) (assetId : ByteStr) (reissuable : Bool)
  | Burn (p : TxProven) (quantity : Long) (assetId : ByteStr)
  | CI (p : TxProven) (dAppAddressOrAlias : Recipient) (payments : AttachedPayments)
      (feeAssetId : Option ByteStr) (funcName : Option String) (funcArgs : List EVALUATED)
  | Lease (p : TxProven) (amount : Long) (recipient : Recipient)
  | LeaseCancel (p : TxProven) (leaseId : ByteStr)
  | CreateAlias (p : TxProven) («alias» : String)
  | SetScript (p : TxProven) (script : Option ByteStr)
  | SetAssetScript (p : TxProven) (assetId : ByteStr) (script : Option ByteStr)
  | MassTransfer (p : TxProven) (assetId : Option ByteStr) (transferCount totalAmount : Long)
      (transfers : List TransferItem) (attachment : ByteStr)
  | Sponsorship (p : TxProven) (assetId : ByteStr) (minSponsoredAssetFee : Option Long)
  | Exchange (p : TxProven) (amount price buyMatcherFee sellMatcherFee : Long)
      (buyOrder sellOrder : Ord)
  | Data (p : TxProven) (data : List DataItem)

/-- `ContractEvaluator.Invocation`: what the object of an invocation is built from. The caller
is an address, known by its bytes. -/
structure Invocation where
  caller : ByteStr
  callerPk : ByteStr
  payments : AttachedPayments
  transactionId : ByteStr
  fee : Long
  feeAssetId : Option ByteStr

/-! ## 2. Converters -/

namespace converters

def unit : EVALUATED := .CaseObj "Unit" []

/-- `explicitGet`. -/
def explicitGet : Except String EVALUATED → Conv
  | .ok v => .ok v
  | .error e => .error (.RuntimeException e)

def ofByteStr (b : ByteStr) : Conv := explicitGet (EVALUATED.constBytestr b)

def ofString (b : String) : Conv := explicitGet (EVALUATED.constString b)

def ofLong (b : Long) : Conv := .ok (.CONST_LONG b)

def ofBoolean (b : Bool) : Conv := .ok (.CONST_BOOLEAN b)

/-- An option of bytes that do not fit is no option. -/
def fromOptionBV (v : Option ByteStr) : Conv :=
  .ok ((v.bind fun b => (EVALUATED.constBytestr b).toOption).getD unit)

def fromOptionL (v : Option Long) : Conv := .ok ((v.map .CONST_LONG).getD unit)

def fromOptionS (v : Option String) : Conv :=
  .ok ((v.bind fun s => (EVALUATED.constString s).toOption).getD unit)

def fromOptionCO (v : Option Conv) : Conv := v.getD (.ok unit)

end converters

/-! ## 3. Bindings -/

namespace Bindings

open converters WavesTypes

def headerPart (tx : TxHeader) : ConvFields :=
  [("id", ofByteStr tx.id), ("fee", ofLong tx.fee), ("timestamp", ofLong tx.timestamp),
    ("version", ofLong tx.version)]

/-- The proofs, and empty ones up to the eighth. -/
def proofsPart (existingProofs : List ByteStr) : String × Conv :=
  ("proofs", arr ((existingProofs ++ List.replicate (8 - existingProofs.length) []).map ofByteStr))

def senderObject (sender : ByteStr) : Conv := caseObj addressType [("bytes", ofByteStr sender)]

def provenTxPart (tx : TxProven) (proofsEnabled : Bool) : ConvFields :=
  let commonPart := combine
    [("sender", senderObject tx.sender), ("senderPublicKey", ofByteStr tx.senderPk),
      ("bodyBytes", ofByteStr tx.bodyBytes)]
    (headerPart tx.h)
  if proofsEnabled then combine commonPart [proofsPart tx.proofs] else commonPart

def recipientObject : Recipient → Conv
  | .Alias name => caseObj aliasType [("alias", ofString name)]
  | .Address bytes => senderObject bytes

def mapRecipient (r : Recipient) : String × Conv := ("recipient", recipientObject r)

def assetPair (ap : APair) : Conv :=
  caseObj assetPairType
    [("amountAsset", fromOptionBV ap.amountAsset), ("priceAsset", fromOptionBV ap.priceAsset)]

def ordType : OrdType → Conv
  | .Buy => caseObj buyType []
  | .Sell => caseObj sellType []

def mapPayment (payment : Long × Option ByteStr) : Conv :=
  caseObj paymentType
    [("amount", ofLong payment.1),
      ("assetId", match payment.2 with
        | none => .ok unit
        | some asset => ofByteStr asset)]

def buildPayments : AttachedPayments → String × Conv
  | .Single p => ("payment", fromOptionCO (p.map mapPayment))
  | .Multi p => ("payments", arr (p.map mapPayment))

def orderObject (ord : Ord) (proofsEnabled : Bool) (version : StdLibVersion) : Conv :=
  caseObj (buildOrderType proofsEnabled)
    (combine
      [("id", ofByteStr ord.id), ("sender", senderObject ord.sender),
        ("senderPublicKey", ofByteStr ord.senderPublicKey),
        ("matcherPublicKey", ofByteStr ord.matcherPublicKey),
        ("assetPair", assetPair ord.assetPair), ("orderType", ordType ord.orderType),
        ("amount", ofLong ord.amount), ("price", ofLong ord.price),
        ("timestamp", ofLong ord.timestamp), ("expiration", ofLong ord.expiration),
        ("matcherFee", ofLong ord.matcherFee), ("bodyBytes", ofByteStr ord.bodyBytes),
        ("matcherFeeAssetId", fromOptionBV ord.matcherFeeAssetId)]
      (if proofsEnabled || version != .V3 then [proofsPart ord.proofs] else []))

def buildInvocation (i : Invocation) (version : StdLibVersion) : Conv :=
  caseObj (invocationType version)
    (combine
      [("caller", recipientObject (.Address i.caller)), ("callerPublicKey", ofByteStr i.callerPk),
        ("transactionId", ofByteStr i.transactionId), ("fee", ofLong i.fee),
        ("feeAssetId", fromOptionBV i.feeAssetId)]
      [buildPayments i.payments])

def mapValue : DataEntryValue → Conv × REAL
  | .String s => (ofString s, stringDataEntry)
  | .Boolean s => (ofBoolean s, booleanDataEntry)
  | .Integer s => (ofLong s, intDataEntry)
  | .Binary s => (ofByteStr s, binaryDataEntry)

def mapDataEntry (version : StdLibVersion) (d : DataItem) : Conv :=
  let fields : ConvFields := [("key", ofString d.key), ("value", (mapValue d.value).1)]
  if atLeast version .V4 then caseObj (mapValue d.value).2 fields
  else caseObj genericDataEntry fields

def mapTransfer (bv : TransferItem) : Conv :=
  caseObj transfer [mapRecipient bv.recipient, ("amount", ofLong bv.amount)]

/-- The fields of a transaction, under its type. -/
def transactionParts (tx : Tx) (proofsEnabled : Bool) (version : StdLibVersion) :
    REAL × ConvFields :=
  match tx with
  | .Genesis h amount recipient =>
    (genesisTransactionType,
      combine (combine [("amount", ofLong amount)] (headerPart h)) [mapRecipient recipient])
  | .Payment p amount recipient =>
    (buildPaymentTransactionType proofsEnabled,
      combine (combine [("amount", ofLong amount)] (provenTxPart p proofsEnabled))
        [mapRecipient recipient])
  | .Transfer p feeAssetId assetId amount recipient attachment =>
    (buildTransferTransactionType proofsEnabled,
      combine
        [("amount", ofLong amount), ("feeAssetId", fromOptionBV feeAssetId),
          ("assetId", fromOptionBV assetId), ("attachment", ofByteStr attachment)]
        (combine (provenTxPart p proofsEnabled) [mapRecipient recipient]))
  | .Issue p quantity name description reissuable decimals script =>
    (buildIssueTransactionType proofsEnabled,
      combine
        [("quantity", ofLong quantity), ("name", ofByteStr name),
          ("description", ofByteStr description), ("reissuable", ofBoolean reissuable),
          ("decimals", ofLong decimals), ("script", fromOptionBV script)]
        (provenTxPart p proofsEnabled))
  | .ReIssue p quantity assetId reissuable =>
    (buildReissueTransactionType proofsEnabled,
      combine
        [("quantity", ofLong quantity), ("assetId", ofByteStr assetId),
          ("reissuable", ofBoolean reissuable)]
        (provenTxPart p proofsEnabled))
  | .Burn p quantity assetId =>
    (buildBurnTransactionType proofsEnabled,
      combine [("quantity", ofLong quantity), ("assetId", ofByteStr assetId)]
        (provenTxPart p proofsEnabled))
  | .CI p addressOrAlias payments feeAssetId funcName funcArgs =>
    (buildInvokeScriptTransactionType proofsEnabled version,
      combine
        (combine
          [("dApp", recipientObject addressOrAlias), ("feeAssetId", fromOptionBV feeAssetId),
            ("function", fromOptionS funcName), ("args", .ok (.ARR funcArgs))]
          [buildPayments payments])
        (provenTxPart p proofsEnabled))
  | .Lease p amount recipient =>
    (buildLeaseTransactionType proofsEnabled,
      combine [("amount", ofLong amount)]
        (combine (provenTxPart p proofsEnabled) [mapRecipient recipient]))
  | .LeaseCancel p leaseId =>
    (buildLeaseCancelTransactionType proofsEnabled,
      combine [("leaseId", ofByteStr leaseId)] (provenTxPart p proofsEnabled))
  | .CreateAlias p «alias» =>
    (buildCreateAliasTransactionType proofsEnabled,
      combine [("alias", ofString «alias»)] (provenTxPart p proofsEnabled))
  | .MassTransfer p assetId transferCount totalAmount transfers attachment =>
    (buildMassTransferTransactionType proofsEnabled,
      combine
        [("transfers", arr (transfers.map mapTransfer)), ("assetId", fromOptionBV assetId),
          ("transferCount", ofLong transferCount), ("totalAmount", ofLong totalAmount),
          ("attachment", ofByteStr attachment)]
        (provenTxPart p proofsEnabled))
  | .SetScript p script =>
    (buildSetScriptTransactionType proofsEnabled,
      combine [("script", fromOptionBV script)] (provenTxPart p proofsEnabled))
  | .SetAssetScript p assetId script =>
    (buildSetAssetScriptTransactionType proofsEnabled,
      combine [("script", fromOptionBV script), ("assetId", ofByteStr assetId)]
        (provenTxPart p proofsEnabled))
  | .Sponsorship p assetId minSponsoredAssetFee =>
    (buildSponsorFeeTransactionType proofsEnabled,
      combine
        [("assetId", ofByteStr assetId), ("minSponsoredAssetFee", fromOptionL minSponsoredAssetFee)]
        (provenTxPart p proofsEnabled))
  | .Data p data =>
    (buildDataTransactionType proofsEnabled version,
      combine [("data", arr (data.map (mapDataEntry version)))] (provenTxPart p proofsEnabled))
  | .Exchange p amount price buyMatcherFee sellMatcherFee buyOrder sellOrder =>
    (buildExchangeTransactionType proofsEnabled,
      combine
        [("buyOrder", orderObject buyOrder proofsEnabled version),
          ("sellOrder", orderObject sellOrder proofsEnabled version), ("amount", ofLong amount),
          ("price", ofLong price), ("buyMatcherFee", ofLong buyMatcherFee),
          ("sellMatcherFee", ofLong sellMatcherFee)]
        (provenTxPart p proofsEnabled))

def transactionObject (tx : Tx) (proofsEnabled : Bool) (version : StdLibVersion) : Conv :=
  caseObj (transactionParts tx proofsEnabled version).1
    (transactionParts tx proofsEnabled version).2

end Bindings

/-! ## 4. The transactions of the node -/

/-- `AttachedPaymentTarget`. -/
inductive AttachedPaymentTarget where
  | DApp
  | InvokerScript
  | AssetScript (id : ByteStr)

namespace AttachedPaymentExtractor

def paymentOf (p : WavesNode.Payment) : Long × Option ByteStr := (p.amount, p.assetId.compatId)

def single (tx : InvokeScriptTransaction) : AttachedPayments :=
  .Single (tx.payments.head?.map paymentOf)

def multiple (tx : InvokeScriptTransaction) : AttachedPayments := .Multi (tx.payments.map paymentOf)

def scriptErrorMessage (apt : AttachedPaymentTarget) (version : StdLibVersion) : String :=
  let name := match apt with
    | .DApp => "DApp"
    | .InvokerScript => "Invoker script"
    | .AssetScript id => s!"Attached asset script id={ByteStr.stringRepr id}"
  s!"{name} version {version.id} < {StdLibVersion.V4.id} " ++
    "doesn't support multiple payment attachment"

def MaxAttachedPaymentAmount : ℕ := 2

def extractPayments (tx : InvokeScriptTransaction) (version : StdLibVersion)
    (allowsMultiPayment : Bool) (targetScript : AttachedPaymentTarget) :
    Except String AttachedPayments :=
  if tx.payments.length ≤ 1 then
    if version.supportsMultiPayment then .ok (multiple tx) else .ok (single tx)
  else if !allowsMultiPayment then .error "Multiple payments isn't allowed now"
  else if !version.supportsMultiPayment then .error (scriptErrorMessage targetScript version)
  else if tx.payments.length > MaxAttachedPaymentAmount then
    .error (s!"Script payment amount={tx.payments.length} " ++
      s!"should not exceed {MaxAttachedPaymentAmount}")
  else .ok (multiple tx)

end AttachedPaymentExtractor

namespace RealTransactionWrapper

open Decoding (Result)

variable [Crypto] [PBTransactionSerializer]

def header (tx : Transaction) : TxHeader where
  id := tx.id
  fee := tx.assetFee.2
  timestamp := tx.timestamp
  version := (tx.version?.getD 1).toInt64

def proven (tx : Transaction) (sender : PublicKey) : TxProven where
  h := header tx
  sender := sender.toAddress.bytes
  bodyBytes := TxSerializer.bodyBytes tx
  senderPk := sender
  proofs := tx.proofs.proofs

def assetPair (a : AssetPair) : APair := ⟨a.amountAsset.compatId, a.priceAsset.compatId⟩

omit [PBTransactionSerializer] in
def ord (o : Order) : Ord where
  id := o.id
  sender := o.sender.toAddress.bytes
  senderPublicKey := o.senderPublicKey
  matcherPublicKey := o.matcherPublicKey
  assetPair := assetPair o.assetPair
  orderType := match o.orderType with
    | .BUY => .Buy
    | .SELL => .Sell
  amount := o.amount
  price := o.price
  timestamp := o.timestamp
  expiration := o.expiration
  matcherFee := o.matcherFee
  bodyBytes := TxSerializer.orderBodyBytes o
  proofs := o.proofs.proofs
  matcherFeeAssetId := o.matcherFeeAssetId.compatId

def aoaToRecipient : AddressOrAlias → Recipient
  | .address a => .Address a.bytes
  | .alias a => .Alias a.name

/-- `arg.asInstanceOf[EVALUATED]`: a literal is one. -/
def asEvaluated : CallArg → Conv
  | .CONST_LONG value => converters.ofLong value
  | .CONST_BOOLEAN value => converters.ofBoolean value
  | .CONST_BYTESTR value => converters.ofByteStr value
  | .CONST_STRING value => converters.ofString value
  | .other _ => .error .ClassCastException

/-- `apply`, where `allowsMultiPayment` is what is asked of the blockchain. -/
def apply (tx : Transaction) (allowsMultiPayment : Bool) (stdLibVersion : StdLibVersion)
    (target : AttachedPaymentTarget) : Result ConversionError String Tx :=
  match tx with
  | .genesis g => .right (.Genesis (header tx) g.amount (.Address g.recipient.bytes))
  | .transfer t => .right (.Transfer (proven tx t.sender) t.feeAssetId.compatId t.assetId.compatId
      t.amount (aoaToRecipient t.recipient) t.attachment)
  | .issue i => .right (.Issue (proven tx i.sender) i.quantity i.name i.description i.reissuable
      i.decimals.toInt64 (i.script.map WavesNode.Script.bytes))
  | .reissue r => .right (.ReIssue (proven tx r.sender) r.quantity r.asset.id r.reissuable)
  | .burn b => .right (.Burn (proven tx b.sender) b.quantity b.asset.id)
  | .lease b => .right (.Lease (proven tx b.sender) b.amount (aoaToRecipient b.recipient))
  | .leaseCancel b => .right (.LeaseCancel (proven tx b.sender) b.leaseId)
  | .createAlias b => .right (.CreateAlias (proven tx b.sender) b.alias.name)
  | .massTransfer ms => .right (.MassTransfer (proven tx ms.sender) ms.assetId.compatId
      (Int64.ofNat ms.transfers.length) (ms.transfers.map ParsedTransfer.amount).sum
      (ms.transfers.map fun r => ⟨aoaToRecipient r.address, r.amount⟩) ms.attachment)
  | .setScript ss =>
    .right (.SetScript (proven tx ss.sender) (ss.script.map WavesNode.Script.bytes))
  | .setAssetScript ss =>
    .right (.SetAssetScript (proven tx ss.sender) ss.asset.id
      (ss.script.map WavesNode.Script.bytes))
  | .payment p => .right (.Payment (proven tx p.sender) p.amount (.Address p.recipient.bytes))
  | .exchange e => .right (.Exchange (proven tx e.sender) e.amount e.price e.buyMatcherFee
      e.sellMatcherFee (ord e.buyOrder) (ord e.sellOrder))
  | .sponsorFee s => .right (.Sponsorship (proven tx s.sender) s.asset.id s.minSponsoredAssetFee)
  | .data d => .right (.Data (proven tx d.sender) (d.data.map fun e => ⟨e.key, e.value⟩))
  | .invokeScript ci =>
    match AttachedPaymentExtractor.extractPayments ci stdLibVersion allowsMultiPayment target with
    | .error e => .left e
    | .ok payments =>
      let args := (ci.funcCallOpt.map WavesNode.FunctionCall.args).getD []
      match convAll (args.map asEvaluated) with
      | .error t => .thrown t
      | .ok funcArgs => .right (.CI (proven tx ci.sender) (aoaToRecipient ci.dAppAddressOrAlias)
          payments ci.feeAssetId.compatId
          (ci.funcCallOpt.map fun call => FunctionHeader.funcName call.function) funcArgs)

end RealTransactionWrapper

/-! ## 5. What the conversions give -/

namespace Bindings

open converters WavesTypes

/-- The bytes are no more than a constant takes. -/
def Fits (b : ByteStr) : Prop := b.length ≤ DATA_TX_BYTES_MAX

/-- The text is no more than a constant takes. -/
def TextFits (s : String) : Prop := (utf8Bytes s).length ≤ DATA_TX_BYTES_MAX

theorem fits_nil : Fits [] := Nat.zero_le _

theorem holds_ofByteStr {b : ByteStr} : Conv.Holds (ofByteStr b) BYTESTR ↔ Fits b := by
  unfold ofByteStr EVALUATED.constBytestr Fits
  by_cases h : b.length ≤ DATA_TX_BYTES_MAX
  · rw [dif_pos h]
    simp [converters.explicitGet, h]
  · rw [dif_neg h]
    simp [converters.explicitGet, h]

theorem fits_of_ok {b : ByteStr} {v : EVALUATED} (h : ofByteStr b = .ok v) : Fits b := by
  unfold ofByteStr EVALUATED.constBytestr at h
  split at h
  · assumption
  · cases h

theorem holds_ofString {s : String} : Conv.Holds (ofString s) STRING ↔ TextFits s := by
  unfold ofString EVALUATED.constString TextFits
  by_cases h : (utf8Bytes s).length ≤ DATA_TX_BYTES_MAX
  · rw [dif_pos h]
    simp [converters.explicitGet, h]
  · rw [dif_neg h]
    simp [converters.explicitGet, h]

theorem textFits_of_ok {s : String} {v : EVALUATED} (h : ofString s = .ok v) : TextFits s := by
  unfold ofString EVALUATED.constString at h
  split at h
  · assumption
  · cases h

theorem holds_ofLong {b : Long} : Conv.Holds (ofLong b) LONG := by
  unfold ofLong
  simp

theorem holds_ofBoolean {b : Bool} : Conv.Holds (ofBoolean b) BOOLEAN := by
  unfold ofBoolean
  simp

/-- `unit` is of every union with `UNIT` in it. -/
theorem holds_unit {l : List REAL} (h : UNIT ∈ l) : (UNION l).holds unit = true :=
  holds_UNION_iff.mpr ⟨UNIT, h, holds_CASETYPEREF_iff.mpr ⟨[], rfl, by simp, by simp⟩⟩

theorem holds_fromOptionBV {v : Option ByteStr} :
    Conv.Holds (fromOptionBV v) optionByteVector := by
  rw [fromOptionBV, Conv.holds_ok]
  cases v with
  | none => exact holds_unit (by simp)
  | some b =>
    rw [Option.bind_some, EVALUATED.constBytestr]
    by_cases h : b.length ≤ DATA_TX_BYTES_MAX
    · rw [dif_pos h]
      exact holds_UNION_iff.mpr ⟨.BYTESTR, by simp, holds_BYTESTR_iff.mpr ⟨_, rfl⟩⟩
    · -- bytes that do not fit are dropped
      rw [dif_neg h]
      exact holds_unit (by simp)

theorem holds_fromOptionL {v : Option Long} : Conv.Holds (fromOptionL v) optionLong := by
  rw [fromOptionL, Conv.holds_ok]
  cases v with
  | none => exact holds_unit (by simp)
  | some x => exact holds_UNION_iff.mpr ⟨.LONG, by simp, holds_LONG_iff.mpr ⟨_, rfl⟩⟩

/-- An absent text is `unit`, and `unit` is no text. -/
theorem holds_fromOptionS {v : Option String} :
    Conv.Holds (fromOptionS v) STRING ↔ ∃ s, v = some s ∧ TextFits s := by
  rw [fromOptionS, Conv.holds_ok]
  cases v with
  | none => simp [unit]
  | some s =>
    unfold TextFits
    rw [Option.bind_some, EVALUATED.constString]
    by_cases h : (utf8Bytes s).length ≤ DATA_TX_BYTES_MAX
    · rw [dif_pos h]
      simp [Except.toOption, h]
    · rw [dif_neg h]
      simp [Except.toOption, unit, h]

theorem holds_senderObject {b : ByteStr} :
    Conv.Holds (senderObject b) (.real addressType) ↔ Fits b :=
  Record.holds_iff
    { keys := of_decide_eq_true rfl
      nodup := by decide
      iff := by simp [FieldConv, List.lookup_cons, holds_ofByteStr] } "Address"

theorem holds_aliasObject {name : String} :
    Conv.Holds (recipientObject (.Alias name)) (.real aliasType) ↔ TextFits name :=
  Record.holds_iff
    { keys := of_decide_eq_true rfl
      nodup := by decide
      iff := by simp [FieldConv, List.lookup_cons, holds_ofString] } "Alias"

/-- The condition under which a recipient is converted. -/
def RecipientFits : Recipient → Prop
  | .Address bytes => Fits bytes
  | .Alias name => TextFits name

theorem holds_recipientObject {r : Recipient} :
    Conv.Holds (recipientObject r) addressOrAliasType ↔ RecipientFits r := by
  have hnames : ([addressType, aliasType].map REAL.caseName).Nodup := by decide
  cases r with
  | Address bytes =>
    refine (holds_named_iff (mem_typeList_UNION.mpr (by simp)) fun s hs hname => ?_).trans
      holds_senderObject
    exact List.inj_on_of_nodup_map hnames (mem_typeList_UNION.mp hs) (by simp) hname
  | Alias name =>
    refine (holds_named_iff (mem_typeList_UNION.mpr (by simp)) fun s hs hname => ?_).trans
      holds_aliasObject
    exact List.inj_on_of_nodup_map hnames (mem_typeList_UNION.mp hs) (by simp) hname

theorem holds_assetPair {ap : APair} :
    Conv.Holds (assetPair ap) (.real assetPairType) :=
  (Record.holds_iff (P := True)
    { keys := of_decide_eq_true rfl
      nodup := by decide
      iff := by simp [FieldConv, List.lookup_cons, holds_fromOptionBV] } "AssetPair").mpr trivial

theorem holds_ordType {o : OrdType} : Conv.Holds (ordType o) ordTypeType := by
  rw [Conv.holds_typeList_iff]
  cases o with
  | Buy =>
    exact ⟨buyType, mem_typeList_UNION.mpr (by simp), _, rfl,
      holds_CASETYPEREF_iff.mpr ⟨[], rfl, by simp, by simp⟩⟩
  | Sell =>
    exact ⟨sellType, mem_typeList_UNION.mpr (by simp), _, rfl,
      holds_CASETYPEREF_iff.mpr ⟨[], rfl, by simp, by simp⟩⟩

/-- The condition under which an attached payment is converted. -/
def PaymentFits (payment : Long × Option ByteStr) : Prop := ∀ asset ∈ payment.2, Fits asset

theorem holds_mapPayment {payment : Long × Option ByteStr} :
    Conv.Holds (mapPayment payment) (.real paymentType) ↔ PaymentFits payment := by
  obtain ⟨amount, asset⟩ := payment
  refine Record.holds_iff
    { keys := of_decide_eq_true rfl
      nodup := by decide
      iff := ?_ } "AttachedPayment"
  cases asset with
  | none =>
    simp [FieldConv, List.lookup_cons, holds_ofLong, PaymentFits, optionByteVector, holds_unit]
  | some b =>
    have hbytes : Conv.Holds (ofByteStr b) optionByteVector ↔ Fits b :=
      Conv.holds_member_iff (mem_typeList_UNION.mpr (by simp)) holds_ofByteStr fun _ => fits_of_ok
    simp [FieldConv, List.lookup_cons, holds_ofLong, PaymentFits, hbytes]

theorem holds_mapTransfer {bv : TransferItem} :
    Conv.Holds (mapTransfer bv) (.real transfer) ↔ RecipientFits bv.recipient :=
  Record.holds_iff
    { keys := of_decide_eq_true rfl
      nodup := by decide
      iff := by
        simp [FieldConv, List.lookup_cons, mapRecipient, holds_recipientObject, holds_ofLong] }
    "Transfer"

/-- The condition under which the value of an entry is converted. -/
def ValueFits : DataEntryValue → Prop
  | .String s => TextFits s
  | .Binary b => Fits b
  | .Integer _ => True
  | .Boolean _ => True

/-- What the value of an entry is converted to is of any type that has the type of such
values. -/
theorem holds_mapValue {value : DataEntryValue} {t : FINAL}
    (h : ∃ r ∈ t.typeList, (mapValue value).2 = buildTypedEntry (mapValue value).2.caseName r) :
    Conv.Holds (mapValue value).1 t ↔ ValueFits value := by
  obtain ⟨r, hr, heq⟩ := h
  cases value with
  | Integer x =>
    cases heq
    exact Conv.holds_member_iff hr (iff_of_true holds_ofLong trivial) fun _ _ => trivial
  | Boolean x =>
    cases heq
    exact Conv.holds_member_iff hr (iff_of_true holds_ofBoolean trivial) fun _ _ => trivial
  | Binary b =>
    cases heq
    exact Conv.holds_member_iff hr holds_ofByteStr fun _ => fits_of_ok
  | String s =>
    cases heq
    exact Conv.holds_member_iff hr holds_ofString fun _ => textFits_of_ok

theorem record_dataEntry (d : DataItem) {t : FINAL}
    (h : ∃ r ∈ t.typeList,
      (mapValue d.value).2 = buildTypedEntry (mapValue d.value).2.caseName r) :
    Record [("key", ofString d.key), ("value", (mapValue d.value).1)]
      [("key", STRING), ("value", t)] (TextFits d.key ∧ ValueFits d.value) where
  keys := of_decide_eq_true rfl
  nodup := of_decide_eq_true rfl
  iff := by simp [FieldConv, List.lookup_cons, holds_ofString, holds_mapValue h]

/-- An entry is generic before the fourth version, and of its own type from then on. -/
theorem holds_mapDataEntry {version : StdLibVersion} {d : DataItem} :
    Conv.Holds (mapDataEntry version d) (commonDataEntryType version) ↔
      TextFits d.key ∧ ValueFits d.value := by
  unfold mapDataEntry commonDataEntryType
  by_cases hversion : atLeast version .V4 = true
  · rw [if_pos hversion, if_pos hversion]
    have hnames : (typedDataEntries.map REAL.caseName).Nodup := by decide
    have hmem : (mapValue d.value).2 ∈ (FINAL.UNION typedDataEntries none).typeList := by
      rw [FINAL.typeList_UNION]
      cases d.value <;> simp [mapValue, typedDataEntries]
    refine (holds_named_iff hmem fun s hs => List.inj_on_of_nodup_map hnames hs hmem).trans ?_
    obtain ⟨name, r, htype⟩ : ∃ name r, (mapValue d.value).2 = buildTypedEntry name r := by
      cases d.value <;> exact ⟨_, _, rfl⟩
    have hrecord := record_dataEntry d (t := .real r)
      ⟨r, by simp, by rw [htype]; rfl⟩
    rw [htype]
    exact hrecord.holds_iff name
  · rw [if_neg hversion, if_neg hversion]
    have hrecord := record_dataEntry d (t := dataEntryValueType) (by
      cases d.value <;> exact ⟨_, mem_typeList_UNION.mpr (by simp), rfl⟩)
    exact hrecord.holds_iff FieldNames.DataEntry

end Bindings

end Lang

end WavesNode
