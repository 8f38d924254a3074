/-
The objects that scripts see against the types that are declared for them.

Every object is taken apart into records as it was put together, and each has its type under a
condition. Bytes and texts must fit into a constant. Beyond that, a transfer to many always
lacks a declared field; an order has an undeclared one when proofs are disabled, in every
version but the third, and so has an exchange; and a call is declared only from the third
version on, and never without the name of a function.
-/
import WavesNode.Bindings
import WavesNode.Devnet

set_option autoImplicit false

namespace WavesNode

namespace Lang

namespace Bindings

open converters WavesTypes

/-! ## 1. The parts of a transaction -/

/-- The condition under which the part common to the transactions with proofs is
converted. -/
def ProvenFits (p : TxProven) (proofsEnabled : Bool) : Prop :=
  Fits p.sender ∧ Fits p.senderPk ∧ Fits p.bodyBytes ∧ Fits p.h.id ∧
    (proofsEnabled = true → ∀ b ∈ p.proofs, Fits b)

theorem record_headerPart (h : TxHeader) : Record (headerPart h) WavesTypes.header (Fits h.id) where
  keys := of_decide_eq_true rfl
  nodup := by decide
  iff := by simp [WavesTypes.header, headerPart, FieldConv, List.lookup_cons, holds_ofByteStr, holds_ofLong]

theorem holds_proofsPart {existingProofs : List ByteStr} :
    Conv.Holds (proofsPart existingProofs).2 listByteVector ↔ ∀ b ∈ existingProofs, Fits b := by
  rw [proofsPart, listByteVector, holds_arr_iff, List.forall_mem_map]
  simp only [holds_ofByteStr]
  rw [List.forall_mem_append, and_iff_left_iff_imp]
  -- the empty proofs always fit
  intro _ b hb
  rw [List.eq_of_mem_replicate hb]
  exact fits_nil

theorem record_proofsPart (existingProofs : List ByteStr) :
    Record [proofsPart existingProofs] [proofs] (∀ b ∈ existingProofs, Fits b) where
  keys := of_decide_eq_true rfl
  nodup := by decide
  iff := by
    rw [List.forall_mem_singleton, proofs, fieldConv_iff (by rfl)]
    exact holds_proofsPart

theorem record_proven (p : TxProven) :
    Record
      (combine
        [("sender", senderObject p.sender), ("senderPublicKey", ofByteStr p.senderPk),
          ("bodyBytes", ofByteStr p.bodyBytes)]
        (headerPart p.h))
      (WavesTypes.header ++ proven)
      (Fits p.sender ∧ Fits p.senderPk ∧ Fits p.bodyBytes ∧ Fits p.h.id) := by
  have own : Record
      [("sender", senderObject p.sender), ("senderPublicKey", ofByteStr p.senderPk),
        ("bodyBytes", ofByteStr p.bodyBytes)]
      proven (Fits p.sender ∧ Fits p.senderPk ∧ Fits p.bodyBytes) :=
    { keys := of_decide_eq_true rfl
      nodup := by decide
      iff := by simp [proven, FieldConv, List.lookup_cons, holds_ofByteStr, holds_senderObject] }
  have all := own.combine (record_headerPart p.h) (by decide)
  refine (all.perm List.perm_append_comm).of_iff ?_
  rw [and_assoc, and_assoc]

/-- The fields that every transaction with proofs may have. -/
def provenKeys : List String :=
  ["id", "fee", "timestamp", "version", "sender", "senderPublicKey", "bodyBytes", "proofs"]

/-- Fields of a transaction's own, and those common to the transactions with proofs. -/
theorem record_withProven {own : ConvFields} {decl : List (String × FINAL)} {P : Prop}
    (r : Record own decl P) (h : ∀ k ∈ decl.map Prod.fst, k ∉ provenKeys) (p : TxProven)
    (proofsEnabled : Bool) :
    Record (combine own (provenTxPart p proofsEnabled))
      (addProofsIfNeeded (decl ++ WavesTypes.header ++ proven) proofsEnabled)
      (P ∧ ProvenFits p proofsEnabled) := by
  have hdisjoint : ∀ k ∈ decl.map Prod.fst, k ∉ (WavesTypes.header ++ proven).map Prod.fst :=
    fun k hk hk' => h k hk (List.mem_append_left ["proofs"] hk')
  cases proofsEnabled with
  | false =>
    have all := r.combine (record_proven p) hdisjoint
    rw [List.append_assoc]
    refine all.of_iff ?_
    simp [ProvenFits]
  | true =>
    have hproofs := (record_proven p).combine (record_proofsPart p.proofs) (by decide)
    have all := r.combine hproofs (fun k hk hk' => h k hk (by
      rw [List.map_append] at hk'
      exact hk'))
    refine (all.perm (.of_eq ?_)).of_iff ?_
    · simp [addProofsIfNeeded]
    · simp [ProvenFits, and_assoc]

theorem record_provenTxPart (p : TxProven) (proofsEnabled : Bool) :
    Record (provenTxPart p proofsEnabled)
      (addProofsIfNeeded (WavesTypes.header ++ proven) proofsEnabled)
      (ProvenFits p proofsEnabled) := by
  have none : Record [] [] True :=
    { keys := .refl _
      nodup := by decide
      iff := by simp }
  exact (record_withProven none (by simp) p proofsEnabled).of_iff (and_iff_right trivial)

theorem record_mapRecipient (r : Recipient) :
    Record [mapRecipient r] [("recipient", addressOrAliasType)] (RecipientFits r) where
  keys := .refl _
  nodup := by decide
  iff := by
    rw [List.forall_mem_singleton, fieldConv_iff (by rfl)]
    exact holds_recipientObject

/-- The declarations of a type with proofs, in another order. -/
theorem addProofs_perm {decl decl' : List (String × FINAL)} (h : decl.Perm decl')
    (proofsEnabled : Bool) :
    (addProofsIfNeeded decl proofsEnabled).Perm (addProofsIfNeeded decl' proofsEnabled) := by
  unfold addProofsIfNeeded
  cases proofsEnabled with
  | false => exact h
  | true => exact h.append_right _

theorem addProofs_append (decl decl' : List (String × FINAL)) (proofsEnabled : Bool) :
    addProofsIfNeeded (decl ++ decl') proofsEnabled =
      decl ++ addProofsIfNeeded decl' proofsEnabled := by
  unfold addProofsIfNeeded
  cases proofsEnabled with
  | false => rfl
  | true => exact List.append_assoc ..

/-- A recipient that comes last is declared before the common fields. -/
theorem recipient_perm (decl : List (String × FINAL)) (proofsEnabled : Bool) :
    (decl ++ (addProofsIfNeeded (WavesTypes.header ++ proven) proofsEnabled ++
      [("recipient", addressOrAliasType)])).Perm
      (addProofsIfNeeded
        ((decl ++ [("recipient", addressOrAliasType)]) ++ WavesTypes.header ++ proven)
        proofsEnabled) := by
  rw [List.append_assoc _ WavesTypes.header,
    addProofs_append (decl ++ _) (WavesTypes.header ++ proven),
    List.append_assoc decl]
  exact List.perm_append_comm.append_left decl

/-- Fields of a transaction's own, those common to the transactions with proofs, and a
recipient. -/
theorem record_withRecipient {own : ConvFields} {decl decl' : List (String × FINAL)} {P : Prop}
    (r : Record own decl P) (h : ∀ k ∈ decl.map Prod.fst, k ∉ "recipient" :: provenKeys)
    (hperm : (decl ++ [("recipient", addressOrAliasType)]).Perm decl') (p : TxProven)
    (proofsEnabled : Bool) (recipient : Recipient) :
    Record (combine own (combine (provenTxPart p proofsEnabled) [mapRecipient recipient]))
      (addProofsIfNeeded (decl' ++ WavesTypes.header ++ proven) proofsEnabled)
      (P ∧ ProvenFits p proofsEnabled ∧ RecipientFits recipient) := by
  have hcommon :
      ∀ k ∈ (addProofsIfNeeded (WavesTypes.header ++ proven) proofsEnabled).map Prod.fst,
      k ∈ provenKeys := by
    cases proofsEnabled <;> decide
  have tail := (record_provenTxPart p proofsEnabled).combine (record_mapRecipient recipient) (by
    intro k hk hmem
    have hk := hcommon k hk
    rw [List.map_singleton, List.mem_singleton] at hmem
    rw [hmem] at hk
    exact absurd hk (by decide))
  have all := r.combine tail (by
    intro k hk hmem
    rw [List.map_append, List.mem_append, List.map_singleton, List.mem_singleton] at hmem
    rcases hmem with hmem | hmem
    · exact h k hk (List.mem_cons_of_mem _ (hcommon k hmem))
    · exact h k hk (hmem ▸ List.mem_cons_self))
  refine all.perm ((recipient_perm decl proofsEnabled).trans (addProofs_perm ?_ proofsEnabled))
  rw [List.append_assoc _ WavesTypes.header, List.append_assoc decl' WavesTypes.header]
  exact hperm.append_right _

/-! ## 2. Orders, payments and invocations -/

/-- The condition under which the fields of an order are converted. -/
def OrdFits (ord : Ord) (proofsEnabled : Bool) : Prop :=
  Fits ord.id ∧ Fits ord.sender ∧ Fits ord.senderPublicKey ∧ Fits ord.matcherPublicKey ∧
    Fits ord.bodyBytes ∧ (proofsEnabled = true → ∀ b ∈ ord.proofs, Fits b)

theorem record_order (ord : Ord) :
    Record
      [("id", ofByteStr ord.id), ("sender", senderObject ord.sender),
        ("senderPublicKey", ofByteStr ord.senderPublicKey),
        ("matcherPublicKey", ofByteStr ord.matcherPublicKey),
        ("assetPair", assetPair ord.assetPair), ("orderType", ordType ord.orderType),
        ("amount", ofLong ord.amount), ("price", ofLong ord.price),
        ("timestamp", ofLong ord.timestamp), ("expiration", ofLong ord.expiration),
        ("matcherFee", ofLong ord.matcherFee), ("bodyBytes", ofByteStr ord.bodyBytes),
        ("matcherFeeAssetId", fromOptionBV ord.matcherFeeAssetId)]
      (orderFields ++ proven)
      (Fits ord.id ∧ Fits ord.sender ∧ Fits ord.senderPublicKey ∧ Fits ord.matcherPublicKey ∧
        Fits ord.bodyBytes) where
  keys := of_decide_eq_true rfl
  nodup := by decide
  iff := by
    simp only [orderFields, proven, FieldConv, List.lookup_cons, List.forall_mem_append,
      List.forall_mem_cons]
    simp [holds_ofByteStr, holds_ofLong, holds_senderObject, holds_assetPair, holds_ordType,
      holds_fromOptionBV]
    tauto

/-- An order has the declared fields when proofs are enabled, and of the other versions only
the third leaves them out. -/
theorem holds_orderObject {ord : Ord} {proofsEnabled : Bool} {version : StdLibVersion} :
    Conv.Holds (orderObject ord proofsEnabled version) (.real (buildOrderType proofsEnabled)) ↔
      (proofsEnabled = true ∨ version = .V3) ∧ OrdFits ord proofsEnabled := by
  unfold orderObject buildOrderType
  cases proofsEnabled with
  | true =>
    have r := (record_order ord).combine (record_proofsPart ord.proofs) (by decide)
    refine (r.holds_iff "Order").trans ?_
    simp [OrdFits, and_assoc]
  | false =>
    by_cases hversion : version = .V3
    · subst hversion
      have none : Record [] [] True :=
        { keys := .refl _
          nodup := by decide
          iff := by simp }
      have r := (record_order ord).combine none (by simp)
      rw [List.append_nil] at r
      refine (r.holds_iff "Order").trans ?_
      simp [OrdFits]
    · refine iff_of_false (fun h => ?_) (by simp [hversion])
      have hkeys := (keys_of_holds h "proofs").mp (by simp [hversion, Lang.combine, proofsPart])
      exact absurd hkeys (by decide)

/-- The payments are attached as the version declares them: several, or at most one. -/
def PaymentsOf (version : StdLibVersion) : AttachedPayments → Prop
  | .Single _ => version.supportsMultiPayment = false
  | .Multi _ => version.supportsMultiPayment = true

def PaymentsFit : AttachedPayments → Prop
  | .Single p => ∀ payment ∈ p, PaymentFits payment
  | .Multi p => ∀ payment ∈ p, PaymentFits payment

theorem holds_optionPayment {p : Option (Long × Option ByteStr)} :
    Conv.Holds (fromOptionCO (p.map mapPayment)) optionPayment ↔ ∀ x ∈ p, PaymentFits x := by
  cases p with
  | none =>
    refine iff_of_true (Conv.holds_ok.mpr (holds_unit (by simp))) ?_
    intro x hx
    cases hx
  | some payment =>
    have hnames : ([paymentType, UNIT].map REAL.caseName).Nodup := by decide
    simp only [Option.mem_some_iff, forall_eq']
    refine (holds_named_iff (mem_typeList_UNION.mpr (by simp)) fun s hs hname => ?_).trans
      holds_mapPayment
    exact List.inj_on_of_nodup_map hnames (mem_typeList_UNION.mp hs) (by simp) hname

theorem record_buildPayments {p : AttachedPayments} {version : StdLibVersion}
    (h : PaymentsOf version p) :
    Record [buildPayments p] [payments version.supportsMultiPayment] (PaymentsFit p) := by
  cases p with
  | Single p =>
    rw [h]
    exact
      { keys := .refl _
        nodup := by decide
        iff := by
          rw [List.forall_mem_singleton]
          exact (fieldConv_iff (by rfl)).trans holds_optionPayment }
  | Multi p =>
    rw [h]
    exact
      { keys := .refl _
        nodup := by decide
        iff := by
          rw [List.forall_mem_singleton]
          refine (fieldConv_iff (by rfl)).trans ?_
          rw [listPayment, holds_arr_iff, List.forall_mem_map]
          exact forall₂_congr fun _ _ => holds_mapPayment }

/-- Payments attached otherwise are under a name that is not declared. -/
theorem undeclared_payments {p : AttachedPayments} {version : StdLibVersion}
    (h : ¬ PaymentsOf version p) :
    (buildPayments p).1 ≠ (payments version.supportsMultiPayment).1 := by
  unfold payments
  cases p with
  | Single p =>
    rw [PaymentsOf, Bool.not_eq_false] at h
    rw [if_pos h]
    show "payment" ≠ "payments"
    decide
  | Multi p =>
    rw [PaymentsOf] at h
    rw [if_neg h]
    show "payments" ≠ "payment"
    decide

/-- The condition under which an invocation is converted. -/
def InvocationFits (i : Invocation) : Prop :=
  Fits i.caller ∧ Fits i.callerPk ∧ Fits i.transactionId ∧ PaymentsFit i.payments

theorem record_invocation (i : Invocation) :
    Record
      [("caller", recipientObject (.Address i.caller)), ("callerPublicKey", ofByteStr i.callerPk),
        ("transactionId", ofByteStr i.transactionId), ("fee", ofLong i.fee),
        ("feeAssetId", fromOptionBV i.feeAssetId)]
      [("caller", .real addressType), ("callerPublicKey", BYTESTR), ("transactionId", BYTESTR),
        ("fee", LONG), ("feeAssetId", optionByteVector)]
      (Fits i.caller ∧ Fits i.callerPk ∧ Fits i.transactionId) where
  keys := .refl _
  nodup := by decide
  iff := by
    simp [FieldConv, List.lookup_cons, holds_ofByteStr, holds_ofLong, recipientObject,
      holds_senderObject, holds_fromOptionBV]

theorem holds_buildInvocation {i : Invocation} {version : StdLibVersion} :
    Conv.Holds (buildInvocation i version) (.real (invocationType version)) ↔
      PaymentsOf version i.payments ∧ InvocationFits i := by
  have hkeys : ∀ k ∈ ["caller", "callerPublicKey", "transactionId", "fee", "feeAssetId"],
      k ∉ [(payments version.supportsMultiPayment).1] := by
    cases version <;> decide
  unfold buildInvocation invocationType
  by_cases hpayments : PaymentsOf version i.payments
  · have r := (record_invocation i).combine (record_buildPayments hpayments) hkeys
    refine ((r.perm List.perm_append_comm).holds_iff "Invocation").trans ?_
    simp [hpayments, InvocationFits, and_assoc]
  · refine iff_of_false (fun h => ?_) fun h => hpayments h.1
    -- the payments of the object stand under the other name
    have hdeclared := (keys_of_holds h (buildPayments i.payments).1).mp (by
      simp [Lang.combine])
    rw [List.map_cons, List.mem_cons] at hdeclared
    rcases hdeclared with hname | hother
    · exact undeclared_payments hpayments hname
    · revert hother
      cases i.payments <;> simp [buildPayments]

/-! ## 3. Transactions -/

/-- What an argument may be, as it is declared. -/
def argType : FINAL := UNION [.LONG, .STRING, .BOOLEAN, .BYTESTR]

/-- The condition under which a transaction has the declared fields, of the declared types. -/
def FieldsMatch (proofsEnabled : Bool) (version : StdLibVersion) : Tx → Prop
  | .Genesis h _ recipient => Fits h.id ∧ RecipientFits recipient
  | .Payment p _ recipient => ProvenFits p proofsEnabled ∧ RecipientFits recipient
  | .Transfer p _ _ _ recipient attachment =>
    Fits attachment ∧ ProvenFits p proofsEnabled ∧ RecipientFits recipient
  | .Issue p _ name description _ _ _ =>
    (Fits name ∧ Fits description) ∧ ProvenFits p proofsEnabled
  | .ReIssue p _ assetId _ => Fits assetId ∧ ProvenFits p proofsEnabled
  | .Burn p _ assetId => Fits assetId ∧ ProvenFits p proofsEnabled
  | .CI p addressOrAlias attached _ funcName funcArgs =>
    PaymentsOf version attached ∧
      ((RecipientFits addressOrAlias ∧ (∃ s, funcName = some s ∧ TextFits s) ∧
        ∀ a ∈ funcArgs, argType.holds a = true) ∧ PaymentsFit attached) ∧
      ProvenFits p proofsEnabled
  | .Lease p _ recipient => ProvenFits p proofsEnabled ∧ RecipientFits recipient
  | .LeaseCancel p leaseId => Fits leaseId ∧ ProvenFits p proofsEnabled
  | .CreateAlias p «alias» => TextFits «alias» ∧ ProvenFits p proofsEnabled
  | .SetScript p _ => ProvenFits p proofsEnabled
  | .SetAssetScript p assetId _ => Fits assetId ∧ ProvenFits p proofsEnabled
  | .MassTransfer .. => False
  | .Sponsorship p assetId _ => Fits assetId ∧ ProvenFits p proofsEnabled
  | .Exchange p _ _ _ _ buyOrder sellOrder =>
    ((proofsEnabled = true ∨ version = .V3) ∧ OrdFits buyOrder proofsEnabled ∧
      OrdFits sellOrder proofsEnabled) ∧ ProvenFits p proofsEnabled
  | .Data p data => (∀ d ∈ data, TextFits d.key ∧ ValueFits d.value) ∧ ProvenFits p proofsEnabled

theorem record_amount (amount : Long) : Record [("amount", ofLong amount)] [("amount", LONG)] True
    where
  keys := .refl _
  nodup := by decide
  iff := by simp [FieldConv, List.lookup_cons, holds_ofLong]

theorem genesis_match (h : TxHeader) (amount : Long) (recipient : Recipient)
    (proofsEnabled : Bool) (version : StdLibVersion) :
    Conv.Holds (transactionObject (.Genesis h amount recipient) proofsEnabled version)
      (.real genesisTransactionType) ↔ Fits h.id ∧ RecipientFits recipient := by
  have r := ((record_amount amount).combine (record_headerPart h) (by decide)).combine
    (record_mapRecipient recipient) (by decide)
  have hperm : ([("amount", LONG)] ++ WavesTypes.header ++ [("recipient", addressOrAliasType)]).Perm
      ([("amount", LONG), ("recipient", addressOrAliasType)] ++ WavesTypes.header) := by
    rw [List.append_assoc]
    exact List.perm_append_comm.append_left [("amount", LONG)]
  refine ((r.perm hperm).holds_iff "GenesisTransaction").trans ?_
  simp

theorem payment_match (p : TxProven) (amount : Long) (recipient : Recipient)
    (proofsEnabled : Bool) (version : StdLibVersion) :
    Conv.Holds (transactionObject (.Payment p amount recipient) proofsEnabled version)
      (.real (buildPaymentTransactionType proofsEnabled)) ↔
      ProvenFits p proofsEnabled ∧ RecipientFits recipient := by
  have r := (record_withProven (record_amount amount) (by decide) p proofsEnabled).combine
    (record_mapRecipient recipient) (by cases proofsEnabled <;> decide)
  have hperm : (addProofsIfNeeded
      ([("amount", LONG)] ++ WavesTypes.header ++ proven) proofsEnabled ++
      [("recipient", addressOrAliasType)]).Perm
      (addProofsIfNeeded (paymentFields ++ WavesTypes.header ++ proven) proofsEnabled) := by
    rw [List.append_assoc _ WavesTypes.header, addProofs_append _ (WavesTypes.header ++ proven),
      List.append_assoc]
    exact recipient_perm [("amount", LONG)] proofsEnabled
  refine ((r.perm hperm).holds_iff "PaymentTransaction").trans ?_
  simp

theorem transfer_match (p : TxProven) (feeAssetId assetId : Option ByteStr) (amount : Long)
    (recipient : Recipient) (attachment : ByteStr) (proofsEnabled : Bool)
    (version : StdLibVersion) :
    Conv.Holds
      (transactionObject (.Transfer p feeAssetId assetId amount recipient attachment)
        proofsEnabled version) (.real (buildTransferTransactionType proofsEnabled)) ↔
      Fits attachment ∧ ProvenFits p proofsEnabled ∧ RecipientFits recipient := by
  have own : Record
      [("amount", ofLong amount), ("feeAssetId", fromOptionBV feeAssetId),
        ("assetId", fromOptionBV assetId), ("attachment", ofByteStr attachment)]
      [("feeAssetId", optionByteVector), ("amount", LONG), ("assetId", optionByteVector),
        ("attachment", BYTESTR)] (Fits attachment) :=
    { keys := of_decide_eq_true rfl
      nodup := by decide
      iff := by
        simp [FieldConv, List.lookup_cons, holds_ofByteStr, holds_ofLong, holds_fromOptionBV] }
  have hperm : ([("feeAssetId", optionByteVector), ("amount", LONG), ("assetId", optionByteVector),
      ("attachment", BYTESTR)] ++ [("recipient", addressOrAliasType)]).Perm transferFields :=
    .cons _ (.cons _ (.cons _ (.swap _ _ _)))
  exact (record_withRecipient own (by decide) hperm p proofsEnabled recipient).holds_iff
    "TransferTransaction"

theorem lease_match (p : TxProven) (amount : Long) (recipient : Recipient)
    (proofsEnabled : Bool) (version : StdLibVersion) :
    Conv.Holds (transactionObject (.Lease p amount recipient) proofsEnabled version)
      (.real (buildLeaseTransactionType proofsEnabled)) ↔
      ProvenFits p proofsEnabled ∧ RecipientFits recipient :=
  ((record_withRecipient (record_amount amount) (by decide) (.refl _) p proofsEnabled
    recipient).holds_iff "LeaseTransaction").trans (and_iff_right trivial)

/-- The fields of a transfer to many lack one that is declared. -/
theorem massTransfer_mismatch (p : TxProven) (assetId : Option ByteStr)
    (transferCount totalAmount : Long) (transfers : List TransferItem) (attachment : ByteStr)
    (proofsEnabled : Bool) (version : StdLibVersion) :
    ¬ Conv.Holds
      (transactionObject (.MassTransfer p assetId transferCount totalAmount transfers attachment)
        proofsEnabled version) (.real (buildMassTransferTransactionType proofsEnabled)) := by
  intro h
  have hkeys := (keys_of_holds h "feeAssetId").mpr (by cases proofsEnabled <;> decide)
  revert hkeys
  cases proofsEnabled <;>
    simp [transactionParts, Lang.combine, provenTxPart, headerPart, proofsPart]

theorem exchange_match (p : TxProven) (amount price buyMatcherFee sellMatcherFee : Long)
    (buyOrder sellOrder : Ord) (proofsEnabled : Bool) (version : StdLibVersion) :
    Conv.Holds
      (transactionObject
        (.Exchange p amount price buyMatcherFee sellMatcherFee buyOrder sellOrder) proofsEnabled
        version) (.real (buildExchangeTransactionType proofsEnabled)) ↔
      ((proofsEnabled = true ∨ version = .V3) ∧ OrdFits buyOrder proofsEnabled ∧
        OrdFits sellOrder proofsEnabled) ∧ ProvenFits p proofsEnabled := by
  have own : Record
      [("buyOrder", orderObject buyOrder proofsEnabled version),
        ("sellOrder", orderObject sellOrder proofsEnabled version), ("amount", ofLong amount),
        ("price", ofLong price), ("buyMatcherFee", ofLong buyMatcherFee),
        ("sellMatcherFee", ofLong sellMatcherFee)]
      (exchangeFields proofsEnabled)
      (((proofsEnabled = true ∨ version = .V3) ∧ OrdFits buyOrder proofsEnabled) ∧
        ((proofsEnabled = true ∨ version = .V3) ∧ OrdFits sellOrder proofsEnabled)) :=
    { keys := of_decide_eq_true rfl
      nodup := of_decide_eq_true rfl
      iff := by
        simp [exchangeFields, FieldConv, List.lookup_cons, holds_orderObject, holds_ofLong] }
  refine ((record_withProven own ?_ p proofsEnabled).holds_iff "ExchangeTransaction").trans ?_
  · exact of_decide_eq_true rfl
  · rw [← and_and_left]

theorem data_match (p : TxProven) (data : List DataItem) (proofsEnabled : Bool)
    (version : StdLibVersion) :
    Conv.Holds (transactionObject (.Data p data) proofsEnabled version)
      (.real (buildDataTransactionType proofsEnabled version)) ↔
      (∀ d ∈ data, TextFits d.key ∧ ValueFits d.value) ∧ ProvenFits p proofsEnabled := by
  have own : Record [("data", arr (data.map (mapDataEntry version)))] (dataFields version)
      (∀ d ∈ data, TextFits d.key ∧ ValueFits d.value) :=
    { keys := .refl _
      nodup := of_decide_eq_true rfl
      iff := by
        rw [dataFields, List.forall_mem_singleton, fieldConv_iff (by rfl), holds_arr_iff,
          List.forall_mem_map]
        exact forall₂_congr fun _ _ => holds_mapDataEntry }
  exact (record_withProven own (of_decide_eq_true rfl) p proofsEnabled).holds_iff
    "DataTransaction"

/-- A call has the declared fields when its payments are attached as the version declares
them and it names a function. -/
theorem invokeScript_match (p : TxProven) (addressOrAlias : Recipient)
    (attached : AttachedPayments) (feeAssetId : Option ByteStr) (funcName : Option String)
    (funcArgs : List EVALUATED) (proofsEnabled : Bool) (version : StdLibVersion) :
    Conv.Holds
      (transactionObject (.CI p addressOrAlias attached feeAssetId funcName funcArgs)
        proofsEnabled version) (.real (buildInvokeScriptTransactionType proofsEnabled version)) ↔
      PaymentsOf version attached ∧
        ((RecipientFits addressOrAlias ∧ (∃ s, funcName = some s ∧ TextFits s) ∧
          ∀ a ∈ funcArgs, argType.holds a = true) ∧ PaymentsFit attached) ∧
        ProvenFits p proofsEnabled := by
  have own : Record
      [("dApp", recipientObject addressOrAlias), ("feeAssetId", fromOptionBV feeAssetId),
        ("function", fromOptionS funcName), ("args", .ok (.ARR funcArgs))]
      invokeScriptFields
      (RecipientFits addressOrAlias ∧ (∃ s, funcName = some s ∧ TextFits s) ∧
        ∀ a ∈ funcArgs, argType.holds a = true) :=
    { keys := of_decide_eq_true rfl
      nodup := by decide
      iff := by
        simp [invokeScriptFields, FieldConv, List.lookup_cons, holds_recipientObject,
          holds_fromOptionBV, holds_fromOptionS, argType] }
  by_cases hpayments : PaymentsOf version attached
  · have hkeys : ∀ k ∈ invokeScriptFields.map Prod.fst,
        k ∉ [payments version.supportsMultiPayment].map Prod.fst := by
      cases version <;> decide
    have hkeys' : ∀ k ∈ (invokeScriptFields ++ [payments version.supportsMultiPayment]).map
        Prod.fst, k ∉ provenKeys := by
      cases version <;> decide
    have r := record_withProven (own.combine (record_buildPayments hpayments) hkeys) hkeys' p
      proofsEnabled
    -- the payments are declared behind the common fields
    have hperm : (invokeScriptFields ++ [payments version.supportsMultiPayment] ++
        WavesTypes.header ++
        proven).Perm
        (invokeScriptFields ++ WavesTypes.header ++ proven ++
          [payments version.supportsMultiPayment]) := by
      rw [List.append_assoc _ WavesTypes.header, List.append_assoc,
        List.append_assoc _ WavesTypes.header,
        List.append_assoc invokeScriptFields]
      exact List.perm_append_comm.append_left _
    refine ((r.perm (addProofs_perm hperm proofsEnabled)).holds_iff
      "InvokeScriptTransaction").trans ?_
    exact (and_iff_right hpayments).symm
  · refine iff_of_false (fun h => ?_) fun h => hpayments h.1
    have hdeclared := (keys_of_holds h (buildPayments attached).1).mp (by
      cases attached <;> cases proofsEnabled <;>
        simp [transactionParts, Lang.combine, provenTxPart, headerPart, proofsPart,
          buildPayments])
    have hname := undeclared_payments hpayments
    revert hname hdeclared
    cases attached <;> cases proofsEnabled <;> cases version <;>
      simp [buildPayments, payments, StdLibVersion.supportsMultiPayment, addProofsIfNeeded,
        invokeScriptFields, WavesTypes.header, proven, proofs]

/-- A transaction is of its own type under the condition. -/
theorem fields_match (tx : Tx) (proofsEnabled : Bool) (version : StdLibVersion) :
    Conv.Holds (transactionObject tx proofsEnabled version)
      (.real (transactionParts tx proofsEnabled version).1) ↔
      FieldsMatch proofsEnabled version tx := by
  cases tx with
  | Genesis h amount recipient => exact genesis_match h amount recipient proofsEnabled version
  | Payment p amount recipient => exact payment_match p amount recipient proofsEnabled version
  | Transfer p feeAssetId assetId amount recipient attachment =>
    exact transfer_match p feeAssetId assetId amount recipient attachment proofsEnabled version
  | Issue p quantity name description reissuable decimals script =>
    have own : Record
        [("quantity", ofLong quantity), ("name", ofByteStr name),
          ("description", ofByteStr description), ("reissuable", ofBoolean reissuable),
          ("decimals", ofLong decimals), ("script", fromOptionBV script)]
        issueFields (Fits name ∧ Fits description) :=
      { keys := .refl _
        nodup := by decide
        iff := by
          simp [issueFields, FieldConv, List.lookup_cons, holds_ofByteStr, holds_ofLong,
            holds_ofBoolean, holds_fromOptionBV] }
    exact (record_withProven own (by decide) p proofsEnabled).holds_iff "IssueTransaction"
  | ReIssue p quantity assetId reissuable =>
    have own : Record
        [("quantity", ofLong quantity), ("assetId", ofByteStr assetId),
          ("reissuable", ofBoolean reissuable)] reissueFields (Fits assetId) :=
      { keys := .refl _
        nodup := by decide
        iff := by
          simp [reissueFields, FieldConv, List.lookup_cons, holds_ofByteStr, holds_ofLong,
            holds_ofBoolean] }
    exact (record_withProven own (by decide) p proofsEnabled).holds_iff "ReissueTransaction"
  | Burn p quantity assetId =>
    have own : Record [("quantity", ofLong quantity), ("assetId", ofByteStr assetId)] burnFields
        (Fits assetId) :=
      { keys := .refl _
        nodup := by decide
        iff := by
          simp [burnFields, FieldConv, List.lookup_cons, holds_ofByteStr, holds_ofLong] }
    exact (record_withProven own (by decide) p proofsEnabled).holds_iff "BurnTransaction"
  | CI p addressOrAlias attached feeAssetId funcName funcArgs =>
    exact invokeScript_match p addressOrAlias attached feeAssetId funcName funcArgs proofsEnabled
      version
  | Lease p amount recipient => exact lease_match p amount recipient proofsEnabled version
  | LeaseCancel p leaseId =>
    have own : Record [("leaseId", ofByteStr leaseId)] leaseCancelFields (Fits leaseId) :=
      { keys := .refl _
        nodup := by decide
        iff := by simp [leaseCancelFields, FieldConv, List.lookup_cons, holds_ofByteStr] }
    exact (record_withProven own (by decide) p proofsEnabled).holds_iff "LeaseCancelTransaction"
  | CreateAlias p «alias» =>
    have own : Record [("alias", ofString «alias»)] createAliasFields (TextFits «alias») :=
      { keys := .refl _
        nodup := by decide
        iff := by simp [createAliasFields, FieldConv, List.lookup_cons, holds_ofString] }
    exact (record_withProven own (by decide) p proofsEnabled).holds_iff "CreateAliasTransaction"
  | SetScript p script =>
    have own : Record [("script", fromOptionBV script)] setScriptFields True :=
      { keys := .refl _
        nodup := by decide
        iff := by simp [setScriptFields, FieldConv, List.lookup_cons, holds_fromOptionBV] }
    exact ((record_withProven own (by decide) p proofsEnabled).holds_iff
      "SetScriptTransaction").trans (and_iff_right trivial)
  | SetAssetScript p assetId script =>
    have own : Record [("script", fromOptionBV script), ("assetId", ofByteStr assetId)]
        setAssetScriptFields (Fits assetId) :=
      { keys := .refl _
        nodup := by decide
        iff := by
          simp [setAssetScriptFields, FieldConv, List.lookup_cons, holds_ofByteStr,
            holds_fromOptionBV] }
    exact (record_withProven own (by decide) p proofsEnabled).holds_iff
      "SetAssetScriptTransaction"
  | MassTransfer p assetId transferCount totalAmount transfers attachment =>
    exact iff_of_false (massTransfer_mismatch p assetId transferCount totalAmount transfers
      attachment proofsEnabled version) id
  | Sponsorship p assetId minSponsoredAssetFee =>
    have own : Record
        [("assetId", ofByteStr assetId), ("minSponsoredAssetFee", fromOptionL minSponsoredAssetFee)]
        sponsorFeeFields (Fits assetId) :=
      { keys := .refl _
        nodup := by decide
        iff := by
          simp [sponsorFeeFields, FieldConv, List.lookup_cons, holds_ofByteStr,
            holds_fromOptionL] }
    exact (record_withProven own (by decide) p proofsEnabled).holds_iff "SponsorFeeTransaction"
  | Exchange p amount price buyMatcherFee sellMatcherFee buyOrder sellOrder =>
    exact exchange_match p amount price buyMatcherFee sellMatcherFee buyOrder sellOrder
      proofsEnabled version
  | Data p data => exact data_match p data proofsEnabled version

/-- The compiler knows a call only from the third version on. -/
def TypeDeclared (version : StdLibVersion) : Tx → Prop
  | .CI .. => atLeast version .V3 = true
  | _ => True

theorem names_nodup (proofsEnabled : Bool) (version : StdLibVersion) :
    ((anyTransactionType proofsEnabled version).typeList.map REAL.caseName).Nodup := by
  cases proofsEnabled <;> cases version <;> decide

theorem mem_anyTransactionType (tx : Tx) (proofsEnabled : Bool) (version : StdLibVersion)
    (h : TypeDeclared version tx) :
    (transactionParts tx proofsEnabled version).1 ∈
      (anyTransactionType proofsEnabled version).typeList := by
  rw [anyTransactionType, FINAL.typeList_UNION, buildObsoleteTransactionTypes,
    buildActiveTransactionTypes, buildAssetSupportedTransactions]
  cases tx with
  | CI p addressOrAlias attached feeAssetId funcName funcArgs =>
    have hversion : atLeast version .V3 = true := h
    simp [transactionParts, hversion]
  | _ => simp [transactionParts]

/-- The object of a transaction is of the union that the compiler uses. -/
theorem holds_anyTransactionType_iff (tx : Tx) (proofsEnabled : Bool) (version : StdLibVersion) :
    Conv.Holds (transactionObject tx proofsEnabled version)
      (anyTransactionType proofsEnabled version) ↔
      TypeDeclared version tx ∧ FieldsMatch proofsEnabled version tx := by
  by_cases h : TypeDeclared version tx
  · have hmem := mem_anyTransactionType tx proofsEnabled version h
    rw [and_iff_right h, ← fields_match tx proofsEnabled version]
    exact holds_named_iff hmem fun s hs =>
      List.inj_on_of_nodup_map (names_nodup proofsEnabled version) hs hmem
  · refine iff_of_false (fun hholds => ?_) fun hand => h hand.1
    obtain ⟨r, hr, hholds⟩ := Conv.holds_typeList_iff.mp hholds
    have hname := name_of_holds hholds
    cases tx with
    | CI p addressOrAlias attached feeAssetId funcName funcArgs =>
      have hnone : ∀ s ∈ (anyTransactionType proofsEnabled version).typeList,
          s.caseName ≠ "InvokeScriptTransaction" := by
        have h : ¬ atLeast version .V3 = true := h
        revert h
        cases proofsEnabled <;> cases version <;> decide
      exact hnone r hr hname.symm
    | _ => exact h trivial

/-! ## 4. Transactions of the node -/

/-- An argument is a literal, and fits. -/
def ArgFits : CallArg → Prop
  | .CONST_LONG _ => True
  | .CONST_BOOLEAN _ => True
  | .CONST_BYTESTR value => Fits value
  | .CONST_STRING value => TextFits value
  | .other _ => False

theorem holds_asEvaluated {a : CallArg} :
    Conv.Holds (RealTransactionWrapper.asEvaluated a) argType ↔ ArgFits a := by
  cases a with
  | CONST_LONG value =>
    exact Conv.holds_member_iff (mem_typeList_UNION.mpr (by simp))
      (iff_of_true holds_ofLong trivial) fun _ _ => trivial
  | CONST_BOOLEAN value =>
    exact Conv.holds_member_iff (mem_typeList_UNION.mpr (by simp))
      (iff_of_true holds_ofBoolean trivial) fun _ _ => trivial
  | CONST_BYTESTR value =>
    exact Conv.holds_member_iff (mem_typeList_UNION.mpr (by simp)) holds_ofByteStr
      fun _ => fits_of_ok
  | CONST_STRING value =>
    exact Conv.holds_member_iff (mem_typeList_UNION.mpr (by simp)) holds_ofString
      fun _ => textFits_of_ok
  | other bytes => exact iff_of_false Conv.not_holds_error id

/-- The arguments are converted to values of their type when they are literals that fit. -/
theorem holds_args (args : List CallArg) :
    (∃ vs, convAll (args.map RealTransactionWrapper.asEvaluated) = .ok vs ∧
      ∀ v ∈ vs, argType.holds v = true) ↔ ∀ a ∈ args, ArgFits a := by
  have hall : Conv.Holds (arr (args.map RealTransactionWrapper.asEvaluated)) (.list argType) ↔
      ∀ a ∈ args, ArgFits a := by
    rw [holds_arr_iff, List.forall_mem_map]
    exact forall₂_congr fun _ _ => holds_asEvaluated
  rw [← hall]
  unfold arr Conv.Holds
  cases convAll (args.map RealTransactionWrapper.asEvaluated) with
  | error e => simp [Except.map]
  | ok vs => simp [Except.map]

/-- Every asset of the payments fits. -/
def AssetsFit (ps : List WavesNode.Payment) : Prop := ∀ p ∈ ps, ∀ id ∈ p.assetId.compatId, Fits id

/-- Payments are attached as the version declares them. -/
theorem paymentsOf_extracted {tx : InvokeScriptTransaction} {version : StdLibVersion}
    {allowsMultiPayment : Bool} {target : AttachedPaymentTarget} {attached : AttachedPayments}
    (h : AttachedPaymentExtractor.extractPayments tx version allowsMultiPayment target =
      .ok attached) :
    PaymentsOf version attached ∧ (PaymentsFit attached ↔ AssetsFit tx.payments) := by
  have hmulti : PaymentsFit (AttachedPaymentExtractor.multiple tx) ↔ AssetsFit tx.payments :=
    List.forall_mem_map
  unfold AttachedPaymentExtractor.extractPayments at h
  by_cases hone : tx.payments.length ≤ 1
  · rw [if_pos hone] at h
    by_cases hversion : version.supportsMultiPayment = true
    · rw [if_pos hversion] at h
      cases h
      exact ⟨hversion, hmulti⟩
    · rw [if_neg hversion] at h
      cases h
      refine ⟨Bool.eq_false_of_not_eq_true hversion, ?_⟩
      -- the only payment, if there is one
      unfold AttachedPaymentExtractor.single PaymentsFit AssetsFit
      match hps : tx.payments, hone with
      | [], _ => simp
      | [p], _ => simp [PaymentFits, AttachedPaymentExtractor.paymentOf]
      | _ :: _ :: _, hone => exact absurd hone (by simp)
  · rw [if_neg hone] at h
    split at h
    · cases h
    · split at h
      · cases h
      · rename_i hversion
        split at h
        · cases h
        · cases h
          refine ⟨?_, hmulti⟩
          rw [Bool.not_eq_true', Bool.not_eq_false] at hversion
          exact hversion

section
variable [Crypto] [PBTransactionSerializer]

/-- The object built of a transaction is of the union that the compiler uses. Where the payments
of a call cannot be attached, there is no object. -/
def TransactionDeclared (tx : Transaction) (proofsEnabled : Bool) (version : StdLibVersion)
    (allowsMultiPayment : Bool) (target : AttachedPaymentTarget) : Prop :=
  match RealTransactionWrapper.apply tx allowsMultiPayment version target with
  | .right t =>
    Conv.Holds (transactionObject t proofsEnabled version)
      (anyTransactionType proofsEnabled version)
  | .left _ => True
  | .thrown _ => False

/-- The bytes and texts of a transaction that are converted fit. -/
def TransactionFits (tx : Transaction) (proofsEnabled : Bool) : Prop :=
  let common (sender : PublicKey) : Prop :=
    ProvenFits (RealTransactionWrapper.proven tx sender) proofsEnabled
  let recipientFits (r : AddressOrAlias) : Prop :=
    RecipientFits (RealTransactionWrapper.aoaToRecipient r)
  match tx with
  | .genesis g => Fits (RealTransactionWrapper.header tx).id ∧ Fits g.recipient.bytes
  | .payment p => common p.sender ∧ Fits p.recipient.bytes
  | .issue i => (Fits i.name ∧ Fits i.description) ∧ common i.sender
  | .transfer t => Fits t.attachment ∧ common t.sender ∧ recipientFits t.recipient
  | .reissue r => Fits r.asset.id ∧ common r.sender
  | .burn b => Fits b.asset.id ∧ common b.sender
  | .exchange e =>
    (OrdFits (RealTransactionWrapper.ord e.buyOrder) proofsEnabled ∧
      OrdFits (RealTransactionWrapper.ord e.sellOrder) proofsEnabled) ∧ common e.sender
  | .lease l => common l.sender ∧ recipientFits l.recipient
  | .leaseCancel l => Fits l.leaseId ∧ common l.sender
  | .createAlias c => TextFits c.alias.name ∧ common c.sender
  | .massTransfer _ => True
  | .data d => (∀ e ∈ d.data, TextFits e.key ∧ ValueFits e.value) ∧ common d.sender
  | .setScript s => common s.sender
  | .sponsorFee s => Fits s.asset.id ∧ common s.sender
  | .setAssetScript s => Fits s.asset.id ∧ common s.sender
  | .invokeScript ci =>
    (recipientFits ci.dAppAddressOrAlias ∧
      ∀ call ∈ ci.funcCallOpt, TextFits (FunctionHeader.funcName call.function) ∧
        ∀ a ∈ call.args, ArgFits a) ∧
    AssetsFit ci.payments ∧ common ci.sender

/-- The kinds of transactions whose objects are declared as they are built. -/
def KindDeclared (proofsEnabled : Bool) (version : StdLibVersion) : Transaction → Prop
  | .massTransfer _ => False
  | .exchange _ => proofsEnabled = true ∨ version = .V3
  | .invokeScript ci => atLeast version .V3 = true ∧ ci.funcCallOpt.isSome = true
  | _ => True

/-- The payments of a call cannot be attached. -/
def Unattachable (tx : Transaction) (version : StdLibVersion) (allowsMultiPayment : Bool)
    (target : AttachedPaymentTarget) : Prop :=
  ∃ ci e, tx = .invokeScript ci ∧
    AttachedPaymentExtractor.extractPayments ci version allowsMultiPayment target = .error e

theorem invokeScript_declared_iff (ci : InvokeScriptTransaction) (proofsEnabled : Bool)
    (version : StdLibVersion) (allowsMultiPayment : Bool) (target : AttachedPaymentTarget) :
    TransactionDeclared (.invokeScript ci) proofsEnabled version allowsMultiPayment target ↔
      Unattachable (.invokeScript ci) version allowsMultiPayment target ∨
      (KindDeclared proofsEnabled version (.invokeScript ci) ∧
        TransactionFits (.invokeScript ci) proofsEnabled) := by
  cases hpayments : AttachedPaymentExtractor.extractPayments ci version allowsMultiPayment
      target with
  | error e =>
    simp only [TransactionDeclared, RealTransactionWrapper.apply, hpayments]
    exact iff_of_true trivial (.inl ⟨ci, e, rfl, hpayments⟩)
  | ok attached =>
    have hattachable : ¬ Unattachable (.invokeScript ci) version allowsMultiPayment target := by
      rintro ⟨ci', e, heq, he⟩
      cases heq
      rw [hpayments] at he
      cases he
    obtain ⟨hof, hfit⟩ := paymentsOf_extracted hpayments
    have hargs := holds_args ((ci.funcCallOpt.map WavesNode.FunctionCall.args).getD [])
    rw [or_iff_right hattachable]
    cases hconv : convAll (((ci.funcCallOpt.map WavesNode.FunctionCall.args).getD []).map
        RealTransactionWrapper.asEvaluated) with
    | error t =>
      -- one of the arguments is no literal, or does not fit
      simp only [TransactionDeclared, RealTransactionWrapper.apply, hpayments, hconv]
      refine iff_of_false id fun h => ?_
      have hcall := h.2.1.2
      rw [hconv] at hargs
      obtain ⟨vs, hvs, -⟩ := hargs.mpr (by
        cases hfunc : ci.funcCallOpt with
        | none => simp
        | some call => exact (hcall call hfunc).2)
      cases hvs
    | ok funcArgs =>
      rw [hconv] at hargs
      simp only [Except.ok.injEq, exists_eq_left'] at hargs
      simp only [TransactionDeclared, RealTransactionWrapper.apply, hpayments, hconv]
      refine (holds_anyTransactionType_iff _ proofsEnabled version).trans ?_
      simp only [TypeDeclared, FieldsMatch, KindDeclared, TransactionFits, hof, true_and, hargs,
        hfit]
      cases ci.funcCallOpt with
      | none => simp
      | some call => simp [and_assoc]

theorem transaction_declared_iff (tx : Transaction) (proofsEnabled : Bool)
    (version : StdLibVersion) (allowsMultiPayment : Bool) (target : AttachedPaymentTarget) :
    TransactionDeclared tx proofsEnabled version allowsMultiPayment target ↔
      Unattachable tx version allowsMultiPayment target ∨
      (KindDeclared proofsEnabled version tx ∧ TransactionFits tx proofsEnabled) := by
  have attachable : (∀ ci, tx ≠ .invokeScript ci) →
      ¬ Unattachable tx version allowsMultiPayment target := by
    rintro h ⟨ci, e, heq, -⟩
    exact h ci heq
  cases tx with
  | invokeScript ci =>
    exact invokeScript_declared_iff ci proofsEnabled version allowsMultiPayment target
  | exchange e =>
    rw [or_iff_right (attachable (by simp)), KindDeclared, TransactionFits, ← and_assoc,
      ← and_assoc]
    refine (holds_anyTransactionType_iff _ proofsEnabled version).trans ?_
    simp only [TypeDeclared, FieldsMatch, true_and, and_assoc]
  | _ =>
    rw [or_iff_right (attachable (by simp))]
    refine (holds_anyTransactionType_iff _ proofsEnabled version).trans ?_
    simp [TypeDeclared, FieldsMatch, KindDeclared, TransactionFits, RecipientFits]

/-- The object of an order is of the type declared for orders. -/
def OrderDeclared (o : Order) (proofsEnabled : Bool) (version : StdLibVersion) : Prop :=
  Conv.Holds (orderObject (RealTransactionWrapper.ord o) proofsEnabled version)
    (.real (buildOrderType proofsEnabled))

/-- The invocation that a call of a contract is evaluated with. -/
def invocationOf (ci : InvokeScriptTransaction) (attached : AttachedPayments) : Invocation where
  caller := ci.sender.toAddress.bytes
  callerPk := ci.sender
  payments := attached
  transactionId := Transaction.id (.invokeScript ci)
  fee := ci.fee
  feeAssetId := ci.feeAssetId.compatId

/-- The object of an invocation is of its type. Where the payments cannot be attached, there is
no invocation. -/
def InvocationDeclared (ci : InvokeScriptTransaction) (version : StdLibVersion)
    (allowsMultiPayment : Bool) : Prop :=
  match AttachedPaymentExtractor.extractPayments ci version allowsMultiPayment .DApp with
  | .ok attached =>
    Conv.Holds (buildInvocation (invocationOf ci attached) version)
      (.real (invocationType version))
  | .error _ => True

theorem invocation_declared_iff (ci : InvokeScriptTransaction) (version : StdLibVersion)
    (allowsMultiPayment : Bool) :
    InvocationDeclared ci version allowsMultiPayment ↔
      Unattachable (.invokeScript ci) version allowsMultiPayment .DApp ∨
      (Fits ci.sender.toAddress.bytes ∧ Fits ci.sender ∧
        Fits (Transaction.id (.invokeScript ci)) ∧ AssetsFit ci.payments) := by
  unfold InvocationDeclared
  cases hpayments : AttachedPaymentExtractor.extractPayments ci version allowsMultiPayment
      .DApp with
  | error e => exact iff_of_true trivial (.inl ⟨ci, e, rfl, hpayments⟩)
  | ok attached =>
    have hattachable : ¬ Unattachable (.invokeScript ci) version allowsMultiPayment .DApp := by
      rintro ⟨ci', e, heq, he⟩
      cases heq
      rw [hpayments] at he
      cases he
    obtain ⟨hof, hfit⟩ := paymentsOf_extracted hpayments
    rw [or_iff_right hattachable, ← hfit]
    exact holds_buildInvocation.trans (and_iff_right hof)

/-- **When the objects that scripts see are declared as they are built**: the object of a
transaction is of the union that the compiler uses exactly when it is no transfer to many, an
exchange has its proofs enabled or is for the third version, and a call is for the third version
or a later one and names its function; the object of an order exactly when proofs are enabled or
it is for the third version; the object of an invocation always. In each case the bytes and
texts that are converted must fit into constants. -/
theorem bindings_declared_iff :
    (∀ (tx : Transaction) (proofsEnabled : Bool) (version : StdLibVersion)
      (allowsMultiPayment : Bool) (target : AttachedPaymentTarget),
      TransactionDeclared tx proofsEnabled version allowsMultiPayment target ↔
        Unattachable tx version allowsMultiPayment target ∨
        (KindDeclared proofsEnabled version tx ∧ TransactionFits tx proofsEnabled)) ∧
    (∀ (o : Order) (proofsEnabled : Bool) (version : StdLibVersion),
      OrderDeclared o proofsEnabled version ↔
        (proofsEnabled = true ∨ version = .V3) ∧
          OrdFits (RealTransactionWrapper.ord o) proofsEnabled) ∧
    ∀ (ci : InvokeScriptTransaction) (version : StdLibVersion) (allowsMultiPayment : Bool),
      InvocationDeclared ci version allowsMultiPayment ↔
        Unattachable (.invokeScript ci) version allowsMultiPayment .DApp ∨
        (Fits ci.sender.toAddress.bytes ∧ Fits ci.sender ∧
          Fits (Transaction.id (.invokeScript ci)) ∧ AssetsFit ci.payments) :=
  ⟨transaction_declared_iff, fun _ _ _ => holds_orderObject, invocation_declared_iff⟩

end

/-! ## 5. A transfer to many -/

section
open Devnet

/-- Alice pays Bob alone, by a transfer to many. -/
def toBobAlone : MassTransferTransaction where
  version := 1
  sender := alice.publicKey
  assetId := .Waves
  transfers := [⟨.address bob.address, 5⟩]
  fee := 200000
  timestamp := 1000
  attachment := []
  proofs := ⟨[]⟩

def toBobAloneAnswers : KnownAnswers where
  digests := [(@TxSerializer.bodyBytes (KnownAnswers.crypto {}) pbTransactionSerializer
      (.massTransfer toBobAlone),
    bytes 32 0x2b0c17e1e2fc99588e860c4ef6efc8be9cb5a24af4d3c34894ca561505e5cb62)]

local instance toManyCrypto : Crypto := toBobAloneAnswers.crypto
local instance toManySerializer : PBTransactionSerializer := pbTransactionSerializer

/-- Its object is built, with the identifier of the transaction in it, but without the asset of
the fee; and so it is of no type of the union. -/
theorem massTransfer_undeclared :
    ¬ TransactionDeclared (.massTransfer toBobAlone) true .V3 false .InvokerScript ∧
    ∃ t fields, RealTransactionWrapper.apply (.massTransfer toBobAlone) false .V3 .InvokerScript =
        .right t ∧
      transactionObject t true .V3 = .ok (.CaseObj "MassTransferTransaction" fields) ∧
      (EVALUATED.field fields "id").isSome = true ∧
      EVALUATED.field fields "feeAssetId" = none := by
  refine ⟨fun h => ?_, _, _, rfl, rfl, rfl, rfl⟩
  exact (holds_anyTransactionType_iff _ true .V3).mp h |>.2

end

end Bindings

end Lang

end WavesNode
